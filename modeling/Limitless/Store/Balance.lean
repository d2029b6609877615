import Limitless.Store.Allowance

/-!
# The books the two budget tables keep

`Store.balance` reads every figure of the two tables as one family indexed by `Account`: a
tenant's two money columns and its lookup count, the sum of a money column over all tenants, and
the period's two money columns. `Moved s δ s'` says that going from `s` to `s'` added `δ` to that
family and left the budgets, the records and the jobs alone. Every committed transaction of
`Store.Allowance` is a `Moved`: `reserve_ok` holds, `settle_ok` closes, `chargeUndividedPool_ok`
charges the period alone. Invariants over runs are statements about `balance`, so they need no
more than these three lemmas.
-/

namespace Limitless

/-- The two money columns both budget tables have. -/
inductive Money
  | reserved
  | committed
  deriving DecidableEq, Repr

/-- A money column of a tenant's row. -/
def TenantAllowance.cents (row : TenantAllowance) : Money → Int
  | .reserved => row.reservedCents
  | .committed => row.committedCents

/-- A money column of a period's row. -/
def SpendPeriod.cents (row : SpendPeriod) : Money → Int
  | .reserved => row.reservedCents
  | .committed => row.committedCents

/-- The figures the two budget tables keep. -/
inductive Account
  | tenant (tenantId : TenantId) (m : Money)
  | lookups (tenantId : TenantId)
  | tenants (m : Money)
  | period (m : Money)

/-- The money column an account reads. -/
def Account.money? : Account → Option Money
  | tenant _ m | tenants m | period m => some m
  | lookups _ => none

namespace Store

/-- The figure of an account; an absent row holds nothing. -/
def balance (s : Store) : Account → Int
  | .tenant t m => (s.allowance? t).elim 0 (·.cents m)
  | .lookups t => (s.allowance? t).elim 0 TenantAllowance.lookupsPerformed
  | .tenants m => s.tenantAllowances.sum (·.cents m)
  | .period m => s.period?.elim 0 (·.cents m)

/-- `δ` was added to the balances, and nothing but the balances changed. -/
structure Moved (s : Store) (δ : Account → Int) (s' : Store) : Prop where
  balance : ∀ a, s'.balance a = s.balance a + δ a
  allowance : ∀ t, (s'.allowance? t).map TenantAllowance.allowanceCents =
    (s.allowance? t).map TenantAllowance.allowanceCents
  cap : s'.period?.map SpendPeriod.capCents = s.period?.map SpendPeriod.capCents
  allowanceTotal : s'.allowanceTotal = s.allowanceTotal
  records : s'.records = s.records
  jobs : s'.jobs = s.jobs

variable {s s' : Store} {δ : Account → Int}

/-- A tenant's row survives a movement, with its budget. -/
theorem Moved.allowance_some (h : s.Moved δ s') {t : TenantId} {row : TenantAllowance}
    (hrow : s.allowance? t = some row) :
    ∃ row', s'.allowance? t = some row' ∧ row'.allowanceCents = row.allowanceCents := by
  have := h.allowance t
  rwa [hrow, Option.map_some, Option.map_eq_some_iff] at this

/-- The period's row survives a movement, with its cap. -/
theorem Moved.period_some (h : s.Moved δ s') {per : SpendPeriod} (hper : s.period? = some per) :
    ∃ per', s'.period? = some per' ∧ per'.capCents = per.capCents := by
  have := h.cap
  rwa [hper, Option.map_some, Option.map_eq_some_iff] at this

theorem balance_tenant {t : TenantId} {row : TenantAllowance} (h : s.allowance? t = some row)
    (m : Money) : s.balance (.tenant t m) = row.cents m := by simp [balance, h]

theorem balance_period {per : SpendPeriod} (h : s.period? = some per) (m : Money) :
    s.balance (.period m) = per.cents m := by simp [balance, h]

/-- No money column of a tenant is negative. -/
theorem balance_tenant_nonneg (s : Store) (t : TenantId) (m : Money) :
    0 ≤ s.balance (.tenant t m) := by
  simp only [balance]
  cases s.allowance? t with
  | none => exact le_rfl
  | some row =>
      cases m
      exacts [row.reserved_nonneg, row.committed_nonneg]

/-- No money column of the period is negative. -/
theorem balance_period_nonneg (s : Store) (m : Money) : 0 ≤ s.balance (.period m) := by
  simp only [balance]
  cases s.period? with
  | none => exact le_rfl
  | some per =>
      cases m
      exacts [per.reserved_nonneg, per.committed_nonneg]

/-- Fresh rows hold nothing. -/
theorem FreshlySeeded.balance (h : s.FreshlySeeded) (a : Account) : s.balance a = 0 := by
  obtain ⟨per, hper, hres, hcom⟩ := h.period
  have hcents : ∀ row ∈ s.tenantAllowances.entries, ∀ m, row.cents m = 0 := by
    intro row hrow m
    cases m
    exacts [(h.allowances row hrow).1, (h.allowances row hrow).2.1]
  rcases a with ⟨t, m⟩ | t | m | m
  · simp only [Store.balance]
    cases hrow : s.allowance? t with
    | none => rfl
    | some row => exact hcents row (Keyed.find?_mem hrow) m
  · simp only [Store.balance]
    cases hrow : s.allowance? t with
    | none => rfl
    | some row => exact (h.allowances row (Keyed.find?_mem hrow)).2.2
  · exact Keyed.sum_eq_zero fun row hrow => hcents row hrow m
  · rw [balance_period hper]
    cases m
    exacts [hres, hcom]

/-- One tenant's reserved money is at most what all tenants have reserved. -/
theorem reserved_le_tenants {t : TenantId} {row : TenantAllowance} (h : s.allowance? t = some row) :
    row.reservedCents ≤ s.balance (.tenants .reserved) :=
  Keyed.le_sum_of_mem s.tenantAllowances (fun r _ => r.reserved_nonneg) (Keyed.find?_mem h)

end Store

/-! ## Postings

The amounts one transaction adds: the same two money columns on the tenant's side and on the
period's, and the lookups on the tenant's side only.
-/

/-- What one transaction adds to one tenant's figures, and to the period's. -/
structure Posting where
  tenantId : TenantId
  reserved : Int
  committed : Int
  lookups : Int

/-- The amount a posting adds to a money column. -/
def Posting.cents (p : Posting) : Money → Int
  | .reserved => p.reserved
  | .committed => p.committed

/-- The amount a posting adds to an account. -/
def Posting.amount (p : Posting) : Account → Int
  | .tenant t m => if t = p.tenantId then p.cents m else 0
  | .lookups t => if t = p.tenantId then p.lookups else 0
  | .tenants m => p.cents m
  | .period m => p.cents m

/-- Taking a reservation. -/
def Reservation.held (r : Reservation) : Posting := ⟨r.tenantId, r.cents, 0, 0⟩

/-- Closing a reservation with a charge. -/
def Reservation.closed (r : Reservation) (lookups charged : Int) : Posting :=
  ⟨r.tenantId, -r.cents, charged, lookups⟩

namespace Reservation

variable {r : Reservation}

theorem held_nonneg (h : 0 ≤ r.cents) (a : Account) : 0 ≤ r.held.amount a := by
  have hcents : ∀ m, 0 ≤ r.held.cents m := by
    intro m
    cases m
    exacts [h, le_rfl]
  rcases a with ⟨u, m⟩ | u | m | m
  · simp only [Posting.amount]
    split
    exacts [hcents m, le_rfl]
  · simp only [Posting.amount]
    split
    exacts [le_rfl, le_rfl]
  · exact hcents m
  · exact hcents m

/-- Closing gives back to a reserved column what holding added. -/
theorem closed_reserved {a : Account} (ha : a.money? = some .reserved) (lookups cents : Int) :
    (r.closed lookups cents).amount a = -r.held.amount a := by
  rcases a with ⟨u, m⟩ | u | m | m <;> cases ha
  · by_cases hu : u = r.tenantId <;> simp [Posting.amount, closed, held, Posting.cents, hu]
  · rfl
  · rfl

/-- A closed reservation leaves its charge committed. -/
theorem committed_of_closed (r : Reservation) (lookups cents : Int) (u : TenantId) :
    r.held.amount (.tenant u .committed) + (r.closed lookups cents).amount (.tenant u .committed) =
      if u = r.tenantId then cents else 0 := by
  have hheld : r.held.amount (.tenant u .committed) = 0 := ite_self 0
  rw [hheld, zero_add]
  rfl

/-- A closed reservation leaves its lookups performed. -/
theorem lookups_of_closed (r : Reservation) (lookups cents : Int) (u : TenantId) :
    r.held.amount (.lookups u) + (r.closed lookups cents).amount (.lookups u) =
      if u = r.tenantId then lookups else 0 := by
  have hheld : r.held.amount (.lookups u) = 0 := ite_self 0
  rw [hheld, zero_add]
  rfl

/-- A released reservation leaves nothing. -/
theorem released (r : Reservation) (a : Account) :
    r.held.amount a + (r.closed 0 0).amount a = 0 := by
  rcases a with ⟨u, m⟩ | u | m | m
  · cases m with
    | reserved =>
        rw [closed_reserved rfl]
        omega
    | committed => rw [committed_of_closed, ite_self]
  · rw [lookups_of_closed, ite_self]
  · cases m <;> simp [Posting.amount, Posting.cents, held, closed]
  · cases m <;> simp [Posting.amount, Posting.cents, held, closed]

end Reservation

/-- What a charge to the undivided pool adds: to the period's committed column alone. -/
def poolCharge (cents : Int) : Account → Int
  | .period .committed => cents
  | _ => 0

namespace Store

variable {s s' : Store} {row row' : TenantAllowance} {per per' : SpendPeriod} {p : Posting}

/-- Writing new versions of a tenant's row and of the period's that both add the posting moves
the books by it. -/
theorem moved_write (hrow : s.allowance? p.tenantId = some row) (hper : s.period? = some per)
    (hid : row'.tenantId = row.tenantId) (hall : row'.allowanceCents = row.allowanceCents)
    (hcents : ∀ m, row'.cents m = row.cents m + p.cents m)
    (hlook : row'.lookupsPerformed = row.lookupsPerformed + p.lookups)
    (hpid : per'.periodId = per.periodId) (hcap : per'.capCents = per.capCents)
    (hpcents : ∀ m, per'.cents m = per.cents m + p.cents m) :
    Moved s p.amount (s.write row' per') := by
  have hkey : row.tenantId = p.tenantId := Keyed.find?_key hrow
  have hpkey : per.periodId = Fixtures.spendPeriodId := Keyed.find?_key hper
  have hfind : ∀ t, (s.write row' per').allowance? t =
      if p.tenantId = t then some row' else s.allowance? t := by
    intro t
    rw [← hkey, ← hid]
    exact Keyed.find?_put s.tenantAllowances row' t
  have hpfind : (s.write row' per').period? = some per' := by
    have h := Keyed.find?_put_self s.spendPeriods per'
    rwa [hpid, hpkey] at h
  have hold : s.tenantAllowances.find? row'.tenantId = some row := by
    rw [hid, hkey]; exact hrow
  refine ⟨?_, ?_, ?_, ?_, rfl, rfl⟩
  · rintro (⟨t, m⟩ | t | m | m)
    · simp only [balance, Posting.amount, hfind]
      by_cases ht : p.tenantId = t
      · subst ht; simp [hrow, hcents]
      · simp [ht, Ne.symm ht]
    · simp only [balance, Posting.amount, hfind]
      by_cases ht : p.tenantId = t
      · subst ht; simp [hrow, hlook]
      · simp [ht, Ne.symm ht]
    · have h := Keyed.sum_put s.tenantAllowances (·.cents m) row'
      rw [hold] at h
      simp only [Option.elim_some, hcents] at h
      simp only [balance, Posting.amount, write]
      linarith
    · simp only [balance, Posting.amount, hpfind, hper, Option.elim_some, hpcents]
  · intro t
    rw [hfind]
    by_cases ht : p.tenantId = t
    · subst ht; simp [hrow, hall]
    · simp [ht]
  · rw [hpfind, hper]; simp [hcap]
  · have h := Keyed.sum_put s.tenantAllowances TenantAllowance.allowanceCents row'
    rw [hold] at h
    simp only [Option.elim_some, hall] at h
    simp only [allowanceTotal, write]
    linarith

/-- Writing a new version of the period's row that only adds to its committed column is a charge
to the undivided pool. -/
theorem moved_writePeriod {cents : Int} (hper : s.period? = some per)
    (hpid : per'.periodId = per.periodId) (hcap : per'.capCents = per.capCents)
    (hres : per'.reservedCents = per.reservedCents)
    (hcom : per'.committedCents = per.committedCents + cents) :
    Moved s (poolCharge cents) { s with spendPeriods := s.spendPeriods.put per' } := by
  have hpkey : per.periodId = Fixtures.spendPeriodId := Keyed.find?_key hper
  have hpfind : (s.spendPeriods.put per').find? Fixtures.spendPeriodId = some per' := by
    have h := Keyed.find?_put_self s.spendPeriods per'
    rwa [hpid, hpkey] at h
  have hper' : s.spendPeriods.find? Fixtures.spendPeriodId = some per := hper
  refine ⟨?_, fun _ => rfl, ?_, rfl, rfl, rfl⟩
  · rintro (⟨t, m⟩ | t | m | m)
    · exact (add_zero _).symm
    · exact (add_zero _).symm
    · exact (add_zero _).symm
    · cases m <;>
        simp [balance, period?, hpfind, hper', poolCharge, SpendPeriod.cents, hres, hcom]
  · simp only [period?, hpfind, hper', Option.map_some, hcap]

/-! ## What a committed transaction did -/

/-- A committed `reserve` had room in both rows, and held the money in both. -/
theorem reserve_ok {t : TenantId} {l price : Int} {r : Reservation}
    (h : s.reserve t l price = .ok (s', r)) :
    0 ≤ l ∧ r = ⟨t, l * price, l⟩ ∧ Moved s r.held.amount s' ∧
      (∃ row, s.allowance? t = some row ∧
        row.committedCents + row.reservedCents + l * price ≤ row.allowanceCents) ∧
      ∃ per, s.period? = some per ∧
        per.committedCents + per.reservedCents + l * price ≤ per.capCents := by
  rw [reserve_eq] at h
  split_ifs at h with hl
  split at h
  · cases h
  · cases h
  · rename_i row' hrow'
    split at h
    · cases h
    · cases h
    · rename_i per' hper'
      cases h
      obtain ⟨row, hrow, hguard, hset, hid⟩ := Update.touch_eq_some hrow'
      obtain ⟨per, hper, hpguard, hpset, hpid⟩ := Update.touch_eq_some hper'
      obtain ⟨_, hall, hres, hcom, hlook⟩ := TenantAllowance.withFigures_ok hset
      obtain ⟨_, hcap, hpres, hpcom⟩ := SpendPeriod.withFigures_ok hpset
      refine ⟨not_lt.mp hl, rfl, ?_, ⟨row, hrow, by simpa [sqlReserveTenantAllowance] using hguard⟩,
        ⟨per, hper, by simpa [sqlReserveSpendPeriod] using hpguard⟩⟩
      refine moved_write hrow hper hid hall ?_ ?_ hpid hcap ?_
      · rintro (_ | _) <;>
          simp [TenantAllowance.cents, Posting.cents, Reservation.held, hres, hcom]
      · simpa [Reservation.held] using hlook
      · rintro (_ | _) <;> simp [SpendPeriod.cents, Posting.cents, Reservation.held, hpres, hpcom]

/-- A committed `settle` of a reservation whose tenant and period have rows closed it in both. -/
theorem settle_ok {r : Reservation} {l charged : Int} (h : s.settle r l charged = .ok s')
    (hrow : s.allowance? r.tenantId = some row) (hper : s.period? = some per) :
    Moved s (r.closed l charged).amount s' := by
  rw [settle_eq, hrow, hper] at h
  split at h
  · cases h
  · rename_i o ho
    split at h
    · cases h
    · rename_i q hq
      cases h
      simp only [Update.touch_some, sqlSettleTenantAllowance, if_true] at ho
      simp only [Update.touch_some, sqlSettleSpendPeriod, if_true] at hq
      cases hset : row.withFigures (row.reservedCents - r.cents) (row.committedCents + charged)
          (row.lookupsPerformed + l) with
      | error c => rw [hset] at ho; cases ho
      | ok row' =>
          cases hpset : per.withFigures (per.reservedCents - r.cents)
              (per.committedCents + charged) with
          | error c => rw [hpset] at hq; cases hq
          | ok per' =>
              rw [hset] at ho
              rw [hpset] at hq
              cases ho
              cases hq
              obtain ⟨hid, hall, hres, hcom, hlook⟩ := TenantAllowance.withFigures_ok hset
              obtain ⟨hpid, hcap, hpres, hpcom⟩ := SpendPeriod.withFigures_ok hpset
              refine moved_write (p := r.closed l charged) hrow hper hid hall ?_ hlook hpid hcap ?_
              · rintro (_ | _) <;>
                  simp [TenantAllowance.cents, Posting.cents, Reservation.closed, hres, hcom,
                    sub_eq_add_neg]
              · rintro (_ | _) <;>
                  simp [SpendPeriod.cents, Posting.cents, Reservation.closed, hpres, hpcom,
                    sub_eq_add_neg]

/-- A committed `charge_undivided_pool` either charged the period or changed nothing. -/
theorem chargeUndividedPool_ok {l price : Int} {charged : Bool}
    (h : s.chargeUndividedPool l price = .ok (s', charged)) :
    (charged = true ∧ Moved s (poolCharge (l * price)) s') ∨ (charged = false ∧ s' = s) := by
  rw [chargeUndividedPool_eq] at h
  split at h
  · cases h
  · cases h; exact .inr ⟨rfl, rfl⟩
  · rename_i per' hper'
    cases h
    obtain ⟨per, hper, _, hset, hpid⟩ := Update.touch_eq_some hper'
    obtain ⟨_, hcap, hres, hcom⟩ := SpendPeriod.withFigures_ok hset
    exact .inl ⟨rfl, moved_writePeriod hper hpid hcap hres hcom⟩

/-! ## When a `CHECK` refuses a statement -/

/-- A `reserve` of non-negative work never violates a constraint: its `WHERE` already says what
they do. -/
theorem reserve_ne_checkViolation {t : TenantId} {l price : Int} (hl : 0 ≤ l) (hp : 0 ≤ price)
    (c : CheckConstraint) : s.reserve t l price ≠ .error (.checkViolation c) := by
  have hcents : 0 ≤ l * price := mul_nonneg hl hp
  have hrow : ∀ o d, (sqlReserveTenantAllowance (l * price)).touch o ≠ .error d := by
    intro o d hd
    rcases Update.touch_cases (sqlReserveTenantAllowance (l * price)) o with
      ⟨h, _⟩ | ⟨_, _, _, _, _, h⟩ | ⟨row, e, _, hg, hset, _⟩
    · rw [h] at hd; cases hd
    · rw [h] at hd; cases hd
    · have hr := row.reserved_nonneg
      simp only [sqlReserveTenantAllowance, decide_eq_true_eq] at hg hset
      obtain ⟨row', hok⟩ := row.withFigures_isOk row.lookupsPerformed
        (r := row.reservedCents + l * price) (by omega) row.committed_nonneg (by omega)
      rw [hok] at hset; cases hset
  have hper : ∀ o d, (sqlReserveSpendPeriod (l * price)).touch o ≠ .error d := by
    intro o d hd
    rcases Update.touch_cases (sqlReserveSpendPeriod (l * price)) o with
      ⟨h, _⟩ | ⟨_, _, _, _, _, h⟩ | ⟨per, e, _, hg, hset, _⟩
    · rw [h] at hd; cases hd
    · rw [h] at hd; cases hd
    · have hr := per.reserved_nonneg
      simp only [sqlReserveSpendPeriod, decide_eq_true_eq] at hg hset
      obtain ⟨per', hok⟩ := per.withFigures_isOk
        (r := per.reservedCents + l * price) (by omega) per.committed_nonneg (by omega)
      rw [hok] at hset; cases hset
  intro h
  rw [reserve_eq, if_neg (by omega)] at h
  split at h
  · exact hrow _ _ ‹_›
  · cases h
  · split at h
    · exact hper _ _ ‹_›
    · cases h
    · cases h

/-- A refused `reserve` of non-negative work against rows that exist found no room in one of them. -/
theorem reserve_error {t : TenantId} {l price : Int} {e : StoreError}
    (hrow : s.allowance? t = some row) (hper : s.period? = some per) (hl : 0 ≤ l) (hp : 0 ≤ price)
    (h : s.reserve t l price = .error e) :
    e = .allowanceExhausted ∧
      (row.allowanceCents < row.committedCents + row.reservedCents + l * price ∨
        per.capCents < per.committedCents + per.reservedCents + l * price) := by
  have hcheck := reserve_ne_checkViolation (s := s) (t := t) hl hp
  rw [reserve_eq, if_neg (by omega), hrow, hper] at h hcheck
  rcases Update.touch_cases (sqlReserveTenantAllowance (l * price)) (some row) with
    ⟨ht, hg⟩ | ⟨_, row', _, _, _, ht⟩ | ⟨_, c, _, _, _, ht⟩
  · rw [ht] at h
    cases h
    have hfull := hg row rfl
    simp only [sqlReserveTenantAllowance, decide_eq_false_iff_not] at hfull
    exact ⟨rfl, .inl (not_le.mp hfull)⟩
  · rw [ht] at h hcheck
    rcases Update.touch_cases (sqlReserveSpendPeriod (l * price)) (some per) with
      ⟨htp, hg⟩ | ⟨_, _, _, _, _, htp⟩ | ⟨_, c, _, _, _, htp⟩
    · simp only [htp] at h
      cases h
      have hfull := hg per rfl
      simp only [sqlReserveSpendPeriod, decide_eq_false_iff_not] at hfull
      exact ⟨rfl, .inr (not_le.mp hfull)⟩
    · simp only [htp] at h
      cases h
    · simp only [htp] at hcheck
      exact absurd rfl (hcheck c)
  · rw [ht] at hcheck
    exact absurd rfl (hcheck c)

/-- A charge to the pool of non-negative work never violates a constraint. -/
theorem chargeUndividedPool_ne_checkViolation {l price : Int} (hl : 0 ≤ l) (hp : 0 ≤ price)
    (c : CheckConstraint) : s.chargeUndividedPool l price ≠ .error (.checkViolation c) := by
  have hcents : 0 ≤ l * price := mul_nonneg hl hp
  intro h
  rw [chargeUndividedPool_eq] at h
  rcases Update.touch_cases (sqlChargeUndividedPool (l * price)) s.period? with
    ⟨ht, _⟩ | ⟨_, _, _, _, _, ht⟩ | ⟨per, e, _, hg, hset, _⟩
  · rw [ht] at h; cases h
  · rw [ht] at h; cases h
  · have hc := per.committed_nonneg
    simp only [sqlChargeUndividedPool, decide_eq_true_eq] at hg hset
    obtain ⟨per', hok⟩ := per.withFigures_isOk
      (c := per.committedCents + l * price) per.reserved_nonneg (by omega) (by omega)
    rw [hok] at hset; cases hset

/-- A `settle` with a charge between nothing and what is held commits, when both rows hold that
much. -/
theorem settle_isOk {r : Reservation} (l : Int) {charged : Int}
    (hrow : s.allowance? r.tenantId = some row) (hper : s.period? = some per)
    (hres : r.cents ≤ row.reservedCents) (hpres : r.cents ≤ per.reservedCents)
    (hnonneg : 0 ≤ charged) (hle : charged ≤ r.cents) : ∃ s', s.settle r l charged = .ok s' := by
  have hc := row.committed_nonneg
  have hpc := per.committed_nonneg
  have hw := row.within_allowance
  have hpw := per.within_cap
  obtain ⟨row', hset⟩ := row.withFigures_isOk (row.lookupsPerformed + l)
    (r := row.reservedCents - r.cents) (c := row.committedCents + charged)
    (by omega) (by omega) (by omega)
  obtain ⟨per', hpset⟩ := per.withFigures_isOk
    (r := per.reservedCents - r.cents) (c := per.committedCents + charged)
    (by omega) (by omega) (by omega)
  rw [settle_eq, hrow, hper]
  simp only [Update.touch_some, sqlSettleTenantAllowance, sqlSettleSpendPeriod, if_true, hset,
    hpset, Except.map]
  exact ⟨_, rfl⟩

end Store

end Limitless
