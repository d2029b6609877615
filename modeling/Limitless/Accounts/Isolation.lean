import Limitless.Accounts.Basic
import Limitless.Store.Seed
import Mathlib.Data.List.Destutter

/-!
# Isolation of the tenants' money

`reserve` and `settle` write a row every tenant shares, so whose outcome depends on what is not
visible in the code. `Private` is the budget a tenant would have if nobody else existed: the same
statements on its own row, and no period. `Partitioned.perform_private` is the simulation: as long
as the period's row is the sum of the tenants' and the partitions fit inside the cap, the period
refuses nothing the tenant's own row admits, so one secure transaction answers its tenant exactly
as the private budget does, and leaves every other tenant's row alone. Two runs that agree on a
tenant's own transactions are then equal to the same private run.
-/

namespace Limitless

open Runs

/-- The tenant a secure transaction is for; the undivided pool names none. -/
def Operation.tenantId? : Operation → Option TenantId
  | .reserve t _ _ => some t
  | .settle r _ _ => some r.tenantId
  | .release r => some r.tenantId
  | .chargeUndividedPool _ _ => none

/-! ## A budget of one's own -/

namespace Private

/-- One transaction against one's own row alone. -/
def perform (row : Option TenantAllowance) : Operation → Option TenantAllowance × Outcome
  | .reserve t lookups price =>
    if lookups < 0 then (row, .failed (.valueError s!"cannot reserve {lookups} lookups")) else
    match (sqlReserveTenantAllowance (lookups * price)).touch row with
    | .error c => (row, .failed (.checkViolation c))
    | .ok none => (row, .failed .allowanceExhausted)
    | .ok (some row') => (some row', .admitted ⟨t, lookups * price, lookups⟩)
  | .settle r lookups charged => close row r lookups charged
  | .release r => close row r 0 0
  | .chargeUndividedPool _ _ => (row, .charged false)
where
  /-- Closing a reservation on one's own row. -/
  close (row : Option TenantAllowance) (r : Reservation) (lookups charged : Int) :
      Option TenantAllowance × Outcome :=
    match (sqlSettleTenantAllowance r.cents charged lookups).touch row with
    | .error c => (row, .failed (.checkViolation c))
    | .ok none => (row, .closed)
    | .ok (some row') => (some row', .closed)

/-- What a sequence of one's own transactions answers. -/
def answers : Option TenantAllowance → List Operation → List Outcome
  | _, [] => []
  | row, op :: ops => (perform row op).2 :: answers (perform row op).1 ops

/-- The row after each of them. -/
def rowsAfter : Option TenantAllowance → List Operation → List (Option TenantAllowance)
  | _, [] => []
  | row, op :: ops => (perform row op).1 :: rowsAfter (perform row op).1 ops

end Private

namespace Accounts

/-- The answers a tenant's own transactions get in a run of everybody's. -/
def answers (t : TenantId) : Accounts → List Operation → List Outcome
  | _, [] => []
  | a, op :: ops =>
    if op.tenantId? = some t then (a.perform op).2 :: answers t (a.perform op).1 ops
    else answers t (a.perform op).1 ops

/-- The tenant's row after every transaction of the run. -/
def rowsAfter (t : TenantId) : Accounts → List Operation → List (Option TenantAllowance)
  | _, [] => []
  | a, op :: ops => (a.perform op).1.store.allowance? t :: rowsAfter t (a.perform op).1 ops

/-- The sequence of values the tenant's row goes through, from the run's start. -/
def rowValues (t : TenantId) (a : Accounts) (ops : List Operation) :
    List (Option TenantAllowance) :=
  (rowsAfter t a ops).destutter' (· ≠ ·) (a.store.allowance? t)

/-- One permitted secure transaction. -/
def SecureStep : Accounts → Operation → Accounts → Prop :=
  restrict (fun _ op => op.tenantId?.isSome = true) Step

/-- Balanced books whose partitions of the budget fit inside the period's cap, with nothing
charged to the undivided pool. -/
structure Partitioned (a : Accounts) : Prop where
  balanced : Balanced a
  pooled : a.pooled = 0
  fits : ∀ per, a.store.period? = some per → a.store.allowanceTotal ≤ per.capCents

/-- A new version of one tenant's row that passes its own constraints leaves room for the same
change of the period's row: the period is the sum of the tenants, and each keeps inside its
partition. -/
theorem Partitioned.period_room {a : Accounts} (ha : Partitioned a) {per : SpendPeriod}
    (hper : a.store.period? = some per) {t : TenantId} {row row' : TenantAllowance}
    (hrow : a.store.allowance? t = some row) (hid : row'.tenantId = row.tenantId)
    (hall : row'.allowanceCents = row.allowanceCents) {dr dc : Int}
    (hr : row'.reservedCents = row.reservedCents + dr)
    (hc : row'.committedCents = row.committedCents + dc) :
    0 ≤ per.reservedCents + dr ∧ 0 ≤ per.committedCents + dc ∧
      per.committedCents + dc + (per.reservedCents + dr) ≤ per.capCents := by
  have hold : a.store.tenantAllowances.find? row'.tenantId = some row := by
    rw [hid, Keyed.find?_key hrow]; exact hrow
  -- the tenants' totals once the new version is in place
  have hput : ∀ f : TenantAllowance → Int,
      (a.store.tenantAllowances.put row').sum f =
        a.store.tenantAllowances.sum f + (f row' - f row) := by
    intro f
    have h := Keyed.sum_put a.store.tenantAllowances f row'
    rw [hold, Option.elim_some] at h
    omega
  have hR := hput TenantAllowance.reservedCents
  have hC := hput TenantAllowance.committedCents
  have hA := hput TenantAllowance.allowanceCents
  have hpr : per.reservedCents = a.store.tenantAllowances.sum TenantAllowance.reservedCents := by
    have h := ha.balanced.periodReserved
    rwa [Store.balance_period hper] at h
  have hpc : per.committedCents = a.store.tenantAllowances.sum TenantAllowance.committedCents := by
    have h := ha.balanced.periodCommitted
    rwa [Store.balance_period hper, ha.pooled, add_zero] at h
  have hRpos : 0 ≤ (a.store.tenantAllowances.put row').sum TenantAllowance.reservedCents :=
    Keyed.sum_nonneg _ fun r _ => r.reserved_nonneg
  have hCpos : 0 ≤ (a.store.tenantAllowances.put row').sum TenantAllowance.committedCents :=
    Keyed.sum_nonneg _ fun r _ => r.committed_nonneg
  have hwithin : (a.store.tenantAllowances.put row').sum
      (fun r => r.committedCents + r.reservedCents) ≤
      (a.store.tenantAllowances.put row').sum TenantAllowance.allowanceCents :=
    Keyed.sum_le_sum _ fun r _ => r.within_allowance
  rw [Keyed.sum_add] at hwithin
  have hfits := ha.fits per hper
  unfold Store.allowanceTotal at hfits
  omega

/-! ## One transaction -/

/-- A `reserve` whose tenant's row admits it is admitted by the period too. -/
theorem Partitioned.reserve_eq_private {a : Accounts} (ha : Partitioned a) (t : TenantId)
    (l price : Int) :
    (a.perform (.reserve t l price)).2 =
        (Private.perform (a.store.allowance? t) (.reserve t l price)).2 ∧
      (a.perform (.reserve t l price)).1.store.allowance? t =
        (Private.perform (a.store.allowance? t) (.reserve t l price)).1 := by
  have heq := Store.reserve_eq a.store t l price
  simp only [perform, Private.perform]
  by_cases hl : l < 0
  · rw [if_pos hl] at heq
    simp [heq, hl]
  · rw [if_neg hl] at heq
    rw [if_neg hl]
    rcases hrow : (sqlReserveTenantAllowance (l * price)).touch (a.store.allowance? t) with
      c | (_ | row')
    · simp [heq, hrow]
    · simp [heq, hrow]
    · obtain ⟨per, hper⟩ := ha.balanced.period
      obtain ⟨row, hfind, _, hset, hid⟩ := Update.touch_eq_some hrow
      obtain ⟨_, hall, hres, hcom, _⟩ := TenantAllowance.withFigures_ok hset
      have hcom' : row'.committedCents = row.committedCents + 0 := by rw [hcom, add_zero]
      obtain ⟨h1, h2, h3⟩ := ha.period_room hper hfind hid hall hres hcom'
      obtain ⟨per', hpset⟩ := per.withFigures_isOk h1 per.committed_nonneg (by omega)
      have hguard : (sqlReserveSpendPeriod (l * price)).guard per = true := by
        simp only [sqlReserveSpendPeriod, decide_eq_true_eq]; omega
      have htouch : (sqlReserveSpendPeriod (l * price)).touch a.store.period? = .ok (some per') := by
        rw [hper, Update.touch_some, if_pos hguard]
        exact congrArg (Except.map some) hpset
      rw [hrow] at heq
      simp only [htouch] at heq
      rw [heq]
      refine ⟨rfl, ?_⟩
      have hself := Keyed.find?_put_self a.store.tenantAllowances row'
      rwa [hid, Keyed.find?_key hfind] at hself

/-- A `settle` its tenant's row accepts is accepted by the period too. -/
theorem Partitioned.close_eq_private {a : Accounts} (ha : Partitioned a) {r : Reservation}
    (hr : r ∈ a.outstanding) (l charged : Int) :
    (∀ s', a.store.settle r l charged = .ok s' →
      Private.perform.close (a.store.allowance? r.tenantId) r l charged =
        (s'.allowance? r.tenantId, .closed)) ∧
      ∀ e, a.store.settle r l charged = .error e →
        Private.perform.close (a.store.allowance? r.tenantId) r l charged =
          (a.store.allowance? r.tenantId, .failed e) := by
  obtain ⟨_, row, hrow⟩ := ha.balanced.outstanding r hr
  obtain ⟨per, hper⟩ := ha.balanced.period
  have heq := Store.settle_eq a.store r l charged
  simp only [Private.perform.close]
  rcases htouch : (sqlSettleTenantAllowance r.cents charged l).touch (a.store.allowance? r.tenantId)
    with c | (_ | row')
  · rw [htouch] at heq
    refine ⟨fun s' h => ?_, fun e h => ?_⟩
    · rw [heq] at h; cases h
    · rw [heq] at h; cases h; rfl
  · -- the row exists and the statement has no further condition
    rw [hrow, sqlSettleTenantAllowance_touch] at htouch
    cases hset : (sqlSettleTenantAllowance r.cents charged l).set row <;> rw [hset] at htouch <;>
      cases htouch
  · obtain ⟨row₀, hfind, _, hset, hid⟩ := Update.touch_eq_some htouch
    obtain ⟨_, hall, hres, hcom, _⟩ := TenantAllowance.withFigures_ok hset
    have hres' : row'.reservedCents = row₀.reservedCents + -r.cents := by omega
    obtain ⟨h1, h2, h3⟩ := ha.period_room hper hfind hid hall hres' hcom
    obtain ⟨per', hpset⟩ := per.withFigures_isOk h1 h2 h3
    have hpt : (sqlSettleSpendPeriod r.cents charged).touch a.store.period? = .ok (some per') := by
      rw [hper, sqlSettleSpendPeriod_touch]
      exact congrArg (Except.map some) hpset
    rw [htouch] at heq
    simp only [hpt] at heq
    refine ⟨fun s' h => ?_, fun e h => ?_⟩
    · rw [heq] at h
      cases h
      have hself := Keyed.find?_put_self a.store.tenantAllowances row'
      rw [hid, Keyed.find?_key hfind] at hself
      exact congrArg (·, Outcome.closed) hself.symm
    · rw [heq] at h; cases h

/-- **The simulation.** A permitted secure transaction answers its tenant as the tenant's private
budget would, and leaves the tenant's row as the private budget would. -/
theorem Partitioned.perform_private {a : Accounts} (ha : Partitioned a) {op : Operation}
    {t : TenantId} (hop : op.tenantId? = some t) (hperm : a.Permits op) :
    (a.perform op).2 = (Private.perform (a.store.allowance? t) op).2 ∧
      (a.perform op).1.store.allowance? t = (Private.perform (a.store.allowance? t) op).1 := by
  cases op with
  | reserve u l price => cases hop; exact ha.reserve_eq_private _ l price
  | settle r l charged =>
      cases hop
      obtain ⟨hok, herr⟩ := ha.close_eq_private hperm.1 l charged
      simp only [perform, Private.perform]
      split
      · next s' h => rw [hok s' h]; exact ⟨rfl, rfl⟩
      · next e h => rw [herr e h]; exact ⟨rfl, rfl⟩
  | release r =>
      cases hop
      obtain ⟨hok, herr⟩ := ha.close_eq_private hperm 0 0
      simp only [perform, Private.perform]
      split
      · next s' h => rw [hok s' h]; exact ⟨rfl, rfl⟩
      · next e h => rw [herr e h]; exact ⟨rfl, rfl⟩
  | chargeUndividedPool l price => cases hop

/-- A secure transaction leaves every other tenant's row as it is. -/
theorem perform_other (a : Accounts) {op : Operation} {t u : TenantId}
    (hop : op.tenantId? = some u) (hne : u ≠ t) :
    (a.perform op).1.store.allowance? t = a.store.allowance? t := by
  cases op with
  | reserve v l price =>
      cases hop
      simp only [perform]
      split
      · next h => exact Store.reserve_allowance_of_ne h hne
      · rfl
  | settle r l charged =>
      cases hop
      simp only [perform]
      split
      · next h => exact Store.settle_allowance_of_ne h hne
      · rfl
  | release r =>
      cases hop
      simp only [perform]
      split
      · next h => exact Store.settle_allowance_of_ne h hne
      · rfl
  | chargeUndividedPool l price => cases hop

/-- Secure transactions keep the partition. -/
theorem Partitioned.step {a b : Accounts} {op : Operation} (ha : Partitioned a)
    (h : SecureStep a op b) : Partitioned b := by
  obtain ⟨hsec, hstep⟩ := h
  refine ⟨ha.balanced.step hstep, ?_, fun per hper => ?_⟩
  · obtain ⟨_, rfl⟩ := hstep
    cases op with
    | chargeUndividedPool l price => cases hsec
    | reserve t l price => simp only [perform]; split <;> exact ha.pooled
    | settle r l charged => simp only [perform]; split <;> exact ha.pooled
    | release r => simp only [perform]; split <;> exact ha.pooled
  · have htotal : b.store.allowanceTotal = a.store.allowanceTotal := by
      rcases hstep.cases ha.balanced with rfl | ⟨_, _, _, hm, _⟩ | ⟨_, _, _, _, hm, _⟩ | ⟨_, hm, _⟩
      exacts [rfl, hm.allowanceTotal, hm.allowanceTotal, hm.allowanceTotal]
    have hcap := (ha.balanced.budgets hstep).2
    rw [hper, Option.map_some] at hcap
    obtain ⟨per₀, hper₀, hcap₀⟩ := Option.map_eq_some_iff.mp hcap.symm
    rw [htotal, ← hcap₀]
    exact ha.fits per₀ hper₀

/-! ## Every run -/

/-- Freshly seeded rows whose partitions fit inside the cap are partitioned. -/
theorem start_partitioned {s : Store} {per : SpendPeriod} (hs : s.FreshlySeeded)
    (hper : s.period? = some per) (hfits : s.allowanceTotal ≤ per.capCents) :
    Partitioned (start s) := by
  refine ⟨start_balanced hs, rfl, fun q hq => ?_⟩
  rw [show (start s).store = s from rfl, hper] at hq
  cases hq
  exact hfits

/-- **A tenant's view of a shared run is a private one.** The answers to its own transactions, and
the values its row goes through, are those of its private budget on its own transactions. -/
theorem Partitioned.run_private {a b : Accounts} {ops : List Operation} (t : TenantId)
    (hrun : Run SecureStep a ops b) (ha : Partitioned a) :
    answers t a ops =
        Private.answers (a.store.allowance? t) (ops.filter (·.tenantId? = some t)) ∧
      rowValues t a ops =
        (Private.rowsAfter (a.store.allowance? t)
          (ops.filter (·.tenantId? = some t))).destutter' (· ≠ ·) (a.store.allowance? t) := by
  induction hrun with
  | nil => exact ⟨rfl, rfl⟩
  | @cons a m b op ops hstep hrest ih =>
      obtain ⟨ihans, ihrows⟩ := ih (ha.step hstep)
      obtain ⟨hsec, hperm, rfl⟩ := hstep
      unfold rowValues at ihrows ⊢
      by_cases hop : op.tenantId? = some t
      · -- the tenant's own transaction: the simulation answers it
        obtain ⟨hans, hrow⟩ := ha.perform_private hop hperm
        rw [List.filter_cons_of_pos (by simpa using hop)]
        simp only [answers, if_pos hop, Private.answers, rowsAfter, Private.rowsAfter]
        rw [hrow] at ihans ihrows ⊢
        refine ⟨by rw [ihans, hans], ?_⟩
        simp only [List.destutter'_cons, ihrows]
        split
        · rfl
        · next heq =>
            rw [← not_not.mp heq] at ihrows ⊢
            exact ihrows
      · -- another tenant's: the row stands still
        obtain ⟨u, hu⟩ := Option.isSome_iff_exists.mp hsec
        have hne : u ≠ t := fun h => hop (h ▸ hu)
        have hrow := perform_other a hu hne
        rw [List.filter_cons_of_neg (by simpa using hop)]
        simp only [answers, if_neg hop, rowsAfter]
        rw [hrow] at ihans ihrows ⊢
        exact ⟨ihans, by rw [List.destutter'_cons_neg _ (by simp)]; exact ihrows⟩

/-- **Tenants are isolated.** With partitions that fit inside the cap, two runs of secure
transactions from the same fresh rows that agree on a tenant's own transactions agree on every
answer to them and on the values its row goes through, whatever the other tenants do in either; and
whether a reservation of its is admitted is decided by its own row. -/
theorem tenants_isolated {s : Store} {per : SpendPeriod} (hs : s.FreshlySeeded)
    (hper : s.period? = some per) (hfits : s.allowanceTotal ≤ per.capCents) (t : TenantId)
    {ops₁ ops₂ : List Operation} {a₁ a₂ : Accounts}
    (h₁ : Run SecureStep (start s) ops₁ a₁) (h₂ : Run SecureStep (start s) ops₂ a₂)
    (hsame : ops₁.filter (·.tenantId? = some t) = ops₂.filter (·.tenantId? = some t)) :
    answers t (start s) ops₁ = answers t (start s) ops₂ ∧
      rowValues t (start s) ops₁ = rowValues t (start s) ops₂ ∧
      ∀ l price, (a₁.perform (.reserve t l price)).2 =
        (Private.perform (a₁.store.allowance? t) (.reserve t l price)).2 := by
  have hstart := start_partitioned hs hper hfits
  obtain ⟨hans₁, hrow₁⟩ := hstart.run_private t h₁
  obtain ⟨hans₂, hrow₂⟩ := hstart.run_private t h₂
  have hend : Partitioned a₁ := h₁.invariant (fun _ _ _ ha hstep => ha.step hstep) hstart
  exact ⟨by rw [hans₁, hans₂, hsame], by rw [hrow₁, hrow₂, hsame],
    fun l price => (hend.reserve_eq_private t l price).1⟩

/-- Two runs of the fixtures' tenants, with and without a bystander between the attacker's two
reservations: the attacker's answers are the same. -/
theorem attacker_isolated_from_bystander :
    answers "TEN-ORCHID" (start .resetFixtures)
        [.reserve "TEN-ORCHID" 10 4, .reserve "TEN-BASIL" 10000 4, .reserve "TEN-ORCHID" 9995 4] =
      answers "TEN-ORCHID" (start .resetFixtures)
        [.reserve "TEN-ORCHID" 10 4, .reserve "TEN-ORCHID" 9995 4] := by
  have hstep : ∀ (a : Accounts) (t : TenantId) (l : Int), 0 ≤ l →
      SecureStep a (.reserve t l 4) (a.perform (.reserve t l 4)).1 :=
    fun a t l hl => ⟨rfl, ⟨hl, by decide⟩, rfl⟩
  exact (tenants_isolated (Store.seeded_freshlySeeded _ _ _ _) rfl Store.resetFixtures_partition
    "TEN-ORCHID"
    (.cons (hstep _ _ _ (by decide)) (.cons (hstep _ _ _ (by decide))
      (.cons (hstep _ _ _ (by decide)) .nil)))
    (.cons (hstep _ _ _ (by decide)) (.cons (hstep _ _ _ (by decide)) .nil)) (by decide)).1

end Accounts

end Limitless
