import Limitless.Lib.Lockstep
import Limitless.Secure.Connections

/-!
# What the answers disclose of a budget

`config.py` makes `Retry-After` a constant, so that a caller cannot read the shape of the allowance
out of a refusal. Here the same is said of everything else a caller can see: two deployments that
differ only in their tenants' allowances and in the cap (`Store.SameButBudgets`) go through the same
events with the same answers, the same pages, jobs and usage, the same slots, the same bill, as long
as the same reservations are granted (`refusals_disclose_nothing_else`). What a run discloses of the
budgets is which reservations were granted, and nothing else.
-/

namespace Limitless

open Indexed Runs Pools

/-! ## Stores that differ in their budgets -/

/-- The same error, or related results. -/
inductive SameOutcome {ε α : Type} (R : α → α → Prop) : Except ε α → Except ε α → Prop
  | failed (e : ε) : SameOutcome R (.error e) (.error e)
  | done {a b : α} : R a b → SameOutcome R (.ok a) (.ok b)

/-- A new version of an entry that is there. -/
theorem SameOutcome.some {ε α : Type} {R : α → α → Prop} {x y : Except ε α}
    (h : SameOutcome R x y) : SameOutcome (Option.Rel R) (x.map .some) (y.map .some) := by
  cases h with
  | failed e => exact .failed e
  | done hR => exact .done (.some hR)

/-- Something is related to something. -/
theorem exists_of_rel {α : Type} {R : α → α → Prop} {a : α} {b : Option α}
    (h : Option.Rel R (some a) b) : ∃ b', b = some b' ∧ R a b' := by
  cases h with
  | some hR => exact ⟨_, rfl, hR⟩

/-- What is read of related entries alike. -/
theorem map_eq_of_rel {α β : Type} {R : α → α → Prop} {f : α → β} {a b : Option α}
    (h : Option.Rel R a b) (hf : ∀ x y, R x y → f y = f x) : b.map f = a.map f := by
  cases h with
  | none => rfl
  | some hR => exact congrArg some (hf _ _ hR)

/-- The rows agree in every column but the budget. -/
structure TenantAllowance.SameButBudget (row row' : TenantAllowance) : Prop where
  tenantId : row'.tenantId = row.tenantId
  periodId : row'.periodId = row.periodId
  reserved : row'.reservedCents = row.reservedCents
  committed : row'.committedCents = row.committedCents
  lookups : row'.lookupsPerformed = row.lookupsPerformed

/-- The rows agree in every column but the budget. -/
structure SpendPeriod.SameButBudget (per per' : SpendPeriod) : Prop where
  periodId : per'.periodId = per.periodId
  reserved : per'.reservedCents = per.reservedCents
  committed : per'.committedCents = per.committedCents

namespace Store

/-- The stores agree in everything the application reads but the budgets. -/
structure SameButBudgets (s s' : Store) : Prop where
  allowance : ∀ u, Option.Rel TenantAllowance.SameButBudget (s.allowance? u) (s'.allowance? u)
  period : Option.Rel SpendPeriod.SameButBudget s.period? s'.period?
  records : s'.records = s.records
  jobs : s'.jobs = s.jobs

end Store

variable {s s' : Store}

/-- The same figures, written to both rows. -/
theorem TenantAllowance.SameButBudget.withFigures {row row' new new' : TenantAllowance}
    {r r' c c' l l' : Int} (h : row.SameButBudget row') (hr : r' = r) (hc : c' = c) (hl : l' = l)
    (hnew : row.withFigures r c l = .ok new) (hnew' : row'.withFigures r' c' l' = .ok new') :
    new.SameButBudget new' := by
  obtain ⟨hid, -, hres, hcom, hlook⟩ := TenantAllowance.withFigures_ok hnew
  obtain ⟨hid', -, hres', hcom', hlook'⟩ := TenantAllowance.withFigures_ok hnew'
  refine ⟨?_, ?_, ?_, ?_, ?_⟩
  · rw [hid', hid, h.tenantId]
  · rw [withFigures_periodId hnew', withFigures_periodId hnew, h.periodId]
  · rw [hres', hres, hr]
  · rw [hcom', hcom, hc]
  · rw [hlook', hlook, hl]

theorem SpendPeriod.SameButBudget.withFigures {per per' new new' : SpendPeriod} {r r' c c' : Int}
    (h : per.SameButBudget per') (hr : r' = r) (hc : c' = c)
    (hnew : per.withFigures r c = .ok new) (hnew' : per'.withFigures r' c' = .ok new') :
    new.SameButBudget new' := by
  obtain ⟨hid, -, hres, hcom⟩ := SpendPeriod.withFigures_ok hnew
  obtain ⟨hid', -, hres', hcom'⟩ := SpendPeriod.withFigures_ok hnew'
  refine ⟨?_, ?_, ?_⟩
  · rw [hid', hid, h.periodId]
  · rw [hres', hres, hr]
  · rw [hcom', hcom, hc]

/-- Money closed in both rows. What is charged was held, so no budget is in the way of it. -/
theorem TenantAllowance.SameButBudget.close {row row' : TenantAllowance} {reserved charged : Int}
    (h : row.SameButBudget row') (hle : charged ≤ reserved) (lookups : Int) :
    SameOutcome SameButBudget
      (row.withFigures (row.reservedCents - reserved) (row.committedCents + charged)
        (row.lookupsPerformed + lookups))
      (row'.withFigures (row'.reservedCents - reserved) (row'.committedCents + charged)
        (row'.lookupsPerformed + lookups)) := by
  have hw := row.within_allowance
  have hw' := row'.within_allowance
  obtain ⟨hid, hperiod, hres, hcom, hlook⟩ := h
  have hroom : row.committedCents + charged + (row.reservedCents - reserved) ≤
      row.allowanceCents := by omega
  have hroom' : row.committedCents + charged + (row.reservedCents - reserved) ≤
      row'.allowanceCents := by omega
  rw [hres, hcom, hlook]
  unfold TenantAllowance.withFigures
  simp only [hroom, hroom', dite_true]
  split_ifs
  · exact .done ⟨hid, hperiod, rfl, rfl, rfl⟩
  all_goals exact .failed _

theorem SpendPeriod.SameButBudget.close {per per' : SpendPeriod} {reserved charged : Int}
    (h : per.SameButBudget per') (hle : charged ≤ reserved) :
    SameOutcome SameButBudget
      (per.withFigures (per.reservedCents - reserved) (per.committedCents + charged))
      (per'.withFigures (per'.reservedCents - reserved) (per'.committedCents + charged)) := by
  have hw := per.within_cap
  have hw' := per'.within_cap
  obtain ⟨hid, hres, hcom⟩ := h
  have hroom : per.committedCents + charged + (per.reservedCents - reserved) ≤
      per.capCents := by omega
  have hroom' : per.committedCents + charged + (per.reservedCents - reserved) ≤
      per'.capCents := by omega
  rw [hres, hcom]
  unfold SpendPeriod.withFigures
  simp only [hroom, hroom', dite_true]
  split_ifs
  · exact .done ⟨hid, rfl, rfl⟩
  all_goals exact .failed _

namespace Store

/-- Rows that agree, put in the tenant table of both. -/
theorem SameButBudgets.putAllowance (h : s.SameButBudgets s') {row row' : TenantAllowance}
    (hrow : row.SameButBudget row') (u : TenantId) :
    Option.Rel TenantAllowance.SameButBudget ((s.tenantAllowances.put row).find? u)
      ((s'.tenantAllowances.put row').find? u) := by
  rw [Keyed.find?_put, Keyed.find?_put, hrow.tenantId]
  split
  · exact .some hrow
  · exact h.allowance u

theorem SameButBudgets.putPeriod (h : s.SameButBudgets s') {per per' : SpendPeriod}
    (hper : per.SameButBudget per') :
    Option.Rel SpendPeriod.SameButBudget ((s.spendPeriods.put per).find? Fixtures.spendPeriodId)
      ((s'.spendPeriods.put per').find? Fixtures.spendPeriodId) := by
  rw [Keyed.find?_put, Keyed.find?_put, hper.periodId]
  split
  · exact .some hper
  · exact h.period

/-! ## The statements -/

/-- A reservation that both grant. -/
theorem SameButBudgets.reserve {t u : Store} {a b : Reservation} {tenantId : TenantId}
    {lookups price : Int} (h : s.SameButBudgets s')
    (hs : s.reserve tenantId lookups price = .ok (t, a))
    (hs' : s'.reserve tenantId lookups price = .ok (u, b)) : b = a ∧ t.SameButBudgets u := by
  rw [reserve_eq] at hs hs'
  split_ifs at hs hs'
  split at hs
  · cases hs
  · cases hs
  next row hrow =>
  split at hs
  · cases hs
  · cases hs
  next per hper =>
  split at hs'
  · cases hs'
  · cases hs'
  next row' hrow' =>
  split at hs'
  · cases hs'
  · cases hs'
  next per' hper' =>
  cases hs
  cases hs'
  obtain ⟨old, hold, -, hset, -⟩ := Update.touch_eq_some hrow
  obtain ⟨old', hold', -, hset', -⟩ := Update.touch_eq_some hrow'
  obtain ⟨oldp, holdp, -, hsetp, -⟩ := Update.touch_eq_some hper
  obtain ⟨oldp', holdp', -, hsetp', -⟩ := Update.touch_eq_some hper'
  have hsame := h.allowance tenantId
  rw [hold, hold'] at hsame
  have hsamep := h.period
  rw [holdp, holdp'] at hsamep
  cases hsame with
  | some hsame =>
  cases hsamep with
  | some hsamep =>
  have hrows : row.SameButBudget row' :=
    hsame.withFigures (by rw [hsame.reserved]) hsame.committed hsame.lookups hset hset'
  have hpers : per.SameButBudget per' :=
    hsamep.withFigures (by rw [hsamep.reserved]) hsamep.committed hsetp hsetp'
  exact ⟨rfl, h.putAllowance hrows, h.putPeriod hpers, h.records, h.jobs⟩

/-- The outcome of a settling statement, row by row. -/
theorem sameOutcome_touch {α κ : Type} {key : α → κ} {R : α → α → Prop} {a b : Option α}
    {u : Update key CheckConstraint} (hguard : ∀ x, u.guard x = true)
    (hset : ∀ x y, R x y → SameOutcome R (u.set x) (u.set y)) (h : Option.Rel R a b) :
    SameOutcome (Option.Rel R) (u.touch a) (u.touch b) := by
  cases h with
  | none => exact .done .none
  | @some x y hR =>
      rw [Update.touch_some, Update.touch_some, hguard, hguard, if_pos rfl, if_pos rfl]
      exact (hset x y hR).some

/-- A settlement of no more than is held. -/
theorem SameButBudgets.settle (h : s.SameButBudgets s') (r : Reservation) (lookups : Int)
    {charged : Int} (hle : charged ≤ r.cents) :
    SameOutcome SameButBudgets (s.settle r lookups charged) (s'.settle r lookups charged) := by
  have hrow := sameOutcome_touch (u := sqlSettleTenantAllowance r.cents charged lookups)
    (fun _ => rfl) (fun _ _ hR => hR.close hle lookups) (h.allowance r.tenantId)
  have hper := sameOutcome_touch (u := sqlSettleSpendPeriod r.cents charged)
    (fun _ => rfl) (fun _ _ hR => hR.close hle) h.period
  rw [settle_eq, settle_eq]
  revert hrow hper
  generalize (sqlSettleTenantAllowance r.cents charged lookups).touch (s.allowance? r.tenantId) = a
  generalize (sqlSettleTenantAllowance r.cents charged lookups).touch (s'.allowance? r.tenantId) = b
  generalize (sqlSettleSpendPeriod r.cents charged).touch s.period? = c
  generalize (sqlSettleSpendPeriod r.cents charged).touch s'.period? = d
  intro hrow hper
  cases hrow with
  | failed e => exact .failed _
  | done hrow =>
      cases hper with
      | failed e => exact .failed _
      | done hper =>
          refine .done ⟨fun u => ?_, ?_, h.records, h.jobs⟩
          · cases hrow with
            | none => exact h.allowance u
            | some hrow => exact h.putAllowance hrow u
          · cases hper with
            | none => exact h.period
            | some hper => exact h.putPeriod hper

/-- The two writers that touch no budget table do the same in both. -/
theorem SameButBudgets.upsertRecords (h : s.SameButBudgets s') (u : TenantId)
    (entries : List RecordEntry) (at' : Timestamp) :
    (s.upsertRecords u entries at').SameButBudgets (s'.upsertRecords u entries at') := by
  unfold Store.upsertRecords
  split
  · exact h
  · exact ⟨h.allowance, h.period, by rw [h.records], h.jobs⟩

theorem SameButBudgets.insertJob (h : s.SameButBudgets s') (j : JobId) (u : TenantId)
    (n cents : Int) (by' : String) :
    SameOutcome SameButBudgets (s.insertJob j u n cents by') (s'.insertJob j u n cents by') := by
  unfold Store.insertJob
  rw [h.jobs]
  split
  · split
    · split
      · exact .failed _
      · exact .done ⟨h.allowance, h.period, h.records, rfl⟩
    · exact .failed _
  · exact .failed _

/-- The readers show the same. -/
theorem SameButBudgets.readJob (h : s.SameButBudgets s') : s'.readJob = s.readJob := by
  funext j u
  rw [Store.readJob, Store.readJob, h.jobs]

theorem SameButBudgets.readUsage (h : s.SameButBudgets s') : s'.readUsage = s.readUsage := by
  funext u
  refine map_eq_of_rel (h.allowance u) ?_
  intro row row' hrow
  rw [hrow.tenantId, hrow.periodId, hrow.lookups, hrow.committed]

/-- A reservation of some work is refused for want of room alone. -/
theorem reserve_refused {u : TenantId} {l price : Int} {e : StoreError} (hl : 0 ≤ l)
    (hprice : 0 ≤ price) (h : s.reserve u l price = .error e) : e = .allowanceExhausted := by
  have hcheck := reserve_ne_checkViolation (s := s) (t := u) hl hprice
  rw [reserve_eq, if_neg (by omega)] at h hcheck
  split at h
  · next c hc =>
      rw [hc] at hcheck
      exact absurd rfl (hcheck c)
  · exact (Except.error.inj h).symm
  · next row hrow =>
      rw [hrow] at hcheck
      split at h
      · next c hc =>
          simp only [hc] at hcheck
          exact absurd rfl (hcheck c)
      · exact (Except.error.inj h).symm
      · cases h

end Store

/-! ## One request -/

/-- The services agree in everything but the budgets of their stores. -/
structure Service.Alike (s s' : Service) : Prop where
  store : s.store.SameButBudgets s'.store
  limiters : s'.limiters = s.limiters
  provider : s'.provider = s.provider
  clock : s'.clock = s.clock

/-- Whether the reservation a request asks for next is granted. -/
def Task.verdict (cfg : Config) (s : Service) (t : Task) : Option Bool :=
  match t.pc with
  | .reserving w =>
    some (s.store.reserve w.tenantId w.companyNames.length cfg.priceCents).isOk
  | _ => none

section
variable {cfg : Config} {s s' u : Service} {t t' : Task}

theorem Service.Alike.leaveSlot (h : s.Alike s') (replica : ℕ) :
    (s.leaveSlot replica).Alike (s'.leaveSlot replica) := by
  unfold Service.leaveSlot
  rw [h.limiters]
  split
  · exact h
  · exact ⟨h.store, rfl, h.provider, h.clock⟩

/-- An exception does the same in both. -/
theorem Service.Alike.raise (h : s.Alike s') (t : Task) (exc : Exception) :
    (t.raise s' exc).2 = (t.raise s exc).2 ∧ (t.raise s exc).1.Alike (t.raise s' exc).1 := by
  refine ⟨rfl, ?_⟩
  show Service.Alike (if t.pc.holdsSlot then _ else _) (if t.pc.holdsSlot then _ else _)
  split
  · exact h.leaveSlot _
  · exact h

/-- A request is led to the same place in both. -/
def LedAlike (x y : Service × Task) : Prop := y.2 = x.2 ∧ x.1.Alike y.1

theorem Service.Alike.read (h : s.Alike s') (t : Task) (u : TenantId) :
    LedAlike (t.read cfg s u) (t.read cfg s' u) := by
  unfold Task.read
  split
  · split
    · exact h.raise t _
    · exact ⟨rfl, h⟩
  · exact ⟨rfl, h⟩
  · exact ⟨rfl, h⟩
  all_goals exact h.raise t _

/-- The reservation is granted in both or refused in both, and refused alike. -/
theorem Service.Alike.reserve (h : s.Alike s') (t : Task) (w : Work)
    (hverdict : (s.store.reserve w.tenantId w.companyNames.length cfg.priceCents).isOk =
      (s'.store.reserve w.tenantId w.companyNames.length cfg.priceCents).isOk) :
    LedAlike (t.reserve cfg s w) (t.reserve cfg s' w) := by
  have hrefused : ∀ {v : Service} {e : StoreError},
      v.store.reserve w.tenantId w.companyNames.length cfg.priceCents = .error e →
        e = .allowanceExhausted := fun he =>
    Store.reserve_refused (Int.natCast_nonneg _) (Int.natCast_nonneg _) he
  unfold Task.reserve
  cases hx : s.store.reserve w.tenantId w.companyNames.length cfg.priceCents with
  | error e =>
      cases hy : s'.store.reserve w.tenantId w.companyNames.length cfg.priceCents with
      | error e' =>
          rw [hrefused hx, hrefused hy]
          exact h.raise t _
      | ok y =>
          rw [hx, hy] at hverdict
          cases hverdict
  | ok x =>
      cases hy : s'.store.reserve w.tenantId w.companyNames.length cfg.priceCents with
      | error e' =>
          rw [hx, hy] at hverdict
          cases hverdict
      | ok y =>
          obtain ⟨hres, hstore⟩ := h.store.reserve hx hy
          obtain ⟨store, r⟩ := x
          obtain ⟨store', r'⟩ := y
          cases hres
          exact ⟨rfl, hstore, h.limiters, h.provider, h.clock⟩

theorem Service.Alike.lookUp (h : s.Alike s') (t : Task) (w : Work) (r : Reservation)
    (p : CallPoint) : Option.Rel LedAlike (t.lookUp s w r p) (t.lookUp s' w r p) := by
  cases p with
  | enterSlot =>
      simp only [Task.lookUp, h.limiters]
      split
      · exact .none
      · split
        · exact .some (h.raise t _)
        · exact .some ⟨rfl, h.store, rfl, h.provider, h.clock⟩
  | awaitResponse =>
      simp only [Task.lookUp]
      split
      · exact .some ⟨rfl, h⟩
      · exact .none
  | _ => exact .some ⟨rfl, h⟩

/-- A transaction with the same outcome in both, and what comes after it. -/
theorem Service.Alike.conclude (h : s.Alike s') {x y : Except StoreError Store} (t onward : Task) :
    SameOutcome Store.SameButBudgets x y →
    LedAlike
      (match x with
        | .error e => t.raise s (.store e)
        | .ok store => ({ s with store := store }, onward))
      (match y with
        | .error e => t.raise s' (.store e)
        | .ok store => ({ s' with store := store }, onward)) := by
  intro hsame
  cases hsame with
  | failed e => exact h.raise t _
  | done hstore => exact ⟨rfl, hstore, h.limiters, h.provider, h.clock⟩

theorem Service.Alike.finish (h : s.Alike s') (t : Task) (w : Work) (r : Reservation)
    (result : LookupResponse) (p : FinishPoint) (hcharge : result.centsCharged ≤ r.cents) :
    LedAlike (t.finish cfg s w r result p) (t.finish cfg s' w r result p) := by
  cases p with
  | leaveSlot => exact ⟨rfl, h.leaveSlot _⟩
  | upsertRecords =>
      refine ⟨rfl, ?_, h.limiters, h.provider, h.clock⟩
      simp only [Task.finish, h.clock]
      exact h.store.upsertRecords _ _ _
  | settle => exact h.conclude t _ (h.store.settle r result.lookups hcharge)
  | leaveConnection =>
      simp only [Task.finish]
      split
      · exact ⟨rfl, h⟩
      · exact ⟨rfl, h⟩
  | _ => exact ⟨rfl, h⟩

theorem Service.Alike.handle (h : s.Alike s') (t : Task) (w : Work) (r : Reservation)
    (attempted : Bool) (exc : Exception) (p : HandlerPoint) (hcents : 0 ≤ r.cents) :
    LedAlike (t.handle s w r attempted exc p) (t.handle s' w r attempted exc p) := by
  cases p with
  | close =>
      cases attempted with
      | true => exact h.conclude t _ (h.store.settle r r.lookups le_rfl)
      | false => exact h.conclude t _ (h.store.settle r 0 hcents)
  | _ => exact ⟨rfl, h⟩

theorem Service.Alike.record (h : s.Alike s') (t : Task) (w : Work) (r : Reservation)
    (result : LookupResponse) (jobId : JobId) (p : JobPoint) :
    LedAlike (t.record cfg s w r result jobId p) (t.record cfg s' w r result jobId p) := by
  cases p with
  | insertJob => exact h.conclude t _ (h.store.insertJob _ _ _ _ _)
  | _ => exact ⟨rfl, h⟩

theorem Service.Alike.list (h : s.Alike s') (t : Task) (tenantId : TenantId) (pageSize : ℕ)
    (p : ListPoint) : LedAlike (t.list s tenantId pageSize p) (t.list s' tenantId pageSize p) := by
  cases p with
  | readRecords =>
      refine ⟨?_, h⟩
      simp only [Task.list, Store.readRecords, h.store.records]
  | _ => exact ⟨rfl, h⟩

/-- **Step lemma.** A request that is granted the same reservation takes the same step in both. -/
theorem Service.Alike.advance (h : s.Alike s') (hsound : t.Sound cfg)
    (hprice : cfg.providerPriceCents ≤ cfg.priceCents)
    (hverdict : t.verdict cfg s = t.verdict cfg s') :
    Option.Rel LedAlike (t.advance cfg s) (t.advance cfg s') := by
  unfold Task.advance
  unfold Task.verdict at hverdict
  cases hpc : t.pc with
  | authenticating =>
      cases t.request.principal with
      | none => exact .some (h.raise t _)
      | some u => exact .some ⟨rfl, h⟩
  | reading u => exact .some (h.read t u)
  | takingConnection w => exact .some ⟨rfl, h⟩
  | reserving w =>
      rw [hpc] at hverdict
      exact .some (h.reserve t w (Option.some.inj hverdict))
  | leavingConnection w r => exact .some ⟨rfl, h⟩
  | calling w r p => exact h.lookUp t w r p
  | finishing w r result p =>
      have hlive := hsound.live (by rw [hpc]; rfl)
      rw [hpc] at hlive
      obtain ⟨rfl, ⟨-, rfl⟩, -⟩ := hlive
      refine .some (h.finish t w _ _ p ?_)
      show ((w.companyNames.length : ℕ) : Int) * cfg.providerPriceCents ≤
        w.companyNames.length * cfg.priceCents
      exact mul_le_mul_of_nonneg_left (by exact_mod_cast hprice) (Int.natCast_nonneg _)
  | handling w r attempted exc p =>
      have hlive := hsound.live (by rw [hpc]; rfl)
      rw [hpc] at hlive
      obtain ⟨rfl, -⟩ := hlive
      refine .some (h.handle t w _ attempted exc p ?_)
      exact mul_nonneg (Int.natCast_nonneg _) (Int.natCast_nonneg _)
  | recording w r result jobId p => exact .some (h.record t w r result jobId p)
  | listing u n p => exact .some (h.list t u n p)
  | ended ending => exact .none

/-- So does one that an exception strikes. -/
theorem Service.Alike.fault (h : s.Alike s') (t : Task) (f : Fault) :
    Option.Rel LedAlike (t.fault s f) (t.fault s' f) := by
  unfold Task.fault
  split
  · exact .none
  · cases f with
    | cancelled => exact .some (h.raise t _)
    | failed => exact .some (h.raise t _)
    | deadline =>
        simp only
        split
        · exact .some (h.raise t _)
        · exact .none

end

/-! ## The replicas -/

/-- The worlds agree in everything but the budgets of their stores. -/
structure World.Alike (w w' : World) : Prop where
  service : w.service.Alike w'.service
  tasks : w'.tasks = w.tasks

/-- So do the replicas. -/
structure Replicas.Alike (p p' : Replicas World) : Prop where
  world : p.world.Alike p'.world
  readers : p'.readers = p.readers

/-- Whether the event's reservation is granted, if it asks for one. -/
def Replicas.verdict (cfg : Config) (p : Replicas World) : ReplicaEvent Event → Option Bool
  | .inside (.advance i) => p.world.tasks[i]?.bind fun t => t.verdict cfg p.world.service
  | _ => none

variable {cfg : Config} {w w' : World} {p p' q : Replicas World} {s₀ s₁ : Store} {replicas : ℕ}
  {limiter : InFlightLimiter} {size : ℕ → ℕ}

theorem World.Alike.act (h : w.Alike w') {i : ℕ} {f : Service → Task → Option (Service × Task)}
    (hf : ∀ t, w.tasks[i]? = some t → Option.Rel LedAlike (f w.service t) (f w'.service t)) :
    Option.Rel World.Alike (w.act i f) (w'.act i f) := by
  unfold World.act
  rw [h.tasks]
  cases ht : w.tasks[i]? with
  | none => exact .none
  | some t =>
      have hstep := hf t ht
      dsimp only
      revert hstep
      generalize f w.service t = x
      generalize f w'.service t = y
      intro hstep
      cases hstep with
      | none => exact .none
      | @some x y hled =>
          refine .some ⟨hled.2, ?_⟩
          show w.tasks.set i y.2 = w.tasks.set i x.2
          rw [hled.1]

theorem World.Alike.serve (h : w.Alike w') {i : ℕ}
    (f : ProviderState → Call → Option (ProviderState × Call)) :
    Option.Rel World.Alike (w.serve i f) (w'.serve i f) := by
  refine h.act fun t _ => ?_
  rw [h.service.provider]
  split
  · exact .none
  · split
    · exact .none
    · exact .some ⟨rfl, h.service.store, h.service.limiters, rfl, h.service.clock⟩

/-- One event does the same in both, when it is granted the same reservation. -/
theorem World.Alike.next (h : w.Alike w') (hsound : w.Sound cfg s₀ replicas)
    (hprice : cfg.providerPriceCents ≤ cfg.priceCents) (e : Event)
    (hverdict : ∀ i t, e = .advance i → w.tasks[i]? = some t →
      t.verdict cfg w.service = t.verdict cfg w'.service) :
    Option.Rel World.Alike (w.next cfg e) (w'.next cfg e) := by
  obtain ⟨hstore, hlimiters, hprovider, hclock⟩ := h.service
  cases e with
  | arrive request =>
      simp only [World.next, hlimiters]
      split
      · exact .some ⟨h.service, by rw [h.tasks]⟩
      · exact .none
  | advance i =>
      refine h.act fun t ht => ?_
      exact h.service.advance (hsound.task t (List.mem_of_getElem? ht)) hprice
        (hverdict i t rfl ht)
  | fault i f =>
      have hf : ∀ t, w.tasks[i]? = some t →
          Option.Rel LedAlike (t.fault w.service f) (t.fault w'.service f) :=
        fun t _ => h.service.fault t f
      exact h.act (f := fun s t => t.fault s f) hf
  | resume i => exact h.serve fun p c => c.resume p
  | abort i => exact h.serve fun p c => c.abort p
  | release =>
      refine .some ⟨⟨hstore, hlimiters, ?_, hclock⟩, ?_⟩
      · show w'.service.provider.release = w.service.provider.release
        rw [hprovider]
      · show w'.tasks.map _ = w.tasks.map _
        rw [h.tasks]
  | hold | slow | resetLedger =>
      refine .some ⟨⟨hstore, hlimiters, ?_, hclock⟩, h.tasks⟩
      simp only [World.withProvider, hprovider]
  | tick => exact .some ⟨⟨hstore, hlimiters, hprovider, congrArg (· + 1) hclock⟩, h.tasks⟩

/-- A reader is told the same in both. -/
theorem CommonReader.advance_alike (h : w.Alike w') (r : CommonReader) :
    r.advance (secureVariant cfg) w' = r.advance (secureVariant cfg) w := by
  have hexecute : ∀ query, r.execute (secureVariant cfg) w' query =
      r.execute (secureVariant cfg) w query := by
    intro query
    cases query with
    | ping => rfl
    | readJob j u => simp only [execute, secureVariant, h.service.store.readJob]
    | usageSource u => simp only [execute, secureVariant, h.service.store.readUsage]
  unfold CommonReader.advance
  split
  all_goals simp only [hexecute]

/-- The pools hold and hand out the same. -/
theorem Replicas.Alike.admits (h : p.Alike p') (e : ReplicaEvent Event) :
    (secureVariant cfg).clients.admits size p' e = (secureVariant cfg).clients.admits size p e := by
  obtain ⟨⟨-, htasks⟩, hreaders⟩ := h
  obtain ⟨⟨service, tasks⟩, readers⟩ := p
  obtain ⟨⟨service', tasks'⟩, readers'⟩ := p'
  cases htasks
  cases hreaders
  cases e with
  | inside e => cases e <;> rfl
  | ask | advance | fault => rfl

/-- **One event keeps the replicas alike**, when it is granted the same reservation. -/
theorem Replicas.Alike.step (h : p.Alike p') (hsound : p.world.Sound cfg s₀ replicas)
    (hprice : cfg.providerPriceCents ≤ cfg.priceCents) {e : ReplicaEvent Event}
    (hstep : pooled cfg size p e = some q) (hverdict : p.verdict cfg e = p'.verdict cfg e) :
    ∃ q', pooled cfg size p' e = some q' ∧ q.Alike q' := by
  obtain ⟨hadmits, hnext⟩ := Clients.guarded_eq_some.mp hstep
  rw [← h.admits e] at hadmits
  suffices hrel : ∃ q', Replicas.next (secureVariant cfg) p' e = some q' ∧ q.Alike q' by
    obtain ⟨q', hq', halike⟩ := hrel
    exact ⟨q', Clients.guarded_eq_some.mpr ⟨hadmits, hq'⟩, halike⟩
  cases moves_of_next hnext with
  | @inside e w hw =>
      have hrel := h.world.next hsound hprice e fun i t he ht => by
        subst he
        simpa [Replicas.verdict, h.world.tasks, ht] using hverdict
      have hw' : World.next cfg p.world e = some w := hw
      rw [hw'] at hrel
      obtain ⟨w₂, hw₂, halike⟩ := exists_of_rel hrel
      refine ⟨{ p' with world := w₂ }, ?_, halike, h.readers⟩
      show (World.next cfg p'.world e).map _ = _
      rw [hw₂, Option.map_some]
  | asked hreplica =>
      refine ⟨{ p' with readers := p'.readers ++ [.arrived _] }, if_pos ?_, h.world, ?_⟩
      · show _ < p'.world.service.limiters.length
        rw [h.world.service.limiters]
        exact hreplica
      · show p'.readers ++ _ = p.readers ++ _
        rw [h.readers]
  | @advanced j r r' hr hadvance =>
      refine ⟨{ p' with readers := p'.readers.set j r' }, ?_, h.world, ?_⟩
      · simp only [Replicas.next, Replicas.act, h.readers, hr, CommonReader.advance_alike h.world,
          hadvance, Option.map_some]
      · show p'.readers.set j r' = p.readers.set j r'
        rw [h.readers]
  | @struck j f r hr =>
      have hfault : Replicas.next (secureVariant cfg) p (.fault j f) = some _ := hnext
      simp only [Replicas.next, Replicas.act, hr, Option.map_eq_some_iff] at hfault
      obtain ⟨r', hr', heq⟩ := hfault
      refine ⟨{ p' with readers := p'.readers.set j r' }, ?_, h.world, ?_⟩
      · simp only [Replicas.next, Replicas.act, h.readers, hr, hr', Option.map_some]
      · rw [← heq]
        show p'.readers.set j r' = p.readers.set j r'
        rw [h.readers]

/-! ## Runs -/

/-- The tenants with a partition of a seeded store have their rows in it. -/
theorem Store.seeded_allowance (tenants : List TenantId) {allowance cap : Int} (ha : 0 ≤ allowance)
    (hc : 0 ≤ cap) (records : List StoredRecord) (u : TenantId) :
    (Store.seeded tenants allowance cap ha hc records).allowance? u =
      if u ∈ tenants then some (.fresh u allowance ha) else none := by
  suffices hfold : ∀ (l : List TenantId) (t : Keyed TenantAllowance.tenantId),
      ((l.map fun t => TenantAllowance.fresh t allowance ha).foldl Keyed.put t).find? u =
        if u ∈ l then some (.fresh u allowance ha) else t.find? u from hfold tenants .empty
  intro l
  induction l with
  | nil => exact fun t => by simp
  | cons v l ih =>
      intro t
      rw [List.map_cons, List.foldl_cons, ih, Keyed.find?_put]
      by_cases hv : v = u
      · subst hv
        simp [TenantAllowance.fresh]
      · have hne : (TenantAllowance.fresh v allowance ha).tenantId ≠ u := hv
        simp [hne, Ne.symm hv]

/-- Two seedings with different budgets. -/
theorem Store.seeded_sameButBudgets (tenants : List TenantId) {allowance allowance' cap cap' : Int}
    (ha : 0 ≤ allowance) (ha' : 0 ≤ allowance') (hc : 0 ≤ cap) (hc' : 0 ≤ cap')
    (records : List StoredRecord) :
    (Store.seeded tenants allowance cap ha hc records).SameButBudgets
      (Store.seeded tenants allowance' cap' ha' hc' records) := by
  refine ⟨fun u => ?_, .some ⟨rfl, rfl, rfl⟩, rfl, rfl⟩
  rw [seeded_allowance, seeded_allowance]
  split
  · exact .some ⟨rfl, rfl, rfl, rfl, rfl⟩
  · exact .none

/-- **Refusals disclose nothing else.** Take any run of any number of replicas with their pools, and
the same deployment with other allowances and another cap. If the same reservations are granted
there under the same events, then the events are possible there too, and everything but the
budgets themselves comes out the same: every request's answer and its whole history, every answer
of the common routes, the slots in use, the provider's bill, the records and the jobs. -/
theorem refusals_disclose_nothing_else {s₀ s₁ : Store} {es : List (ReplicaEvent Event)}
    (hl : InFlightLimiter.make cfg.maxInFlightUpstream = .ok limiter)
    (hprice : cfg.providerPriceCents ≤ cfg.priceCents) (hsame : s₀.SameButBudgets s₁)
    (hrun : Run (Steps (pooled cfg size)) (.start (.start cfg s₀ replicas limiter)) es p)
    (hverdicts :
      transcript (pooled cfg size) (Replicas.verdict cfg)
          (.start (.start cfg s₀ replicas limiter)) es =
        transcript (pooled cfg size) (Replicas.verdict cfg)
          (.start (.start cfg s₁ replicas limiter)) es) :
    ∃ p', Run (Steps (pooled cfg size)) (.start (.start cfg s₁ replicas limiter)) es p' ∧
      p'.readers = p.readers ∧ p'.world.tasks = p.world.tasks ∧
      p'.world.service.limiters = p.world.service.limiters ∧
      p'.world.service.provider = p.world.service.provider ∧
      p.world.service.store.SameButBudgets p'.world.service.store := by
  have hask : ∀ a a' : Replicas World, a.world.Sound cfg s₀ replicas ∧ a.Alike a' →
      ∀ e, (a.verdict cfg e).isSome = (a'.verdict cfg e).isSome := by
    rintro a a' ⟨-, halike⟩ e
    cases e with
    | inside e =>
        cases e with
        | advance i =>
            simp only [Replicas.verdict, halike.world.tasks]
            cases a.world.tasks[i]? with
            | none => rfl
            | some t =>
                simp only [Option.bind_some, Task.verdict]
                cases t.pc <;> rfl
        | _ => rfl
    | _ => rfl
  have hstep : ∀ a a' e b, a.world.Sound cfg s₀ replicas ∧ a.Alike a' →
      pooled cfg size a e = some b → a.verdict cfg e = a'.verdict cfg e →
      ∃ b', pooled cfg size a' e = some b' ∧ b.world.Sound cfg s₀ replicas ∧ b.Alike b' := by
    rintro a a' e b ⟨hsound, halike⟩ hab hverdict
    obtain ⟨b', hb', halike'⟩ := halike.step hsound hprice hab hverdict
    exact ⟨b', hb', pooled_step_sound hsound hab, halike'⟩
  have hstart : Replicas.Alike (.start (.start cfg s₀ replicas limiter))
      (.start (.start cfg s₁ replicas limiter)) := ⟨⟨⟨hsame, rfl, rfl, rfl⟩, rfl⟩, rfl⟩
  obtain ⟨p', hrun', -, halike⟩ := lockstep (R := fun a a' =>
    a.world.Sound cfg s₀ replicas ∧ a.Alike a') hask hstep
      ⟨World.start_sound hl s₀ replicas, hstart⟩ hrun hverdicts
  exact ⟨p', hrun', halike.readers, halike.world.tasks, halike.world.service.limiters,
    halike.world.service.provider, halike.world.service.store⟩

/-- The demonstration's store with a larger partition and a larger cap. -/
def Store.demoRicher : Store :=
  .seeded [Fixtures.attackerTenantId] 44 200 (by decide) (by decide) []

/-- An enrichment that is granted, one of twenty names that is not, and what the tenant is then
shown of its spending. -/
def grantedThenRefused : List (ReplicaEvent Event) :=
  [.inside (.arrive (.demo 0)), .inside (.arrive ⟨0, some Fixtures.attackerTenantId,
      .enrich (.ok (List.replicate 20 (Fixtures.companyName 1)))⟩)] ++
    List.replicate 4 (.inside (.advance 0)) ++ List.replicate 4 (.inside (.advance 1)) ++
    [.ask ⟨0, some Fixtures.attackerTenantId, .usage⟩, .advance 0, .advance 0, .advance 0]

theorem granted_then_refused_alike :
    ∃ p p', Run (Steps (pooled (.demo 1) fun _ => 2)) (.start (.demo 1)) grantedThenRefused p ∧
      Run (Steps (pooled (.demo 1) fun _ => 2))
        (.start (.start (.demo 1) .demoRicher 1 ⟨1, 0, 0, Int.natCast_nonneg 1⟩))
        grantedThenRefused p' ∧
      p'.readers = p.readers ∧ p'.world.tasks = p.world.tasks ∧
      transcript (pooled (.demo 1) fun _ => 2) (Replicas.verdict (.demo 1)) (.start (.demo 1))
        grantedThenRefused = [true, false] := by
  have hfigures : (replay (pooled (.demo 1) fun _ => 2) (.start (.demo 1))
        grantedThenRefused).isSome = true ∧
      transcript (pooled (.demo 1) fun _ => 2) (Replicas.verdict (.demo 1)) (.start (.demo 1))
        grantedThenRefused = [true, false] ∧
      transcript (pooled (.demo 1) fun _ => 2) (Replicas.verdict (.demo 1))
        (.start (.start (.demo 1) .demoRicher 1 ⟨1, 0, 0, Int.natCast_nonneg 1⟩))
        grantedThenRefused = [true, false] := by decide
  obtain ⟨hsome, hverdicts, hverdicts'⟩ := hfigures
  obtain ⟨p, hp⟩ := Option.isSome_iff_exists.mp hsome
  have hsame : Store.demo.SameButBudgets .demoRicher := Store.seeded_sameButBudgets _ _ _ _ _ _
  obtain ⟨p', hrun', hreaders, htasks, -⟩ := refusals_disclose_nothing_else rfl le_rfl hsame
    (run_of_replay hp) (hverdicts.trans hverdicts'.symm)
  exact ⟨p, p', run_of_replay hp, hrun', hreaders, htasks, hverdicts⟩

end Limitless
