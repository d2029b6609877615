import Limitless.Store.Schema
import Mathlib.Tactic.Linarith

/-!
# The money reservation

`store.py`'s four writers of the two budget tables. Each is one transaction: a statement is an
`Update` of one row, `reserve` decides on the affected row count of each of its two statements, and
an exception unwinds the transaction, so the functions answer either the store they commit or the
error that left it as it was.

A statement has three outcomes on the row it names (`Update.touch_cases`): no row passed its
`WHERE`, a new version was written, or a `CHECK` refused the new version. `reserve_ok`,
`settle_ok` and `chargeUndividedPool_ok` say what a committed transaction wrote; the later modules
use these and never unfold the functions.
-/

namespace Limitless

/-- Money held against a tenant's allowance for work admitted but not performed. -/
structure Reservation where
  tenantId : TenantId
  cents : Int
  lookups : Int
  deriving DecidableEq, Repr

/-- How a writer of the store fails. -/
inductive StoreError
  | allowanceExhausted
  | valueError (message : String)
  | checkViolation (constraint : CheckConstraint)
  | uniqueViolation
  deriving DecidableEq, Repr

/-! ## The statements -/

/-- `SQL_RESERVE_TENANT_ALLOWANCE`. -/
def sqlReserveTenantAllowance (cents : Int) : Update TenantAllowance.tenantId CheckConstraint where
  guard row := row.committedCents + row.reservedCents + cents ≤ row.allowanceCents
  set row := row.withFigures (row.reservedCents + cents) row.committedCents row.lookupsPerformed
  key_set _ _ h := (TenantAllowance.withFigures_ok h).1

/-- `SQL_RESERVE_SPEND_PERIOD`. -/
def sqlReserveSpendPeriod (cents : Int) : Update SpendPeriod.periodId CheckConstraint where
  guard row := row.committedCents + row.reservedCents + cents ≤ row.capCents
  set row := row.withFigures (row.reservedCents + cents) row.committedCents
  key_set _ _ h := (SpendPeriod.withFigures_ok h).1

/-- `SQL_SETTLE_TENANT_ALLOWANCE`. -/
def sqlSettleTenantAllowance (reserved charged lookups : Int) :
    Update TenantAllowance.tenantId CheckConstraint where
  guard _ := true
  set row := row.withFigures (row.reservedCents - reserved) (row.committedCents + charged)
    (row.lookupsPerformed + lookups)
  key_set _ _ h := (TenantAllowance.withFigures_ok h).1

/-- `SQL_SETTLE_SPEND_PERIOD`. -/
def sqlSettleSpendPeriod (reserved charged : Int) : Update SpendPeriod.periodId CheckConstraint where
  guard _ := true
  set row := row.withFigures (row.reservedCents - reserved) (row.committedCents + charged)
  key_set _ _ h := (SpendPeriod.withFigures_ok h).1

/-- `SQL_CHARGE_UNDIVIDED_POOL`. -/
def sqlChargeUndividedPool (cents : Int) : Update SpendPeriod.periodId CheckConstraint where
  guard row := row.committedCents + row.reservedCents + cents ≤ row.capCents
  set row := row.withFigures row.reservedCents (row.committedCents + cents)
  key_set _ _ h := (SpendPeriod.withFigures_ok h).1

/-- A settle statement has no condition beyond the key. -/
theorem sqlSettleTenantAllowance_touch (reserved charged lookups : Int) (row : TenantAllowance) :
    (sqlSettleTenantAllowance reserved charged lookups).touch (some row) =
      ((sqlSettleTenantAllowance reserved charged lookups).set row).map some := rfl

theorem sqlSettleSpendPeriod_touch (reserved charged : Int) (per : SpendPeriod) :
    (sqlSettleSpendPeriod reserved charged).touch (some per) =
      ((sqlSettleSpendPeriod reserved charged).set per).map some := rfl

/-! ## The transactions -/

namespace Store

/-- Run a statement on the tenant table; a violated constraint is the driver's exception. -/
def updateTenant (s : Store) (tenantId : TenantId)
    (u : Update TenantAllowance.tenantId CheckConstraint) : Except StoreError (Store × Nat) :=
  match s.tenantAllowances.update tenantId u with
  | .error c => .error (.checkViolation c)
  | .ok (t, rowcount) => .ok ({ s with tenantAllowances := t }, rowcount)

/-- Run a statement on the period table. -/
def updatePeriod (s : Store) (periodId : String)
    (u : Update SpendPeriod.periodId CheckConstraint) : Except StoreError (Store × Nat) :=
  match s.spendPeriods.update periodId u with
  | .error c => .error (.checkViolation c)
  | .ok (t, rowcount) => .ok ({ s with spendPeriods := t }, rowcount)

/-- `reserve`: hold the money for `lookups` before any of that work is performed. -/
def reserve (s : Store) (tenantId : TenantId) (lookups priceCents : Int) :
    Except StoreError (Store × Reservation) := do
  if lookups < 0 then throw (.valueError s!"cannot reserve {lookups} lookups")
  let cents := lookups * priceCents
  let (s₁, rowcount) ← s.updateTenant tenantId (sqlReserveTenantAllowance cents)
  if rowcount ≠ 1 then throw .allowanceExhausted
  let (s₂, rowcount) ← s₁.updatePeriod Fixtures.spendPeriodId (sqlReserveSpendPeriod cents)
  if rowcount ≠ 1 then throw .allowanceExhausted
  return (s₂, ⟨tenantId, cents, lookups⟩)

/-- `settle`: convert a reservation into a charge, releasing what was held and not spent. -/
def settle (s : Store) (reservation : Reservation) (lookupsPerformed centsCharged : Int) :
    Except StoreError Store := do
  let (s₁, _) ← s.updateTenant reservation.tenantId
    (sqlSettleTenantAllowance reservation.cents centsCharged lookupsPerformed)
  let (s₂, _) ← s₁.updatePeriod Fixtures.spendPeriodId
    (sqlSettleSpendPeriod reservation.cents centsCharged)
  return s₂

/-- `release`: give back money held for work that was never performed. -/
def release (s : Store) (reservation : Reservation) : Except StoreError Store :=
  s.settle reservation 0 0

/-- `charge_undivided_pool`: spend with no tenant in the predicate; `false` when nothing is left. -/
def chargeUndividedPool (s : Store) (lookups priceCents : Int) : Except StoreError (Store × Bool) := do
  let (s₁, rowcount) ← s.updatePeriod Fixtures.spendPeriodId
    (sqlChargeUndividedPool (lookups * priceCents))
  return (s₁, rowcount = 1)

/-! ## What the statements do -/

theorem updateTenant_eq (s : Store) (tenantId : TenantId)
    (u : Update TenantAllowance.tenantId CheckConstraint) :
    s.updateTenant tenantId u = match u.touch (s.allowance? tenantId) with
      | .error c => .error (.checkViolation c)
      | .ok none => .ok (s, 0)
      | .ok (some row) => .ok ({ s with tenantAllowances := s.tenantAllowances.put row }, 1) := by
  unfold updateTenant Keyed.update allowance?
  rcases u.touch (s.tenantAllowances.find? tenantId) with c | (_ | row) <;> rfl

theorem updatePeriod_eq (s : Store) (u : Update SpendPeriod.periodId CheckConstraint) :
    s.updatePeriod Fixtures.spendPeriodId u = match u.touch s.period? with
      | .error c => .error (.checkViolation c)
      | .ok none => .ok (s, 0)
      | .ok (some row) => .ok ({ s with spendPeriods := s.spendPeriods.put row }, 1) := by
  unfold updatePeriod Keyed.update period?
  rcases u.touch (s.spendPeriods.find? Fixtures.spendPeriodId) with c | (_ | row) <;> rfl

/-- The store with one tenant row and the period row written. -/
def write (s : Store) (row : TenantAllowance) (period : SpendPeriod) : Store :=
  { s with
    tenantAllowances := s.tenantAllowances.put row
    spendPeriods := s.spendPeriods.put period }

/-- `reserve`, read off the two rows it names. -/
theorem reserve_eq (s : Store) (tenantId : TenantId) (lookups priceCents : Int) :
    s.reserve tenantId lookups priceCents =
      if lookups < 0 then .error (.valueError s!"cannot reserve {lookups} lookups") else
      match (sqlReserveTenantAllowance (lookups * priceCents)).touch (s.allowance? tenantId) with
      | .error c => .error (.checkViolation c)
      | .ok none => .error .allowanceExhausted
      | .ok (some row) =>
        match (sqlReserveSpendPeriod (lookups * priceCents)).touch s.period? with
        | .error c => .error (.checkViolation c)
        | .ok none => .error .allowanceExhausted
        | .ok (some period) => .ok (s.write row period, ⟨tenantId, lookups * priceCents, lookups⟩) := by
  unfold reserve
  by_cases hl : lookups < 0
  · simp only [hl, if_true]; rfl
  · simp only [hl, if_false, updateTenant_eq]
    rcases (sqlReserveTenantAllowance (lookups * priceCents)).touch (s.allowance? tenantId) with
      c | (_ | row)
    · rfl
    · rfl
    · have hp : period? { s with tenantAllowances := s.tenantAllowances.put row } = s.period? := rfl
      simp only [bind, Except.bind, updatePeriod_eq, hp, ne_eq, not_true, if_false]
      rcases (sqlReserveSpendPeriod (lookups * priceCents)).touch s.period? with c | (_ | period) <;>
        rfl

/-- `settle`, read off the two rows it names. -/
theorem settle_eq (s : Store) (r : Reservation) (lookups charged : Int) :
    s.settle r lookups charged =
      match (sqlSettleTenantAllowance r.cents charged lookups).touch (s.allowance? r.tenantId) with
      | .error c => .error (.checkViolation c)
      | .ok row =>
        match (sqlSettleSpendPeriod r.cents charged).touch s.period? with
        | .error c => .error (.checkViolation c)
        | .ok period => .ok { s with
            tenantAllowances := row.elim s.tenantAllowances s.tenantAllowances.put
            spendPeriods := period.elim s.spendPeriods s.spendPeriods.put } := by
  unfold settle
  rw [updateTenant_eq]
  rcases (sqlSettleTenantAllowance r.cents charged lookups).touch (s.allowance? r.tenantId) with
    c | (_ | row)
  · rfl
  · simp only [bind, Except.bind, updatePeriod_eq]
    rcases (sqlSettleSpendPeriod r.cents charged).touch s.period? with c | (_ | period) <;> rfl
  · have hp : period? { s with tenantAllowances := s.tenantAllowances.put row } = s.period? := rfl
    simp only [bind, Except.bind, updatePeriod_eq, hp]
    rcases (sqlSettleSpendPeriod r.cents charged).touch s.period? with c | (_ | period) <;> rfl

/-- `charge_undivided_pool`, read off the period row. -/
theorem chargeUndividedPool_eq (s : Store) (lookups priceCents : Int) :
    s.chargeUndividedPool lookups priceCents =
      match (sqlChargeUndividedPool (lookups * priceCents)).touch s.period? with
      | .error c => .error (.checkViolation c)
      | .ok none => .ok (s, false)
      | .ok (some period) => .ok ({ s with spendPeriods := s.spendPeriods.put period }, true) := by
  unfold chargeUndividedPool
  rw [updatePeriod_eq]
  rcases (sqlChargeUndividedPool (lookups * priceCents)).touch s.period? with c | (_ | period) <;> rfl

/-- A committed `reserve` writes no other tenant's row. -/
theorem reserve_allowance_of_ne {s s' : Store} {t u : TenantId} {l price : Int} {r : Reservation}
    (h : s.reserve t l price = .ok (s', r)) (hne : t ≠ u) : s'.allowance? u = s.allowance? u := by
  rw [reserve_eq] at h
  split_ifs at h
  split at h
  · cases h
  · cases h
  · next row hrow =>
      split at h
      · cases h
      · cases h
      · cases h
        obtain ⟨old, hold, _, _, hid⟩ := Update.touch_eq_some hrow
        refine Keyed.find?_put_of_ne s.tenantAllowances ?_
        rw [hid, Keyed.find?_key hold]
        exact hne

/-- A committed `settle` writes no other tenant's row. -/
theorem settle_allowance_of_ne {s s' : Store} {u : TenantId} {r : Reservation} {l charged : Int}
    (h : s.settle r l charged = .ok s') (hne : r.tenantId ≠ u) :
    s'.allowance? u = s.allowance? u := by
  rw [settle_eq] at h
  split at h
  · cases h
  · next o ho =>
      split at h
      · cases h
      · cases h
        cases o with
        | none => rfl
        | some row =>
            obtain ⟨old, hold, _, _, hid⟩ := Update.touch_eq_some ho
            refine Keyed.find?_put_of_ne s.tenantAllowances ?_
            rw [hid, Keyed.find?_key hold]
            exact hne

end Store

end Limitless
