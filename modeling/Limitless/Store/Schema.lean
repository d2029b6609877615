import Limitless.Fixtures
import Limitless.Lib.Keyed
import Mathlib.Tactic.SplitIfs

/-!
# The shared store's schema

The tables of `schema.py` as keyed lists. A row of a table that has `CHECK` constraints carries
them as fields, so a stored row satisfies them by construction and a statement that would break
one has no row to write: `withFigures` evaluates the constraints on the candidate columns and
answers the violated one instead, which is what PostgreSQL does with the statement.

Money is `BIGINT` in the schema and `Int` here: every stored figure is between zero and a budget
by the constraints below. The foreign keys to `tenants` and the `created_at` of a job are left
out, since no statement modelled here reads them.
-/

namespace Limitless

/-- A point in time, as `enriched_at` stores it. -/
abbrev Timestamp := Nat

/-- A `uuid4` job identifier, as the 128-bit number it is. -/
abbrev JobId := Nat

/-- The `CHECK` constraints of the schema, by name. -/
inductive CheckConstraint
  | tenantAllowancesReservedNonNegative
  | tenantAllowancesCommittedNonNegative
  | tenantAllowancesWithinAllowance
  | spendPeriodsReservedNonNegative
  | spendPeriodsCommittedNonNegative
  | spendPeriodsWithinCap
  | jobsRecordsAdmittedNonNegative
  | jobsCentsChargedNonNegative
  deriving DecidableEq, Repr

/-! ## `tenant_allowances` -/

/-- One tenant's partition of the budget, and what it has spent against it. -/
structure TenantAllowance where
  tenantId : TenantId
  periodId : String
  allowanceCents : Int
  reservedCents : Int
  committedCents : Int
  lookupsPerformed : Int
  reserved_nonneg : 0 ≤ reservedCents
  committed_nonneg : 0 ≤ committedCents
  within_allowance : committedCents + reservedCents ≤ allowanceCents
  deriving DecidableEq

/-- The row with new figures, when they pass the constraints. -/
def TenantAllowance.withFigures (row : TenantAllowance) (reserved committed lookups : Int) :
    Except CheckConstraint TenantAllowance :=
  if hc : 0 ≤ committed then
    if hr : 0 ≤ reserved then
      if hw : committed + reserved ≤ row.allowanceCents then
        .ok { row with
          reservedCents := reserved, committedCents := committed, lookupsPerformed := lookups
          reserved_nonneg := hr, committed_nonneg := hc, within_allowance := hw }
      else .error .tenantAllowancesWithinAllowance
    else .error .tenantAllowancesReservedNonNegative
  else .error .tenantAllowancesCommittedNonNegative

/-- New figures that pass the constraints are written as given. -/
theorem TenantAllowance.withFigures_ok {row row' : TenantAllowance} {r c l : Int}
    (h : row.withFigures r c l = .ok row') :
    row'.tenantId = row.tenantId ∧ row'.allowanceCents = row.allowanceCents ∧
      row'.reservedCents = r ∧ row'.committedCents = c ∧ row'.lookupsPerformed = l := by
  unfold withFigures at h
  split_ifs at h
  cases h
  exact ⟨rfl, rfl, rfl, rfl, rfl⟩

/-- They leave the period of the row alone. -/
theorem TenantAllowance.withFigures_periodId {row row' : TenantAllowance} {r c l : Int}
    (h : row.withFigures r c l = .ok row') : row'.periodId = row.periodId := by
  unfold withFigures at h
  split_ifs at h
  cases h
  rfl

/-- Figures are refused exactly when a constraint fails on them. -/
theorem TenantAllowance.withFigures_isOk (row : TenantAllowance) {r c : Int} (l : Int)
    (hr : 0 ≤ r) (hc : 0 ≤ c) (hw : c + r ≤ row.allowanceCents) :
    ∃ row', row.withFigures r c l = .ok row' := by
  unfold withFigures
  rw [dif_pos hc, dif_pos hr, dif_pos hw]
  exact ⟨_, rfl⟩

/-! ## `spend_periods` -/

/-- The whole company's budget for the period. -/
structure SpendPeriod where
  periodId : String
  capCents : Int
  reservedCents : Int
  committedCents : Int
  reserved_nonneg : 0 ≤ reservedCents
  committed_nonneg : 0 ≤ committedCents
  within_cap : committedCents + reservedCents ≤ capCents
  deriving DecidableEq

/-- The row with new figures, when they pass the constraints. -/
def SpendPeriod.withFigures (row : SpendPeriod) (reserved committed : Int) :
    Except CheckConstraint SpendPeriod :=
  if hc : 0 ≤ committed then
    if hr : 0 ≤ reserved then
      if hw : committed + reserved ≤ row.capCents then
        .ok { row with
          reservedCents := reserved, committedCents := committed
          reserved_nonneg := hr, committed_nonneg := hc, within_cap := hw }
      else .error .spendPeriodsWithinCap
    else .error .spendPeriodsReservedNonNegative
  else .error .spendPeriodsCommittedNonNegative

/-- New figures that pass the constraints are written as given. -/
theorem SpendPeriod.withFigures_ok {row row' : SpendPeriod} {r c : Int}
    (h : row.withFigures r c = .ok row') :
    row'.periodId = row.periodId ∧ row'.capCents = row.capCents ∧
      row'.reservedCents = r ∧ row'.committedCents = c := by
  unfold withFigures at h
  split_ifs at h
  cases h
  exact ⟨rfl, rfl, rfl, rfl⟩

/-- Figures are refused exactly when a constraint fails on them. -/
theorem SpendPeriod.withFigures_isOk (row : SpendPeriod) {r c : Int}
    (hr : 0 ≤ r) (hc : 0 ≤ c) (hw : c + r ≤ row.capCents) :
    ∃ row', row.withFigures r c = .ok row' := by
  unfold withFigures
  rw [dif_pos hc, dif_pos hr, dif_pos hw]
  exact ⟨_, rfl⟩

/-! ## `records` and `jobs` -/

/-- One stored record of one tenant. -/
structure StoredRecord where
  recordId : String
  tenantId : TenantId
  companyName : String
  registryNumber : Option String
  enrichedAt : Option Timestamp
  deriving DecidableEq, Repr

/-- `JobStatus`: imports are only ever stored once they are done. -/
inductive JobStatus
  | completed
  deriving DecidableEq, Repr

/-- One finished import. -/
structure Job where
  jobId : JobId
  tenantId : TenantId
  status : JobStatus
  recordsAdmitted : Int
  centsCharged : Int
  servedBy : String
  records_admitted_nonneg : 0 ≤ recordsAdmitted
  cents_charged_nonneg : 0 ≤ centsCharged
  deriving DecidableEq

/-! ## The store -/

/-- The shared PostgreSQL instance: what is committed in its tables. -/
structure Store where
  tenantAllowances : Keyed TenantAllowance.tenantId
  spendPeriods : Keyed SpendPeriod.periodId
  records : Keyed StoredRecord.recordId
  jobs : Keyed Job.jobId

namespace Store

/-- The allowance row of a tenant. -/
def allowance? (s : Store) (tenantId : TenantId) : Option TenantAllowance :=
  s.tenantAllowances.find? tenantId

/-- The row of the one spend period the application uses. -/
def period? (s : Store) : Option SpendPeriod := s.spendPeriods.find? Fixtures.spendPeriodId

/-- The rows are as seeding leaves them: the period exists and nothing is reserved, spent or
performed anywhere. -/
structure FreshlySeeded (s : Store) : Prop where
  period : ∃ p, s.period? = some p ∧ p.reservedCents = 0 ∧ p.committedCents = 0
  allowances : ∀ row ∈ s.tenantAllowances.entries,
    row.reservedCents = 0 ∧ row.committedCents = 0 ∧ row.lookupsPerformed = 0

/-- What all partitions of the budget add up to. -/
def allowanceTotal (s : Store) : Int := s.tenantAllowances.sum TenantAllowance.allowanceCents

end Store

end Limitless
