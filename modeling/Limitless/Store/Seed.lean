import Limitless.Store.Schema

/-!
# Seeding

`seed.py`'s `reset_fixtures`: discard all state and rebuild the fictional fixtures. Every run of
the demonstration starts from the store this leaves, `resetFixtures`, and the two facts the rest
of the development asks of it are proved here: its rows are fresh, and its partition of the budget
stays inside the cap.
-/

namespace Limitless

/-- A tenant's row as `INSERT INTO tenant_allowances` leaves it. -/
def TenantAllowance.fresh (tenantId : TenantId) (allowance : Int) (h : 0 ≤ allowance) :
    TenantAllowance where
  tenantId := tenantId
  periodId := Fixtures.spendPeriodId
  allowanceCents := allowance
  reservedCents := 0
  committedCents := 0
  lookupsPerformed := 0
  reserved_nonneg := le_rfl
  committed_nonneg := le_rfl
  within_allowance := by simpa using h

/-- The period's row as `INSERT INTO spend_periods` leaves it. -/
def SpendPeriod.fresh (cap : Int) (h : 0 ≤ cap) : SpendPeriod where
  periodId := Fixtures.spendPeriodId
  capCents := cap
  reservedCents := 0
  committedCents := 0
  reserved_nonneg := le_rfl
  committed_nonneg := le_rfl
  within_cap := by simpa using h

/-- `seed_records`: every stored record every tenant starts a run with. -/
def seedRecords : List StoredRecord :=
  Fixtures.billableTenantIds.flatMap fun tenantId =>
    (List.range' 1 Fixtures.recordsPerTenant).map fun index =>
      { recordId := Fixtures.recordId tenantId index
        tenantId := tenantId
        companyName := Fixtures.companyName index
        registryNumber := none
        enrichedAt := none }

namespace Store

/-- A store with fresh rows: a partition for each of the tenants named, and a cap. -/
def seeded (tenants : List TenantId) (allowance cap : Int) (ha : 0 ≤ allowance) (hc : 0 ≤ cap)
    (records : List StoredRecord) : Store where
  tenantAllowances := Keyed.ofList (tenants.map fun t => .fresh t allowance ha)
  spendPeriods := Keyed.ofList [.fresh cap hc]
  records := Keyed.ofList records
  jobs := Keyed.empty

/-- `reset_fixtures`. -/
def resetFixtures : Store :=
  seeded Fixtures.billableTenantIds Fixtures.tenantAllowanceCents Fixtures.globalSpendCapCents
    (by decide) (by decide) seedRecords

/-- Seeding leaves fresh rows. -/
theorem seeded_freshlySeeded (tenants : List TenantId) {allowance cap : Int} (ha : 0 ≤ allowance)
    (hc : 0 ≤ cap) (records : List StoredRecord) :
    (seeded tenants allowance cap ha hc records).FreshlySeeded where
  period := ⟨.fresh cap hc, rfl, rfl, rfl⟩
  allowances row hrow := by
    obtain ⟨t, _, rfl⟩ := List.mem_map.mp (Keyed.mem_of_mem_ofList hrow)
    exact ⟨rfl, rfl, rfl⟩

/-- Three tenants at their full share still sit inside the whole budget. -/
theorem resetFixtures_partition :
    resetFixtures.allowanceTotal ≤ Fixtures.globalSpendCapCents := by decide

end Store

end Limitless
