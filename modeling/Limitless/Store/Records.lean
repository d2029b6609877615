import Limitless.Store.Balance

/-!
# Records, jobs and usage

The rest of `store.py` that the secure application calls: `upsert_records`, `insert_job`,
`read_records`, `read_job` and `read_usage`. `upsert_records` writes each record once, the last entry for it,
in the order of the identifiers. Neither writer touches a budget table, which is what `Posted`
needs of them.
-/

namespace Limitless

/-- One entry of `upsert_records`. -/
structure RecordEntry where
  recordId : String
  companyName : String
  registryNumber : String
  deriving DecidableEq, Repr

/-- One record as a page shows it. -/
structure PageRecord where
  recordId : String
  companyName : String
  registryNumber : Option String
  enrichedAt : Option Timestamp
  deriving DecidableEq, Repr

/-- One page of a tenant's records. -/
structure RecordPage where
  tenantId : TenantId
  pageSize : Nat
  records : List PageRecord
  deriving DecidableEq, Repr

/-- What a tenant is shown of its own spending. -/
structure UsageView where
  tenantId : TenantId
  periodId : String
  lookupsPerformed : Int
  centsCharged : Int
  currency : String
  deriving DecidableEq, Repr

/-- One finished import, as its tenant is shown it. -/
structure JobView where
  jobId : JobId
  tenantId : TenantId
  status : JobStatus
  recordsAdmitted : Int
  centsCharged : Int
  deriving DecidableEq, Repr

/-- `SQL_UPSERT_RECORD`: insert, or set the three enriched columns of the row that is there. -/
def sqlUpsertRecord (tenantId : TenantId) (enrichedAt : Timestamp)
    (records : Keyed StoredRecord.recordId) (e : RecordEntry) : Keyed StoredRecord.recordId :=
  match records.find? e.recordId with
  | none => records.put
    { recordId := e.recordId
      tenantId := tenantId
      companyName := e.companyName
      registryNumber := some e.registryNumber
      enrichedAt := some enrichedAt }
  | some row => records.put
    { row with
      companyName := e.companyName
      registryNumber := some e.registryNumber
      enrichedAt := some enrichedAt }

/-- The entries `upsert_records` writes: the last one for each record, sorted by identifier. -/
def latestEntries (entries : List RecordEntry) : List RecordEntry :=
  (Keyed.ofList entries : Keyed RecordEntry.recordId).entries.mergeSort fun a b =>
    a.recordId ≤ b.recordId

namespace Store

/-- `upsert_records`. -/
def upsertRecords (s : Store) (tenantId : TenantId) (entries : List RecordEntry)
    (enrichedAt : Timestamp) : Store :=
  if entries = [] then s else
  { s with records := (latestEntries entries).foldl (sqlUpsertRecord tenantId enrichedAt) s.records }

/-- `insert_job`: the row's `CHECK` constraints, then its primary key. -/
def insertJob (s : Store) (jobId : JobId) (tenantId : TenantId) (recordsAdmitted centsCharged : Int)
    (servedBy : String) : Except StoreError Store :=
  if hr : 0 ≤ recordsAdmitted then
    if hc : 0 ≤ centsCharged then
      let job : Job :=
        ⟨jobId, tenantId, .completed, recordsAdmitted, centsCharged, servedBy, hr, hc⟩
      match s.jobs.find? jobId with
      | some _ => .error .uniqueViolation
      | none => .ok { s with jobs := s.jobs.put job }
    else .error (.checkViolation .jobsCentsChargedNonNegative)
  else .error (.checkViolation .jobsRecordsAdmittedNonNegative)

/-- `read_records`. -/
def readRecords (s : Store) (tenantId : TenantId) (pageSize : Nat) : RecordPage where
  tenantId := tenantId
  pageSize := pageSize
  records := (((s.records.entries.filter (·.tenantId = tenantId)).mergeSort fun a b =>
    a.recordId ≤ b.recordId).take pageSize).map fun r =>
      ⟨r.recordId, r.companyName, r.registryNumber, r.enrichedAt⟩

/-- `read_job`: the row of the primary key, if it is the tenant's. -/
def readJob (s : Store) (jobId : JobId) (tenantId : TenantId) : Option JobView :=
  ((s.jobs.find? jobId).filter fun job => job.tenantId = tenantId).map fun job =>
    ⟨job.jobId, job.tenantId, job.status, job.recordsAdmitted, job.centsCharged⟩

/-- `read_usage`. -/
def readUsage (s : Store) (tenantId : TenantId) : Option UsageView :=
  (s.allowance? tenantId).map fun row =>
    ⟨row.tenantId, row.periodId, row.lookupsPerformed, row.committedCents, Fixtures.currencyLabel⟩

/-- `read_usage` shows the committed money and the lookups of the tenant's row. -/
theorem readUsage_eq_some {s : Store} {t : TenantId} {v : UsageView} (h : s.readUsage t = some v) :
    v.centsCharged = s.balance (.tenant t .committed) ∧
      v.lookupsPerformed = s.balance (.lookups t) := by
  obtain ⟨row, hrow, rfl⟩ := Option.map_eq_some_iff.mp h
  simp [Store.balance, hrow, TenantAllowance.cents]

/-! ## The budget tables -/

/-- `δ` was added to the balances and the budgets were left alone, whatever else changed. -/
structure Posted (s : Store) (δ : Account → Int) (s' : Store) : Prop where
  balance : ∀ a, s'.balance a = s.balance a + δ a
  allowance : ∀ t, (s'.allowance? t).map TenantAllowance.allowanceCents =
    (s.allowance? t).map TenantAllowance.allowanceCents
  cap : s'.period?.map SpendPeriod.capCents = s.period?.map SpendPeriod.capCents

variable {s s' : Store} {δ : Account → Int}

theorem Moved.posted (h : s.Moved δ s') : s.Posted δ s' := ⟨h.balance, h.allowance, h.cap⟩

/-- Leaving the two tables alone posts nothing. -/
theorem posted_zero (ht : s'.tenantAllowances = s.tenantAllowances)
    (hp : s'.spendPeriods = s.spendPeriods) : s.Posted (fun _ => 0) s' := by
  have hrow : ∀ t, s'.allowance? t = s.allowance? t := fun t => by simp only [allowance?, ht]
  have hper : s'.period? = s.period? := by simp only [period?, hp]
  refine ⟨?_, fun t => by rw [hrow], by rw [hper]⟩
  rintro (⟨t, m⟩ | t | m | m)
  · simp only [Store.balance, hrow, add_zero]
  · simp only [Store.balance, hrow, add_zero]
  · simp only [Store.balance, ht, add_zero]
  · simp only [Store.balance, hper, add_zero]

theorem upsertRecords_posted (s : Store) (t : TenantId) (entries : List RecordEntry)
    (at' : Timestamp) : s.Posted (fun _ => 0) (s.upsertRecords t entries at') := by
  unfold upsertRecords
  split <;> exact posted_zero rfl rfl

theorem insertJob_posted {j : JobId} {t : TenantId} {n cents : Int} {by' : String}
    (h : s.insertJob j t n cents by' = .ok s') :
    s.Posted (fun _ => 0) s' ∧ s'.records = s.records := by
  unfold insertJob at h
  split at h
  · split at h
    · split at h
      · cases h
      · cases h
        exact ⟨posted_zero rfl rfl, rfl⟩
    · cases h
  · cases h

/-- A tenant's row survives a posting. -/
theorem Posted.allowance_isSome (h : s.Posted δ s') {t : TenantId}
    (hrow : (s.allowance? t).isSome) : (s'.allowance? t).isSome := by
  have := congrArg Option.isSome (h.allowance t)
  simpa [hrow] using this

/-- The period's row survives a posting. -/
theorem Posted.period_isSome (h : s.Posted δ s') (hper : s.period?.isSome) : s'.period?.isSome := by
  have := congrArg Option.isSome h.cap
  simpa [hper] using this

end Store

end Limitless
