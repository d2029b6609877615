import Limitless.Store.Records
import Limitless.Store.Seed

/-!
# The store of the unbounded application

The table `admitted_work` of `schema.py`, beside the tables the two variants share, and the writer
and the reader of `store.py` that only the unbounded variant uses. The table has no `CHECK`, so
`record_admitted_work` refuses a negative figure itself. A connection of the application commits
each statement by itself: what has been written stays written whatever becomes of the request.
-/

namespace Limitless

/-! ## Rows that stay -/

namespace Store

variable {s s' : Store} {j k : JobId} {job : Job} {n cents : Int} {by' : String} {t : TenantId}

/-- An inserted job is stored, and so is every job that was. -/
theorem insertJob_jobs (h : s.insertJob j t n cents by' = .ok s') :
    (∃ job', s'.jobs.find? j = some job' ∧ job'.tenantId = t ∧ job'.recordsAdmitted = n ∧
      job'.centsCharged = cents ∧ job'.status = .completed ∧ job'.servedBy = by') ∧
    ∀ k job, s.jobs.find? k = some job → s'.jobs.find? k = some job := by
  unfold insertJob at h
  split at h
  · split at h
    · split at h
      · cases h
      · next hnone =>
          cases h
          refine ⟨⟨_, Keyed.find?_put_self _ _, rfl, rfl, rfl, rfl, rfl⟩, fun k job hjob => ?_⟩
          refine (Keyed.find?_put_of_ne _ ?_).trans hjob
          rintro rfl
          rw [hnone] at hjob
          cases hjob
    · cases h
  · cases h

/-- A job of non-negative figures is refused for its identifier alone. -/
theorem insertJob_error {e : StoreError} (hn : 0 ≤ n)
    (h : s.insertJob j t n cents by' = .error e) :
    cents < 0 ∨ e = .uniqueViolation ∧ (s.jobs.find? j).isSome := by
  unfold insertJob at h
  rw [dif_pos hn] at h
  split at h
  · split at h
    · next job hjob =>
        cases h
        exact .inr ⟨rfl, by rw [hjob]; rfl⟩
    · cases h
  · next hneg => exact .inl (not_le.mp hneg)

theorem upsertRecords_jobs (s : Store) (t : TenantId) (entries : List RecordEntry)
    (at' : Timestamp) : (s.upsertRecords t entries at').jobs = s.jobs := by
  unfold upsertRecords
  split <;> rfl

end Store

namespace Vulnerable

/-! ## `admitted_work` -/

/-- What a tenant has been taken on for. -/
structure AdmittedWork where
  tenantId : TenantId
  recordsAdmitted : Int
  centsAdmitted : Int
  deriving DecidableEq, Repr

/-- `SQL_RECORD_ADMITTED_WORK`. -/
def sqlRecordAdmittedWork (records cents : Int) : Update AdmittedWork.tenantId CheckConstraint where
  guard _ := true
  set row := .ok { row with
    recordsAdmitted := row.recordsAdmitted + records, centsAdmitted := row.centsAdmitted + cents }
  key_set _ _ h := by cases h; rfl

/-- The shared tables and `admitted_work`. -/
structure Database where
  store : Store
  admittedWork : Keyed AdmittedWork.tenantId

namespace Database

/-- `record_admitted_work`: write down work as it is taken on. -/
def recordAdmittedWork (d : Database) (tenantId : TenantId) (records cents : Int) :
    Except StoreError Database :=
  if records < 0 ∨ cents < 0 then
    .error (.valueError s!"cannot admit {records} records worth {cents}")
  else
    match d.admittedWork.update tenantId (sqlRecordAdmittedWork records cents) with
    | .error c => .error (.checkViolation c)
    | .ok (t, _) => .ok { d with admittedWork := t }

/-- `read_admitted_usage`: a tenant's spend as this application records it. -/
def readAdmittedUsage (d : Database) (tenantId : TenantId) : Option UsageView :=
  (d.admittedWork.find? tenantId).map fun row =>
    ⟨row.tenantId, Fixtures.spendPeriodId, row.recordsAdmitted, row.centsAdmitted,
      Fixtures.currencyLabel⟩

/-- The records a tenant's row shows; an absent row shows none. -/
def recordsAdmitted (d : Database) (tenantId : TenantId) : Int :=
  (d.admittedWork.find? tenantId).elim 0 AdmittedWork.recordsAdmitted

/-- The cents it shows. -/
def centsAdmitted (d : Database) (tenantId : TenantId) : Int :=
  (d.admittedWork.find? tenantId).elim 0 AdmittedWork.centsAdmitted

variable {d d' : Database} {t : TenantId} {records cents : Int}

/-- `record_admitted_work`, read off the row it names. -/
theorem recordAdmittedWork_eq (hrecords : 0 ≤ records) (hcents : 0 ≤ cents) :
    d.recordAdmittedWork t records cents = .ok { d with
      admittedWork := (d.admittedWork.find? t).elim d.admittedWork fun row =>
        d.admittedWork.put { row with
          recordsAdmitted := row.recordsAdmitted + records
          centsAdmitted := row.centsAdmitted + cents } } := by
  unfold recordAdmittedWork Keyed.update
  rw [if_neg (by omega)]
  cases d.admittedWork.find? t <;> rfl

/-- Recorded work is added to the figures of its tenant, and nothing else changes. -/
theorem recordAdmittedWork_ok (h : d.recordAdmittedWork t records cents = .ok d') :
    d'.store = d.store ∧
    (∀ u, (d'.admittedWork.find? u).isSome = (d.admittedWork.find? u).isSome) ∧
    ∀ u, (d.admittedWork.find? u).isSome →
      d'.recordsAdmitted u = d.recordsAdmitted u + (if t = u then records else 0) ∧
      d'.centsAdmitted u = d.centsAdmitted u + if t = u then cents else 0 := by
  have hnonneg : ¬ (records < 0 ∨ cents < 0) := by
    intro hneg
    rw [recordAdmittedWork, if_pos hneg] at h
    cases h
  rw [recordAdmittedWork_eq (by omega) (by omega)] at h
  cases h
  cases hrow : d.admittedWork.find? t with
  | none =>
      refine ⟨rfl, fun _ => rfl, fun u hu => ?_⟩
      have hne : t ≠ u := by
        rintro rfl
        rw [hrow] at hu
        cases hu
      simp [hne, recordsAdmitted, centsAdmitted]
  | some row =>
      have hkey := Keyed.find?_key hrow
      simp only [Option.elim_some, recordsAdmitted, centsAdmitted]
      refine ⟨trivial, fun u => ?_, fun u _ => ?_⟩
      all_goals
        rw [Keyed.find?_put]
        by_cases hu : t = u
        · subst hu
          simp [hkey, hrow]
        · simp [hkey, hu]

/-- Work that is not negative is always recorded. -/
theorem recordAdmittedWork_isOk (d : Database) (t : TenantId) (hrecords : 0 ≤ records)
    (hcents : 0 ≤ cents) : ∃ d', d.recordAdmittedWork t records cents = .ok d' :=
  ⟨_, recordAdmittedWork_eq hrecords hcents⟩

end Database

end Vulnerable

end Limitless
