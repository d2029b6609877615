import Limitless.Lib.Upsert
import Limitless.Store.Locking

/-!
# A batch of upserts is the upserts one by one

`upsert_records` deduplicates and sorts its entries before it writes them, which changes the order
of the writes and leaves some out. `sqlUpsertRecord_merges` is why that changes nothing: what
`SQL_UPSERT_RECORD` leaves of an entry does not depend on the entries of the same record before it.
`UpsertRecordsWrites` is what is written: the statements that are run, and the table they leave.
-/

namespace Limitless

open Keyed RowLock

variable {t : TenantId} {at' : Timestamp} {entries : List RecordEntry} {e : RecordEntry}

/-- An upsert forgets an earlier one of the same record, whenever that was. -/
theorem upsertedRecord_forgets (t : TenantId) (at₀ at' : Timestamp) {e e' : RecordEntry}
    (o : Option StoredRecord) (h : e.recordId = e'.recordId) :
    upsertedRecord t at' e' (some (upsertedRecord t at₀ e o)) = upsertedRecord t at' e' o := by
  cases o with
  | none => simp [upsertedRecord, h]
  | some row => rfl

/-- `SQL_UPSERT_RECORD` is an upsert where the last entry wins. -/
theorem sqlUpsertRecord_merges (t : TenantId) (at' : Timestamp) :
    Merges RecordEntry.recordId (upsertedRecord t at') (sqlUpsertRecord t at') where
  find? records e id := by
    have := congrFun (find?_sqlUpsertRecord t at' records e) id
    rw [this, Function.update_apply]
    by_cases h : e.recordId = id
    · rw [if_pos h.symm, if_pos h, h]
    · rw [if_neg (Ne.symm h), if_neg h]
  forgets e e' o h := upsertedRecord_forgets t at' at' o h

/-- What is written for a record is the last entry for it. -/
theorem lastEntry_latestEntries (entries : List RecordEntry) (id : String) :
    lastEntry RecordEntry.recordId (latestEntries entries) id =
      lastEntry RecordEntry.recordId entries id := by
  rw [latestEntries, lastEntry_of_perm (List.mergeSort_perm ..), find?_ofList]

/-- The entries written are the last ones. -/
theorem mem_latestEntries : e ∈ latestEntries entries ↔
    ∃ earlier later, entries = earlier ++ e :: later ∧ ∀ e' ∈ later, e'.recordId ≠ e.recordId := by
  have hmem : e ∈ latestEntries entries ↔ lastEntry RecordEntry.recordId entries e.recordId =
      some e := by
    rw [← find?_ofList]
    exact List.mem_mergeSort.trans ⟨find?_of_mem, find?_mem⟩
  rw [hmem, lastEntry_eq_some, and_iff_right rfl]

namespace Store

/-- The records after a batch, empty or not. -/
theorem upsertRecords_records (s : Store) (t : TenantId) (entries : List RecordEntry)
    (at' : Timestamp) : (s.upsertRecords t entries at').records =
      (latestEntries entries).foldl (sqlUpsertRecord t at') s.records := by
  unfold upsertRecords
  split
  · next h =>
      have hnil : latestEntries [] = [] := List.mergeSort_nil
      rw [h, hnil, List.foldl_nil]
  · rfl

/-- The row of a record after a batch: what the last entry for it makes of the row before. -/
theorem find?_upsertRecords (s : Store) (t : TenantId) (entries : List RecordEntry)
    (at' : Timestamp) (id : String) : (s.upsertRecords t entries at').records.find? id =
      ((lastEntry RecordEntry.recordId entries id).map fun e =>
        upsertedRecord t at' e (s.records.find? id)).or (s.records.find? id) := by
  rw [upsertRecords_records, (sqlUpsertRecord_merges t at').find?_foldl, lastEntry_latestEntries]

/-- A batch takes a store to `s'` by writing the rows of `writes`, in that order. -/
structure UpsertRecordsWrites (s : Store) (t : TenantId) (entries : List RecordEntry)
    (at' : Timestamp) (s' : Store) (writes : List RecordEntry) : Prop where
  /-- These are the statements it runs. -/
  statements : (WriteTransaction.upsertRecords t entries at').program =
    .ok (writes.map (upsertStatement t at'))
  /-- Run on the rows there are, they leave the rows of `s'`. -/
  rows : atomic s.lockedRows (.ok (writes.map (upsertStatement t at'))) = (s'.lockedRows, .ok ())
  /-- And they leave its table. -/
  table : s'.records = writes.foldl (sqlUpsertRecord t at') s.records
  /-- They are in the order of the identifiers, with one for each record. -/
  ascending : writes.Pairwise fun a b => a.recordId < b.recordId
  /-- Each is of the last entry for its record. -/
  latest : ∀ e, e ∈ writes ↔ ∃ earlier later,
    entries = earlier ++ e :: later ∧ ∀ e' ∈ later, e'.recordId ≠ e.recordId

/-- What a batch of upserts does to the records: what its entries would, one by one. -/
structure UpsertsInOrder (s : Store) (t : TenantId) (entries : List RecordEntry) (at' : Timestamp)
    (s' : Store) : Prop where
  /-- The same rows are in the table. -/
  sequential : s'.records.entries.Perm (entries.foldl (sqlUpsertRecord t at') s.records).entries
  /-- One row is written for each record, in the order of the identifiers. -/
  writes : ∃ writes, s.UpsertRecordsWrites t entries at' s' writes
  /-- A record that no entry names has the row it had. -/
  others : ∀ id, (∀ e ∈ entries, e.recordId ≠ id) → s'.records.find? id = s.records.find? id
  /-- A row that was there is its tenant's still. -/
  owner : ∀ row ∈ s.records.entries, ∃ row' ∈ s'.records.entries,
    row'.recordId = row.recordId ∧ row'.tenantId = row.tenantId
  /-- The other tables are left alone. -/
  tables : s'.tenantAllowances = s.tenantAllowances ∧ s'.spendPeriods = s.spendPeriods ∧
    s'.jobs = s.jobs
  /-- Without entries nothing is. -/
  empty : entries = [] → s' = s

/-- A row that is there keeps its record and its tenant. -/
theorem owner_upsertRecords (s : Store) (t : TenantId) (entries : List RecordEntry)
    (at' : Timestamp) {row : StoredRecord} (hrow : row ∈ s.records.entries) :
    ∃ row' ∈ (s.upsertRecords t entries at').records.entries,
      row'.recordId = row.recordId ∧ row'.tenantId = row.tenantId := by
  have hfind := s.find?_upsertRecords t entries at' row.recordId
  rw [find?_of_mem hrow] at hfind
  cases hlast : lastEntry RecordEntry.recordId entries row.recordId with
  | none =>
      rw [hlast] at hfind
      exact ⟨row, find?_mem hfind, rfl, rfl⟩
  | some e =>
      rw [hlast] at hfind
      exact ⟨upsertedRecord t at' e (some row), find?_mem hfind, rfl, rfl⟩

/-- The entries a batch writes are the last ones, sorted. -/
theorem upsertRecords_writes (s : Store) (t : TenantId) (entries : List RecordEntry)
    (at' : Timestamp) :
    s.UpsertRecordsWrites t entries at' (s.upsertRecords t entries at') (latestEntries entries) := by
  have hprogram : (WriteTransaction.upsertRecords t entries at').program =
      .ok ((latestEntries entries).map (upsertStatement t at')) := by
    simp only [WriteTransaction.program]
    split
    · next h =>
        have hnil : latestEntries [] = [] := List.mergeSort_nil
        rw [h, hnil, List.map_nil]
    · rfl
  have hrows := s.atomic_performWrite (.upsertRecords t entries at')
  rw [hprogram] at hrows
  exact ⟨hprogram, hrows, s.upsertRecords_records t entries at', latestEntries_pairwise entries,
    fun _ => mem_latestEntries⟩

/-- **A batch is its entries in order**, for every table and every list of entries. -/
theorem upsertRecords_upsertsInOrder (s : Store) (t : TenantId) (entries : List RecordEntry)
    (at' : Timestamp) : s.UpsertsInOrder t entries at' (s.upsertRecords t entries at') where
  sequential := by
    rw [upsertRecords_records]
    exact perm_of_find? ((sqlUpsertRecord_merges t at').find?_foldl_congr s.records
      (lastEntry_latestEntries entries))
  writes := ⟨_, s.upsertRecords_writes t entries at'⟩
  others id h := by
    rw [find?_upsertRecords, lastEntry_eq_none.mpr h]
    rfl
  owner _ := s.owner_upsertRecords t entries at'
  tables := by
    unfold upsertRecords
    split <;> exact ⟨rfl, rfl, rfl⟩
  empty h := by rw [upsertRecords, if_pos h]

end Store

end Limitless
