import Limitless.Secure.World
import Limitless.Store.Upsert
import Mathlib.Data.List.Basic

/-!
# Whose records an enrichment writes

`SQL_UPSERT_RECORD` has no condition on the tenant: it updates the row of the identifier whoever
owns it. So the tenants are kept apart by how identifiers are made. An identifier is issued to a
tenant (`IssuedTo`) by `enriched_record_id` or, when the store is seeded, by `record_id`. Both end
in a hyphen and characters that are none, and no identifier that `enriched_record_id` makes is
issued to two tenants (`eq_of_issuedTo`), whatever hyphens are in the tenants' names.

`Owned` is the invariant: every row is under an identifier that was issued to its tenant.
-/

namespace Limitless

open Keyed Runs

/-- A lowercase hexadecimal digit. -/
def isHexDigit (c : Char) : Bool := '0' ≤ c ∧ c ≤ '9' ∨ 'a' ≤ c ∧ c ≤ 'f'

/-- `uuid5(…).hex[:12]` is twelve lowercase hexadecimal digits. -/
def Config.HexDigests (cfg : Config) : Prop :=
  ∀ name, (cfg.digest name).toList.length = 12 ∧ (cfg.digest name).toList.all isHexDigit = true

/-- The identifier was made for a record of the tenant. -/
def IssuedTo (cfg : Config) (tenantId : TenantId) (id : String) : Prop :=
  (∃ companyName, id = enrichedRecordId cfg tenantId companyName) ∨
    ∃ index, id = Fixtures.recordId tenantId index

/-- Every row is under an identifier issued to its tenant. -/
def Owned (cfg : Config) (records : Keyed StoredRecord.recordId) : Prop :=
  ∀ row ∈ records.entries, IssuedTo cfg row.tenantId row.recordId

variable {cfg : Config} {a b : TenantId} {id x : String} {index : Nat}

/-! ## Identifiers -/

/-- A text is cut at its last hyphen in one way. -/
theorem eq_of_append_hyphen {l l' m m' : List Char} (hm : '-' ∉ m) (hm' : '-' ∉ m')
    (h : l ++ '-' :: m = l' ++ '-' :: m') : l = l' ∧ m = m' := by
  rcases List.append_eq_append_iff.mp h with ⟨k, rfl, hk⟩ | ⟨k, rfl, hk⟩
  · cases k with
    | nil => exact ⟨(List.append_nil l).symm, (List.cons.inj hk).2⟩
    | cons c k =>
        obtain ⟨-, rfl⟩ := List.cons.inj hk
        exact absurd (List.mem_append_right k List.mem_cons_self) hm
  · cases k with
    | nil => exact ⟨List.append_nil l', (List.cons.inj hk).2.symm⟩
    | cons c k =>
        obtain ⟨-, rfl⟩ := List.cons.inj hk
        exact absurd (List.mem_append_right k List.mem_cons_self) hm'

/-- A digest has no hyphen. -/
theorem Config.HexDigests.hyphen_not_mem (h : cfg.HexDigests) (name : String) :
    '-' ∉ (cfg.digest name).toList := by
  intro hmem
  exact absurd (List.all_eq_true.mp (h name).2 _ hmem) (by decide)

/-- Neither has a padded number. -/
theorem hyphen_not_mem_zeroPadded (width number : Nat) :
    '-' ∉ (Fixtures.zeroPadded width number).toList := by
  have hdigits : (toString number).toList = Nat.toDigits 10 number := String.toList_ofList
  intro hmem
  rw [Fixtures.zeroPadded, String.toList_append, List.mem_append, String.toList_ofList,
    hdigits] at hmem
  rcases hmem with hzero | hdigit
  · cases List.eq_of_mem_replicate hzero
  · exact absurd (Nat.isDigit_of_mem_toDigits (by decide) (by decide) hdigit) (by decide)

theorem toList_enrichedRecordId (cfg : Config) (a : TenantId) (x : String) :
    (enrichedRecordId cfg a x).toList = a.toList ++ ['-', 'E', 'N', 'R'] ++
      '-' :: (cfg.digest ("limitless:" ++ a ++ ":" ++ x)).toList := by
  have hmark : "-ENR-".toList = ['-', 'E', 'N', 'R', '-'] := by decide
  rw [enrichedRecordId, String.toList_append, String.toList_append, hmark]
  simp

theorem toList_recordId (a : TenantId) (index : Nat) :
    (Fixtures.recordId a index).toList = a.toList ++ ['-', 'R', 'E', 'C'] ++
      '-' :: (Fixtures.zeroPadded 5 index).toList := by
  have hmark : "-REC-".toList = ['-', 'R', 'E', 'C', '-'] := by decide
  rw [Fixtures.recordId, String.toList_append, String.toList_append, hmark]
  simp

/-- An enriched identifier is one tenant's. -/
theorem enrichedRecordId_tenant (h : cfg.HexDigests) {x y : String}
    (heq : enrichedRecordId cfg a x = enrichedRecordId cfg b y) : a = b := by
  have hlist := congrArg String.toList heq
  rw [toList_enrichedRecordId, toList_enrichedRecordId] at hlist
  obtain ⟨hmark, -⟩ :=
    eq_of_append_hyphen (h.hyphen_not_mem _) (h.hyphen_not_mem _) hlist
  exact String.toList_inj.mp (List.append_inj' hmark rfl).1

/-- It is no identifier of a seeded record. -/
theorem enrichedRecordId_ne_recordId (h : cfg.HexDigests) (a b : TenantId) (x : String)
    (index : Nat) : enrichedRecordId cfg a x ≠ Fixtures.recordId b index := by
  intro heq
  have hlist := congrArg String.toList heq
  rw [toList_enrichedRecordId, toList_recordId] at hlist
  obtain ⟨hmark, -⟩ :=
    eq_of_append_hyphen (h.hyphen_not_mem _) (hyphen_not_mem_zeroPadded 5 index) hlist
  exact absurd (List.append_inj' hmark rfl).2 (by decide)

/-- **One tenant's.** An enriched identifier is issued to the tenant in it alone. -/
theorem eq_of_issuedTo (h : cfg.HexDigests) (hid : IssuedTo cfg b (enrichedRecordId cfg a x)) :
    b = a := by
  rcases hid with ⟨y, hy⟩ | ⟨index, hindex⟩
  · exact (enrichedRecordId_tenant h hy).symm
  · exact absurd hindex (enrichedRecordId_ne_recordId h a b x index)

/-! ## The invariant -/

/-- The seeded records are their tenants'. -/
theorem resetFixtures_owned (cfg : Config) : Owned cfg Store.resetFixtures.records := by
  intro row hrow
  obtain ⟨tenantId, -, hmem⟩ := List.mem_flatMap.mp (mem_of_mem_ofList hrow)
  obtain ⟨index, -, rfl⟩ := List.mem_map.mp hmem
  exact .inr ⟨index, rfl⟩

variable {records : Keyed StoredRecord.recordId} {e : RecordEntry} {at' : Timestamp}

/-- Where every row is its tenant's, an upsert for a tenant meets a row of that tenant, or none. -/
theorem Owned.tenantId_eq (h : Owned cfg records) (hdigest : cfg.HexDigests)
    (he : e.recordId = enrichedRecordId cfg a x) {row : StoredRecord}
    (hrow : records.find? e.recordId = some row) : row.tenantId = a := by
  have hissued := h row (find?_mem hrow)
  rw [find?_key hrow, he] at hissued
  exact eq_of_issuedTo hdigest hissued

/-- An upsert leaves the rows of the other tenants as they are. -/
theorem Owned.mem_sqlUpsertRecord (h : Owned cfg records) (hdigest : cfg.HexDigests)
    (he : e.recordId = enrichedRecordId cfg a x) {row : StoredRecord} (hrow : row ∈ records.entries)
    (hother : row.tenantId ≠ a) : row ∈ (sqlUpsertRecord a at' records e).entries := by
  have hne : e.recordId ≠ row.recordId := by
    intro heq
    exact hother (h.tenantId_eq hdigest he (heq ▸ find?_of_mem hrow))
  have hfind := (sqlUpsertRecord_merges a at').find? records e row.recordId
  rw [if_neg hne, find?_of_mem hrow] at hfind
  exact find?_mem hfind

/-- An upsert of an entry for its tenant keeps every row its tenant's. -/
theorem Owned.sqlUpsertRecord (h : Owned cfg records)
    (he : e.recordId = enrichedRecordId cfg a x) : Owned cfg (sqlUpsertRecord a at' records e) := by
  intro row hrow
  have hfind := (sqlUpsertRecord_merges a at').find? records e row.recordId
  rw [find?_of_mem hrow] at hfind
  split at hfind
  · cases hold : records.find? row.recordId with
    | none =>
        rw [hold] at hfind
        cases hfind
        exact .inl ⟨x, he⟩
    | some old =>
        rw [hold] at hfind
        cases hfind
        exact h old (find?_mem hold)
  · exact h row (find?_mem hfind.symm)

/-! ## Batches -/

/-- What `perform_lookups` upserts, for an enrichment or an import: the results of a tenant's
lookups, at a time. -/
structure Enrichment where
  tenantId : TenantId
  result : LookupResponse
  enrichedAt : Timestamp

/-- Its entries. -/
def Enrichment.entries (cfg : Config) (u : Enrichment) : List RecordEntry :=
  recordEntries cfg u.tenantId u.result

/-- Its `upsert_records`. -/
def Enrichment.upsert (cfg : Config) (u : Enrichment) (s : Store) : Store :=
  s.upsertRecords u.tenantId (u.entries cfg) u.enrichedAt

/-- The records when the statements for some of its entries have been run. -/
def Enrichment.after (u : Enrichment) (s : Store) (written : List RecordEntry) :
    Keyed StoredRecord.recordId :=
  written.foldl (sqlUpsertRecord u.tenantId u.enrichedAt) s.records

/-- Upserts of enrichments, by any tenants. -/
def enrichmentSteps (cfg : Config) : Store → Enrichment → Store → Prop :=
  fun s u s' => s' = u.upsert cfg s

variable {u : Enrichment} {s : Store} {written : List RecordEntry}

/-- The entries of an enrichment are under identifiers of its tenant. -/
theorem Enrichment.recordId_eq (h : e ∈ latestEntries (u.entries cfg)) :
    ∃ x, e.recordId = enrichedRecordId cfg u.tenantId x := by
  obtain ⟨earlier, later, hentries, -⟩ := mem_latestEntries.mp h
  have hmem : e ∈ u.entries cfg := hentries ▸ List.mem_append_right _ List.mem_cons_self
  obtain ⟨item, -, rfl⟩ := List.mem_map.mp hmem
  exact ⟨item.companyName, rfl⟩

/-- Every row is its tenant's after any of the statements of a batch. -/
theorem Owned.after (h : Owned cfg s.records)
    (hwritten : ∀ e ∈ written, e ∈ latestEntries (u.entries cfg)) :
    Owned cfg (u.after s written) := by
  induction written using List.reverseRecOn with
  | nil => exact h
  | append_singleton written e ih =>
      obtain ⟨x, hx⟩ := Enrichment.recordId_eq (hwritten e (by simp))
      rw [Enrichment.after, List.foldl_concat]
      exact (ih fun e' he' => hwritten e' (by simp [he'])).sqlUpsertRecord hx

/-- So it is in every store reached. -/
theorem owned_of_run {s₀ : Store} {us : List Enrichment}
    (hrun : Run (enrichmentSteps cfg) s₀ us s) (h : Owned cfg s₀.records) :
    Owned cfg s.records := by
  have hstep : ∀ (s : Store) u s', Owned cfg s.records → enrichmentSteps cfg s u s' →
      Owned cfg s'.records := by
    intro s u s' h hs'
    rw [hs', Enrichment.upsert, Store.upsertRecords_records]
    exact h.after fun _ he => he
  exact Run.invariant (I := fun s => Owned cfg s.records) hrun hstep h

/-- What a statement of a batch meets, and the entry it is for. -/
theorem owned_at_statement {us : List Enrichment} {pending : List RecordEntry}
    (hrun : Run (enrichmentSteps cfg) Store.resetFixtures us s)
    (hbatch : latestEntries (u.entries cfg) = written ++ e :: pending) :
    Owned cfg (u.after s written) ∧ ∃ x, e.recordId = enrichedRecordId cfg u.tenantId x := by
  have hmem : ∀ e' ∈ written ++ e :: pending, e' ∈ latestEntries (u.entries cfg) := by
    rw [hbatch]
    exact fun _ he' => he'
  have howned := owned_of_run hrun (resetFixtures_owned cfg)
  exact ⟨howned.after fun e' he' => hmem e' (List.mem_append_left _ he'),
    Enrichment.recordId_eq (hmem e (by simp))⟩

/-- What keeps an enrichment to its tenant's records: the identifiers, and what every single
`SQL_UPSERT_RECORD` meets and leaves, in any batch after any batches. -/
structure RecordsIsolated (cfg : Config) : Prop where
  enriched : ∀ a b x y, a ≠ b → enrichedRecordId cfg a x ≠ enrichedRecordId cfg b y
  seeded : ∀ a b x index, enrichedRecordId cfg a x ≠ Fixtures.recordId b index
  /-- A row that is updated is one of the tenant's. -/
  meets : ∀ {us s}, Run (enrichmentSteps cfg) Store.resetFixtures us s →
    ∀ {u : Enrichment} {written e pending},
      latestEntries (u.entries cfg) = written ++ e :: pending →
      ∀ row, (u.after s written).find? e.recordId = some row → row.tenantId = u.tenantId
  /-- The rows of the others stay as they are. -/
  leaves : ∀ {us s}, Run (enrichmentSteps cfg) Store.resetFixtures us s →
    ∀ {u : Enrichment} {written e pending},
      latestEntries (u.entries cfg) = written ++ e :: pending →
      ∀ row ∈ (u.after s written).entries, row.tenantId ≠ u.tenantId →
        row ∈ (u.after s (written ++ [e])).entries

/-- **No tenant touches another's records**, if the digests are what `uuid5` makes. -/
theorem records_isolated (hdigest : cfg.HexDigests) : RecordsIsolated cfg where
  enriched _ _ _ _ hne heq := hne (enrichedRecordId_tenant hdigest heq)
  seeded := enrichedRecordId_ne_recordId hdigest
  meets hrun u written e pending hbatch row hrow := by
    obtain ⟨howned, x, hx⟩ := owned_at_statement hrun hbatch
    exact howned.tenantId_eq hdigest hx hrow
  leaves hrun u written e pending hbatch row hrow hother := by
    obtain ⟨howned, x, hx⟩ := owned_at_statement hrun hbatch
    rw [Enrichment.after, List.foldl_concat]
    exact howned.mem_sqlUpsertRecord hdigest hx hrow hother

theorem records_isolated_demo : RecordsIsolated (.demo 1) := by
  have hdigits : "334dab899b8f".toList.length = 12 ∧
      "334dab899b8f".toList.all isHexDigit = true := by decide
  exact records_isolated fun _ => hdigits

end Limitless
