import Limitless.Expansion.Chunking
import Limitless.Secure.Task

/-!
# What the edge admits, and what can be carried

Two paths lead to a reservation. `enrich` validates an `EnrichRequest`, whose records carry the
bounds on a company name; `import_bundle` takes whatever names stand on the lines of a bundle. The
names then go to the provider, which validates its own `LookupItem`, and into a `TEXT` column, which
holds no zero character. A name that either refuses fails the batch after `attempted` has been set,
and the reservation is settled for all of it.

The validated models carry what was checked as a field, so an enriched name is a `LookupItem` by
construction (`RecordInput.lookupItem`). What is left to chance is the zero character on one path,
and everything on the other: `admitted_carried_iff` says so exactly.
-/

namespace Limitless

open Inflate Runs

/-! ## The models of a company name -/

/-- A lone surrogate: a code point of no character. -/
def isSurrogate (c : Fin 0x110000) : Bool := 0xD800 ≤ c.val ∧ c.val ≤ 0xDFFF

/-- A `str` with `Field(min_length, max_length)`. -/
structure StrField (minLength maxLength : ℕ) (s : PyStr) : Prop where
  /-- The value is a valid Unicode string. -/
  unicode : ∀ c ∈ s, isSurrogate c = false
  min_length : minLength ≤ s.length
  max_length : s.length ≤ maxLength

instance (minLength maxLength : ℕ) (s : PyStr) : Decidable (StrField minLength maxLength s) :=
  -- over the characters of the string, not over all code points
  decidable_of_iff (s.all (fun c => !isSurrogate c) ∧ minLength ≤ s.length ∧ s.length ≤ maxLength)
    ⟨fun h => ⟨by simpa using h.1, h.2.1, h.2.2⟩, fun h => ⟨by simpa using h.1, h.2, h.3⟩⟩

/-- `RecordInput`, validated. -/
structure RecordInput where
  companyName : PyStr
  companyName_field : StrField 1 200 companyName

/-- `LookupItem`, validated. -/
structure LookupItem where
  companyName : PyStr
  companyName_field : StrField 1 200 companyName

/-- `EnrichRequest`, validated. -/
structure EnrichRequest where
  records : List RecordInput

/-- `RecordInput.model_validate`. -/
def RecordInput.validate (value : Json) : Option RecordInput :=
  match value.companyName? with
  | none => none
  | some name => if h : StrField 1 200 name then some ⟨name, h⟩ else none

/-- The key of the records of an `EnrichRequest`. -/
def recordsKey : PyStr := .ofString "records"

/-- `EnrichRequest.model_validate`. -/
def EnrichRequest.validate (members : List (PyStr × Json)) : Option EnrichRequest :=
  match Json.get? members recordsKey with
  | some (.array items) => (items.mapM RecordInput.validate).map EnrichRequest.mk
  | some (.object _) | some (.string _) | some .other | none => none

/-- `LookupItem.model_validate`, on the item the client sends for a name. -/
def LookupItem.validate (name : PyStr) : Option LookupItem :=
  if h : StrField 1 200 name then some ⟨name, h⟩ else none

/-- What is checked of a record is what the provider checks of a lookup. -/
def RecordInput.lookupItem (r : RecordInput) : LookupItem := ⟨r.companyName, r.companyName_field⟩

/-- A value of a `TEXT` column. -/
def Storable (s : PyStr) : Prop := ∀ c ∈ s, c.val ≠ 0

instance (s : PyStr) : Decidable (Storable s) :=
  List.decidableBAll (fun c : Fin 0x110000 => c.val ≠ 0) s

/-! ## The two paths to the reservation -/

/-- `parse_json_object`. -/
def parseJsonObject (loads : Loads) (body : Bytes) : Except InputRefusal (List (PyStr × Json)) :=
  match loads body with
  | .value (.object members) => .ok members
  | .value (.array _) | .value (.string _) | .value .other | .valueError => .error .malformed
  | .recursionError => .error .failed

/-- The `EnrichRequest` of a body that has been read. -/
def enrichPayload (loads : Loads) (body : Bytes) : Except InputRefusal EnrichRequest :=
  match parseJsonObject loads body with
  | .error e => .error e
  | .ok members =>
    match EnrichRequest.validate members with
    | none => .error .malformed
    | some payload => .ok payload

/-- The company names `enrich` makes of a body it has read. -/
def enrichNames (loads : Loads) (bounds : SecureBounds) (body : Bytes) :
    Except InputRefusal (List PyStr) :=
  match enrichPayload loads body with
  | .error e => .error e
  | .ok payload =>
    -- `require_batch_within`
    if payload.records.length > bounds.maxBatchItems then .error .tooLarge
    else .ok (payload.records.map RecordInput.companyName)

/-- What a caller uploads. -/
inductive Upload
  | enrich (body : Bytes)
  | importBundle (chunks : List Bytes)

/-- An upload reaches the reservation with these names. -/
def Admits (D : Decompressor UInt8) (loads : Loads) (bounds : SecureBounds) :
    Upload → List PyStr → Prop
  | .enrich body, names => enrichNames loads bounds body = .ok names
  | .importBundle chunks, names =>
    ∃ result, Reads D loads bounds .importBundle chunks (.ok result) ∧ names = result.companyNames

/-! ## The batch -/

/-- How the names of a batch fail it. -/
inductive BatchFailure
  /-- The provider's validation answers a `422`. -/
  | rejected
  /-- The upsert raises. -/
  | unstorable
  deriving DecidableEq, Repr

/-- The `try` block of `perform_lookups` from `attempted = True` on, as far as the names decide it:
the lookups, and then the upsert of what they answer. -/
def attemptBatch (names : List PyStr) : Option BatchFailure :=
  match names.mapM LookupItem.validate with
  | none => some .rejected
  | some items => if ∀ item ∈ items, Storable item.companyName then none else some .unstorable

/-- What the reservation is then settled for. -/
def settledCents (r : Reservation) (centsCharged : Int) : Option BatchFailure → Int
  | none => centsCharged
  | some _ => r.cents

/-- The batch can be carried: every name is a valid lookup and a value of the column. -/
def Carried (names : List PyStr) : Prop :=
  (∀ name ∈ names, StrField 1 200 name ∧ Storable name) ∧ attemptBatch names = none

variable {D : Decompressor UInt8} {dec : Decoding UInt8} {loads : Loads} {bounds : SecureBounds}
  {names : List PyStr} {upload : Upload}

/-- What a list of values validates to. -/
theorem mapM_eq_some {α β : Type} {f : α → Option β} {xs : List α} {ys : List β} :
    xs.mapM f = some ys ↔ List.Forall₂ (fun x y => f x = some y) xs ys := by
  induction xs generalizing ys with
  | nil => simp [eq_comm]
  | cons x xs ih =>
      simp only [List.mapM_cons, Option.bind_eq_bind, Option.bind_eq_some_iff, Option.pure_def,
        Option.some.injEq, List.forall₂_cons_left_iff, ih]
      constructor
      · rintro ⟨y, hy, ys', hys, rfl⟩
        exact ⟨y, ys', hy, hys, rfl⟩
      · rintro ⟨y, ys', hy, hys, rfl⟩
        exact ⟨y, hy, ys', hys, rfl⟩

theorem LookupItem.validate_eq_some {name : PyStr} {item : LookupItem} :
    LookupItem.validate name = some item ↔ item.companyName = name := by
  unfold validate
  constructor
  · intro h
    split at h
    · cases h
      rfl
    · cases h
  · rintro rfl
    exact dif_pos item.companyName_field

/-- What validates is the names themselves. -/
theorem names_of_validate {items : List LookupItem}
    (h : names.mapM LookupItem.validate = some items) :
    items.map LookupItem.companyName = names := by
  have hall := mapM_eq_some.mp h
  clear h
  induction hall with
  | nil => rfl
  | cons hname _ ih => rw [List.map_cons, LookupItem.validate_eq_some.mp hname, ih]

/-- Names within the bounds validate. -/
theorem exists_validate (h : ∀ name ∈ names, StrField 1 200 name) :
    ∃ items, names.mapM LookupItem.validate = some items := by
  induction names with
  | nil => exact ⟨[], rfl⟩
  | cons name names ih =>
      obtain ⟨items, hitems⟩ := ih fun n hn => h n (List.mem_cons_of_mem _ hn)
      refine ⟨⟨name, h name List.mem_cons_self⟩ :: items, mapM_eq_some.mpr ?_⟩
      exact .cons (LookupItem.validate_eq_some.mpr rfl) (mapM_eq_some.mp hitems)

/-- **A batch that does not fail.** Every name is within the provider's bounds, and storable. -/
theorem attemptBatch_eq_none :
    attemptBatch names = none ↔ ∀ name ∈ names, StrField 1 200 name ∧ Storable name := by
  unfold attemptBatch
  split
  · next hnone =>
      refine ⟨fun h => (by cases h), fun h => ?_⟩
      obtain ⟨items, hitems⟩ := exists_validate fun name hname => (h name hname).1
      cases hnone.symm.trans hitems
  · next items hitems =>
      rw [← names_of_validate hitems]
      simp only [List.forall_mem_map, ite_eq_left_iff, reduceCtorEq, imp_false, not_not]
      exact ⟨fun h item hitem => ⟨item.companyName_field, h item hitem⟩,
        fun h item hitem => (h item hitem).2⟩

/-! ## What each path has checked -/

/-- The company names in a posted body. -/
def postedNames (loads : Loads) (body : Bytes) : List PyStr :=
  match parseJsonObject loads body with
  | .error _ => []
  | .ok members =>
    match Json.get? members recordsKey with
    | some (.array items) => items.filterMap Json.companyName?
    | some (.object _) | some (.string _) | some .other | none => []

theorem RecordInput.validate_eq_some {value : Json} {r : RecordInput}
    (h : RecordInput.validate value = some r) : value.companyName? = some r.companyName := by
  unfold validate at h
  split at h
  · cases h
  · next name hname =>
      split at h
      · cases h
        exact hname
      · cases h

/-- Validated records have the names that were posted. -/
theorem names_of_records {items : List Json} {records : List RecordInput}
    (h : items.mapM RecordInput.validate = some records) :
    records.map RecordInput.companyName = items.filterMap Json.companyName? := by
  have hall := mapM_eq_some.mp h
  clear h
  induction hall with
  | nil => rfl
  | cons hitem _ ih =>
      rw [List.map_cons, List.filterMap_cons_some (RecordInput.validate_eq_some hitem), ih]

/-- A payload is validated members. -/
theorem enrichPayload_eq_ok {body : Bytes} {payload : EnrichRequest}
    (h : enrichPayload loads body = .ok payload) :
    ∃ members, parseJsonObject loads body = .ok members ∧
      EnrichRequest.validate members = some payload := by
  unfold enrichPayload at h
  split at h
  · cases h
  · next members hmembers =>
      split at h
      · cases h
      · next hvalidate =>
          cases h
          exact ⟨members, hmembers, hvalidate⟩

/-- `enrich` forwards the names that were posted, each within the bounds of a record. -/
theorem enrichNames_spec {body : Bytes} (h : enrichNames loads bounds body = .ok names) :
    names = postedNames loads body ∧ ∀ name ∈ names, StrField 1 200 name := by
  unfold enrichNames at h
  split at h
  · cases h
  · next payload hpayload =>
      split at h
      · cases h
      · cases h
        obtain ⟨members, hmembers, hvalidate⟩ := enrichPayload_eq_ok hpayload
        refine ⟨?_, fun name hname => ?_⟩
        · unfold EnrichRequest.validate at hvalidate
          unfold postedNames
          rw [hmembers]
          dsimp only
          split at hvalidate
          · next items hitems =>
              obtain ⟨records, hrecords, rfl⟩ := Option.map_eq_some_iff.mp hvalidate
              exact names_of_records hrecords
          all_goals cases hvalidate
        · obtain ⟨record, -, rfl⟩ := List.mem_map.mp hname
          exact record.lookupItem.companyName_field

/-- What an upload needs for its names to be carried. On the one path a name has been checked but
for the zero character; on the other it has not been checked. -/
def Carriable (dec : Decoding UInt8) (loads : Loads) : Upload → Prop
  | .enrich body => ∀ name ∈ postedNames loads body, Storable name
  | .importBundle chunks => ∀ record ∈ recordsOf loads (dec.output chunks.flatten),
      StrField 1 200 record.companyName ∧ Storable record.companyName

/-- **What is admitted can be carried, exactly when.** -/
theorem admitted_carried_iff (hD : D.Decodes dec) (h : Admits D loads bounds upload names) :
    Carried names ↔ Carriable dec loads upload := by
  have hbatch : Carried names ↔ ∀ name ∈ names, StrField 1 200 name ∧ Storable name :=
    ⟨And.left, fun h => ⟨h, attemptBatch_eq_none.mpr h⟩⟩
  rw [hbatch]
  cases upload with
  | enrich body =>
      obtain ⟨rfl, hfield⟩ := enrichNames_spec h
      exact ⟨fun hall name hname => (hall name hname).2,
        fun hall name hname => ⟨hfield name hname, hall name hname⟩⟩
  | importBundle chunks =>
      obtain ⟨result, hreads, rfl⟩ := h
      obtain ⟨-, rfl, -⟩ := reads_ok hD hreads
      exact List.forall_mem_map

theorem admitted_carried_iff_of_one_record :
    Admits (.ofDecoding Reader.oneRecordDecoding) Reader.oneRecordLoads .shipped
        (.importBundle [Reader.oneRecordBundle]) [.ofString "A"] ∧
      (Carried [.ofString "A"] ↔ Carriable Reader.oneRecordDecoding Reader.oneRecordLoads
        (.importBundle [Reader.oneRecordBundle])) := by
  have hadmits : Admits (.ofDecoding Reader.oneRecordDecoding) Reader.oneRecordLoads .shipped
      (.importBundle [Reader.oneRecordBundle]) [.ofString "A"] := ⟨_, reads_one_record, rfl⟩
  exact ⟨hadmits, admitted_carried_iff (ofDecoding_decodes _) hadmits⟩

/-- A bundle of one record with an empty name. -/
def emptyNameBundle : Bytes :=
  [31, 139, 8, 0, 0, 0, 0, 0, 2, 3, 171, 86, 74, 206, 207, 45, 72, 204, 171, 140, 207, 75, 204, 77,
    85, 178, 82, 82, 170, 229, 2, 0, 13, 13, 95, 101, 20, 0, 0, 0]

/-- Its line. -/
def emptyNameLine : Bytes :=
  [123, 34, 99, 111, 109, 112, 97, 110, 121, 95, 110, 97, 109, 101, 34, 58, 34, 34, 125]

/-- What it decodes to. -/
def emptyNameDecoding : Decoding UInt8 :=
  .known emptyNameBundle (emptyNameLine ++ [newline]) [] (by decide)

/-- What its line parses to. -/
def emptyNameLoads : Loads := fun text =>
  if text = emptyNameLine then .value (.object [(companyNameKey, .string [])]) else .valueError

/-- A posted body with one record, whose name ends in `\u0000`. -/
def zeroNameBody : Bytes :=
  [123, 34, 114, 101, 99, 111, 114, 100, 115, 34, 58, 91, 123, 34, 99, 111, 109, 112, 97, 110, 121,
    95, 110, 97, 109, 101, 34, 58, 34, 65, 92, 117, 48, 48, 48, 48, 34, 125, 93, 125]

/-- What that body parses to. -/
def zeroNameLoads : Loads := fun text =>
  if text = zeroNameBody then
    .value
      (.object [(recordsKey, .array [.object [(companyNameKey, .string (.ofString "A\x00"))]])])
  else .valueError

/-- Both paths admit a batch that cannot be carried, and its reservation is settled in full. -/
theorem admitted_not_carried :
    ((Decompressor.ofDecoding emptyNameDecoding).Decodes emptyNameDecoding ∧
      Admits (.ofDecoding emptyNameDecoding) emptyNameLoads .shipped
        (.importBundle [emptyNameBundle]) [[]] ∧
      ¬ StrField 1 200 [] ∧ attemptBatch [[]] = some .rejected ∧
      settledCents ⟨Fixtures.attackerTenantId, 4, 1⟩ 0 (attemptBatch [[]]) = 4) ∧
    Admits (.ofDecoding emptyNameDecoding) zeroNameLoads .shipped (.enrich zeroNameBody)
        [[65, 0]] ∧
      ¬ Storable [65, 0] ∧ attemptBatch [[65, 0]] = some .unstorable := by
  have hD := ofDecoding_decodes emptyNameDecoding
  have hreads := reads_whole hD emptyNameLoads .shipped .importBundle emptyNameBundle (by decide)
    (by decide) (by decide)
  have hverdict : verdict emptyNameDecoding emptyNameLoads emptyNameBundle =
      .ok ⟨40, 20, [⟨[]⟩]⟩ := by decide
  rw [hverdict] at hreads
  have hrejected : attemptBatch [[]] = some .rejected := by decide +kernel
  refine ⟨⟨hD, ⟨_, hreads, rfl⟩, by decide, hrejected, ?_⟩, ?_, by decide, by decide +kernel⟩
  · rw [hrejected]
    rfl
  · show enrichNames zeroNameLoads .shipped zeroNameBody = .ok [[65, 0]]
    decide +kernel

end Limitless
