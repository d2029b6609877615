import Limitless.Harness.Config
import Limitless.Lib.Runs
import Limitless.Provider.Ledger
import Mathlib.Algebra.Order.BigOperators.Group.List
import Mathlib.Algebra.Order.Ring.Nat
import Mathlib.Algebra.Group.Action.Defs

/-!
# A round of requests

`harness/burst.py` over `httpclient.py`: a round is work, cheap-endpoint probes and over-limit
probes, released together. The application that answers is a parameter, an `Application`: which
answers it may give and what state they leave it in, what its usage endpoint says, and what the
provider it calls has on its bill and on its counters. Requests that are released together are
answered one at a time in an order of the application's own (`Released`).

The size of a gzip stream is a parameter, as the compressor is not this repository's.
-/

namespace Limitless

open Runs

namespace Fixtures

/-- `registry_number`. -/
def registryNumber (index : Nat) : String :=
  "CR-" ++ toString (index % 10) ++ zeroPadded 6 (index * 7919 % 1000000)

/-- `enrichment_line`: one line of the NDJSON an import bundle carries. The names have nothing to
escape. -/
def enrichmentLine (index : Nat) : String :=
  "\x7b\"company_name\":\"" ++ companyName index ++ "\",\"registry_number\":\"" ++
    registryNumber index ++ "\"\x7d"

/-- `OVER_EXPANDING_IMPORT_RECORDS`. -/
def overExpandingImportRecords : Nat := 150000

theorem mem_getD {α : Type} (l : List α) (d : α) (k : Nat) : l.getD k d ∈ d :: l := by
  rw [List.getD_eq_getElem?_getD]
  cases h : l[k]? with
  | none => simp
  | some a => simp [List.mem_of_getElem? h]

theorem length_namePrefix (k : Nat) : (namePrefixes.getD k "").length ≤ 11 := by
  have hall : ∀ s ∈ "" :: namePrefixes, s.length ≤ 11 := by decide
  exact hall _ (mem_getD _ _ _)

theorem length_nameSuffix (k : Nat) : (nameSuffixes.getD k "").length ≤ 12 := by
  have hall : ∀ s ∈ "" :: nameSuffixes, s.length ≤ 12 := by decide
  exact hall _ (mem_getD _ _ _)

theorem length_toString_le {n : Int} {e : Nat} (he : 0 < e) (h0 : 0 ≤ n) (h : n < 10 ^ e) :
    (toString n).length ≤ e := by
  obtain ⟨m, rfl⟩ := Int.eq_ofNat_of_zero_le h0
  show (toString m).length ≤ e
  exact (Nat.length_repr_le_iff he).mpr (by exact_mod_cast h)

/-- A name of the first hundred million is neither empty nor long. -/
theorem length_companyName {i : Int} (h1 : 1 ≤ i) (h : i ≤ 100000000) :
    1 ≤ (companyName i).length ∧ (companyName i).length ≤ 31 := by
  have hhead := length_namePrefix ((i - 1) % namePrefixes.length).toNat
  have htail := length_nameSuffix (((i - 1) / namePrefixes.length) % nameSuffixes.length).toNat
  have hprefixes : namePrefixes.length = 12 := rfl
  have hsuffixes : nameSuffixes.length = 10 := rfl
  have hcount : ((namePrefixes.length : Int) * nameSuffixes.length) = 120 := rfl
  have hseries :
      (toString ((i - 1) / (namePrefixes.length * nameSuffixes.length) + 1)).length ≤ 6 :=
    length_toString_le (by omega) (by rw [hcount]; omega) (by rw [hcount]; omega)
  have hblank : " ".length = 1 := rfl
  simp only [companyName]
  split
  · simp only [String.length_append]
    omega
  · simp only [String.length_append]
    omega

theorem length_registryNumber (index : Nat) : (registryNumber index).length ≤ 10 := by
  have hdigit : (toString (index % 10)).length ≤ 1 :=
    (Nat.length_repr_le_iff (by omega)).mpr (by omega)
  have hnumber : (toString (index * 7919 % 1000000)).length ≤ 6 :=
    (Nat.length_repr_le_iff (by omega)).mpr (by omega)
  have hprefix : "CR-".length = 3 := rfl
  simp only [registryNumber, zeroPadded, String.length_append, String.length_ofList,
    List.length_replicate]
  omega

/-- A line of an early record is short. -/
theorem length_enrichmentLine {index : Nat} (h1 : 1 ≤ index) (h : index ≤ 100000000) :
    (enrichmentLine index).length ≤ 81 := by
  have hname := (length_companyName (i := index) (by omega) (by omega)).2
  have hregistry := length_registryNumber index
  have hopen : "\x7b\"company_name\":\"".length = 17 := by decide
  have hmiddle : "\",\"registry_number\":\"".length = 21 := by decide
  have hclose : "\"\x7d".length = 2 := by decide
  unfold enrichmentLine
  rw [String.length_append, String.length_append, String.length_append, String.length_append,
    hopen, hmiddle, hclose]
  omega
end Fixtures

namespace Harness

/-- A single-layer gzip stream of NDJSON text: its lines, and its own size. -/
structure Bundle where
  lines : List String
  bytes : Nat
  deriving DecidableEq, Repr

/-- The size of the text of a bundle, with its newlines. -/
def Bundle.decompressedBytes (b : Bundle) : Nat := (b.lines.map fun line => line.length + 1).sum

/-- `ndjson_bundle`: distinct records. -/
def ndjsonBundle (gzipBytes : List String → Nat) (recordCount : Nat) : Bundle :=
  let lines := (List.range' 1 recordCount).map Fixtures.enrichmentLine
  ⟨lines, gzipBytes lines⟩

/-- A bundle of few records is small. -/
theorem decompressedBytes_ndjsonBundle {gzipBytes : List String → Nat} {recordCount : Nat}
    (h : recordCount ≤ 100000000) :
    (ndjsonBundle gzipBytes recordCount).decompressedBytes ≤ recordCount * 82 := by
  unfold Bundle.decompressedBytes
  refine (List.sum_le_card_nsmul _ 82 fun n hn => ?_).trans_eq ?_
  · obtain ⟨line, hline, rfl⟩ := List.mem_map.mp hn
    obtain ⟨i, hi, rfl⟩ := List.mem_map.mp hline
    have hrange := List.mem_range'_1.mp hi
    have := Fixtures.length_enrichmentLine hrange.1 (by omega)
    omega
  · simp [ndjsonBundle]
/-- `repetitive_ndjson_bundle`: copies of one record. -/
def repetitiveNdjsonBundle (gzipBytes : List String → Nat) (recordCount : Nat) : Bundle :=
  let lines := List.replicate recordCount (Fixtures.enrichmentLine 1)
  ⟨lines, gzipBytes lines⟩

/-! ## Requests and records -/

/-- What is asked for, one constructor for each method of the client that a round uses. -/
inductive Call
  | enrich (companyNames : List String)
  | enrichRaw (bodyBytes : Nat)
  | listRecords (pageSize : Nat)
  | importBundle (bundle : Bundle)
  | job (jobId : String)
  deriving DecidableEq, Repr

/-- The size of `{"records":[{"company_name":…},…]}` as it is sent, without blanks. The names are
ASCII and have nothing to escape. -/
def enrichBodyBytes (companyNames : List String) : Nat :=
  14 + (companyNames.map fun name => name.length + 19).sum + (companyNames.length - 1)

/-- The client's name for the operation. -/
def Call.operation : Call → String
  | .enrich _ | .enrichRaw _ => "enrich"
  | .listRecords _ => "list_records"
  | .importBundle _ => "import_bundle"
  | .job _ => "job"

/-- The size of the body. -/
def Call.inputBytes : Call → Nat
  | .enrich companyNames => enrichBodyBytes companyNames
  | .enrichRaw bodyBytes => bodyBytes
  | .importBundle bundle => bundle.bytes
  | .listRecords _ | .job _ => 0

/-- A request on its way. -/
structure Sent where
  sequence : Nat
  tenantId : TenantId
  call : Call
  deriving DecidableEq, Repr

/-- What the harness reads of a body. -/
structure ResponseBody where
  recordsAdmitted : Option Int
  centsCharged : Option Int
  jobId : Option String
  deriving DecidableEq, Repr

/-- An answer. -/
structure Response where
  statusCode : Nat
  body : Option ResponseBody
  deriving DecidableEq, Repr

/-- One request, as observed entirely through the product's own boundary. -/
structure RequestRecord where
  sequence : Nat
  operation : String
  tenantId : TenantId
  statusCode : Nat
  inputBytes : Nat
  body : Option ResponseBody
  deriving DecidableEq, Repr

namespace RequestRecord

/-- `succeeded`. -/
def succeeded (r : RequestRecord) : Bool := 200 ≤ r.statusCode ∧ r.statusCode < 300

/-- `admits_work`: the operation is one of `WORK_OPERATIONS`. -/
def admitsWork (r : RequestRecord) : Bool :=
  r.operation = "enrich" ∨ r.operation = "import_bundle"

/-- `records_admitted`. -/
def recordsAdmitted (r : RequestRecord) : Int :=
  if r.admitsWork then (r.body.bind (·.recordsAdmitted)).getD 0 else 0

/-- `cents_charged`. -/
def centsCharged (r : RequestRecord) : Int :=
  if r.admitsWork then (r.body.bind (·.centsCharged)).getD 0 else 0

end RequestRecord

/-- A request and the answer to it. -/
structure Exchange where
  sent : Sent
  response : Response
  deriving DecidableEq, Repr

/-- `send`: the record of an exchange. -/
def Exchange.record (x : Exchange) : RequestRecord where
  sequence := x.sent.sequence
  operation := x.sent.call.operation
  tenantId := x.sent.tenantId
  statusCode := x.response.statusCode
  inputBytes := x.sent.call.inputBytes
  body := x.response.body

/-! ## The application under load -/

/-- An application and the provider behind it, as the harness can see them. `seeded` says which
states a seeding leaves, and `answers` what may be answered and what state that leaves. -/
structure Application (σ : Type) where
  seeded : σ → Prop
  answers : σ → Exchange → σ → Prop
  /-- The jobs a tenant can read. -/
  jobs : σ → TenantId → String → Prop
  /-- `cents_charged` of the usage endpoint. -/
  usage : σ → TenantId → Int
  /-- The provider's own bill. -/
  ledger : σ → Ledger
  /-- `peak_in_flight` of the provider's counters. -/
  peakInFlight : σ → Int

/-- `simultaneously`: requests are released together, answered in some order, and their records
collected in the order of the requests. -/
def Released {σ : Type} (app : Application σ) (s : σ) (sent : List Sent)
    (records : List RequestRecord) (s' : σ) : Prop :=
  ∃ exchanges order : List Exchange, exchanges.map Exchange.sent = sent ∧
    order.Perm exchanges ∧ Run app.answers s order s' ∧ records = exchanges.map Exchange.record

/-! ## The composition of a round -/

/-- `OVER_LIMIT_PROBES`: one for each bounded input dimension. -/
def overLimitProbes : Nat := 4

/-- `MIN_CONCURRENCY`. -/
def minConcurrency : Nat := 12

/-- How one round's concurrency budget is divided. -/
structure Composition where
  work : Nat
  cheap : Nat
  overLimit : Nat
  deriving DecidableEq, Repr

/-- `total`. -/
def Composition.total (c : Composition) : Nat := c.work + c.cheap + c.overLimit

/-- `compose`: divide a concurrency level into work and the two kinds of probes. -/
def compose (concurrency : Nat) : Except String Composition :=
  if concurrency < minConcurrency then
    .error s!"concurrency must be at least {minConcurrency}; got {concurrency}"
  else
    let cheap := max 4 (concurrency / 6)
    .ok ⟨concurrency - overLimitProbes - cheap, cheap, overLimitProbes⟩

/-- One work request: who sends it, and how much work it names. -/
structure WorkSlot where
  tenantId : TenantId
  records : Nat
  deriving DecidableEq, Repr

/-- Everything one round observed, kept apart by what each part was for. -/
structure RoundRecords where
  work : List RequestRecord
  cheap : List RequestRecord
  overLimit : List RequestRecord
  deriving DecidableEq, Repr

/-- `all_records`. -/
def RoundRecords.allRecords (r : RoundRecords) : List RequestRecord :=
  r.work ++ r.cheap ++ r.overLimit

/-- `_names`. -/
def companyNames (count offset : Nat) : List String :=
  (List.range' 1 count).map fun i => Fixtures.companyName ((offset + i : Nat) : Int)

/-- The body of an enrichment of so many early names is small. -/
theorem enrichBodyBytes_le {count offset : Nat} (h : offset + count ≤ 100000000) :
    enrichBodyBytes (companyNames count offset) ≤ 14 + 51 * count := by
  have hname : ∀ name ∈ companyNames count offset, name.length + 19 ≤ 50 := by
    intro name hmem
    obtain ⟨i, hi, rfl⟩ := List.mem_map.mp hmem
    have hrange := List.mem_range'_1.mp hi
    have := (Fixtures.length_companyName (i := ((offset + i : Nat) : Int)) (by omega) (by omega)).2
    omega
  have hlength : (companyNames count offset).length = count := by simp [companyNames]
  have hsum : ((companyNames count offset).map fun name => name.length + 19).sum ≤ 50 * count := by
    refine (List.sum_le_card_nsmul _ 50 fun n hn => ?_).trans_eq ?_
    · obtain ⟨name, hmem, rfl⟩ := List.mem_map.mp hn
      exact hname name hmem
    · rw [List.length_map, hlength, smul_eq_mul, mul_comm]
  unfold enrichBodyBytes
  omega

/-- Builds the requests of a round. -/
structure RoundBuilder where
  probeTenantId : TenantId
  overExpandingBundle : Bundle
  oversizedBodyBytes : Nat
  deriving DecidableEq, Repr

namespace RoundBuilder

/-- `__init__`. The oversized body is `{"records": [`, four thousand records of 39 bytes, and
`]}`. -/
def make (gzipBytes : List String → Nat) (probeTenantId : TenantId) : RoundBuilder where
  probeTenantId := probeTenantId
  overExpandingBundle := repetitiveNdjsonBundle gzipBytes Fixtures.overExpandingImportRecords
  oversizedBodyBytes := 13 + 39 * 4000 + 2

/-- The work requests: `records` names for each slot, from the slot's own offset. -/
def workRequests (slots : List WorkSlot) (startSequence nameOffset : Nat) : List Sent :=
  slots.mapIdx fun index slot =>
    ⟨startSequence + index, slot.tenantId,
      .enrich (companyNames slot.records (nameOffset + index * slot.records))⟩

/-- The reads of the endpoint that must always answer. -/
def cheapRequests (b : RoundBuilder) (cheapProbes : Nat) (jobId : String) (sequence : Nat) :
    List Sent :=
  (List.range cheapProbes).map fun i => ⟨sequence + i, b.probeTenantId, .job jobId⟩

/-- The probes of body size, batch size, page size and expansion. -/
def overLimitRequests (b : RoundBuilder) (sequence nameOffset : Nat) : List Sent :=
  [⟨sequence, b.probeTenantId, .enrichRaw b.oversizedBodyBytes⟩,
    ⟨sequence + 1, b.probeTenantId,
      .enrich (companyNames (SecureBounds.shipped.maxBatchItems + 1) nameOffset)⟩,
    ⟨sequence + 2, b.probeTenantId, .listRecords 1000000⟩,
    ⟨sequence + 3, b.probeTenantId, .importBundle b.overExpandingBundle⟩]

/-- The requests of a round, in the order of its three groups. -/
def requests (b : RoundBuilder) (slots : List WorkSlot) (cheapProbes : Nat) (jobId : String)
    (startSequence nameOffset : Nat) : List Sent :=
  workRequests slots startSequence nameOffset ++
    (b.cheapRequests cheapProbes jobId (startSequence + slots.length) ++
      b.overLimitRequests (startSequence + slots.length + cheapProbes) nameOffset)

/-- `run`: one barrier across all three groups. -/
def Runs {σ : Type} (b : RoundBuilder) (app : Application σ) (slots : List WorkSlot)
    (cheapProbes : Nat) (jobId : String) (startSequence nameOffset : Nat) (s : σ)
    (records : RoundRecords) (s' : σ) : Prop :=
  ∃ released, Released app s (b.requests slots cheapProbes jobId startSequence nameOffset)
      released s' ∧
    records = ⟨released.take slots.length, (released.drop slots.length).take cheapProbes,
      released.drop (slots.length + cheapProbes)⟩

end RoundBuilder

end Harness

end Limitless
