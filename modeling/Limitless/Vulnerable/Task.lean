import Limitless.Secure.Task
import Limitless.Vulnerable.Database
import Limitless.Vulnerable.HalfFixes

/-!
# One request of the unbounded application

`vulnerable/app.py`'s handlers `enrich` and `import_bundle`, cut at every point where an exception
can be raised or the event loop can run somebody else. `Pc` is such a point: what is named there has
not happened yet. `advance` performs it. The handlers have no `except`, and their connections commit
statement by statement, so an exception at any point ends a request and undoes nothing.

What the input readers make of a body is a value of the request (`Payload`). `Task.trail` keeps what
a request has done, in order, with the row of the period that a refused charge was made against;
`Task.raised` keeps where an exception ended it. Neither is read by the model.
-/

namespace Limitless.Vulnerable

/-- `COMPRESSED_BODY_LIMIT_BYTES`. -/
def compressedBodyLimitBytes : ℕ := 262144

/-- `ADMIT_FLUSH_RECORDS`. -/
def admitFlushRecords : ℕ := 50000

/-- `ENRICH_CHUNK_RECORDS`: not a bound. -/
def enrichChunkRecords : ℕ := 5000

/-! ## Requests -/

/-- How `decompress_completely` fails. -/
inductive BundleFailure
  /-- The `ValueError` that an `OSError` or a `zlib.error` is raised as. -/
  | malformed
  /-- The `EOFError` of a file that stops early: nothing catches it. -/
  | truncated
  deriving DecidableEq, Repr

/-- The endpoint of a request, with what its input reader answers. -/
inductive Payload
  /-- The company names of the validated `EnrichRequest`; none where the body is malformed. -/
  | enrich (companyNames : Option (List String))
  /-- The size of the body, the records `decompress_completely` counts in it, if it can be
  decompressed, and the `uuid4` of its job. -/
  | importBundle (compressedBytes : ℕ) (records : Except BundleFailure ℕ) (jobId : JobId)
  deriving DecidableEq, Repr

/-- A request routed to a replica, with the two headers the repairs read. -/
structure Request where
  replica : ℕ
  /-- What `authenticate` makes of the `Authorization` header. -/
  principal : Option TenantId
  /-- The header `HALF_FIX_HEADER`. -/
  halfFix : Option String
  /-- The header `CLIENT_ID_HEADER`. -/
  clientId : Option String
  payload : Payload
  deriving DecidableEq, Repr

/-- An exception in a handler. -/
inductive Exception
  /-- The `401`. -/
  | unauthorized
  /-- The `400`. -/
  | badRequest
  | limitReached (kind : RefusalKind) (operation : RefusedOperation)
  /-- The `504` of `lookups_without_cancelling`. -/
  | gatewayTimeout
  /-- An error of a statement. -/
  | store (error : StoreError)
  | cancelled
  /-- Anything else: the client's stream, the pool, the provider, the connection. -/
  | failed
  deriving DecidableEq, Repr

/-- What a body that cannot be decompressed is answered with: `import_bundle` catches only the
`ValueError`. -/
def BundleFailure.exception : BundleFailure → Exception
  | malformed => .badRequest
  | truncated => .failed

/-- A cause of an exception from outside a handler's own statements. -/
inductive Fault
  | cancelled
  | failed
  deriving DecidableEq, Repr

/-- The exception it is in the handler. -/
def Fault.exception : Fault → Exception
  | cancelled => .cancelled
  | failed => .failed

/-- How a handler exits. The payloads are the secure application's. -/
inductive Ending
  | responded (response : Response)
  | raised (exc : Exception)
  deriving DecidableEq, Repr

/-! ## Points -/

/-- An enrichment that has been read. -/
structure Enrichment where
  tenantId : TenantId
  companyNames : List String
  deriving DecidableEq, Repr

/-- An import that has been read: `bundle.records` and the job. -/
structure Import where
  tenantId : TenantId
  records : ℕ
  jobId : JobId
  deriving DecidableEq, Repr

/-- The points of `enrich` after its input. -/
inductive EnrichPoint
  /-- `selected_half_fix`, `key_for`, and what the selected repair says. -/
  | select
  /-- `lookups_without_cancelling`: the call is about to go out. -/
  | callEarly
  | awaitEarly
  | takeConnection (early : Option LookupResponse)
  | chargePool (early : Option LookupResponse)
  | recordWork (early : Option LookupResponse)
  | callProvider (early : Option LookupResponse)
  | awaitResponse
  | upsertRecords (result : LookupResponse)
  | leaveConnection (result : LookupResponse)
  deriving DecidableEq, Repr

/-- The points of `import_bundle` after its input, with its local variables. -/
inductive ImportPoint
  | takeConnection
  /-- The head of the flush loop. -/
  | flush (remaining : ℕ)
  | takeSpending
  /-- The head of the spending loop. -/
  | spend (performed charged : Int)
  | callProvider (performed charged : Int) (chunk : ℕ)
  | awaitResponse (performed charged : Int) (chunk : ℕ)
  | insertJob (performed charged : Int)
  | leaveConnection (performed charged : Int)
  deriving DecidableEq, Repr

/-- Where a request stands. -/
inductive Pc
  | authenticating
  | reading (tenantId : TenantId)
  | enriching (e : Enrichment) (p : EnrichPoint)
  | importing (b : Import) (p : ImportPoint)
  | ended (ending : Ending)
  deriving DecidableEq, Repr

/-- The handler has exited. -/
def Pc.isEnded : Pc → Bool
  | ended _ => true
  | _ => false

/-! ## Tasks -/

/-- What a request does to the world outside it. -/
inductive Effect
  /-- The repair in effect let the request go on, counting so much against the key. -/
  | granted (replica : ℕ) (halfFix : HalfFix) (key : String) (cents : ℕ)
  | recordedWork (tenantId : TenantId) (records cents : ℕ)
  | charged (cents : ℕ)
  /-- The pool refused to be charged for so many lookups, while this was its row. -/
  | drained (lookups : ℕ) (period : Option SpendPeriod)
  | sent (payload : LookupRequest)
  /-- The answer to a call has been taken. -/
  | received (payload : LookupRequest) (response : LookupResponse)
  | upserted (entries : List RecordEntry)
  | insertedJob (jobId : JobId) (tenantId : TenantId) (recordsAdmitted : ℕ) (centsCharged : Int)
  deriving DecidableEq

/-- A request in the application. -/
structure Task where
  request : Request
  pc : Pc
  /-- The lookup call it has out, if any; the provider works on it whether or not it waits. -/
  call : Option Call
  /-- What it has done, oldest first. -/
  trail : List Effect
  /-- The point at which an exception ended it, and the exception. -/
  raised : Option (Pc × Exception)

/-- What the requests share, what the repairs of each replica remember, and the time. -/
structure Service where
  database : Database
  halfFixes : List HalfFixState
  provider : ProviderState
  clock : Timestamp

namespace HalfFixState

/-- What the selected repair says of a request, and what it remembers of it. -/
def consult (state : HalfFixState) (halfFix : HalfFix) (key : String) (cents : ℕ)
    (moment : Timestamp) : Bool × HalfFixState :=
  match halfFix with
  | .requestRateLimit =>
    let (allowed, limiter) := state.rateLimiter.allow key moment
    (allowed, { state with rateLimiter := limiter })
  | .inProcessAllowance =>
    let (allowed, allowance) := state.inProcess.charge key cents
    (allowed, { state with inProcess := allowance })
  | .callerKeyedAllowance =>
    let (allowed, allowance) := state.callerKeyed.charge key cents
    (allowed, { state with callerKeyed := allowance })
  | .none | .nonCancellingDeadline => (true, state)

end HalfFixState

namespace Task

/-- A request that has just arrived. -/
def arrived (request : Request) : Task := ⟨request, .authenticating, none, [], none⟩

/-- Move on. -/
def goto (t : Task) (pc : Pc) : Task := { t with pc := pc }

/-- Move on with something done. -/
def did (t : Task) (e : Effect) (pc : Pc) : Task := { t with pc := pc, trail := t.trail ++ [e] }

/-- An exception at the point a request stands at: it leaves the handler. -/
def raise (t : Task) (exc : Exception) : Task :=
  { t with pc := .ended (.raised exc), raised := some (t.pc, exc) }

/-- Send a lookup call. -/
def send (t : Task) (payload : LookupRequest) (pc : Pc) : Task :=
  { t.did (.sent payload) pc with call := some ⟨payload, .sent⟩ }

/-- Take the answer to it. -/
def receive (t : Task) (payload : LookupRequest) (result : LookupResponse) (pc : Pc) : Task :=
  { t.did (.received payload result) pc with call := none }

/-- The reading of the input. -/
def read (t : Task) (tenantId : TenantId) : Task :=
  match t.request.payload with
  | .enrich (some names) => t.goto (.enriching ⟨tenantId, names⟩ .select)
  | .enrich none => t.raise .badRequest
  | .importBundle compressedBytes records jobId =>
    if compressedBytes > compressedBodyLimitBytes then
      t.raise (.limitReached .inputTooLarge .importBundle)
    else
      match records with
      | .ok records => t.goto (.importing ⟨tenantId, records, jobId⟩ .takeConnection)
      | .error failure => t.raise failure.exception

/-- The repair that is in effect for a request, and what it says. -/
def select (cfg : Config) (s : Service) (t : Task) (e : Enrichment) : Option (Service × Task) :=
  match parseHalfFix t.request.halfFix with
  | none => some (s, t.raise .badRequest)
  | some halfFix =>
    match s.halfFixes[t.request.replica]? with
    | none => none
    | some state =>
      let key := HalfFixState.keyFor halfFix e.tenantId t.request.clientId
      let cents := e.companyNames.length * cfg.priceCents
      let (allowed, state') := state.consult halfFix key cents s.clock
      let s' := { s with halfFixes := s.halfFixes.set t.request.replica state' }
      if allowed then
        some (s', t.did (.granted t.request.replica halfFix key cents) (.enriching e
          (if halfFix = .nonCancellingDeadline then .callEarly else .takeConnection none)))
      else some (s', t.raise (.limitReached .allowanceExhausted .enrich))

/-- Charge the pool, or say that it is drained. -/
def chargePool (cfg : Config) (s : Service) (t : Task) (lookups : ℕ) (onward drained : Task) :
    Service × Task :=
  match s.database.store.chargeUndividedPool lookups cfg.priceCents with
  | .error e => (s, t.raise (.store e))
  | .ok (store, true) => ({ s with database := { s.database with store := store } }, onward)
  | .ok (store, false) => ({ s with database := { s.database with store := store } }, drained)

/-- Write down work that has been taken on. -/
def recordWork (cfg : Config) (s : Service) (t : Task) (tenantId : TenantId) (records : ℕ)
    (pc : Pc) : Service × Task :=
  let cents := records * cfg.priceCents
  match s.database.recordAdmittedWork tenantId records cents with
  | .error e => (s, t.raise (.store e))
  | .ok database =>
    ({ s with database := database }, t.did (.recordedWork tenantId records cents) pc)

/-- `enrich` after its input. -/
def enrich (cfg : Config) (s : Service) (t : Task) (e : Enrichment) :
    EnrichPoint → Option (Service × Task)
  | .select => t.select cfg s e
  | .callEarly =>
    some (s, t.send ⟨e.tenantId, e.companyNames, true⟩ (.enriching e .awaitEarly))
  | .awaitEarly =>
    match t.call with
    | some ⟨payload, .answered result⟩ =>
      some (s, t.receive payload result (.enriching e (.takeConnection (some result))))
    | _ => none
  | .takeConnection early => some (s, t.goto (.enriching e (.chargePool early)))
  | .chargePool early =>
    let lookups := e.companyNames.length
    some (t.chargePool cfg s lookups
      (t.did (.charged (lookups * cfg.priceCents)) (.enriching e (.recordWork early)))
      (t.raise (.limitReached .allowanceExhausted .enrich)))
  | .recordWork early =>
    some (t.recordWork cfg s e.tenantId e.companyNames.length (.enriching e (.callProvider early)))
  | .callProvider early =>
    match early with
    | some result => some (s, t.goto (.enriching e (.upsertRecords result)))
    | none => some (s, t.send ⟨e.tenantId, e.companyNames, true⟩ (.enriching e .awaitResponse))
  | .awaitResponse =>
    match t.call with
    | some ⟨payload, .answered result⟩ =>
      some (s, t.receive payload result (.enriching e (.upsertRecords result)))
    | _ => none
  | .upsertRecords result =>
    let entries := recordEntries cfg e.tenantId result
    let store := s.database.store.upsertRecords e.tenantId entries s.clock
    some ({ s with database := { s.database with store := store } },
      t.did (.upserted entries) (.enriching e (.leaveConnection result)))
  | .leaveConnection result =>
    let records := enrichedRecords cfg e.tenantId result
    some (s, t.goto (.ended (.responded
      (.enriched e.tenantId records.length result.lookups result.centsCharged records))))

/-- The names of a chunk of a bundle. -/
def chunkNames (chunk : ℕ) : List String :=
  (List.range' 1 chunk).map fun i => Fixtures.companyName (i : ℕ)

/-- `import_bundle` after its input. -/
def importBundle (cfg : Config) (s : Service) (t : Task) (b : Import) :
    ImportPoint → Option (Service × Task)
  | .takeConnection => some (s, t.goto (.importing b (.flush b.records)))
  | .flush remaining =>
    if remaining > 0 then
      let flush := min admitFlushRecords remaining
      some (t.recordWork cfg s b.tenantId flush (.importing b (.flush (remaining - flush))))
    else some (s, t.goto (.importing b .takeSpending))
  | .takeSpending => some (s, t.goto (.importing b (.spend 0 0)))
  | .spend performed charged =>
    if performed < b.records then
      let chunk := (min (enrichChunkRecords : Int) (b.records - performed)).toNat
      some (t.chargePool cfg s chunk
        (t.did (.charged (chunk * cfg.priceCents))
          (.importing b (.callProvider performed charged chunk)))
        (t.did (.drained chunk s.database.store.period?)
          (.importing b (.insertJob performed charged))))
    else some (s, t.goto (.importing b (.insertJob performed charged)))
  | .callProvider performed charged chunk =>
    some (s, t.send ⟨b.tenantId, chunkNames chunk, false⟩
      (.importing b (.awaitResponse performed charged chunk)))
  | .awaitResponse performed charged _ =>
    match t.call with
    | some ⟨payload, .answered result⟩ =>
      some (s, t.receive payload result (.importing b
        (.spend (performed + result.lookups) (charged + result.centsCharged))))
    | _ => none
  | .insertJob performed charged =>
    match s.database.store.insertJob b.jobId b.tenantId b.records charged
        (cfg.replicaName t.request.replica) with
    | .error e => some (s, t.raise (.store e))
    | .ok store => some ({ s with database := { s.database with store := store } },
        t.did (.insertedJob b.jobId b.tenantId b.records charged)
          (.importing b (.leaveConnection performed charged)))
  | .leaveConnection _ charged =>
    some (s, t.goto (.ended (.responded
      (.imported b.jobId b.tenantId .completed b.records charged))))

/-- Perform what is named at the point a request stands at, and go to the next; `none` where it
has to wait, or has exited. -/
def advance (cfg : Config) (s : Service) (t : Task) : Option (Service × Task) :=
  match t.pc with
  | .authenticating =>
    match t.request.principal with
    | none => some (s, t.raise .unauthorized)
    | some tenantId => some (s, t.goto (.reading tenantId))
  | .reading tenantId => some (s, t.read tenantId)
  | .enriching e p => t.enrich cfg s e p
  | .importing b p => t.importBundle cfg s b p
  | .ended _ => none

/-- An exception from outside at the point a request stands at. -/
def fault (s : Service) (t : Task) (f : Fault) : Option (Service × Task) :=
  if t.pc.isEnded then none else some (s, t.raise f.exception)

/-- `NON_CANCELLING_DEADLINE_SECONDS` have passed: the caller is answered, and the call goes on. -/
def timeOut (s : Service) (t : Task) : Option (Service × Task) :=
  match t.pc with
  | .enriching _ .awaitEarly => some (s, t.raise .gatewayTimeout)
  | _ => none

end Task

end Limitless.Vulnerable
