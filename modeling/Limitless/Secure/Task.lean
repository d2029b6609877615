import Limitless.Provider.Service
import Limitless.Secure.Capacity
import Limitless.Store.Records

/-!
# One request of the secure application

`secure/app.py`'s handlers `enrich`, `import_bundle` and `list_records`, with `perform_lookups` and
`reserve_or_refuse`, cut at every point where an exception can be raised or the event loop can run
somebody else. `Pc` is such a point: what is named there has not happened yet. `advance` performs
it, and `raise` is an exception in its place. So an exception just after an effect, in the same
statement, is an exception at the next point.

What the input readers make of a body is a value of the request (`Payload`): they read the stream
and touch nothing else. `Task.trail` keeps what a request has done to the world, in order, and
`Task.raised` where exceptions were raised in it; neither is read by the model.
-/

namespace Limitless

/-- The settings the handlers read. -/
structure Config where
  /-- `settings.lookup_price_cents`. -/
  priceCents : Nat
  /-- The provider's own `lookup_price_cents`. -/
  providerPriceCents : Nat
  maxBatchItems : Nat
  /-- `bounds.max_in_flight_upstream`. -/
  maxInFlightUpstream : Int
  /-- `uuid5(NAMESPACE_URL, name).hex[:12]`. -/
  digest : String → String
  replicaName : Nat → String

/-! ## Requests -/

/-- How an input reader refuses. -/
inductive InputRefusal
  /-- A `ValueError` or a `ValidationError`: the body is malformed. -/
  | malformed
  /-- A bound was passed while reading. -/
  | tooLarge
  /-- Anything else that the reader raises. -/
  | failed
  deriving DecidableEq, Repr

/-- The endpoint of a request, with what its input reader answers. -/
inductive Payload
  /-- The company names of the validated `EnrichRequest`. -/
  | enrich (input : Except InputRefusal (List String))
  /-- The company names of the bounded bundle, and the `uuid4` of its job. -/
  | importBundle (input : Except InputRefusal (List String)) (jobId : JobId)
  /-- `bounded_page_size`. -/
  | listRecords (pageSize : Except InputRefusal Nat)

/-- The operation a refusal of the request names. -/
def Payload.operation : Payload → RefusedOperation
  | enrich _ => .enrich
  | importBundle _ _ => .importBundle
  | listRecords _ => .listRecords

/-- A request routed to a replica. -/
structure Request where
  replica : Nat
  /-- What `authenticate` makes of the `Authorization` header. -/
  principal : Option TenantId
  payload : Payload

/-- Work within its input bounds: whose, on which names, and the job of an import. -/
structure Work where
  tenantId : TenantId
  companyNames : List String
  job : Option JobId
  deriving DecidableEq, Repr

/-- The lookup call `ProviderClient.lookups` makes of it. -/
def Work.lookupRequest (w : Work) : LookupRequest := ⟨w.tenantId, w.companyNames, true⟩

/-- The reservation `store.reserve` makes for it. -/
def Work.reservation (w : Work) (priceCents : Nat) : Reservation :=
  ⟨w.tenantId, w.companyNames.length * priceCents, w.companyNames.length⟩

/-! ## How a request ends -/

/-- An exception in a handler. -/
inductive Exception
  /-- The `401`. -/
  | unauthorized
  /-- The `400`. -/
  | badRequest
  | limitReached (kind : RefusalKind) (operation : RefusedOperation)
  /-- The `LimitReachedError` that `deadline` makes of its own expiry. -/
  | deadlineExpired (operation : RefusedOperation)
  /-- An error of a statement. -/
  | store (error : StoreError)
  | cancelled
  /-- Anything else: the client's stream, the pool, the provider, the connection. -/
  | failed
  deriving DecidableEq, Repr

/-- What a refusing input reader raises. -/
def InputRefusal.exception (operation : RefusedOperation) : InputRefusal → Exception
  | malformed => .badRequest
  | tooLarge => .limitReached .inputTooLarge operation
  | failed => .failed

/-- `EnrichedRecord`. -/
structure EnrichedRecord where
  recordId : String
  companyName : String
  registryNumber : String
  deriving DecidableEq, Repr

/-- A success payload. -/
inductive Response
  /-- `EnrichResponse`, with a `201`. -/
  | enriched (tenantId : TenantId) (recordsAdmitted : Nat) (lookupsPerformed centsCharged : Int)
      (results : List EnrichedRecord)
  /-- `ImportResponse`, with a `201`. -/
  | imported (jobId : JobId) (tenantId : TenantId) (status : JobStatus) (recordsAdmitted : Nat)
      (centsCharged : Int)
  | page (page : RecordPage)
  deriving DecidableEq, Repr

/-- A cause of an exception from outside a handler's own statements. -/
inductive Fault
  | cancelled
  | failed
  | deadline
  deriving DecidableEq, Repr

/-- How a handler exits. -/
inductive Ending
  | responded (response : Response)
  | raised (exc : Exception)
  deriving DecidableEq, Repr

/-- `enriched_record_id`. -/
def enrichedRecordId (cfg : Config) (tenantId : TenantId) (companyName : String) : String :=
  tenantId ++ "-ENR-" ++ cfg.digest ("limitless:" ++ tenantId ++ ":" ++ companyName)

/-- The `entries` of `perform_lookups`. -/
def recordEntries (cfg : Config) (tenantId : TenantId) (result : LookupResponse) :
    List RecordEntry :=
  result.results.map fun item =>
    ⟨enrichedRecordId cfg tenantId item.companyName, item.companyName, item.registryNumber⟩

/-- The `enriched` records of `perform_lookups`. -/
def enrichedRecords (cfg : Config) (tenantId : TenantId) (result : LookupResponse) :
    List EnrichedRecord :=
  (recordEntries cfg tenantId result).map fun e => ⟨e.recordId, e.companyName, e.registryNumber⟩

/-! ## Points -/

/-- The points of the `try` block of `perform_lookups` up to the answer of the provider. -/
inductive CallPoint
  | enterRequestDeadline
  | enterSlot
  | enterUpstreamDeadline
  /-- `attempted` has just been set, and the call is about to go out. -/
  | send
  | awaitResponse
  deriving DecidableEq, Repr

/-- The points of the `try` block from the answer on. -/
inductive FinishPoint
  | leaveUpstreamDeadline
  | leaveSlot
  | leaveRequestDeadline
  | buildRecords
  | takeConnection
  | upsertRecords
  | settle
  | leaveConnection
  deriving DecidableEq, Repr

/-- The points of the `except` handler. -/
inductive HandlerPoint
  | takeConnection
  | close
  | leaveConnection
  deriving DecidableEq, Repr

/-- The points after `perform_lookups` in `import_bundle`. -/
inductive JobPoint
  | takeConnection
  | insertJob
  | leaveConnection
  deriving DecidableEq, Repr

/-- The points of `list_records` after its bound. -/
inductive ListPoint
  | takeConnection
  | readRecords
  | leaveConnection (page : RecordPage)
  deriving DecidableEq, Repr

/-- Where a request stands. -/
inductive Pc
  | authenticating
  | reading (tenantId : TenantId)
  | takingConnection (w : Work)
  | reserving (w : Work)
  | leavingConnection (w : Work) (r : Reservation)
  | calling (w : Work) (r : Reservation) (p : CallPoint)
  | finishing (w : Work) (r : Reservation) (result : LookupResponse) (p : FinishPoint)
  | handling (w : Work) (r : Reservation) (attempted : Bool) (exc : Exception) (p : HandlerPoint)
  | recording (w : Work) (r : Reservation) (result : LookupResponse) (jobId : JobId) (p : JobPoint)
  | listing (tenantId : TenantId) (pageSize : Nat) (p : ListPoint)
  | ended (ending : Ending)
  deriving DecidableEq, Repr

namespace Pc

/-- The variable `attempted` of `perform_lookups`. -/
def attempted : Pc → Bool
  | calling _ _ .send | calling _ _ .awaitResponse | finishing _ _ _ _ => true
  | _ => false

/-- The request is between entering its slot and leaving it. -/
def holdsSlot : Pc → Bool
  | calling _ _ .enterUpstreamDeadline | calling _ _ .send | calling _ _ .awaitResponse => true
  | finishing _ _ _ .leaveUpstreamDeadline | finishing _ _ _ .leaveSlot => true
  | _ => false

/-- The request is inside one of the deadlines. -/
def insideDeadline : Pc → Bool
  | calling _ _ .enterRequestDeadline => false
  | calling _ _ _ => true
  | finishing _ _ _ .leaveUpstreamDeadline | finishing _ _ _ .leaveSlot
  | finishing _ _ _ .leaveRequestDeadline => true
  | _ => false

/-- The reservation and the work of the `try` block, inside it. -/
def frame? : Pc → Option (Work × Reservation)
  | calling w r _ | finishing w r _ _ => some (w, r)
  | _ => none

/-- The handler has exited. -/
def isEnded : Pc → Bool
  | ended _ => true
  | _ => false

end Pc

/-! ## Tasks -/

/-- What a request does to the world outside it. -/
inductive Effect
  | reserved (r : Reservation)
  | tookSlot
  | leftSlot
  | sent (payload : LookupRequest)
  | upserted (entries : List RecordEntry)
  /-- A committed `settle`; a `release` is one of nothing. -/
  | settled (r : Reservation) (lookups cents : Int)
  | insertedJob (jobId : JobId)
  deriving DecidableEq, Repr

/-- A request in the application. -/
structure Task where
  request : Request
  pc : Pc
  /-- The lookup call it made, if it did; the provider works on it whether or not it waits. -/
  call : Option Call
  /-- What it has done, oldest first. -/
  trail : List Effect
  /-- The points at which exceptions were raised in it, and the exceptions. -/
  raised : List (Pc × Exception)

/-- What the requests of all replicas share, the replicas' limiters, and the time. -/
structure Service where
  store : Store
  limiters : List InFlightLimiter
  provider : ProviderState
  clock : Timestamp

/-- Leaving the slot of a replica. -/
def Service.leaveSlot (s : Service) (replica : Nat) : Service :=
  match s.limiters[replica]? with
  | none => s
  | some l => { s with limiters := s.limiters.set replica l.leave }

@[simp] theorem Service.leaveSlot_provider (s : Service) (replica : Nat) :
    (s.leaveSlot replica).provider = s.provider := by
  unfold leaveSlot
  split <;> rfl

@[simp] theorem Service.leaveSlot_store (s : Service) (replica : Nat) :
    (s.leaveSlot replica).store = s.store := by
  unfold leaveSlot
  split <;> rfl

namespace Task

/-- A request that has just arrived. -/
def arrived (request : Request) : Task := ⟨request, .authenticating, none, [], []⟩

/-- Move on. -/
def goto (t : Task) (pc : Pc) : Task := { t with pc := pc }

/-- Move on with something done. -/
def did (t : Task) (e : Effect) (pc : Pc) : Task := { t with pc := pc, trail := t.trail ++ [e] }

/-- An exception at the point a request stands at. The contexts of `perform_lookups` unwind, and
its `except` handler takes over; anywhere else the exception leaves the handler of the request. -/
def raise (s : Service) (t : Task) (exc : Exception) : Service × Task :=
  let next : Pc :=
    match t.pc.frame? with
    | some (w, r) => .handling w r t.pc.attempted exc .takeConnection
    | none => .ended (.raised exc)
  (if t.pc.holdsSlot then s.leaveSlot t.request.replica else s,
    { t with
      pc := next
      trail := if t.pc.holdsSlot then t.trail ++ [.leftSlot] else t.trail
      raised := t.raised ++ [(t.pc, exc)] })

/-- `require_tenant`, and then the reading of the input. -/
def read (cfg : Config) (s : Service) (t : Task) (tenantId : TenantId) : Service × Task :=
  match t.request.payload with
  | .enrich (.ok names) =>
    -- `require_batch_within`
    if names.length > cfg.maxBatchItems then t.raise s (.limitReached .inputTooLarge .enrich)
    else (s, t.goto (.takingConnection ⟨tenantId, names, none⟩))
  | .importBundle (.ok names) jobId => (s, t.goto (.takingConnection ⟨tenantId, names, some jobId⟩))
  | .listRecords (.ok pageSize) => (s, t.goto (.listing tenantId pageSize .takeConnection))
  | .enrich (.error e) | .importBundle (.error e) _ | .listRecords (.error e) =>
    t.raise s (e.exception t.request.payload.operation)

/-- `reserve_or_refuse`. -/
def reserve (cfg : Config) (s : Service) (t : Task) (w : Work) : Service × Task :=
  match s.store.reserve w.tenantId w.companyNames.length cfg.priceCents with
  | .ok (store, r) => ({ s with store := store }, t.did (.reserved r) (.leavingConnection w r))
  | .error .allowanceExhausted =>
    t.raise s (.limitReached .allowanceExhausted t.request.payload.operation)
  | .error e => t.raise s (.store e)

/-- The points of the `try` block up to the answer. -/
def lookUp (s : Service) (t : Task) (w : Work) (r : Reservation) :
    CallPoint → Option (Service × Task)
  | .enterRequestDeadline => some (s, t.goto (.calling w r .enterSlot))
  | .enterSlot =>
    match s.limiters[t.request.replica]? with
    | none => none
    | some l =>
      match l.enter with
      | .error kind => some (t.raise s (.limitReached kind t.request.payload.operation))
      | .ok l' => some ({ s with limiters := s.limiters.set t.request.replica l' },
          t.did .tookSlot (.calling w r .enterUpstreamDeadline))
  | .enterUpstreamDeadline => some (s, t.goto (.calling w r .send))
  | .send =>
    some (s, { t.did (.sent w.lookupRequest) (.calling w r .awaitResponse) with
      call := some ⟨w.lookupRequest, .sent⟩ })
  | .awaitResponse =>
    match t.call with
    | some ⟨_, .answered result⟩ =>
      some (s, t.goto (.finishing w r result .leaveUpstreamDeadline))
    | _ => none

/-- The points of the `try` block from the answer on. -/
def finish (cfg : Config) (s : Service) (t : Task) (w : Work) (r : Reservation)
    (result : LookupResponse) : FinishPoint → Service × Task
  | .leaveUpstreamDeadline => (s, t.goto (.finishing w r result .leaveSlot))
  | .leaveSlot =>
    (s.leaveSlot t.request.replica, t.did .leftSlot (.finishing w r result .leaveRequestDeadline))
  | .leaveRequestDeadline => (s, t.goto (.finishing w r result .buildRecords))
  | .buildRecords => (s, t.goto (.finishing w r result .takeConnection))
  | .takeConnection => (s, t.goto (.finishing w r result .upsertRecords))
  | .upsertRecords =>
    let entries := recordEntries cfg w.tenantId result
    ({ s with store := s.store.upsertRecords w.tenantId entries s.clock },
      t.did (.upserted entries) (.finishing w r result .settle))
  | .settle =>
    match s.store.settle r result.lookups result.centsCharged with
    | .error e => t.raise s (.store e)
    | .ok store => ({ s with store := store },
        t.did (.settled r result.lookups result.centsCharged)
          (.finishing w r result .leaveConnection))
  | .leaveConnection =>
    match w.job with
    | none =>
      let records := enrichedRecords cfg w.tenantId result
      (s, t.goto (.ended (.responded
        (.enriched w.tenantId records.length result.lookups result.centsCharged records))))
    | some jobId => (s, t.goto (.recording w r result jobId .takeConnection))

/-- The `except` handler: settle in full what may have been spent, release the rest. -/
def handle (s : Service) (t : Task) (w : Work) (r : Reservation) (attempted : Bool)
    (exc : Exception) : HandlerPoint → Service × Task
  | .takeConnection => (s, t.goto (.handling w r attempted exc .close))
  | .close =>
    if attempted then
      match s.store.settle r r.lookups r.cents with
      | .error e => t.raise s (.store e)
      | .ok store => ({ s with store := store },
          t.did (.settled r r.lookups r.cents) (.handling w r attempted exc .leaveConnection))
    else
      match s.store.release r with
      | .error e => t.raise s (.store e)
      | .ok store => ({ s with store := store },
          t.did (.settled r 0 0) (.handling w r attempted exc .leaveConnection))
  | .leaveConnection => (s, t.goto (.ended (.raised exc)))

/-- The end of `import_bundle`. -/
def record (cfg : Config) (s : Service) (t : Task) (w : Work) (r : Reservation)
    (result : LookupResponse) (jobId : JobId) : JobPoint → Service × Task
  | .takeConnection => (s, t.goto (.recording w r result jobId .insertJob))
  | .insertJob =>
    match s.store.insertJob jobId w.tenantId (enrichedRecords cfg w.tenantId result).length
        result.centsCharged (cfg.replicaName t.request.replica) with
    | .error e => t.raise s (.store e)
    | .ok store => ({ s with store := store },
        t.did (.insertedJob jobId) (.recording w r result jobId .leaveConnection))
  | .leaveConnection =>
    (s, t.goto (.ended (.responded (.imported jobId w.tenantId .completed
      (enrichedRecords cfg w.tenantId result).length result.centsCharged))))

/-- The end of `list_records`. -/
def list (s : Service) (t : Task) (tenantId : TenantId) (pageSize : Nat) :
    ListPoint → Service × Task
  | .takeConnection => (s, t.goto (.listing tenantId pageSize .readRecords))
  | .readRecords =>
    (s, t.goto (.listing tenantId pageSize
      (.leaveConnection (s.store.readRecords tenantId pageSize))))
  | .leaveConnection page => (s, t.goto (.ended (.responded (.page page))))

/-- Perform what is named at the point a request stands at, and go to the next; `none` where it
has to wait, or has exited. -/
def advance (cfg : Config) (s : Service) (t : Task) : Option (Service × Task) :=
  match t.pc with
  | .authenticating =>
    match t.request.principal with
    | none => some (t.raise s .unauthorized)
    | some tenantId => some (s, t.goto (.reading tenantId))
  | .reading tenantId => some (t.read cfg s tenantId)
  | .takingConnection w => some (s, t.goto (.reserving w))
  | .reserving w => some (t.reserve cfg s w)
  | .leavingConnection w r => some (s, t.goto (.calling w r .enterRequestDeadline))
  | .calling w r p => t.lookUp s w r p
  | .finishing w r result p => some (t.finish cfg s w r result p)
  | .handling w r attempted exc p => some (t.handle s w r attempted exc p)
  | .recording w r result jobId p => some (t.record cfg s w r result jobId p)
  | .listing tenantId pageSize p => some (t.list s tenantId pageSize p)
  | .ended _ => none

/-- An exception from outside at the point a request stands at. A deadline expires only inside it. -/
def fault (s : Service) (t : Task) (f : Fault) : Option (Service × Task) :=
  if t.pc.isEnded then none else
  match f with
  | .cancelled => some (t.raise s .cancelled)
  | .failed => some (t.raise s .failed)
  | .deadline =>
    if t.pc.insideDeadline then some (t.raise s (.deadlineExpired t.request.payload.operation))
    else none

end Task

end Limitless
