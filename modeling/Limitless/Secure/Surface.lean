import Limitless.Audit.Events
import Limitless.Secure.Bounds
import Limitless.Secure.World

/-!
# Responses and the log

`api.py`'s boundary around the handlers: the middleware that stamps a request, the exception
handlers of the two applications' limits and of the store, and the routes that do no metered work.
`Surface` is the replicas with everything that leaves them, the lines of their logs and the
responses on their way to the clients, who count as refused what has one of three statuses.

A request exits its handler in one way (`Exit`), however many exceptions replaced one another
before, and one exit is one response and at most one line (`respond`). Two kinds of exit have a
status that clients count: a reached limit, which is audited, and an `OperationalError` of the
store, which is answered with a `503` and logged as something else. So clients count what was
audited exactly when no request ended in the latter (`refusals_reconcile`).
-/

namespace Limitless

open Runs

/-! ## Stamping -/

/-- A header value as a `str`. -/
def HeaderValue.decode (value : HeaderValue) : PyStr := value.map fun b => JsonString.point b.toNat

/-- The request id of `stamp_requests`: the header's, if it has one, or a fresh one. -/
def stampedId (header : Option HeaderValue) (uuid : PyStr) : PyStr :=
  match header with
  | none => uuid
  | some value => if value = [] then uuid else value.decode

/-- `request.state`, as the exception handlers read it. -/
structure RequestState where
  requestId : PyStr
  /-- Set by a handler once the request is authenticated. -/
  tenantId : Option TenantId

/-! ## Responses -/

/-- A response. A success has no `detail`, nor has a failed validation. -/
structure Reply where
  statusCode : ℕ
  detail : Option String
  headers : List (String × String)
  deriving DecidableEq, Repr

/-- `RequestRecord.refused`: the client reads the status code. -/
def Reply.refused (r : Reply) : Bool :=
  r.statusCode = 413 ∨ r.statusCode = 429 ∨ r.statusCode = 503

/-- `DETAIL_REFUSED`. -/
def detailRefused : String := "request could not be completed"

/-- `REFUSAL_STATUS`. -/
def refusalStatus : RefusalKind → ℕ
  | .inputTooLarge => 413
  | .allowanceExhausted => 429
  | .capacityShed => 503

/-- An answer that no exception handler of the application makes. -/
inductive Plain
  /-- A `200` of a handler, or of the documentation routes. -/
  | ok
  | created
  /-- `unauthorized()`. -/
  | unauthorized
  /-- `bad_request()`. -/
  | badRequest
  /-- `not_found()`. -/
  | notFound
  /-- No route has the path. -/
  | noRoute
  | methodNotAllowed
  /-- A path parameter is not of its type. -/
  | unprocessable
  /-- An exception that no handler takes. -/
  | serverError
  deriving DecidableEq, Repr

/-- The response it is. -/
def Plain.reply : Plain → Reply
  | ok => ⟨200, none, []⟩
  | created => ⟨201, none, []⟩
  | unauthorized => ⟨401, some "unauthorized", [("WWW-Authenticate", "Bearer")]⟩
  | badRequest => ⟨400, some "bad request", []⟩
  | notFound => ⟨404, some "not found", []⟩
  | noRoute => ⟨404, some "Not Found", []⟩
  | methodNotAllowed => ⟨405, some "Method Not Allowed", []⟩
  | unprocessable => ⟨422, none, []⟩
  | serverError => ⟨500, none, []⟩

/-! ## Exits -/

/-- What an exception from outside the handlers' own statements is an instance of. -/
inductive Failure
  /-- `psycopg.OperationalError`, or a class derived from it, by its name. -/
  | operational (className : PyStr)
  | other
  deriving DecidableEq, Repr

/-- How a request leaves its handler, as the exception handlers tell exits apart. -/
inductive Exit
  | plain (answer : Plain)
  | limitReached (kind : RefusalKind) (operation : RefusedOperation)
  | operationalError (className : PyStr)
  deriving DecidableEq, Repr

/-- An exception that is a failure. -/
def Failure.exit : Failure → Exit
  | operational className => .operationalError className
  | other => .plain .serverError

/-- The exit of a handler that ended; `none` where there is nobody to answer. What a failure was is
not in the ending. -/
def Ending.exit (failure : Failure) : Ending → Option Exit
  | .responded (.enriched _ _ _ _ _) | .responded (.imported _ _ _ _ _) => some (.plain .created)
  | .responded (.page _) => some (.plain .ok)
  | .raised .unauthorized => some (.plain .unauthorized)
  | .raised .badRequest => some (.plain .badRequest)
  | .raised (.limitReached kind operation) => some (.limitReached kind operation)
  | .raised (.deadlineExpired operation) => some (.limitReached .capacityShed operation)
  -- a broken constraint is an `IntegrityError`
  | .raised (.store _) => some (.plain .serverError)
  | .raised .cancelled => none
  | .raised .failed => some failure.exit

/-- What a read of the store comes to. -/
inductive StoreRead
  | found
  | absent
  | failed (failure : Failure)
  deriving DecidableEq, Repr

/-- A route without metered work. -/
inductive CheapRoute
  | healthz
  /-- `GET /v1/jobs/{job_id}`, with whether the parameter is a UUID. -/
  | job (isUuid : Bool)
  | usage
  /-- What the framework answers by itself. -/
  | framework (answer : Plain)
  deriving DecidableEq, Repr

/-- A request to one. -/
structure CheapRequest where
  replica : ℕ
  header : Option HeaderValue
  uuid : PyStr
  principal : Option TenantId
  route : CheapRoute
  /-- What its read comes to, if it is made. -/
  read : StoreRead

/-- The exit of a read view. -/
def StoreRead.exit : StoreRead → Exit
  | found => .plain .ok
  | absent => .plain .notFound
  | failed failure => failure.exit

/-- `healthz`, `get_job` and `get_usage`. -/
def CheapRequest.exit (r : CheapRequest) : Exit :=
  match r.route with
  | .healthz =>
    match r.read with
    | .found | .absent => .plain .ok
    | .failed failure => failure.exit
  | .job isUuid =>
    if !isUuid then .plain .unprocessable
    else if r.principal.isNone then .plain .unauthorized
    else r.read.exit
  | .usage => if r.principal.isNone then .plain .unauthorized else r.read.exit
  | .framework answer => .plain answer

/-! ## Exception handlers -/

/-- An event that a replica logs. -/
inductive LogEvent
  /-- The one of `emit_refusal`. -/
  | limitRefusal (r : Refusal)
  | storeUnavailable (replica requestId error : PyStr)
  deriving DecidableEq, Repr

/-- The event is audited. -/
def LogEvent.isLimitRefusal : LogEvent → Bool
  | limitRefusal _ => true
  | storeUnavailable _ _ _ => false

/-- `on_limit_reached`. -/
def onLimitReached (replica : PyStr) (retryAfterSeconds : ℕ) (state : RequestState)
    (kind : RefusalKind) (operation : RefusedOperation) : Reply × List LogEvent :=
  let tenantId := PyStr.ofString (state.tenantId.getD "-")
  let headers :=
    if kind = .allowanceExhausted then [("Retry-After", toString retryAfterSeconds)] else []
  (⟨refusalStatus kind, some detailRefused, headers⟩,
    [.limitRefusal ⟨state.requestId, replica, operation, tenantId⟩])

/-- `on_database_unavailable`. -/
def onDatabaseUnavailable (replica : PyStr) (state : RequestState) (className : PyStr) :
    Reply × List LogEvent :=
  (⟨503, some "service unavailable", []⟩, [.storeUnavailable replica state.requestId className])

/-- The response to an exit, and what is logged on the way. -/
def respond (replica : PyStr) (retryAfterSeconds : ℕ) (state : RequestState) :
    Exit → Reply × List LogEvent
  | .plain answer => (answer.reply, [])
  | .limitReached kind operation => onLimitReached replica retryAfterSeconds state kind operation
  | .operationalError className => onDatabaseUnavailable replica state className

/-! ## The replicas and what leaves them -/

/-- The replicas, their logs, and the responses. -/
structure Surface where
  world : World
  /-- The requests to metered routes that have been answered. -/
  answered : List ℕ
  /-- The responses on their way. -/
  sent : List Reply
  /-- The responses that clients have received, as they record them. -/
  records : List Reply
  /-- What the replicas have logged. -/
  log : List LogEvent
  /-- The exits of the answered requests, which no step reads. -/
  exits : List Exit

/-- What happens next. -/
inductive SurfaceEvent
  /-- Something inside the replicas. -/
  | inside (e : Event)
  /-- A request that left its handler is answered. -/
  | answer (i : ℕ) (header : Option HeaderValue) (uuid : PyStr) (failure : Failure)
  /-- A request to a cheap route, up to its answer. -/
  | cheap (r : CheapRequest)
  /-- A client receives a response. -/
  | receive (k : ℕ)

namespace Surface

/-- The replicas have just started. -/
def start (w : World) : Surface := ⟨w, [], [], [], [], []⟩

/-- The replica's name. -/
def replicaName (cfg : Config) (replica : ℕ) : PyStr := .ofString (cfg.replicaName replica)

/-- Send what is responded to an exit. -/
def send (s : Surface) (exit : Exit) (response : Reply × List LogEvent) : Surface :=
  { s with
    sent := s.sent ++ [response.1]
    log := s.log ++ response.2
    exits := s.exits ++ [exit] }

/-- One event. -/
def next (cfg : Config) (retryAfterSeconds : ℕ) (s : Surface) : SurfaceEvent → Option Surface
  | .inside e => (s.world.next cfg e).map fun w => { s with world := w }
  | .answer i header uuid failure =>
    match s.world.tasks[i]? with
    | none => none
    | some t =>
      match t.pc with
      | .ended ending =>
        if i ∈ s.answered then none else
        (ending.exit failure).map fun exit =>
          let state := ⟨stampedId header uuid, t.request.principal⟩
          { s.send exit (respond (replicaName cfg t.request.replica) retryAfterSeconds state exit)
            with answered := s.answered ++ [i] }
      | _ => none
  | .cheap r =>
    let state := ⟨stampedId r.header r.uuid, r.principal⟩
    some (s.send r.exit (respond (replicaName cfg r.replica) retryAfterSeconds state r.exit))
  | .receive k =>
    match s.sent[k]? with
    | none => none
    | some reply => some { s with sent := s.sent.eraseIdx k, records := s.records ++ [reply] }

/-- Every request has received a response. -/
def Complete (s : Surface) : Prop :=
  (∀ i < s.world.tasks.length, i ∈ s.answered) ∧ s.sent = []

end Surface

/-! ## Counting -/

/-- A limit refused the request. -/
def Exit.isLimitReached : Exit → Bool
  | limitReached _ _ => true
  | plain _ | operationalError _ => false

/-- The store failed it. -/
def Exit.isOperationalError : Exit → Bool
  | operationalError _ => true
  | plain _ | limitReached _ _ => false

variable {cfg : Config} {retryAfterSeconds : ℕ} {w₀ : World} {s s' : Surface} {exit : Exit}
  {es : List SurfaceEvent}

/-- **One exit.** Its response counts as refused if a limit was reached or the store failed, and its
log has an audit event if a limit was reached. -/
theorem respond_counts (replica : PyStr) (retryAfterSeconds : ℕ) (state : RequestState) (exit : Exit) :
    (respond replica retryAfterSeconds state exit).1.refused =
        (exit.isLimitReached || exit.isOperationalError) ∧
      (respond replica retryAfterSeconds state exit).2.countP LogEvent.isLimitRefusal =
        if exit.isLimitReached then 1 else 0 := by
  cases exit with
  | plain answer => cases answer <;> exact ⟨rfl, rfl⟩
  | limitReached kind operation => cases kind <;> exact ⟨rfl, rfl⟩
  | operationalError className => exact ⟨rfl, rfl⟩

namespace Surface

/-- What has left the replicas is accounted for by the exits. -/
structure Balanced (s : Surface) : Prop where
  refused : s.sent.countP Reply.refused + s.records.countP Reply.refused =
    s.exits.countP Exit.isLimitReached + s.exits.countP Exit.isOperationalError
  audited : s.log.countP LogEvent.isLimitRefusal = s.exits.countP Exit.isLimitReached

theorem balanced_start (w : World) : (start w).Balanced := ⟨rfl, rfl⟩

/-- A response and its log keep the balance. -/
theorem Balanced.send (h : s.Balanced) (replica : PyStr) (retryAfterSeconds : ℕ)
    (state : RequestState) (exit : Exit) :
    (s.send exit (respond replica retryAfterSeconds state exit)).Balanced := by
  obtain ⟨hreply, hlog⟩ := respond_counts replica retryAfterSeconds state exit
  have hdisjoint : exit.isLimitReached = true → exit.isOperationalError = false := by
    cases exit <;> exact fun h => by cases h <;> rfl
  have hrefused := h.refused
  constructor
  · simp only [Surface.send, List.countP_append, List.countP_singleton, hreply]
    cases hl : exit.isLimitReached with
    | true => simp [hdisjoint hl]; omega
    | false => cases exit.isOperationalError <;> simp <;> omega
  · simp only [Surface.send, List.countP_append, List.countP_singleton, hlog, h.audited]

/-- What an event does. -/
inductive Moves (cfg : Config) (retryAfterSeconds : ℕ) (s : Surface) : SurfaceEvent → Surface → Prop
  | moved {e : Event} {w : World} : s.world.next cfg e = some w →
      Moves cfg retryAfterSeconds s (.inside e) { s with world := w }
  | answered {i : ℕ} {header : Option HeaderValue} {uuid : PyStr} {failure : Failure} {t : Task}
      {ending : Ending} {exit : Exit} : s.world.tasks[i]? = some t → t.pc = .ended ending →
      i ∉ s.answered → ending.exit failure = some exit →
      Moves cfg retryAfterSeconds s (.answer i header uuid failure)
        { s.send exit (respond (replicaName cfg t.request.replica) retryAfterSeconds
            ⟨stampedId header uuid, t.request.principal⟩ exit) with answered := s.answered ++ [i] }
  | read {r : CheapRequest} :
      Moves cfg retryAfterSeconds s (.cheap r)
        (s.send r.exit (respond (replicaName cfg r.replica) retryAfterSeconds
          ⟨stampedId r.header r.uuid, r.principal⟩ r.exit))
  | received {k : ℕ} {reply : Reply} : s.sent[k]? = some reply →
      Moves cfg retryAfterSeconds s (.receive k)
        { s with sent := s.sent.eraseIdx k, records := s.records ++ [reply] }

/-- A step is one of these. -/
theorem moves_of_next {e : SurfaceEvent} (h : s.next cfg retryAfterSeconds e = some s') :
    Moves cfg retryAfterSeconds s e s' := by
  cases e with
  | inside e =>
      obtain ⟨w, hw, rfl⟩ := Option.map_eq_some_iff.mp h
      exact .moved hw
  | answer i header uuid failure =>
      rw [next] at h
      cases ht : s.world.tasks[i]? with
      | none => rw [ht] at h; cases h
      | some t =>
          simp only [ht] at h
          split at h
          · next ending hpc =>
              split at h
              · cases h
              · next hfresh =>
                  obtain ⟨exit, hexit, rfl⟩ := Option.map_eq_some_iff.mp h
                  exact .answered ht hpc hfresh hexit
          · cases h
  | cheap r =>
      cases h
      exact .read
  | receive k =>
      rw [next] at h
      cases hk : s.sent[k]? with
      | none => rw [hk] at h; cases h
      | some reply =>
          rw [hk] at h
          cases h
          exact .received hk

/-- Every event keeps the balance. -/
theorem Balanced.step {e : SurfaceEvent} (h : s.Balanced)
    (hstep : s.next cfg retryAfterSeconds e = some s') : s'.Balanced := by
  cases moves_of_next hstep with
  | moved _ => exact ⟨h.refused, h.audited⟩
  | @answered i header uuid failure t ending exit _ _ _ _ =>
      have hsend := h.send (replicaName cfg t.request.replica) retryAfterSeconds
        ⟨stampedId header uuid, t.request.principal⟩ exit
      exact ⟨hsend.refused, hsend.audited⟩
  | read => exact h.send _ _ _ _
  | @received k reply hk =>
      obtain ⟨hlt, hreply⟩ := List.getElem?_eq_some_iff.mp hk
      have hperm := (List.getElem_cons_eraseIdx_perm hlt).countP_eq Reply.refused
      have hrefused := h.refused
      rw [hreply, List.countP_cons] at hperm
      refine ⟨?_, h.audited⟩
      simp only [List.countP_append, List.countP_singleton]
      omega

/-- So it does over a run. -/
theorem Balanced.of_run
    (hrun : Run (Steps fun s e => s.next cfg retryAfterSeconds e) (start w₀) es s) : s.Balanced :=
  hrun.invariant (fun _ _ _ h hstep => h.step hstep) (balanced_start w₀)

end Surface

/-- **Refusals counted and refusals audited.** In every run whose requests have all received a
response, the responses that clients count as refused are as many as the refusal events that the
replicas logged, and the requests that the store failed. So the two counts agree exactly when no
request ended in an `OperationalError`. -/
theorem refusals_reconcile
    (hrun : Run (Steps fun s e => s.next cfg retryAfterSeconds e) (.start w₀) es s)
    (hcomplete : s.Complete) :
    s.records.countP Reply.refused =
      s.log.countP LogEvent.isLimitRefusal + s.exits.countP Exit.isOperationalError ∧
    (s.records.countP Reply.refused = s.log.countP LogEvent.isLimitRefusal ↔
      ∀ exit ∈ s.exits, exit.isOperationalError = false) := by
  have hbalanced := Surface.Balanced.of_run hrun
  have hrefused := hbalanced.refused
  rw [hcomplete.2, List.countP_nil, Nat.zero_add, ← hbalanced.audited] at hrefused
  refine ⟨hrefused, ?_⟩
  rw [hrefused, Nat.add_eq_left, List.countP_eq_zero]
  simp only [Bool.not_eq_true]

/-- One request, answered and received. -/
theorem Surface.complete_of_one (htasks : s.world.tasks.length = 1) (hanswered : s.answered = [0])
    (hsent : s.sent = []) : s.Complete := by
  refine ⟨fun i hi => ?_, hsent⟩
  obtain rfl : i = 0 := by omega
  rw [hanswered]
  exact List.mem_singleton_self 0

/-- A request that is too large, answered and received. -/
def tooLargeAnswered : List SurfaceEvent :=
  [.inside (.arrive ⟨0, some Fixtures.attackerTenantId, .enrich (.error .tooLarge)⟩),
    .inside (.advance 0), .inside (.advance 0), .answer 0 none [] .other, .receive 0]

/-- It is counted once and audited once. -/
theorem refusals_reconcile_of_one_refusal :
    ∃ s, Run (Steps fun s e => Surface.next (.demo 1) 30 s e) (.start (.demo 1)) tooLargeAnswered
        s ∧ s.Complete ∧ s.records.countP Reply.refused = 1 ∧
      s.records.countP Reply.refused =
        s.log.countP LogEvent.isLimitRefusal + s.exits.countP Exit.isOperationalError ∧
      (s.records.countP Reply.refused = s.log.countP LogEvent.isLimitRefusal ↔
        ∀ exit ∈ s.exits, exit.isOperationalError = false) := by
  have hfacts : (replay (fun s e => Surface.next (.demo 1) 30 s e) (.start (.demo 1))
      tooLargeAnswered).map (fun s => (s.world.tasks.length, s.answered, s.sent,
        s.records.countP Reply.refused)) = some (1, [0], [], 1) := by decide
  obtain ⟨s, hs, hfacts⟩ := Option.map_eq_some_iff.mp hfacts
  simp only [Prod.mk.injEq] at hfacts
  obtain ⟨htasks, hanswered, hsent, hcount⟩ := hfacts
  have hcomplete := Surface.complete_of_one htasks hanswered hsent
  have hrun := run_of_replay hs
  exact ⟨s, hrun, hcomplete, hcount, refusals_reconcile hrun hcomplete⟩

/-- A request whose deadline expires before it has a slot, and whose release then finds no
connection. -/
def releaseUnavailable : List SurfaceEvent :=
  [.inside (.arrive (.demo 0))] ++ List.replicate 6 (.inside (.advance 0)) ++
    [.inside (.fault 0 .deadline), .inside (.fault 0 .failed),
      .answer 0 none [] (.operational (.ofString "PoolTimeout")), .receive 0]

/-- The client counts it as refused, and no refusal is audited. -/
theorem store_failure_is_not_audited :
    ∃ s, Run (Steps fun s e => Surface.next (.demo 1) 30 s e) (.start (.demo 1)) releaseUnavailable
        s ∧ s.Complete ∧
      s.records.countP Reply.refused ≠ s.log.countP LogEvent.isLimitRefusal := by
  have hfacts : (replay (fun s e => Surface.next (.demo 1) 30 s e) (.start (.demo 1))
      releaseUnavailable).map (fun s => (s.world.tasks.length, s.answered, s.sent,
        s.records.countP Reply.refused, s.log.countP LogEvent.isLimitRefusal)) =
      some (1, [0], [], 1, 0) := by decide
  obtain ⟨s, hs, hfacts⟩ := Option.map_eq_some_iff.mp hfacts
  simp only [Prod.mk.injEq] at hfacts
  obtain ⟨htasks, hanswered, hsent, hcount, haudited⟩ := hfacts
  refine ⟨s, run_of_replay hs, Surface.complete_of_one htasks hanswered hsent, ?_⟩
  rw [hcount, haudited]
  decide

end Limitless
