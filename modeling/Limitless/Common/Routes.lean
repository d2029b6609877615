import Limitless.Lib.Indexed
import Limitless.Lib.Pool
import Limitless.Store.Records

/-!
# The routes both applications share, and their connection pools

`api.py`'s `add_common_routes`: `healthz`, `get_job` and `get_usage`, cut at their awaits as the
other handlers are. A `Variant` is what they are given of an application: its name, its
`usage_source`, and how its own requests take and hold connections. `Replicas` is a variant with
the requests to these routes. Each replica has one pool of connections, made by `make_pool`, which
all its requests share: `Variant.clients` says who takes one and who holds one.

A request that asks for a connection waits for it. `psycopg_pool` serves those who wait in the
order they came and gives up on one after its timeout, which is a `CommonFault`; here any of them
may be next.
-/

namespace Limitless

open Indexed Runs Pools

/-! ## One request -/

/-- A route. A job identifier that is no UUID never gets here. -/
inductive CommonRoute
  | healthz
  | job (jobId : JobId)
  | usage
  deriving DecidableEq, Repr

/-- A request to one. -/
structure CommonRequest where
  replica : ℕ
  /-- What `authenticate` makes of the `Authorization` header. -/
  principal : Option TenantId
  route : CommonRoute
  deriving DecidableEq, Repr

/-- The statement that answers it. -/
inductive Query
  /-- `SELECT 1`. -/
  | ping
  | readJob (jobId : JobId) (tenantId : TenantId)
  | usageSource (tenantId : TenantId)
  deriving DecidableEq, Repr

/-- How it is answered. -/
inductive CommonAnswer
  | health (status replica variant : String)
  | job (view : JobView)
  | usage (view : UsageView)
  /-- `unauthorized()`. -/
  | unauthorized
  /-- `not_found()`. -/
  | notFound
  deriving DecidableEq, Repr

/-- What ends it without an answer of its own. -/
inductive CommonFault
  | cancelled
  /-- The pool gave up, or the connection failed. -/
  | failed
  deriving DecidableEq, Repr

/-- Where it stands. -/
inductive CommonPoint
  | entering
  | takingConnection (query : Query)
  | executing (query : Query)
  | leavingConnection (answer : CommonAnswer)
  | ended (answer : Except CommonFault CommonAnswer)
  deriving DecidableEq, Repr

namespace CommonPoint

/-- It is between taking its connection and giving it back. -/
def holdsConnection : CommonPoint → Bool
  | executing _ | leavingConnection _ => true
  | entering | takingConnection _ | ended _ => false

/-- It asks for its connection next. -/
def takesConnection : CommonPoint → Bool
  | takingConnection _ => true
  | entering | executing _ | leavingConnection _ | ended _ => false

/-- The steps it has left. -/
def remaining : CommonPoint → ℕ
  | entering => 4
  | takingConnection _ => 3
  | executing _ => 2
  | leavingConnection _ => 1
  | ended _ => 0

end CommonPoint

/-- A request to a common route, in a replica. -/
structure CommonReader where
  request : CommonRequest
  point : CommonPoint
  deriving DecidableEq, Repr

/-! ## A variant -/

/-- An application, as its common routes and its pools see it. -/
structure Variant (σ ε : Type) where
  variant : String
  replicaName : ℕ → String
  readJob : σ → JobId → TenantId → Option JobView
  /-- Where it reads a tenant's spend from. -/
  usageSource : σ → TenantId → Option UsageView
  /-- The replicas there are. -/
  replicas : σ → ℕ
  /-- Its own requests, and the replicas whose connections they take and hold. -/
  handlers : Clients σ ε ℕ

namespace CommonReader

variable {σ ε : Type}

/-- A request that has just arrived. -/
def arrived (request : CommonRequest) : CommonReader := ⟨request, .entering⟩

/-- `healthz`, or `require_tenant` of the other two. -/
def enter (r : CommonReader) : CommonPoint :=
  match r.request.route, r.request.principal with
  | .healthz, _ => .takingConnection .ping
  | _, none => .ended (.ok .unauthorized)
  | .job jobId, some tenantId => .takingConnection (.readJob jobId tenantId)
  | .usage, some tenantId => .takingConnection (.usageSource tenantId)

/-- What the statement comes to. A view that is not there is raised as a `404` once the connection
has been given back. -/
def execute (v : Variant σ ε) (w : σ) (r : CommonReader) : Query → CommonAnswer
  | .ping => .health "ok" (v.replicaName r.request.replica) v.variant
  | .readJob jobId tenantId => (v.readJob w jobId tenantId).elim .notFound .job
  | .usageSource tenantId => (v.usageSource w tenantId).elim .notFound .usage

/-- Perform what is named at the point it stands at. -/
def advance (v : Variant σ ε) (w : σ) (r : CommonReader) : Option CommonReader :=
  match r.point with
  | .entering => some { r with point := r.enter }
  | .takingConnection query => some { r with point := .executing query }
  | .executing query => some { r with point := .leavingConnection (r.execute v w query) }
  | .leavingConnection answer => some { r with point := .ended (.ok answer) }
  | .ended _ => none

/-- An exception in its place. -/
def fault (r : CommonReader) (f : CommonFault) : Option CommonReader :=
  match r.point with
  | .ended _ => none
  | _ => some { r with point := .ended (.error f) }

/-- Nothing has ended it but an answer. -/
def Unstruck (r : CommonReader) : Prop := ∀ f, r.point ≠ .ended (.error f)

/-- It holds a connection of the replica. -/
def holdsAt (r : CommonReader) (ρ : ℕ) : Bool := r.request.replica = ρ ∧ r.point.holdsConnection

/-- It has had no connection: it is on its way to one, or has ended without. -/
def Unserved (r : CommonReader) : Prop :=
  r.point = .entering ∨ (∃ query, r.point = .takingConnection query) ∨
    (∃ f, r.point = .ended (.error f)) ∨ r.point = .ended (.ok .unauthorized)

/-- Whatever it has been told was so in a world of these, and is what it asked for. -/
def Told (v : Variant σ ε) (S : σ → Prop) (r : CommonReader) : Prop :=
  match r.point with
  | .entering | .ended (.error _) => True
  | .takingConnection query | .executing query => r.enter = .takingConnection query
  | .leavingConnection a =>
    ∃ w query, S w ∧ r.enter = .takingConnection query ∧ a = r.execute v w query
  | .ended (.ok a) => r.enter = .ended (.ok a) ∨
    ∃ w query, S w ∧ r.enter = .takingConnection query ∧ a = r.execute v w query

end CommonReader

/-! ## The replicas -/

/-- The replicas of a variant, with the requests to their common routes. -/
structure Replicas (σ : Type) where
  world : σ
  readers : List CommonReader

/-- What happens next. -/
inductive ReplicaEvent (ε : Type)
  /-- Something in the variant's own handlers, its store or its provider. -/
  | inside (e : ε)
  | ask (request : CommonRequest)
  | advance (j : ℕ)
  | fault (j : ℕ) (f : CommonFault)

/-- The event is a step of a request by itself: nobody arrives, nothing fails, and nothing outside
the replicas does anything. -/
def ReplicaEvent.isOwn {ε : Type} (own : ε → Bool) : ReplicaEvent ε → Bool
  | inside e => own e
  | advance _ => true
  | ask _ | fault _ _ => false

namespace Replicas

variable {σ ε : Type}

/-- The replicas have just started. -/
def start (w : σ) : Replicas σ := ⟨w, []⟩

/-- Let a request to a common route do something. -/
def act (p : Replicas σ) (j : ℕ) (f : CommonReader → Option CommonReader) : Option (Replicas σ) :=
  match p.readers[j]? with
  | none => none
  | some r => (f r).map fun r' => { p with readers := p.readers.set j r' }

/-- One event, whatever the pools hold. -/
def next (v : Variant σ ε) (p : Replicas σ) : ReplicaEvent ε → Option (Replicas σ)
  | .inside e => (v.handlers.next p.world e).map fun w => { p with world := w }
  | .ask request =>
    if request.replica < v.replicas p.world then
      some { p with readers := p.readers ++ [.arrived request] }
    else none
  | .advance j => p.act j fun r => r.advance v p.world
  | .fault j f => p.act j fun r => r.fault f

/-- The replica whose pool the event takes a connection from. -/
def takes (v : Variant σ ε) (p : Replicas σ) : ReplicaEvent ε → Option ℕ
  | .inside e => v.handlers.takes p.world e
  | .advance j =>
    (p.readers[j]?.filter fun r => r.point.takesConnection).map fun r => r.request.replica
  | .ask _ | .fault _ _ => none

/-- The connections of a replica that its requests hold. -/
def held (v : Variant σ ε) (p : Replicas σ) (ρ : ℕ) : ℕ :=
  v.handlers.held p.world ρ + p.readers.countP (·.holdsAt ρ)

/-- The steps the requests have left, where the variant's own have so many. -/
def remaining (handlers : ℕ) (p : Replicas σ) : ℕ :=
  handlers + (p.readers.map fun r => r.point.remaining).sum

end Replicas

/-! ## Steps -/

namespace CommonReader

variable {σ ε : Type} {v : Variant σ ε} {w : σ} {r r' : CommonReader}

theorem advance_request (h : r.advance v w = some r') : r'.request = r.request := by
  unfold advance at h
  split at h
  all_goals cases h
  all_goals rfl

theorem fault_eq {f : CommonFault} (h : r.fault f = some r') :
    r' = { r with point := .ended (.error f) } := by
  unfold fault at h
  split at h
  · cases h
  · exact (Option.some.inj h).symm

/-- Who holds a connection after a step took it or had it. -/
theorem advance_holds (h : r.advance v w = some r') (hholds : r'.point.holdsConnection = true) :
    r.point.takesConnection = true ∨ r.point.holdsConnection = true := by
  unfold advance at h
  cases hp : r.point with
  | entering =>
      simp only [hp] at h
      cases h
      exfalso
      unfold enter at hholds
      split at hholds
      all_goals cases hholds
  | takingConnection => exact .inl rfl
  | executing | leavingConnection => exact .inr rfl
  | ended answer =>
      simp only [hp] at h
      cases h

/-- Its own steps end in no fault. -/
theorem advance_unstruck (h : r.advance v w = some r') : r'.Unstruck := by
  intro f
  unfold advance at h
  split at h
  · cases h
    unfold enter
    split
    all_goals exact nofun
  all_goals cases h
  all_goals exact nofun

/-- Its own step brings it nearer to its end. -/
theorem advance_remaining (h : r.advance v w = some r') :
    r'.point.remaining < r.point.remaining := by
  unfold advance at h
  cases hp : r.point with
  | entering =>
      simp only [hp] at h
      cases h
      show r.enter.remaining < 4
      unfold enter
      split
      all_goals simp [CommonPoint.remaining]
  | ended answer =>
      simp only [hp] at h
      cases h
  | _ =>
      simp only [hp] at h
      cases h
      exact Nat.lt_succ_self _

/-- One that takes no connection stays without. -/
theorem Unserved.advance (hr : r.Unserved) (h : r.advance v w = some r')
    (htakes : r.point.takesConnection = false) : r'.Unserved := by
  rcases hr with hp | ⟨query, hp⟩ | ⟨f, hp⟩ | hp
  · simp only [CommonReader.advance, hp] at h
    cases h
    unfold Unserved enter
    split <;> simp
  · rw [hp] at htakes
    cases htakes
  all_goals
    simp only [CommonReader.advance, hp] at h
    cases h

/-- It goes on by itself until it has ended. -/
theorem advance_isSome (v : Variant σ ε) (w : σ) (hend : ∀ a, r.point ≠ .ended a) :
    ∃ r', r.advance v w = some r' := by
  unfold advance
  cases hp : r.point with
  | ended answer => exact absurd hp (hend answer)
  | _ => exact ⟨_, rfl⟩

end CommonReader

namespace Replicas

variable {σ ε : Type} {v : Variant σ ε} {p p' : Replicas σ}

theorem act_eq_some {j : ℕ} {f : CommonReader → Option CommonReader} (h : p.act j f = some p') :
    ∃ r r', p.readers[j]? = some r ∧ f r = some r' ∧
      p' = { p with readers := p.readers.set j r' } := by
  unfold act at h
  split at h
  · cases h
  · next r hr =>
      obtain ⟨r', hf, rfl⟩ := Option.map_eq_some_iff.mp h
      exact ⟨r, r', hr, hf, rfl⟩

/-- What an event does to the readers and the world. -/
inductive Moves (v : Variant σ ε) (p : Replicas σ) : ReplicaEvent ε → Replicas σ → Prop
  | inside {e : ε} {w : σ} : v.handlers.next p.world e = some w →
      Moves v p (.inside e) { p with world := w }
  | asked {request : CommonRequest} : request.replica < v.replicas p.world →
      Moves v p (.ask request) { p with readers := p.readers ++ [.arrived request] }
  | advanced {j : ℕ} {r r' : CommonReader} : p.readers[j]? = some r →
      r.advance v p.world = some r' →
      Moves v p (.advance j) { p with readers := p.readers.set j r' }
  | struck {j : ℕ} {f : CommonFault} {r : CommonReader} : p.readers[j]? = some r →
      Moves v p (.fault j f)
        { p with readers := p.readers.set j { r with point := .ended (.error f) } }

/-- The step function does nothing else. -/
theorem moves_of_next {e : ReplicaEvent ε} (h : p.next v e = some p') : Moves v p e p' := by
  cases e with
  | inside e =>
      obtain ⟨w, hw, rfl⟩ := Option.map_eq_some_iff.mp h
      exact .inside hw
  | ask request =>
      rw [next] at h
      split at h
      · next hr =>
          cases h
          exact .asked hr
      · cases h
  | advance j =>
      obtain ⟨r, r', hr, hf, rfl⟩ := act_eq_some h
      exact .advanced hr hf
  | fault j f =>
      obtain ⟨r, r', hr, hf, rfl⟩ := act_eq_some h
      rw [CommonReader.fault_eq hf]
      exact .struck hr

/-- Only an event that takes a connection puts one out. -/
theorem held_next {e : ReplicaEvent ε} (h : p.next v e = some p') (ρ : ℕ) :
    held v p' ρ ≤ held v p ρ ∨ takes v p e = some ρ ∧ held v p' ρ ≤ held v p ρ + 1 := by
  cases moves_of_next h with
  | inside hw =>
      rcases v.handlers.held_next hw ρ with hle | ⟨htakes, hle⟩
      · exact .inl (Nat.add_le_add_right hle _)
      · exact .inr ⟨htakes, by simp only [held]; omega⟩
  | asked =>
      refine .inl ?_
      simp [held, List.countP_append, CommonReader.holdsAt, CommonReader.arrived,
        CommonPoint.holdsConnection]
  | @advanced j r r' hr hadvance =>
      by_cases htakes : r.point.takesConnection = true ∧ r.request.replica = ρ
      · have hset := countP_set_le_succ (·.holdsAt ρ) r' hr
        exact .inr ⟨by simp [takes, hr, htakes.1, htakes.2], by simp only [held]; omega⟩
      · refine .inl (Nat.add_le_add_left (countP_set_le hr fun hholds => ?_) _)
        obtain ⟨hρ, hpoint⟩ : r'.request.replica = ρ ∧ r'.point.holdsConnection = true := by
          simpa [CommonReader.holdsAt] using hholds
        rw [CommonReader.advance_request hadvance] at hρ
        rcases CommonReader.advance_holds hadvance hpoint with htook | hheld
        · exact absurd ⟨htook, hρ⟩ htakes
        · simp [CommonReader.holdsAt, hρ, hheld]
  | struck hr =>
      refine .inl (Nat.add_le_add_left (countP_set_le hr fun hholds => ?_) _)
      simp [CommonReader.holdsAt, CommonPoint.holdsConnection] at hholds

/-- A reader's own step brings the replicas nearer to a stop. -/
theorem remaining_advance {j : ℕ} {r r' : CommonReader} (handlers : ℕ) (hr : p.readers[j]? = some r)
    (h : r.advance v p.world = some r') :
    remaining handlers { p with readers := p.readers.set j r' } < remaining handlers p := by
  have hset := sum_map_set (fun r => r.point.remaining) r' hr
  have hlt := CommonReader.advance_remaining h
  simp only [remaining]
  omega

/-- While nothing fails, a reader stays in its place, and ends with an answer. -/
theorem reader_unstruck {own : ε → Bool} {e : ReplicaEvent ε} {j : ℕ} {r : CommonReader}
    (h : p.next v e = some p') (hown : e.isOwn own = true) (hj : p.readers[j]? = some r)
    (hr : r.Unstruck) : ∃ r', p'.readers[j]? = some r' ∧ r'.request = r.request ∧ r'.Unstruck := by
  cases moves_of_next h with
  | inside => exact ⟨r, hj, rfl, hr⟩
  | asked | struck => cases hown
  | advanced hk hadvance =>
      refine exists_getElem?_set (P := fun x => x.request = r.request ∧ x.Unstruck) hj ⟨rfl, hr⟩
        hk ?_
      rintro ⟨hrequest, -⟩
      exact ⟨(CommonReader.advance_request hadvance).trans hrequest,
        CommonReader.advance_unstruck hadvance⟩

/-- Whatever happens, a reader stays in its place. -/
theorem reader_stays {e : ReplicaEvent ε} {j : ℕ} {request : CommonRequest}
    (h : p.next v e = some p') (hj : ∃ r, p.readers[j]? = some r ∧ r.request = request) :
    ∃ r, p'.readers[j]? = some r ∧ r.request = request := by
  obtain ⟨r, hj, hr⟩ := hj
  cases moves_of_next h with
  | inside => exact ⟨r, hj, hr⟩
  | asked => exact ⟨r, (List.getElem?_append_left (List.getElem?_eq_some_iff.mp hj).1).trans hj, hr⟩
  | advanced hk hadvance =>
      exact exists_getElem?_set (P := fun x => x.request = request) hj hr hk
        (CommonReader.advance_request hadvance).trans
  | @struck _ f r' hk =>
      exact exists_getElem?_set (P := fun x => x.request = request)
        (c := { r' with point := .ended (.error f) }) hj hr hk id

end Replicas

/-! ## What the readers are told -/

/-- Where a reader goes first. -/
theorem CommonReader.enter_cases (r : CommonReader) :
    (∃ query, r.enter = .takingConnection query) ∨ r.enter = .ended (.ok .unauthorized) := by
  unfold enter
  split
  · exact .inl ⟨_, rfl⟩
  · exact .inr rfl
  · exact .inl ⟨_, rfl⟩
  · exact .inl ⟨_, rfl⟩

/-- A reader that has been told nothing but what was so goes on. -/
theorem CommonReader.Told.advance {σ ε : Type} {v : Variant σ ε} {S : σ → Prop} {w : σ}
    {r r' : CommonReader} (h : r.Told v S) (hw : S w) (hstep : r.advance v w = some r') :
    r'.Told v S := by
  unfold Told at h
  unfold CommonReader.advance at hstep
  cases hp : r.point with
  | entering =>
      simp only [hp] at hstep
      cases hstep
      rcases r.enter_cases with ⟨query, henter⟩ | henter
      · have htold : Told v S { r with point := .takingConnection query } := henter
        rwa [← henter] at htold
      · have htold : Told v S { r with point := .ended (.ok .unauthorized) } := .inl henter
        rwa [← henter] at htold
  | takingConnection query =>
      simp only [hp] at hstep h
      cases hstep
      exact h
  | executing query =>
      simp only [hp] at hstep h
      cases hstep
      exact ⟨w, query, hw, h, rfl⟩
  | leavingConnection a =>
      simp only [hp] at hstep h
      cases hstep
      exact .inr h
  | ended a =>
      simp only [hp] at hstep
      cases hstep

theorem CommonReader.Told.mono {σ ε : Type} {v : Variant σ ε} {S S' : σ → Prop} {r : CommonReader}
    (h : r.Told v S) (hle : ∀ w, S w → S' w) : r.Told v S' := by
  unfold Told at h ⊢
  cases hp : r.point with
  | entering => trivial
  | takingConnection | executing =>
      simp only [hp] at h ⊢
      exact h
  | leavingConnection a =>
      simp only [hp] at h ⊢
      obtain ⟨w, query, hw, henter⟩ := h
      exact ⟨w, query, hle w hw, henter⟩
  | ended a =>
      cases a with
      | error f => trivial
      | ok a =>
          simp only [hp] at h ⊢
          rcases h with h | ⟨w, query, hw, henter⟩
          · exact .inl h
          · exact .inr ⟨w, query, hle w hw, henter⟩

/-- A world that the handlers reach from one and go on from to another. -/
def Variant.Between {σ ε : Type} (v : Variant σ ε) (w w' x : σ) : Prop :=
  (∃ es, Run (Steps v.handlers.next) w es x) ∧ ∃ es, Run (Steps v.handlers.next) x es w'

/-- **Readers are told what is so.** Whoever asks during a run is answered by a world of the run. -/
theorem Replicas.run_told {σ ε : Type} {v : Variant σ ε} {p q : Replicas σ}
    {es : List (ReplicaEvent ε)} (hrun : Run (Steps (Replicas.next v)) p es q) :
    (∃ es, Run (Steps v.handlers.next) p.world es q.world) ∧
      ∀ k r, q.readers[k]? = some r → p.readers.length ≤ k →
        r.Told v (v.Between p.world q.world) := by
  refine (hrun.invariant (I := fun a => p.readers.length ≤ a.readers.length ∧
    (∃ es, Run (Steps v.handlers.next) p.world es a.world) ∧
    ∀ k r, a.readers[k]? = some r → p.readers.length ≤ k →
      r.Told v (v.Between p.world a.world)) ?_ ⟨le_rfl, ⟨[], .nil⟩, ?_⟩).2
  · rintro a e b ⟨hlength, hworld, htold⟩ hstep
    cases moves_of_next hstep with
    | @inside e w hw =>
        have hgo : Run (Steps v.handlers.next) a.world [e] w := .cons hw .nil
        obtain ⟨fs, hfs⟩ := hworld
        refine ⟨hlength, ⟨_, hfs.append hgo⟩, fun k r hk hle => (htold k r hk hle).mono ?_⟩
        rintro x ⟨hbefore, gs, hgs⟩
        exact ⟨hbefore, _, hgs.append hgo⟩
    | @asked request hreplica =>
        refine ⟨hlength.trans (by simp), hworld, fun k r hk hle => ?_⟩
        rcases getElem?_concat_cases hk with hold | ⟨-, rfl⟩
        · exact htold k r hold hle
        · exact trivial
    | @advanced j r r' hj hadvance =>
        refine ⟨hlength.trans_eq (List.length_set ..).symm, hworld, fun k x hk hle => ?_⟩
        rcases getElem?_set_cases hk with ⟨rfl, rfl⟩ | ⟨-, hold⟩
        · exact (htold _ r hj hle).advance ⟨hworld, [], .nil⟩ hadvance
        · exact htold k x hold hle
    | @struck j f r hj =>
        refine ⟨hlength.trans_eq (List.length_set ..).symm, hworld, fun k x hk hle => ?_⟩
        rcases getElem?_set_cases hk with ⟨rfl, rfl⟩ | ⟨-, hold⟩
        · exact trivial
        · exact htold k x hold hle
  · intro k r hk hle
    have := (List.getElem?_eq_some_iff.mp hk).1
    omega

/-- The requests of the replicas, and their connections. -/
def Variant.clients {σ ε : Type} (v : Variant σ ε) : Clients (Replicas σ) (ReplicaEvent ε) ℕ where
  next := Replicas.next v
  takes := Replicas.takes v
  held := Replicas.held v
  held_next := Replicas.held_next

end Limitless
