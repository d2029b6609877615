import Limitless.Secure.World

/-!
# An enrichment with no other traffic

One enrichment from its arrival to its response while no other request does anything. `TaskEvent`
is what can happen to it: it goes on, an exception strikes it, the provider works on its call or
loses it, and time passes. `Alone` says what the services are at each of its points, in terms of
what they were when it arrived: the store has the work held, then its records, then its charge, and
the provider's ledger has the work on it once the call is answered. It claims nothing of a request
that an exception has struck, which never gets to a response.

So a response leaves `Settled` books and a `Billed` ledger (`alone_of_run`). In the other direction,
`exists_solo_run` is an enrichment that is not refused.
-/

namespace Limitless

open Runs

/-! ## One request and the services -/

/-- What can happen to one request. -/
inductive TaskEvent
  | advance
  | fault (f : Fault)
  | resume
  | abort
  | tick

/-- The event of the world that it is. -/
def TaskEvent.event (i : Nat) : TaskEvent → Event
  | advance => .advance i
  | fault f => .fault i f
  | resume => .resume i
  | abort => .abort i
  | tick => .tick

/-- The provider does something about the call of a request. -/
def Task.serve (s : Service) (t : Task)
    (f : ProviderState → Call → Option (ProviderState × Call)) : Option (Service × Task) :=
  match t.call with
  | none => none
  | some c =>
    match f s.provider c with
    | none => none
    | some (p, c') => some ({ s with provider := p }, { t with call := some c' })

/-- One event of a request. -/
def Task.next (cfg : Config) (p : Service × Task) : TaskEvent → Option (Service × Task)
  | .advance => p.2.advance cfg p.1
  | .fault f => p.2.fault p.1 f
  | .resume => p.2.serve p.1 fun q c => c.resume q
  | .abort => p.2.serve p.1 fun q c => c.abort q
  | .tick => some ({ p.1 with clock := p.1.clock + 1 }, p.2)

/-- The world where the last request is this one. -/
def World.last (tasks : List Task) (p : Service × Task) : World := ⟨p.1, tasks ++ [p.2]⟩

theorem World.act_last (tasks : List Task) (p : Service × Task)
    (f : Service → Task → Option (Service × Task)) :
    (World.last tasks p).act tasks.length f = (f p.1 p.2).map (World.last tasks) := by
  have hget : (tasks ++ [p.2])[tasks.length]? = some p.2 := by simp
  unfold World.act World.last
  rw [hget]
  simp only
  cases f p.1 p.2 with
  | none => rfl
  | some q =>
      obtain ⟨s, t⟩ := q
      simp

/-- The world does with the last request what it does by itself. -/
theorem World.next_last (cfg : Config) (tasks : List Task) (p : Service × Task) (e : TaskEvent) :
    World.next cfg (World.last tasks p) (e.event tasks.length) =
      (Task.next cfg p e).map (World.last tasks) := by
  cases e with
  | tick => rfl
  | advance => exact World.act_last tasks p fun s t => t.advance cfg s
  | fault f => exact World.act_last tasks p fun s t => t.fault s f
  | resume => exact World.act_last tasks p fun s t => t.serve s fun q c => c.resume q
  | abort => exact World.act_last tasks p fun s t => t.serve s fun q c => c.abort q

/-! ## What the services are at each point -/

/-- The services as the request found them, as far as it looks at them. -/
structure Service.SameAs (s₀ s : Service) : Prop where
  store : s.store = s₀.store
  limiters : s.limiters = s₀.limiters
  ledger : s.provider.ledger = s₀.provider.ledger

/-- The money for the work is held. -/
def Store.Held (cfg : Config) (w : Work) (st₀ st : Store) : Prop :=
  st₀.reserve w.tenantId w.companyNames.length cfg.priceCents =
    .ok (st, w.reservation cfg.priceCents)

/-- It is, and the records of the answer are stored. -/
def Store.Enriched (cfg : Config) (w : Work) (result : LookupResponse) (st₀ st : Store) : Prop :=
  ∃ held at', Store.Held cfg w st₀ held ∧
    st = held.upsertRecords w.tenantId (recordEntries cfg w.tenantId result) at'

/-- And the money held has been settled. -/
def Store.Settled (cfg : Config) (w : Work) (result : LookupResponse) (st₀ st : Store) : Prop :=
  ∃ enriched, Store.Enriched cfg w result st₀ enriched ∧
    enriched.settle (w.reservation cfg.priceCents) result.lookups result.centsCharged = .ok st

/-- The replica has a slot. -/
def Service.HasSlot (s : Service) (replica : Nat) : Prop :=
  ∃ l, s.limiters[replica]? = some l ∧ l.inFlight < l.capacity

/-- What the provider of `s₀` answers to the work. -/
def Service.answerTo (s₀ : Service) (w : Work) : LookupResponse :=
  w.lookupRequest.response s₀.provider.ledger.priceCentsPerLookup

/-- The provider, which is not held, has put the work on its ledger. -/
structure Service.Billed (s₀ : Service) (w : Work) (ledger : Ledger) : Prop where
  released : s₀.provider.released = true
  charge : s₀.provider.ledger.charge w.tenantId w.companyNames.length =
    .ok (ledger, (s₀.answerTo w).centsCharged)

/-- The provider's ledger while it works on the call, and after. -/
def CallPhase.Alone (s₀ : Service) (w : Work) (ledger : Ledger) : CallPhase → Prop
  | sent | yielding | awaitingRelease | aborted => ledger = s₀.provider.ledger
  | woken => False
  | delaying => s₀.provider.released = true ∧ ledger = s₀.provider.ledger
  | answered result => result = s₀.answerTo w ∧ s₀.Billed w ledger

/-- The store from the answer on. -/
def FinishPoint.Alone (cfg : Config) (w : Work) (result : LookupResponse) (st₀ st : Store) :
    FinishPoint → Prop
  | leaveUpstreamDeadline | leaveSlot | leaveRequestDeadline | buildRecords | takeConnection
  | upsertRecords => Store.Held cfg w st₀ st
  | settle => Store.Enriched cfg w result st₀ st
  | leaveConnection => Store.Settled cfg w result st₀ st

/-- The services, and the lookup call, where a request that does the work stands at a point with no
other traffic, in terms of the services when it arrived. -/
def Pc.Alone (cfg : Config) (s₀ : Service) (replica : Nat) (w : Work) (s : Service)
    (call : Option Call) : Pc → Prop
  | authenticating => s₀.SameAs s ∧ call = none
  | reading tenantId => tenantId = w.tenantId ∧ s₀.SameAs s ∧ call = none
  | takingConnection w' | reserving w' => w' = w ∧ s₀.SameAs s ∧ call = none
  | leavingConnection w' r | calling w' r .enterRequestDeadline | calling w' r .enterSlot =>
    w' = w ∧ r = w.reservation cfg.priceCents ∧ Store.Held cfg w s₀.store s.store ∧
      s.limiters = s₀.limiters ∧ s.provider.ledger = s₀.provider.ledger ∧ call = none
  | calling w' r .enterUpstreamDeadline | calling w' r .send =>
    w' = w ∧ r = w.reservation cfg.priceCents ∧ Store.Held cfg w s₀.store s.store ∧
      s₀.HasSlot replica ∧ s.provider.ledger = s₀.provider.ledger ∧ call = none
  | calling w' r .awaitResponse =>
    w' = w ∧ r = w.reservation cfg.priceCents ∧ Store.Held cfg w s₀.store s.store ∧
      s₀.HasSlot replica ∧
      ∃ phase, call = some ⟨w.lookupRequest, phase⟩ ∧ phase.Alone s₀ w s.provider.ledger
  | finishing w' r result p =>
    w' = w ∧ r = w.reservation cfg.priceCents ∧ result = s₀.answerTo w ∧ s₀.HasSlot replica ∧
      call = some ⟨w.lookupRequest, .answered result⟩ ∧ s₀.Billed w s.provider.ledger ∧
      p.Alone cfg w result s₀.store s.store
  | ended (.responded _) =>
    s₀.HasSlot replica ∧ (∃ result, call = some ⟨w.lookupRequest, .answered result⟩) ∧
      s₀.Billed w s.provider.ledger ∧ Store.Settled cfg w (s₀.answerTo w) s₀.store s.store
  | handling _ _ _ _ _ | ended (.raised _) => True
  | recording _ _ _ _ _ | listing _ _ _ => False

/-- An enrichment at a replica. -/
def Request.enrichment (replica : Nat) (tenantId : TenantId) (names : List String) : Request :=
  ⟨replica, some tenantId, .enrich (.ok names)⟩

/-- The request stands where it does with no other traffic. -/
structure Alone (cfg : Config) (s₀ : Service) (replica : Nat) (tenantId : TenantId)
    (names : List String) (p : Service × Task) : Prop where
  request : p.2.request = .enrichment replica tenantId names
  released : p.1.provider.released = s₀.provider.released
  pc : p.2.pc.Alone cfg s₀ replica ⟨tenantId, names, none⟩ p.1 p.2.call

variable {cfg : Config} {s₀ s s' : Service} {t t' : Task} {replica : Nat} {tenantId : TenantId}
  {names : List String} {w : Work} {q q' : ProviderState} {c c' : Call}

/-! ## Steps -/

/-- A request that an exception strikes claims nothing any more. -/
theorem Alone.raise (h : Alone cfg s₀ replica tenantId names (s, t)) (exc : Exception) :
    Alone cfg s₀ replica tenantId names (t.raise s exc) := by
  refine ⟨h.request, ?_, ?_⟩
  · show (if t.pc.holdsSlot then s.leaveSlot t.request.replica else s).provider.released = _
    split
    · rw [Service.leaveSlot_provider]
      exact h.released
    · exact h.released
  · simp only [Task.raise]
    cases t.pc.frame? <;> exact trivial

theorem Alone.fault {f : Fault} (h : Alone cfg s₀ replica tenantId names (s, t))
    (hstep : t.fault s f = some (s', t')) : Alone cfg s₀ replica tenantId names (s', t') := by
  have hraise : ∀ exc, some (t.raise s exc) = some (s', t') →
      Alone cfg s₀ replica tenantId names (s', t') := by
    intro exc heq
    rw [← Option.some.inj heq]
    exact h.raise exc
  unfold Task.fault at hstep
  split at hstep
  · cases hstep
  · cases f with
    | cancelled | failed => exact hraise _ hstep
    | deadline =>
        simp only at hstep
        split at hstep
        · exact hraise _ hstep
        · cases hstep

/-- The end of the handler bills the work and answers it. -/
theorem Call.finish_alone {phase : CallPhase} (hledger : q.ledger = s₀.provider.ledger)
    (hreleased : s₀.provider.released = true)
    (h : finish q ⟨w.lookupRequest, phase⟩ = (q', c')) :
    ∃ phase', c' = ⟨w.lookupRequest, phase'⟩ ∧ phase'.Alone s₀ w q'.ledger := by
  unfold finish at h
  split at h
  · cases h
    exact ⟨.aborted, rfl, hledger⟩
  · next ledger cents hcharge =>
      cases h
      obtain ⟨-, hcents, -⟩ := Ledger.charge_ok hcharge
      rw [hledger] at hcents hcharge
      subst hcents
      exact ⟨.answered _, rfl, rfl, hreleased, hcharge⟩

/-- The provider's handler goes on, with no other traffic. -/
theorem Call.resume_alone {phase : CallPhase} (hreleased : q.released = s₀.provider.released)
    (h : phase.Alone s₀ w q.ledger)
    (hstep : resume q ⟨w.lookupRequest, phase⟩ = some (q', c')) :
    ∃ phase', c' = ⟨w.lookupRequest, phase'⟩ ∧ phase'.Alone s₀ w q'.ledger := by
  cases phase with
  | sent =>
      cases hstep
      exact ⟨.yielding, rfl, h⟩
  | yielding =>
      simp only [resume] at hstep
      split at hstep
      · next hset =>
          rw [hreleased] at hset
          simp only [proceed] at hstep
          split at hstep
          · cases hstep
            exact ⟨.delaying, rfl, hset, h⟩
          · exact finish_alone h hset (Option.some.inj hstep)
      · cases hstep
        exact ⟨.awaitingRelease, rfl, h⟩
  | delaying => exact finish_alone h.2 h.1 (Option.some.inj hstep)
  | woken => exact h.elim
  | awaitingRelease | answered | aborted => cases hstep

theorem Call.abort_alone {phase : CallPhase} (h : phase.Alone s₀ w q.ledger)
    (hstep : abort q ⟨w.lookupRequest, phase⟩ = some (q', c')) :
    ∃ phase', c' = ⟨w.lookupRequest, phase'⟩ ∧ phase'.Alone s₀ w q'.ledger := by
  obtain ⟨-, hledger, rfl⟩ := abort_released hstep
  refine ⟨.aborted, rfl, ?_⟩
  rw [CallPhase.Alone, hledger]
  cases phase with
  | sent | yielding | awaitingRelease => exact h
  | delaying => exact h.2
  | woken => exact h.elim
  | answered | aborted => cases hstep

/-- The provider does something about the call, with no other traffic: what it does to a call of
the work keeps its phase true, and it does nothing about an answered one. -/
theorem Alone.serve (f : ProviderState → Call → Option (ProviderState × Call))
    (hreleased : ∀ {q c q' c'}, f q c = some (q', c') → q'.released = q.released)
    (hanswered : ∀ q payload result, f q ⟨payload, .answered result⟩ = none)
    (hphase : ∀ {q' c' phase}, phase.Alone s₀ ⟨tenantId, names, none⟩ s.provider.ledger →
      f s.provider ⟨Work.lookupRequest ⟨tenantId, names, none⟩, phase⟩ = some (q', c') →
      ∃ phase', c' = ⟨Work.lookupRequest ⟨tenantId, names, none⟩, phase'⟩ ∧
        phase'.Alone s₀ ⟨tenantId, names, none⟩ q'.ledger)
    (h : Alone cfg s₀ replica tenantId names (s, t)) (hstep : t.serve s f = some (s', t')) :
    Alone cfg s₀ replica tenantId names (s', t') := by
  obtain ⟨hrequest, hrel, hpc⟩ := h
  obtain ⟨request, pc, call, trail, raised⟩ := t
  simp only [Task.serve] at hstep
  cases call with
  | none => cases hstep
  | some c =>
      simp only at hstep
      cases hf : f s.provider c with
      | none =>
          rw [hf] at hstep
          cases hstep
      | some qc =>
          obtain ⟨q', c'⟩ := qc
          rw [hf] at hstep
          cases hstep
          refine ⟨hrequest, (hreleased hf).trans hrel, ?_⟩
          cases pc with
          | authenticating => cases hpc.2
          | reading | takingConnection | reserving => cases hpc.2.2
          | leavingConnection => cases hpc.2.2.2.2.2
          | calling w' r p =>
              cases p with
              | awaitResponse =>
                  obtain ⟨hw, hr, hheld, hslot, phase, hcall, halone⟩ := hpc
                  cases hcall
                  obtain ⟨phase', rfl, h'⟩ := hphase halone hf
                  exact ⟨hw, hr, hheld, hslot, phase', rfl, h'⟩
              | _ => cases hpc.2.2.2.2.2
          | finishing w' r result p =>
              obtain ⟨-, -, -, -, hcall, -⟩ := hpc
              cases hcall
              cases (hanswered _ _ _).symm.trans hf
          | ended e =>
              cases e with
              | responded response =>
                  obtain ⟨-, ⟨result, hcall⟩, -⟩ := hpc
                  cases hcall
                  cases (hanswered _ _ _).symm.trans hf
              | raised exc => exact trivial
          | handling => exact trivial
          | recording | listing => exact hpc.elim

/-- Reading the input, with no other traffic. -/
theorem Alone.read {u : TenantId} (h : Alone cfg s₀ replica tenantId names (s, t))
    (hpc : t.pc = .reading u) : Alone cfg s₀ replica tenantId names (t.read cfg s u) := by
  have hraise := h.raise
  obtain ⟨hrequest, hrel, halone⟩ := h
  obtain ⟨request, pc, call, trail, raised⟩ := t
  obtain rfl : request = .enrichment replica tenantId names := hrequest
  obtain rfl : pc = .reading u := hpc
  obtain ⟨rfl, hsame⟩ := halone
  simp only [Task.read, Request.enrichment]
  split
  · exact hraise _
  · exact ⟨rfl, hrel, rfl, hsame⟩

/-- The reservation, with no other traffic. -/
theorem Alone.reserve {w' : Work} (h : Alone cfg s₀ replica tenantId names (s, t))
    (hpc : t.pc = .reserving w') : Alone cfg s₀ replica tenantId names (t.reserve cfg s w') := by
  have hraise := h.raise
  obtain ⟨hrequest, hrel, halone⟩ := h
  obtain ⟨request, pc, call, trail, raised⟩ := t
  obtain rfl : request = .enrichment replica tenantId names := hrequest
  obtain rfl : pc = .reserving w' := hpc
  obtain ⟨rfl, hsame, hcall⟩ := halone
  simp only [Task.reserve]
  split
  · next store r hr =>
      obtain ⟨-, rfl, -⟩ := Store.reserve_ok hr
      rw [hsame.store] at hr
      exact ⟨rfl, hrel, rfl, rfl, hr, hsame.limiters, hsame.ledger, hcall⟩
  all_goals exact hraise _

/-- The `try` block up to the answer, with no other traffic. -/
theorem Alone.lookUp {w' : Work} {r : Reservation} {p : CallPoint}
    (h : Alone cfg s₀ replica tenantId names (s, t)) (hpc : t.pc = .calling w' r p)
    (hstep : t.lookUp s w' r p = some (s', t')) :
    Alone cfg s₀ replica tenantId names (s', t') := by
  have hraise := h.raise
  obtain ⟨hrequest, hrel, halone⟩ := h
  obtain ⟨request, pc, call, trail, raised⟩ := t
  obtain rfl : request = .enrichment replica tenantId names := hrequest
  obtain rfl : pc = .calling w' r p := hpc
  cases p with
  | enterRequestDeadline | enterUpstreamDeadline =>
      cases hstep
      exact ⟨rfl, hrel, halone⟩
  | enterSlot =>
      obtain ⟨hw, hr, hheld, hlimiters, hledger, hcall⟩ := halone
      simp only [Task.lookUp] at hstep
      split at hstep
      · cases hstep
      · next l hl =>
          split at hstep
          · rw [← Option.some.inj hstep]
            exact hraise _
          · next l' hl' =>
              cases hstep
              rw [hlimiters] at hl
              exact ⟨rfl, hrel, hw, hr, hheld, ⟨l, hl, InFlightLimiter.lt_of_enter_ok hl'⟩,
                hledger, hcall⟩
  | send =>
      obtain ⟨rfl, hr, hheld, hslot, hledger, -⟩ := halone
      cases hstep
      exact ⟨rfl, hrel, rfl, hr, hheld, hslot, .sent, rfl, hledger⟩
  | awaitResponse =>
      obtain ⟨rfl, hr, hheld, hslot, phase, hcall, hphase⟩ := halone
      simp only at hcall
      subst hcall
      cases phase with
      | answered result =>
          cases hstep
          exact ⟨rfl, hrel, rfl, hr, hphase.1, hslot, rfl, hphase.2, hheld⟩
      | _ => cases hstep

/-- The `try` block from the answer on, with no other traffic. -/
theorem Alone.finish {w' : Work} {r : Reservation} {result : LookupResponse} {p : FinishPoint}
    (h : Alone cfg s₀ replica tenantId names (s, t)) (hpc : t.pc = .finishing w' r result p) :
    Alone cfg s₀ replica tenantId names (t.finish cfg s w' r result p) := by
  have hraise := h.raise
  obtain ⟨hrequest, hrel, halone⟩ := h
  obtain ⟨request, pc, call, trail, raised⟩ := t
  obtain rfl : request = .enrichment replica tenantId names := hrequest
  obtain rfl : pc = .finishing w' r result p := hpc
  obtain ⟨rfl, rfl, rfl, hslot, hcall, hbilled, hstore⟩ := halone
  cases p with
  | leaveUpstreamDeadline | leaveRequestDeadline | buildRecords | takeConnection =>
      exact ⟨rfl, hrel, rfl, rfl, rfl, hslot, hcall, hbilled, hstore⟩
  | leaveSlot =>
      refine ⟨rfl, ?_, rfl, rfl, rfl, hslot, hcall, ?_, ?_⟩
      · rwa [Task.finish, Service.leaveSlot_provider]
      · rwa [Task.finish, Service.leaveSlot_provider]
      · rwa [Task.finish, Service.leaveSlot_store]
  | upsertRecords => exact ⟨rfl, hrel, rfl, rfl, rfl, hslot, hcall, hbilled, _, _, hstore, rfl⟩
  | settle =>
      simp only [Task.finish]
      split
      · exact hraise _
      · next store hok =>
          exact ⟨rfl, hrel, rfl, rfl, rfl, hslot, hcall, hbilled, _, hstore, hok⟩
  | leaveConnection => exact ⟨rfl, hrel, hslot, ⟨_, hcall⟩, hbilled, hstore⟩

/-- The `except` handler, which claims nothing. -/
theorem Alone.handle {w' : Work} {r : Reservation} {attempted : Bool} {exc : Exception}
    (h : Alone cfg s₀ replica tenantId names (s, t)) (p : HandlerPoint) :
    Alone cfg s₀ replica tenantId names (t.handle s w' r attempted exc p) := by
  have hraise := h.raise
  cases p with
  | takeConnection | leaveConnection => exact ⟨h.request, h.released, trivial⟩
  | close =>
      simp only [Task.handle]
      split <;> split
      all_goals
        first
        | exact hraise _
        | exact ⟨h.request, h.released, trivial⟩

/-- The request goes on, with no other traffic. -/
theorem Alone.advance (h : Alone cfg s₀ replica tenantId names (s, t))
    (hstep : t.advance cfg s = some (s', t')) : Alone cfg s₀ replica tenantId names (s', t') := by
  unfold Task.advance at hstep
  obtain ⟨hrequest, hrel, halone⟩ := id h
  cases hpc : t.pc with
  | authenticating =>
      have hprincipal : t.request.principal = some tenantId := by rw [hrequest]; rfl
      rw [hpc] at hstep halone
      simp only [hprincipal] at hstep
      cases hstep
      exact ⟨hrequest, hrel, rfl, halone⟩
  | reading u =>
      rw [hpc] at hstep
      exact Option.some.inj hstep ▸ h.read hpc
  | takingConnection w' =>
      rw [hpc] at hstep halone
      cases hstep
      exact ⟨hrequest, hrel, halone⟩
  | reserving w' =>
      rw [hpc] at hstep
      exact Option.some.inj hstep ▸ h.reserve hpc
  | leavingConnection w' r =>
      rw [hpc] at hstep halone
      cases hstep
      exact ⟨hrequest, hrel, halone⟩
  | calling w' r p =>
      rw [hpc] at hstep
      exact h.lookUp hpc hstep
  | finishing w' r result p =>
      rw [hpc] at hstep
      exact Option.some.inj hstep ▸ h.finish hpc
  | handling w' r attempted exc p =>
      rw [hpc] at hstep
      exact Option.some.inj hstep ▸ h.handle p
  | recording | listing =>
      rw [hpc] at halone
      exact halone.elim
  | ended =>
      rw [hpc] at hstep
      cases hstep

/-- Whatever happens to the request. -/
theorem Alone.next {p p' : Service × Task} {e : TaskEvent}
    (h : Alone cfg s₀ replica tenantId names p) (hstep : Task.next cfg p e = some p') :
    Alone cfg s₀ replica tenantId names p' := by
  obtain ⟨s, t⟩ := p
  obtain ⟨s', t'⟩ := p'
  cases e with
  | advance => exact h.advance hstep
  | fault f => exact h.fault hstep
  | resume =>
      exact h.serve (fun q c => c.resume q) Call.resume_released (fun _ _ _ => rfl)
        (Call.resume_alone h.released) hstep
  | abort =>
      exact h.serve (fun q c => c.abort q) (fun hq => (Call.abort_released hq).1)
        (fun _ _ _ => rfl) Call.abort_alone hstep
  | tick =>
      cases hstep
      obtain ⟨hrequest, hrel, hpc⟩ := h
      obtain ⟨request, pc, call, trail, raised⟩ := t
      refine ⟨hrequest, hrel, ?_⟩
      -- no point looks at the clock
      cases pc with
      | authenticating => exact ⟨⟨hpc.1.store, hpc.1.limiters, hpc.1.ledger⟩, hpc.2⟩
      | reading | takingConnection | reserving =>
          obtain ⟨hw, hsame, hcall⟩ := hpc
          exact ⟨hw, ⟨hsame.store, hsame.limiters, hsame.ledger⟩, hcall⟩
      | calling w r p => cases p <;> exact hpc
      | ended e => cases e <;> exact hpc
      | _ => exact hpc

/-- A request that gets to its response, from its arrival, with no other traffic. -/
theorem alone_of_run {es : List TaskEvent} {response : Response}
    (hrun : Run (Steps (Task.next cfg))
      (s₀, .arrived (.enrichment replica tenantId names)) es (s, t))
    (hpc : t.pc = .ended (.responded response)) :
    s₀.HasSlot replica ∧ s₀.Billed ⟨tenantId, names, none⟩ s.provider.ledger ∧
      s.provider.released = s₀.provider.released ∧
      Store.Settled cfg ⟨tenantId, names, none⟩ (s₀.answerTo ⟨tenantId, names, none⟩)
        s₀.store s.store := by
  have harrived : Alone cfg s₀ replica tenantId names
      (s₀, .arrived (.enrichment replica tenantId names)) := ⟨rfl, rfl, ⟨rfl, rfl, rfl⟩, rfl⟩
  have halone := hrun.invariant (fun _ _ _ h hstep => h.next hstep) harrived
  have hended := halone.pc
  rw [hpc] at hended
  obtain ⟨hslot, -, hbilled, hsettled⟩ := hended
  exact ⟨hslot, hbilled, halone.released, hsettled⟩

/-! ## An enrichment that is not refused -/

/-- A batch within its bound gets to its reservation. -/
theorem run_reserving (replica : Nat) (tenantId : TenantId)
    (hbatch : names.length ≤ cfg.maxBatchItems) :
    Run (Steps (Task.next cfg)) (s, .arrived (.enrichment replica tenantId names))
      [.advance, .advance, .advance]
      (s, ⟨.enrichment replica tenantId names, .reserving ⟨tenantId, names, none⟩, none, [], []⟩) := by
  have hread : ∀ t : Task, t.request = .enrichment replica tenantId names →
      t.read cfg s tenantId = (s, t.goto (.takingConnection ⟨tenantId, names, none⟩)) := by
    intro t ht
    simp only [Task.read, ht, Request.enrichment]
    rw [if_neg (Nat.not_lt.mpr hbatch)]
  exact .cons rfl (.cons (congrArg some (hread _ rfl)) (.cons rfl .nil))

/-- With money for it, it gets to its lookups. -/
theorem exists_run_reserved {held : Store} (replica : Nat)
    (hbatch : names.length ≤ cfg.maxBatchItems)
    (hheld : Store.Held cfg ⟨tenantId, names, none⟩ s.store held) :
    ∃ es trail, Run (Steps (Task.next cfg)) (s, .arrived (.enrichment replica tenantId names)) es
      ({ s with store := held },
        ⟨.enrichment replica tenantId names, .calling ⟨tenantId, names, none⟩
          (Work.reservation ⟨tenantId, names, none⟩ cfg.priceCents) .enterRequestDeadline,
          none, trail, []⟩) := by
  have hreserve : ∀ t : Task, t.reserve cfg s ⟨tenantId, names, none⟩ =
      ({ s with store := held },
        t.did (.reserved (Work.reservation ⟨tenantId, names, none⟩ cfg.priceCents))
          (.leavingConnection ⟨tenantId, names, none⟩
            (Work.reservation ⟨tenantId, names, none⟩ cfg.priceCents))) := by
    intro t
    have hok : s.store.reserve tenantId names.length cfg.priceCents =
        .ok (held, Work.reservation ⟨tenantId, names, none⟩ cfg.priceCents) := hheld
    simp only [Task.reserve, hok]
  refine ⟨[.advance, .advance, .advance] ++ [.advance, .advance],
    [.reserved (Work.reservation ⟨tenantId, names, none⟩ cfg.priceCents)],
    (run_reserving replica tenantId hbatch).append ?_⟩
  exact .cons (congrArg some (hreserve _)) (.cons rfl .nil)

/-- With a slot, the call goes out. -/
theorem exists_run_sent {l : InFlightLimiter} (cfg : Config) (s : Service) (w : Work)
    (r : Reservation) (trail : List Effect) (request : Request)
    (hl : s.limiters[request.replica]? = some l) (hslot : l.inFlight < l.capacity) :
    ∃ es l' trail', l'.capacity = l.capacity ∧ l'.inFlight = l.inFlight + 1 ∧
      Run (Steps (Task.next cfg))
        (s, ⟨request, .calling w r .enterRequestDeadline, none, trail, []⟩) es
        ({ s with limiters := s.limiters.set request.replica l' },
          ⟨request, .calling w r .awaitResponse, some ⟨w.lookupRequest, .sent⟩, trail', []⟩) := by
  cases henter : l.enter with
  | error kind => exact absurd (InFlightLimiter.le_of_enter_error henter) (by omega)
  | ok l' =>
      obtain ⟨hcapacity, hin⟩ := InFlightLimiter.enter_ok henter
      have hslot : ∀ t : Task, t.request = request → t.lookUp s w r .enterSlot =
          some ({ s with limiters := s.limiters.set request.replica l' },
            t.did .tookSlot (.calling w r .enterUpstreamDeadline)) := by
        rintro t rfl
        simp only [Task.lookUp, hl, henter]
      refine ⟨[.advance, .advance, .advance, .advance], l',
        trail ++ [.tookSlot] ++ [.sent w.lookupRequest], hcapacity, hin, ?_⟩
      exact .cons rfl (.cons (hslot _ rfl) (.cons rfl (.cons rfl .nil)))

/-- A provider that is not held answers it. -/
theorem exists_run_answered (cfg : Config) (s : Service) (request : Request) (pc : Pc)
    (payload : LookupRequest) (trail : List Effect) (hreleased : s.provider.released = true) :
    ∃ es q, Run (Steps (Task.next cfg)) (s, ⟨request, pc, some ⟨payload, .sent⟩, trail, []⟩) es
      ({ s with provider := q }, ⟨request, pc, some ⟨payload,
        .answered (payload.response s.provider.ledger.priceCentsPerLookup)⟩, trail, []⟩) := by
  obtain ⟨ledger, hcharge⟩ := s.provider.ledger.charge_isOk payload.tenantId
    (Int.natCast_nonneg payload.items.length)
  have hfinish : ∀ phase, Call.finish s.provider.occupy ⟨payload, phase⟩ =
      ({ s.provider.occupy with ledger := ledger }.vacate,
        ⟨payload, .answered (payload.response s.provider.ledger.priceCentsPerLookup)⟩) := by
    intro phase
    have hledger : s.provider.occupy.ledger = s.provider.ledger := rfl
    simp only [Call.finish, hledger, hcharge]
    rfl
  have hyield : Call.resume s.provider.occupy ⟨payload, .yielding⟩ =
      some (Call.proceed s.provider.occupy ⟨payload, .yielding⟩) := if_pos hreleased
  have hserve : ∀ (t : Task) (s' : Service) (c c' : Call) (q' : ProviderState), t.call = some c →
      c.resume s'.provider = some (q', c') →
      Task.next cfg (s', t) .resume =
        some ({ s' with provider := q' }, { t with call := some c' }) := by
    intro t s' c c' q' hcall hresume
    simp only [Task.next, Task.serve, hcall, hresume]
  have hproceed : Call.proceed s.provider.occupy ⟨payload, .yielding⟩ =
      if s.provider.slowMode then (s.provider.occupy, ⟨payload, .delaying⟩)
      else Call.finish s.provider.occupy ⟨payload, .yielding⟩ := rfl
  rw [hproceed] at hyield
  cases hslow : s.provider.slowMode with
  | false =>
      rw [hslow, if_neg Bool.noConfusion, hfinish] at hyield
      exact ⟨[.resume, .resume], _,
        .cons (hserve _ _ _ _ _ rfl rfl) (.cons (hserve _ _ _ _ _ rfl hyield) .nil)⟩
  | true =>
      rw [hslow, if_pos rfl] at hyield
      have hdelay : Call.resume s.provider.occupy ⟨payload, .delaying⟩ =
          some (Call.finish s.provider.occupy ⟨payload, .delaying⟩) := rfl
      rw [hfinish] at hdelay
      exact ⟨[.resume, .resume, .resume], _, .cons (hserve _ _ _ _ _ rfl rfl)
        (.cons (hserve _ _ _ _ _ rfl hyield) (.cons (hserve _ _ _ _ _ rfl hdelay) .nil))⟩

/-- Once the call is answered, the request gets to its response. -/
theorem exists_run_responded {settled : Store} (cfg : Config) (s : Service) (w : Work)
    (r : Reservation) (request : Request) (payload : LookupRequest) (result : LookupResponse)
    (trail : List Effect) (hjob : w.job = none)
    (hsettle : (s.store.upsertRecords w.tenantId (recordEntries cfg w.tenantId result)
      s.clock).settle r result.lookups result.centsCharged = .ok settled) :
    ∃ es trail' response, Run (Steps (Task.next cfg))
      (s, ⟨request, .calling w r .awaitResponse, some ⟨payload, .answered result⟩, trail, []⟩) es
      ({ s with store := settled, limiters := (s.leaveSlot request.replica).limiters },
        ⟨request, .ended (.responded response), some ⟨payload, .answered result⟩, trail', []⟩) := by
  have hslot : ∀ t : Task, t.request = request → t.finish cfg s w r result .leaveSlot =
      ({ s with limiters := (s.leaveSlot request.replica).limiters },
        t.did .leftSlot (.finishing w r result .leaveRequestDeadline)) := by
    rintro t rfl
    have hleft : s.leaveSlot t.request.replica =
        { s with limiters := (s.leaveSlot t.request.replica).limiters } := by
      unfold Service.leaveSlot
      split <;> rfl
    rw [← hleft]
    rfl
  have hsettled : ∀ (limiters : List InFlightLimiter) (t : Task),
      t.finish cfg { s with
          store := s.store.upsertRecords w.tenantId (recordEntries cfg w.tenantId result) s.clock
          limiters := limiters } w r result .settle =
        ({ s with store := settled, limiters := limiters },
          t.did (.settled r result.lookups result.centsCharged)
            (.finishing w r result .leaveConnection)) := by
    intro limiters t
    simp only [Task.finish, hsettle]
  have hresponded : ∀ (s' : Service) (t : Task), t.finish cfg s' w r result .leaveConnection =
      (s', t.goto (.ended (.responded (.enriched w.tenantId
        (enrichedRecords cfg w.tenantId result).length result.lookups result.centsCharged
        (enrichedRecords cfg w.tenantId result))))) := by
    intro s' t
    simp only [Task.finish, hjob]
  refine ⟨List.replicate 9 .advance, trail ++ [.leftSlot] ++
    [.upserted (recordEntries cfg w.tenantId result)] ++
    [.settled r result.lookups result.centsCharged],
    .enriched w.tenantId (enrichedRecords cfg w.tenantId result).length result.lookups
      result.centsCharged (enrichedRecords cfg w.tenantId result), ?_⟩
  refine .cons rfl (.cons rfl (.cons (congrArg some (hslot _ rfl)) (.cons rfl (.cons rfl
    (.cons rfl (.cons rfl ?_))))))
  exact .cons (congrArg some (hsettled _ _)) (.cons (congrArg some (hresponded _ _)) .nil)

/-- A slot taken and left is there again. -/
theorem Service.hasSlot_leaveSlot {l l' : InFlightLimiter} (hl : s.limiters[replica]? = some l)
    (hcapacity : l'.capacity = l.capacity) (hin : l'.inFlight = l.inFlight + 1)
    (hslot : l.inFlight < l.capacity) (hs' : s'.limiters = s.limiters.set replica l') :
    (s'.leaveSlot replica).HasSlot replica := by
  have hlt : replica < s.limiters.length := (List.getElem?_eq_some_iff.mp hl).1
  have hget : s'.limiters[replica]? = some l' := by
    rw [hs', List.getElem?_set_self hlt]
  refine ⟨l'.leave, ?_, ?_⟩
  · simp only [leaveSlot, hget]
    rw [List.getElem?_set_self (by rw [hs', List.length_set]; exact hlt)]
  · have hleave : l'.leave.inFlight = l'.inFlight - 1 ∧ l'.leave.capacity = l'.capacity :=
      ⟨rfl, rfl⟩
    omega

/-- **An enrichment that is not refused.** With a slot, a provider that is not held, a batch within
its bound and money for it, it gets to its response, and the slot is there again. -/
theorem exists_solo_run {held : Store} (hslot : s.HasSlot replica)
    (hreleased : s.provider.released = true) (hbatch : names.length ≤ cfg.maxBatchItems)
    (hheld : Store.Held cfg ⟨tenantId, names, none⟩ s.store held)
    (hsettle : ∀ entries at', ∃ settled, (held.upsertRecords tenantId entries at').settle
      (Work.reservation ⟨tenantId, names, none⟩ cfg.priceCents)
      (s.answerTo ⟨tenantId, names, none⟩).lookups
      (s.answerTo ⟨tenantId, names, none⟩).centsCharged = .ok settled) :
    ∃ es s' t response, Run (Steps (Task.next cfg))
      (s, .arrived (.enrichment replica tenantId names)) es (s', t) ∧
      t.request = .enrichment replica tenantId names ∧ t.pc = .ended (.responded response) ∧
      t.raised = [] ∧ s'.HasSlot replica := by
  obtain ⟨l, hl, hlt⟩ := hslot
  obtain ⟨settled, hsettled⟩ := hsettle (recordEntries cfg tenantId
    (s.answerTo ⟨tenantId, names, none⟩)) s.clock
  obtain ⟨es₁, trail₁, hrun₁⟩ := exists_run_reserved replica hbatch hheld
  obtain ⟨es₂, l', trail₂, hcapacity, hin, hrun₂⟩ := exists_run_sent cfg
    { s with store := held } ⟨tenantId, names, none⟩
    (Work.reservation ⟨tenantId, names, none⟩ cfg.priceCents) trail₁
    (.enrichment replica tenantId names) hl hlt
  obtain ⟨es₃, q, hrun₃⟩ := exists_run_answered cfg
    { s with store := held, limiters := s.limiters.set replica l' }
    (.enrichment replica tenantId names)
    (.calling ⟨tenantId, names, none⟩
      (Work.reservation ⟨tenantId, names, none⟩ cfg.priceCents) .awaitResponse)
    (Work.lookupRequest ⟨tenantId, names, none⟩) trail₂ hreleased
  obtain ⟨es₄, trail₄, response, hrun₄⟩ := exists_run_responded cfg
    { s with store := held, limiters := s.limiters.set replica l', provider := q }
    ⟨tenantId, names, none⟩ (Work.reservation ⟨tenantId, names, none⟩ cfg.priceCents)
    (.enrichment replica tenantId names) (Work.lookupRequest ⟨tenantId, names, none⟩)
    (s.answerTo ⟨tenantId, names, none⟩) trail₂ rfl hsettled
  exact ⟨_, _, _, response, hrun₁.append (hrun₂.append (hrun₃.append hrun₄)), rfl, rfl, rfl,
    Service.hasSlot_leaveSlot hl hcapacity hin hlt rfl⟩

end Limitless
