import Limitless.Lib.Runs
import Limitless.Secure.Task
import Limitless.Store.Seed

/-!
# The secure application, its store and its provider

Any number of replicas of the secure application over one store and one provider. An `Event` names
which request or which lookup call goes next, where an exception strikes, and what the operator
does to the provider's controls; `World.next` is what happens then. Requests arrive at any time,
and nothing ties the order of the events, so a run is any interleaving of the requests' points.

A deadline, a cancellation or a failure may strike a request at any point (`Event.fault`). A lookup
call goes on at the provider whatever its client does, until it is answered (`Event.resume`) or
given up (`Event.abort`).
-/

namespace Limitless

open Runs

/-- The shared services, and every request there has been. -/
structure World where
  service : Service
  tasks : List Task

/-- What happens next. -/
inductive Event
  | arrive (request : Request)
  | advance (i : Nat)
  | fault (i : Nat) (f : Fault)
  /-- The provider works on the call of a request. -/
  | resume (i : Nat)
  /-- The provider loses or gives up the call of a request. -/
  | abort (i : Nat)
  | hold
  | release
  | slow (on : Bool)
  | resetLedger
  | tick

namespace World

/-- The replicas have just started, over a store and an idle provider. -/
def start (cfg : Config) (store : Store) (replicas : Nat) (limiter : InFlightLimiter) : World where
  service :=
    { store := store
      limiters := List.replicate replicas limiter
      provider := .initial cfg.providerPriceCents
      clock := 0 }
  tasks := []

/-- Let a request do something. -/
def act (w : World) (i : Nat) (f : Service → Task → Option (Service × Task)) : Option World :=
  match w.tasks[i]? with
  | none => none
  | some t =>
    match f w.service t with
    | none => none
    | some (s, t') => some ⟨s, w.tasks.set i t'⟩

/-- Let the provider do something about the call of a request. -/
def serve (w : World) (i : Nat) (f : ProviderState → Call → Option (ProviderState × Call)) :
    Option World :=
  w.act i fun s t =>
    match t.call with
    | none => none
    | some c =>
      match f s.provider c with
      | none => none
      | some (p, c') => some ({ s with provider := p }, { t with call := some c' })

/-- The provider's state is set. -/
def withProvider (w : World) (p : ProviderState) : World :=
  { w with service := { w.service with provider := p } }

/-- One event. -/
def next (cfg : Config) (w : World) : Event → Option World
  | .arrive request =>
    if request.replica < w.service.limiters.length then
      some { w with tasks := w.tasks ++ [.arrived request] }
    else none
  | .advance i => w.act i fun s t => t.advance cfg s
  | .fault i f => w.act i fun s t => t.fault s f
  | .resume i => w.serve i fun p c => c.resume p
  | .abort i => w.serve i fun p c => c.abort p
  | .hold => some (w.withProvider w.service.provider.hold)
  | .release =>
    some { w.withProvider w.service.provider.release with
      tasks := w.tasks.map fun t => { t with call := t.call.map Call.wake } }
  | .slow on => some (w.withProvider { w.service.provider with slowMode := on })
  | .resetLedger => some (w.withProvider w.service.provider.resetLedger)
  | .tick => some { w with service := { w.service with clock := w.service.clock + 1 } }

/-- Every request has ended. -/
def Ended (w : World) : Prop := ∀ t ∈ w.tasks, t.pc.isEnded = true

end World

/-! ## A small deployment -/

/-- The settings of the demonstration, with an in-flight cap and the digest of one name. -/
def Config.demo (maxInFlightUpstream : Nat) : Config where
  priceCents := Fixtures.lookupPriceCents
  providerPriceCents := Fixtures.lookupPriceCents
  maxBatchItems := 500
  maxInFlightUpstream := maxInFlightUpstream
  digest := fun _ => "334dab899b8f"
  replicaName := fun replica => if replica = 0 then "app-a" else "app-b"

/-- An enrichment of one name for the attacking tenant, at a replica. -/
def Request.demo (replica : Nat) : Request :=
  ⟨replica, some Fixtures.attackerTenantId, .enrich (.ok [Fixtures.companyName 1])⟩

/-- The reservation made for it. -/
def Reservation.demo : Reservation := ⟨Fixtures.attackerTenantId, Fixtures.lookupPriceCents, 1⟩

/-- A store where the attacking tenant alone has a partition, of ten lookups. -/
def Store.demo : Store :=
  .seeded [Fixtures.attackerTenantId] 40 100 (by decide) (by decide) []

theorem Store.demo_freshlySeeded : Store.demo.FreshlySeeded := seeded_freshlySeeded _ _ _ _

/-- One replica over it. -/
def World.demo (maxInFlightUpstream : Nat) : World :=
  .start (.demo maxInFlightUpstream) .demo 1
    ⟨maxInFlightUpstream, 0, 0, Int.natCast_nonneg maxInFlightUpstream⟩

/-- A computed replay of it is a run. -/
theorem World.run_demo {c : Nat} {es : List Event} {w : World}
    (h : replay (World.next (.demo c)) (.demo c) es = some w) :
    Run (Steps (World.next (.demo c)))
      (.start (.demo c) .demo 1 ⟨c, 0, 0, Int.natCast_nonneg c⟩) es w := run_of_replay h

end Limitless
