import Limitless.Lib.Indexed
import Limitless.Lib.Runs
import Limitless.Provider.Fixture
import Limitless.Secure.World
import Limitless.Vulnerable.Task

/-!
# The unbounded application, its store and its provider

Any number of replicas of the unbounded application over one store and one provider, as the secure
one's world is built. Each replica has the repairs' memory of its own process. `World.next` is one
event, and `Moves` lists what an event can do, once.

A call that is sent may stay in its `ProviderClient`, which has so many connections of its own and
no timeout. When the provider gets to see it is the schedule's affair (`Event.resume`), so what a
full client delays is one of the schedules here; that a call gets there is said of none.
-/

namespace Limitless.Vulnerable

open Indexed Runs

/-- The shared services, and every request there has been. -/
structure World where
  service : Service
  tasks : List Task

/-- What happens next. -/
inductive Event
  | arrive (request : Request)
  | advance (i : ℕ)
  | fault (i : ℕ) (f : Fault)
  /-- The deadline that cancels nothing passes for a request. -/
  | timeOut (i : ℕ)
  /-- The call of a request reaches the provider, or the provider goes on with it. -/
  | resume (i : ℕ)
  /-- The provider loses or gives up the call of a request. -/
  | abort (i : ℕ)
  | hold
  | release
  | slow (on : Bool)
  | tick
  deriving DecidableEq

namespace World

/-- The replicas have just started, at an allowance of the repairs, over a store and an idle
provider. -/
def start (cfg : Config) (database : Database) (replicas allowanceCents : ℕ) : World where
  service :=
    { database := database
      halfFixes := List.replicate replicas (.fresh allowanceCents)
      provider := .initial cfg.providerPriceCents
      clock := 0 }
  tasks := []

/-- Let a request do something. -/
def act (w : World) (i : ℕ) (f : Service → Task → Option (Service × Task)) : Option World :=
  match w.tasks[i]? with
  | none => none
  | some t =>
    match f w.service t with
    | none => none
    | some (s, t') => some ⟨s, w.tasks.set i t'⟩

/-- Let the provider do something about the call of a request. -/
def serve (w : World) (i : ℕ) (f : ProviderState → Call → Option (ProviderState × Call)) :
    Option World :=
  w.act i fun s t =>
    match t.call with
    | none => none
    | some c =>
      match f s.provider c with
      | none => none
      | some (p, c') => some ({ s with provider := p }, { t with call := some c' })

/-- The provider's state is set. -/
def withProvider (w : World) (p : ProviderState) : World :=
  { w with service := { w.service with provider := p } }

/-- One event. -/
def next (cfg : Config) (w : World) : Event → Option World
  | .arrive request =>
    if request.replica < w.service.halfFixes.length then
      some { w with tasks := w.tasks ++ [.arrived request] }
    else none
  | .advance i => w.act i fun s t => t.advance cfg s
  | .fault i f => w.act i fun s t => t.fault s f
  | .timeOut i => w.act i fun s t => t.timeOut s
  | .resume i => w.serve i fun p c => c.resume p
  | .abort i => w.serve i fun p c => c.abort p
  | .hold => some (w.withProvider w.service.provider.hold)
  | .release =>
    some { w.withProvider w.service.provider.release with
      tasks := w.tasks.map fun t => { t with call := t.call.map Call.wake } }
  | .slow on => some (w.withProvider { w.service.provider with slowMode := on })
  | .tick => some { w with service := { w.service with clock := w.service.clock + 1 } }

end World

/-! ## What an event does -/

/-- What one event does to the world. -/
inductive Moves (cfg : Config) (w : World) : Event → World → Prop
  | arrived {request : Request} : request.replica < w.service.halfFixes.length →
      Moves cfg w (.arrive request) { w with tasks := w.tasks ++ [.arrived request] }
  | advanced {i : ℕ} {t t' : Task} {s' : Service} : w.tasks[i]? = some t →
      t.advance cfg w.service = some (s', t') → Moves cfg w (.advance i) ⟨s', w.tasks.set i t'⟩
  | struck {i : ℕ} {f : Fault} {t : Task} : w.tasks[i]? = some t → t.pc.isEnded = false →
      Moves cfg w (.fault i f) { w with tasks := w.tasks.set i (t.raise f.exception) }
  | timedOut {i : ℕ} {t : Task} {b : Enrichment} : w.tasks[i]? = some t →
      t.pc = .enriching b .awaitEarly →
      Moves cfg w (.timeOut i) { w with tasks := w.tasks.set i (t.raise .gatewayTimeout) }
  | served {e : Event} {i : ℕ} {t : Task} {c c' : Call} {p' : ProviderState} :
      e = .resume i ∧ c'.phase ≠ .aborted ∨ e = .abort i → w.tasks[i]? = some t →
      t.call = some c → Call.Handled w.service.provider c p' c' →
      Moves cfg w e ⟨{ w.service with provider := p' }, w.tasks.set i { t with call := some c' }⟩
  | woke : Moves cfg w .release
      ⟨{ w.service with provider := w.service.provider.release },
        w.tasks.map fun t => { t with call := t.call.map Call.wake }⟩
  | quiet {e : Event} {p : ProviderState} {clock : Timestamp} :
      (e = .hold ∨ (∃ on, e = .slow on) ∨ e = .tick) →
      p.ledger = w.service.provider.ledger →
      Moves cfg w e { w with service := { w.service with provider := p, clock := clock } }

variable {cfg : Config} {w w' : World} {e : Event}

theorem World.act_eq_some {i : ℕ} {f : Service → Task → Option (Service × Task)}
    (h : w.act i f = some w') :
    ∃ t s' t', w.tasks[i]? = some t ∧ f w.service t = some (s', t') ∧
      w' = ⟨s', w.tasks.set i t'⟩ := by
  unfold act at h
  split at h
  · cases h
  · next t ht =>
      split at h
      · cases h
      · next s' t' hf =>
          cases h
          exact ⟨t, s', t', ht, hf, rfl⟩

theorem World.serve_eq_some {i : ℕ} {f : ProviderState → Call → Option (ProviderState × Call)}
    (h : w.serve i f = some w') :
    ∃ t c p' c', w.tasks[i]? = some t ∧ t.call = some c ∧ f w.service.provider c = some (p', c') ∧
      w' = ⟨{ w.service with provider := p' }, w.tasks.set i { t with call := some c' }⟩ := by
  obtain ⟨t, s', t', ht, hf, rfl⟩ := World.act_eq_some h
  split at hf
  · cases hf
  · next c hc =>
      split at hf
      · cases hf
      · next p' c' hp =>
          cases hf
          exact ⟨t, c, p', c', ht, hc, hp, rfl⟩

/-- A handler that goes on does not give its call up. -/
theorem resume_not_aborted {p p' : ProviderState} {c c' : Call}
    (h : c.resume p = some (p', c')) : c'.phase ≠ .aborted := by
  rcases Call.resume_cases h with ⟨_, _, rfl⟩ | ⟨_, _, ph, hph, rfl⟩ | ⟨_, _, _, _, rfl⟩
  · simp
  · rintro habort
    have : ph = .aborted := habort
    rw [this] at hph
    cases hph
  · simp

/-- The step function does nothing else. -/
theorem moves_of_next (h : w.next cfg e = some w') : Moves cfg w e w' := by
  cases e with
  | arrive request =>
      simp only [World.next] at h
      split at h
      · next hr => cases h; exact .arrived hr
      · cases h
  | advance i =>
      obtain ⟨t, s', t', ht, hf, rfl⟩ := World.act_eq_some h
      exact .advanced ht hf
  | fault i f =>
      have hact : (w.act i fun s t => t.fault s f) = some w' := h
      obtain ⟨t, s', t', ht, hf, rfl⟩ := World.act_eq_some hact
      unfold Task.fault at hf
      split at hf
      · cases hf
      · next hend => cases hf; exact .struck ht (by simpa using hend)
  | timeOut i =>
      have hact : (w.act i fun s t => t.timeOut s) = some w' := h
      obtain ⟨t, s', t', ht, hf, rfl⟩ := World.act_eq_some hact
      unfold Task.timeOut at hf
      split at hf
      · next hpc => cases hf; exact .timedOut ht hpc
      · cases hf
  | resume i =>
      obtain ⟨t, c, p', c', ht, hc, hf, rfl⟩ := World.serve_eq_some h
      exact .served (.inl ⟨rfl, resume_not_aborted hf⟩) ht hc (Call.resume_handled hf)
  | abort i =>
      obtain ⟨t, c, p', c', ht, hc, hf, rfl⟩ := World.serve_eq_some h
      exact .served (.inr rfl) ht hc (Call.abort_handled hf)
  | release => cases h; exact .woke
  | hold => cases h; exact .quiet (.inl rfl) rfl
  | slow on => cases h; exact .quiet (.inr (.inl ⟨on, rfl⟩)) rfl
  | tick => cases h; exact .quiet (.inr (.inr rfl)) rfl

/-- The repair is asked, by what its header is read as. -/
theorem World.next_select {i : ℕ} {t : Task} {e : Enrichment} {halfFix : HalfFix}
    {state : HalfFixState} (hi : w.tasks[i]? = some t) (hpc : t.pc = .enriching e .select)
    (hfix : parseHalfFix t.request.halfFix = some halfFix)
    (hstate : w.service.halfFixes[t.request.replica]? = some state) {allowed : Bool}
    {state' : HalfFixState}
    (hconsult : state.consult halfFix (HalfFixState.keyFor halfFix e.tenantId t.request.clientId)
      (e.companyNames.length * cfg.priceCents) w.service.clock = (allowed, state')) :
    w.next cfg (.advance i) = some
      ⟨{ w.service with halfFixes := w.service.halfFixes.set t.request.replica state' },
        w.tasks.set i (if allowed then
            t.did (.granted t.request.replica halfFix
                (HalfFixState.keyFor halfFix e.tenantId t.request.clientId)
                (e.companyNames.length * cfg.priceCents))
              (.enriching e (if halfFix = .nonCancellingDeadline then .callEarly
                else .takeConnection none))
          else t.raise (.limitReached .allowanceExhausted .enrich))⟩ := by
  simp only [World.next, World.act, hi, Task.advance, hpc, Task.enrich, Task.select, hfix, hstate,
    hconsult]
  cases allowed <;> rfl

/-! ## A small deployment -/

/-- A store with rows for one tenant, and a pool of twenty-five lookups. -/
def Database.demo : Database := ⟨.demo, Keyed.ofList [⟨Fixtures.attackerTenantId, 0, 0⟩]⟩

/-- An import of so many records of that tenant. -/
def Request.demoImport (records : ℕ) : Request :=
  ⟨0, some Fixtures.attackerTenantId, none, none, .importBundle 60 (.ok records) 7⟩

/-- An enrichment of one name of it. -/
def Request.demo : Request :=
  ⟨0, some Fixtures.attackerTenantId, none, none, .enrich (some [Fixtures.companyName 1])⟩

end Limitless.Vulnerable
