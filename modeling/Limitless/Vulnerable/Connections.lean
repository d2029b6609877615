import Limitless.Common.Routes
import Limitless.Vulnerable.Invariant

/-!
# The unbounded application waits on the provider with a connection in its hand

What the requests of the unbounded application do with connections. `enrich` takes one and keeps it
for the whole upstream call, and so does the spending loop of `import_bundle`. So as many calls as
a replica has connections, held at the provider, and no other request of the replica is served,
however harmless (`reads_starve`). The pool is also the one thing that bounds the calls in
flight (`in_flight_le_connections`), but for a repair that calls the provider before it takes a
connection.
-/

namespace Limitless.Vulnerable

open Indexed Runs Pools

/-! ## Connections -/

namespace Pc

/-- The request is between taking a connection and giving it back. -/
def holdsConnection : Pc → Bool
  | enriching _ (.chargePool _) | enriching _ (.recordWork _) | enriching _ (.callProvider _)
  | enriching _ .awaitResponse | enriching _ (.upsertRecords _)
  | enriching _ (.leaveConnection _) => true
  | importing _ (.flush _) => true
  | importing _ (.spend _ _) | importing _ (.callProvider _ _ _)
  | importing _ (.awaitResponse _ _ _)
  | importing _ (.insertJob _ _) | importing _ (.leaveConnection _ _) => true
  | _ => false

/-- The request asks for a connection next. -/
def takesConnection : Pc → Bool
  | enriching _ (.takeConnection _) => true
  | importing _ .takeConnection | importing _ .takeSpending => true
  | _ => false

end Pc

/-- The request holds a connection of the replica. -/
def Task.holdsAt (t : Task) (ρ : ℕ) : Bool := t.request.replica = ρ ∧ t.pc.holdsConnection

namespace World

/-- The replica whose pool the event takes a connection from. -/
def takes (w : World) : Event → Option ℕ
  | .advance i => (w.tasks[i]?.filter fun t => t.pc.takesConnection).map fun t => t.request.replica
  | _ => none

/-- The connections of a replica that requests hold. -/
def held (w : World) (ρ : ℕ) : ℕ := w.tasks.countP (·.holdsAt ρ)

end World

variable {cfg : Config} {s s' : Service} {t t' : Task} {w w' : World} {e : Event}

/-- **Step lemma.** A request that goes on takes a connection only where it asks for one. -/
theorem Step.holdsConnection (h : Step cfg s t s' t') (hholds : t'.pc.holdsConnection = true) :
    t.pc.takesConnection = true ∨ t.pc.holdsConnection = true := by
  cases h with
  | onward hpc =>
      simp only [Task.goto] at hholds
      generalize hp : t.pc = pc at hpc ⊢
      cases hpc
      all_goals first | exact .inl rfl | exact .inr rfl | cases hholds
  | sends hpc | takes hpc | charges hpc | records hpc =>
      simp only [Task.send, Task.receive, Task.did] at hholds
      generalize hp : t.pc = pc at hpc ⊢
      cases hpc
      all_goals first | exact .inr rfl | cases hholds
  | selects _ _ _ _ _ _ hout =>
      rcases hout with ⟨-, rfl⟩ | ⟨-, rfl⟩
      · simp only [Task.did] at hholds
        split at hholds
        all_goals cases hholds
      · cases hholds
  | drains hpc | upserts hpc | inserts hpc =>
      rw [hpc]
      exact .inr rfl
  | refuses | collides => cases hholds

/-- Only a request that asks for a connection takes one. -/
theorem World.held_next (h : w.next cfg e = some w') (ρ : ℕ) :
    w'.held ρ ≤ w.held ρ ∨ w.takes e = some ρ ∧ w'.held ρ ≤ w.held ρ + 1 := by
  have hended : ∀ {t : Task} (exc : Exception), (t.raise exc).holdsAt ρ = true →
      t.holdsAt ρ = true := by
    intro t exc hholds
    simp [Task.holdsAt, Task.raise, Pc.holdsConnection] at hholds
  cases moves_of_next h with
  | arrived =>
      refine .inl ?_
      simp [held, List.countP_append, Task.holdsAt, Task.arrived, Pc.holdsConnection]
  | @advanced i t t' s' hi hstep =>
      have hstep := step_of_advance hstep
      by_cases htakes : t.pc.takesConnection = true ∧ t.request.replica = ρ
      · exact .inr ⟨by simp [takes, hi, htakes.1, htakes.2], countP_set_le_succ _ _ hi⟩
      · refine .inl (countP_set_le hi fun hholds => ?_)
        obtain ⟨hρ, hholds⟩ : t'.request.replica = ρ ∧ t'.pc.holdsConnection = true := by
          simpa [Task.holdsAt] using hholds
        rw [hstep.request] at hρ
        rcases hstep.holdsConnection hholds with htook | hheld
        · exact absurd ⟨htook, hρ⟩ htakes
        · simp [Task.holdsAt, hρ, hheld]
  | struck hi => exact .inl (countP_set_le hi (hended _))
  | timedOut hi => exact .inl (countP_set_le hi (hended _))
  | served _ hi => exact .inl (countP_set_le hi id)
  | woke =>
      refine .inl ?_
      simp only [held, List.countP_map]
      exact le_rfl
  | quiet => exact .inl le_rfl

/-- The unbounded application, as the common routes see it. -/
def variant (cfg : Config) : Variant World Event where
  variant := "vulnerable"
  replicaName := cfg.replicaName
  readJob w := w.service.database.store.readJob
  usageSource w := w.service.database.readAdmittedUsage
  replicas w := w.service.halfFixes.length
  handlers :=
    { next := World.next cfg
      takes := World.takes
      held := World.held
      held_next := World.held_next }

/-- The replicas with their pools. -/
def pooled (cfg : Config) (size : ℕ → ℕ) : Replicas World → ReplicaEvent Event →
    Option (Replicas World) := (variant cfg).clients.guarded size

/-! ## A pool full of requests that wait -/

/-- The request waits at the provider with a connection of the replica, and its call is held. -/
def Task.stuckAt (t : Task) (ρ : ℕ) : Bool :=
  t.holdsAt ρ ∧ t.pc.awaits.isSome ∧ t.call.elim false fun c => c.phase.isHeld

/-- The provider is held, and its callers have every connection of the replica. -/
structure Jammed (size : ℕ → ℕ) (ρ : ℕ) (w : World) : Prop where
  held : w.service.provider.released = false
  full : size ρ ≤ w.tasks.countP (·.stuckAt ρ)

/-- The event does not let those who wait go: nobody releases the provider, gives up one of their
calls, or takes one of them away from it. -/
def World.keepsJam (ρ : ℕ) (w : World) : Event → Bool
  | .release => false
  | .fault i _ | .abort i => w.tasks[i]?.all fun t => !t.stuckAt ρ
  | _ => true

/-- So it is with an event of the replicas. -/
def keepsJam (ρ : ℕ) (p : Replicas World) : ReplicaEvent Event → Bool
  | .inside e => p.world.keepsJam ρ e
  | .ask _ | .advance _ | .fault _ _ => true

variable {size : ℕ → ℕ} {ρ : ℕ} {p p' : Replicas World}

theorem Task.stuckAt_iff : t.stuckAt ρ = true ↔ t.holdsAt ρ = true ∧ t.pc.awaits.isSome = true ∧
    t.call.elim false (fun c => c.phase.isHeld) = true := by
  simp [stuckAt]

/-- A request that waits does not go on. -/
theorem Step.not_stuck (h : Step cfg s t s' t') : t.stuckAt ρ = false := by
  rw [← Bool.not_eq_true]
  intro hstuck
  obtain ⟨-, hawaits, hheld⟩ := Task.stuckAt_iff.mp hstuck
  have hfree : t.pc.awaits ≠ none := Option.isSome_iff_ne_none.mp hawaits
  cases h with
  | onward hpc | charges hpc | records hpc => exact hfree hpc.free.2.1
  | sends hpc => exact hfree hpc.free.2
  | takes _ hcall =>
      rw [hcall] at hheld
      cases hheld
  | selects hpc | drains hpc | upserts hpc | inserts hpc | collides hpc =>
      rw [hpc] at hfree
      exact hfree rfl
  | refuses hpc =>
      generalize t.pc = pc at hpc hfree
      cases hpc
      all_goals exact hfree rfl

/-- A request is served out of its connection. -/
theorem Step.responds {response : Response} (h : Step cfg s t s' t')
    (hend : t'.pc = .ended (.responded response)) : t.pc.holdsConnection = true := by
  cases h with
  | onward hpc =>
      simp only [Task.goto] at hend
      generalize t.pc = pc at hpc ⊢
      cases hpc
      all_goals first | rfl | cases hend
  | sends hpc | takes hpc | charges hpc | records hpc =>
      simp only [Task.send, Task.receive, Task.did] at hend
      generalize t.pc = pc at hpc ⊢
      cases hpc
      all_goals cases hend
  | selects _ _ _ _ _ _ hout =>
      rcases hout with ⟨-, rfl⟩ | ⟨-, rfl⟩
      · simp only [Task.did] at hend
        split at hend
        all_goals cases hend
      · cases hend
  | drains | upserts | inserts | refuses | collides => cases hend

/-- **Step lemma.** The jam stays. -/
theorem Jammed.step (h : Jammed size ρ w) (hkeeps : w.keepsJam ρ e = true)
    (hnext : w.next cfg e = some w') : Jammed size ρ w' := by
  obtain ⟨hheld, hfull⟩ := h
  have hstruck : ∀ {i : ℕ} {t t' : Task}, w.tasks[i]? = some t → t.stuckAt ρ = false →
      size ρ ≤ (w.tasks.set i t').countP (·.stuckAt ρ) := fun hi hnot =>
    hfull.trans (le_countP_set hi fun hstuck => by rw [hnot] at hstuck; cases hstuck)
  cases e with
  | arrive request =>
      rw [World.next] at hnext
      split at hnext
      · cases hnext
        refine ⟨hheld, hfull.trans ?_⟩
        simp only [List.countP_append]
        omega
      · cases hnext
  | advance i =>
      obtain ⟨t, s', t', hi, hstep, rfl⟩ := World.act_eq_some hnext
      have hstep := step_of_advance hstep
      obtain ⟨new, -, hwrote⟩ := hstep.wrote
      refine ⟨?_, hstruck hi hstep.not_stuck⟩
      show s'.provider.released = false
      rw [hwrote.provider]
      exact hheld
  | fault i f =>
      have hact : (w.act i fun s t => t.fault s f) = some w' := hnext
      obtain ⟨t, s', t', hi, hstep, rfl⟩ := World.act_eq_some hact
      have hnot : t.stuckAt ρ = false := by simpa [World.keepsJam, hi] using hkeeps
      unfold Task.fault at hstep
      split at hstep
      · cases hstep
      · cases hstep
        exact ⟨hheld, hstruck hi hnot⟩
  | timeOut i =>
      have hact : (w.act i fun s t => t.timeOut s) = some w' := hnext
      obtain ⟨t, s', t', hi, hstep, rfl⟩ := World.act_eq_some hact
      unfold Task.timeOut at hstep
      split at hstep
      · next hpc =>
          cases hstep
          refine ⟨hheld, hstruck hi ?_⟩
          simp [Task.stuckAt, Task.holdsAt, hpc, Pc.holdsConnection]
      · cases hstep
  | resume i =>
      obtain ⟨t, c, q', c', hi, hcall, hstep, rfl⟩ := World.serve_eq_some hnext
      refine ⟨(Call.resume_released hstep).trans hheld, hfull.trans (le_countP_set hi ?_)⟩
      intro hstuck
      obtain ⟨hholds, hawaits, hphase⟩ := Task.stuckAt_iff.mp hstuck
      rw [hcall] at hphase
      exact Task.stuckAt_iff.mpr ⟨hholds, hawaits, Call.resume_isHeld hphase hheld hstep⟩
  | abort i =>
      obtain ⟨t, c, q', c', hi, hcall, hstep, rfl⟩ := World.serve_eq_some hnext
      have hnot : t.stuckAt ρ = false := by simpa [World.keepsJam, hi] using hkeeps
      exact ⟨(Call.abort_released hstep).1.trans hheld, hstruck hi hnot⟩
  | release => cases hkeeps
  | hold =>
      cases hnext
      exact ⟨rfl, hfull⟩
  | slow on | tick =>
      cases hnext
      exact ⟨hheld, hfull⟩

/-- Nobody takes a connection of a jammed pool. -/
theorem Jammed.not_takes {e : ReplicaEvent Event} (h : Jammed size ρ p.world)
    (hadmits : (variant cfg).clients.admits size p e = true) :
    (variant cfg).clients.takes p e ≠ some ρ := by
  refine Clients.not_takes_of_full (h.full.trans ?_) hadmits
  refine le_trans (List.countP_mono_left fun t _ hstuck => ?_) (Nat.le_add_right _ _)
  exact (Task.stuckAt_iff.mp hstuck).1

/-! ## Nobody else is served -/

/-- A request that has no connection and has not been served. -/
def Task.Unserved (t : Task) : Prop :=
  t.pc.holdsConnection = false ∧ ∀ response, t.pc ≠ .ended (.responded response)

theorem Task.raise_unserved (t : Task) (exc : Exception) : (t.raise exc).Unserved := ⟨rfl, nofun⟩

/-- While nobody takes a connection of a replica, no request of the application is served there. -/
theorem tasks_step (hnext : w.next cfg e = some w')
    (htakes : w.takes e ≠ some ρ) {l₀ : List Task}
    (hcarries : Carries (fun t => t.request.replica = ρ → t.Unserved) l₀ w.tasks) :
    Carries (fun t => t.request.replica = ρ → t.Unserved) l₀ w'.tasks := by
  cases moves_of_next hnext with
  | arrived => exact hcarries.concat fun _ => ⟨rfl, nofun⟩
  | @advanced i t t' s' hi hstep =>
      have hstep := step_of_advance hstep
      refine hcarries.set hi fun hunserved hρ => ?_
      rw [hstep.request] at hρ
      obtain ⟨hfree, -⟩ := hunserved hρ
      have hnot : t'.pc.holdsConnection = false := by
        rw [← Bool.not_eq_true]
        intro hholds
        rcases hstep.holdsConnection hholds with htook | hheld
        · exact htakes (by simp [World.takes, hi, htook, hρ])
        · rw [hfree] at hheld
          cases hheld
      refine ⟨hnot, fun response hend => ?_⟩
      rw [hstep.responds hend] at hfree
      cases hfree
  | struck hi | timedOut hi => exact hcarries.set hi fun _ _ => Task.raise_unserved _ _
  | served _ hi => exact hcarries.set hi id
  | woke => exact hcarries.map fun _ => id
  | quiet => exact hcarries

/-- Nor is a request to a common route. -/
theorem readers_step {e : ReplicaEvent Event} (hnext : p.next (variant cfg) e = some p')
    (htakes : Replicas.takes (variant cfg) p e ≠ some ρ) {l₀ : List CommonReader}
    (hcarries : Carries (fun r => r.request.replica = ρ → r.Unserved) l₀ p.readers) :
    Carries (fun r => r.request.replica = ρ → r.Unserved) l₀ p'.readers := by
  cases Replicas.moves_of_next hnext with
  | inside => exact hcarries
  | asked => exact hcarries.concat fun _ => .inl rfl
  | @advanced j r r' hj hadvance =>
      refine hcarries.set hj fun hunserved hρ => ?_
      rw [CommonReader.advance_request hadvance] at hρ
      refine CommonReader.Unserved.advance (hunserved hρ) hadvance ?_
      rw [← Bool.not_eq_true]
      intro htook
      exact htakes (by simp [Replicas.takes, hj, htook, hρ])
  | struck hj => exact hcarries.set hj fun _ _ => .inr (.inr (.inl ⟨_, rfl⟩))

/-- **Run lemma.** The jam stays, and nobody else is served. -/
theorem Jammed.run {es : List (ReplicaEvent Event)} (h : Jammed size ρ p.world)
    (hrun : Run (restrict (fun p e => keepsJam ρ p e = true) (Steps (pooled cfg size))) p es p') :
    Jammed size ρ p'.world ∧
      Carries (fun t => t.request.replica = ρ → t.Unserved) p.world.tasks p'.world.tasks ∧
      Carries (fun r => r.request.replica = ρ → r.Unserved) p.readers p'.readers := by
  refine hrun.invariant (I := fun q => Jammed size ρ q.world ∧
    Carries (fun t => t.request.replica = ρ → t.Unserved) p.world.tasks q.world.tasks ∧
    Carries (fun r => r.request.replica = ρ → r.Unserved) p.readers q.readers) ?_
    ⟨h, Carries.refl _ _, Carries.refl _ _⟩
  rintro a e b ⟨hjam, htasks, hreaders⟩ ⟨hkeeps, hstep⟩
  obtain ⟨hadmits, hnext⟩ := Clients.guarded_eq_some.mp hstep
  have htakes := hjam.not_takes hadmits
  refine ⟨?_, ?_, readers_step hnext htakes hreaders⟩
  all_goals cases Replicas.moves_of_next hnext with
  | inside hw =>
      first | exact hjam.step hkeeps hw | exact tasks_step hw htakes htasks
  | asked | advanced | struck => assumption

/-- **Reads starve.** While the provider is held and its callers have every connection of a replica:
in every continuation that lets none of them go, whatever else happens, no other request of the
replica takes a connection. A metered one is answered no `201`, and one to a common route ends, if
it does, in a fault or a `401`. -/
theorem reads_starve {es : List (ReplicaEvent Event)} (h : Jammed size ρ p.world)
    (hrun : Run (restrict (fun p e => keepsJam ρ p e = true) (Steps (pooled cfg size))) p es p') :
    Jammed size ρ p'.world ∧
    (∀ (i : ℕ) (t : Task), p'.world.tasks[i]? = some t → t.request.replica = ρ →
      (∀ t₀, p.world.tasks[i]? = some t₀ → t₀.Unserved) → t.Unserved) ∧
    ∀ (j : ℕ) (r : CommonReader), p'.readers[j]? = some r → r.request.replica = ρ →
      (∀ r₀, p.readers[j]? = some r₀ → r₀.Unserved) → r.Unserved := by
  obtain ⟨hjam, htasks, hreaders⟩ := h.run hrun
  exact ⟨hjam, fun i t hi hρ h₀ => htasks i t hi (fun t₀ ht₀ _ => h₀ t₀ ht₀) hρ,
    fun j r hj hρ h₀ => hreaders j r hj (fun r₀ hr₀ _ => h₀ r₀ hr₀) hρ⟩

/-- The one connection of a replica, and a request that waits with it at the held provider. -/
def oneHeldCall : List (ReplicaEvent Event) :=
  .inside .hold :: .inside (.arrive .demo) :: List.replicate 7 (.inside (.advance 0))

/-- A read comes, asks for the connection, and is given up; the call goes as far as it can. -/
def readGivenUp : List (ReplicaEvent Event) :=
  [.ask ⟨0, some Fixtures.attackerTenantId, .usage⟩, .inside (.resume 0), .inside (.resume 0),
    .advance 0, .fault 0 .failed]

theorem read_not_served :
    ∃ p p', Run (Steps (pooled (.demo 4) fun _ => 1)) (.start (.start (.demo 4) .demo 1 40000))
        oneHeldCall p ∧
      Run (restrict (fun p e => keepsJam 0 p e = true) (Steps (pooled (.demo 4) fun _ => 1)))
        p readGivenUp p' ∧ p'.readers.map (·.point) = [.ended (.error .failed)] ∧
      Jammed (fun _ => 1) 0 p.world ∧ ∀ r ∈ p'.readers, r.Unserved := by
  have hfigures : (replay (pooled (.demo 4) fun _ => 1) (.start (.start (.demo 4) .demo 1 40000))
      oneHeldCall).map (fun p => (p.world.service.provider.released,
        p.world.tasks.countP (·.stuckAt 0), p.readers, (replay (fun a e => if keepsJam 0 a e then
          pooled (.demo 4) (fun _ => 1) a e else none) p readGivenUp).map
            fun p' => p'.readers)) =
      some (false, 1, [], some [⟨⟨0, some Fixtures.attackerTenantId, .usage⟩,
        .ended (.error .failed)⟩]) := by decide
  obtain ⟨p, hp, hfigures⟩ := Option.map_eq_some_iff.mp hfigures
  simp only [Prod.mk.injEq] at hfigures
  obtain ⟨hheld, hcount, hnone, hmore⟩ := hfigures
  obtain ⟨p', hp', hreaders⟩ := Option.map_eq_some_iff.mp hmore
  have hjam : Jammed (fun _ => 1) 0 p.world := ⟨hheld, hcount.ge⟩
  have hrun := run_of_replay_checked (p := keepsJam 0) hp'
  refine ⟨p, p', run_of_replay hp, hrun, by rw [hreaders]; rfl, hjam, fun r hr => ?_⟩
  obtain ⟨j, hj⟩ := List.mem_iff_getElem?.mp hr
  rw [hreaders, List.mem_singleton] at hr
  refine (reads_starve hjam hrun).2.2 j r hj (by rw [hr]) ?_
  rw [hnone]
  exact nofun

end Limitless.Vulnerable
