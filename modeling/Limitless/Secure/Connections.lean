import Limitless.Common.Routes
import Limitless.Secure.Invariant

/-!
# The secure application never waits on a connection

What the requests of the secure application do with connections. Each `async with` is entered and
left between two awaits of the store, and none of them is around the call to the provider
(`Pc.holdsConnection`). So whoever holds a connection goes on by itself, whatever the provider does,
and a request to a common route is answered although the provider is held
(`reads_answered_under_a_hold`).
-/

namespace Limitless

open Indexed Runs Pools

/-! ## Connections -/

namespace Pc

/-- The request is between taking a connection and giving it back. -/
def holdsConnection : Pc → Bool
  | reserving _ | leavingConnection _ _ => true
  | finishing _ _ _ .upsertRecords | finishing _ _ _ .settle | finishing _ _ _ .leaveConnection =>
    true
  | handling _ _ _ _ .close | handling _ _ _ _ .leaveConnection => true
  | recording _ _ _ _ .insertJob | recording _ _ _ _ .leaveConnection => true
  | listing _ _ .readRecords | listing _ _ (.leaveConnection _) => true
  | _ => false

/-- The request asks for a connection next. -/
def takesConnection : Pc → Bool
  | takingConnection _ => true
  | finishing _ _ _ .takeConnection | handling _ _ _ _ .takeConnection => true
  | recording _ _ _ _ .takeConnection | listing _ _ .takeConnection => true
  | _ => false

end Pc

/-- The most steps of its own that a point of the `try` block is from the end of the request. -/
def CallPoint.remaining : CallPoint → ℕ
  | enterRequestDeadline => 16
  | enterSlot => 15
  | enterUpstreamDeadline => 14
  | send => 13
  | awaitResponse => 12

/-- So are these. -/
def FinishPoint.remaining : FinishPoint → ℕ
  | leaveUpstreamDeadline => 11
  | leaveSlot => 10
  | leaveRequestDeadline => 9
  | buildRecords => 8
  | takeConnection => 7
  | upsertRecords => 6
  | settle => 5
  | leaveConnection => 4

def HandlerPoint.remaining : HandlerPoint → ℕ
  | takeConnection => 3
  | close => 2
  | leaveConnection => 1

def JobPoint.remaining : JobPoint → ℕ
  | takeConnection => 3
  | insertJob => 2
  | leaveConnection => 1

def ListPoint.remaining : ListPoint → ℕ
  | takeConnection => 3
  | readRecords => 2
  | leaveConnection _ => 1

/-- The most steps of its own that a request has left. -/
def Pc.remaining : Pc → ℕ
  | authenticating => 21
  | reading _ => 20
  | takingConnection _ => 19
  | reserving _ => 18
  | leavingConnection _ _ => 17
  | calling _ _ p => p.remaining
  | finishing _ _ _ p => p.remaining
  | handling _ _ _ _ p => p.remaining
  | recording _ _ _ _ p => p.remaining
  | listing _ _ p => p.remaining
  | ended _ => 0

/-- The request holds a connection of the replica. -/
def Task.holdsAt (t : Task) (ρ : ℕ) : Bool := t.request.replica = ρ ∧ t.pc.holdsConnection

/-- The request waits for the provider. -/
def Task.Waits (t : Task) : Prop :=
  ∃ w r, t.pc = .calling w r .awaitResponse ∧
    ∀ payload result, t.call ≠ some ⟨payload, .answered result⟩

namespace World

/-- The replica whose pool the event takes a connection from. -/
def takes (w : World) : Event → Option ℕ
  | .advance i => (w.tasks[i]?.filter fun t => t.pc.takesConnection).map fun t => t.request.replica
  | _ => none

/-- The connections of a replica that requests hold. -/
def held (w : World) (ρ : ℕ) : ℕ := w.tasks.countP (·.holdsAt ρ)

end World

/-- The event is a step of a request by itself. -/
def Event.isOwn : Event → Bool
  | advance _ => true
  | _ => false

/-- The steps that the requests have left. -/
def World.remaining (w : World) : ℕ := (w.tasks.map fun t => t.pc.remaining).sum

/-! ## What a step of a request does to its connection -/

/-- From one point to another: a connection is taken where one is asked for, and the end of the
request comes nearer. -/
structure Pc.Nearer (pc pc' : Pc) : Prop where
  holds : pc'.holdsConnection = true → pc.takesConnection = true ∨ pc.holdsConnection = true
  remaining : pc'.remaining < pc.remaining

variable {cfg : Config} {s s' : Service} {t t' : Task}

/-- The contexts of `perform_lookups` are further from the end than its `except` handler. -/
theorem Pc.remaining_of_frame {pc : Pc} {w : Work} {r : Reservation} (h : pc.frame? = some (w, r)) :
    3 < pc.remaining := by
  cases pc with
  | calling w' r' p => cases p <;> simp [remaining, CallPoint.remaining]
  | finishing w' r' result p => cases p <;> simp [remaining, FinishPoint.remaining]
  | _ => cases h

/-- Whoever has not ended has a step left. -/
theorem Pc.remaining_pos {pc : Pc} (h : pc.isEnded = false) : 0 < pc.remaining := by
  cases pc with
  | ended e => cases h
  | calling w r p => cases p <;> simp [remaining, CallPoint.remaining]
  | finishing w r result p => cases p <;> simp [remaining, FinishPoint.remaining]
  | handling w r attempted exc p => cases p <;> simp [remaining, HandlerPoint.remaining]
  | recording w r result jobId p => cases p <;> simp [remaining, JobPoint.remaining]
  | listing u n p => cases p <;> simp [remaining, ListPoint.remaining]
  | _ => simp [remaining]

/-- An exception gives the connection back. -/
theorem Task.raise_nearer (s : Service) (exc : Exception) (h : t.pc.isEnded = false) :
    t.pc.Nearer (t.raise s exc).2.pc := by
  unfold raise
  cases hframe : t.pc.frame? with
  | none => exact ⟨nofun, Pc.remaining_pos h⟩
  | some frame =>
      obtain ⟨w, r⟩ := frame
      exact ⟨nofun, Pc.remaining_of_frame hframe⟩

/-- A step to a point that holds no connection. -/
theorem Pc.nearer_free {pc pc' : Pc} (hfree : pc'.holdsConnection = false)
    (hremaining : pc'.remaining < pc.remaining) : pc.Nearer pc' :=
  ⟨fun h => absurd (hfree.symm.trans h) Bool.false_ne_true, hremaining⟩

theorem Task.read_nearer {u : TenantId} (hpc : t.pc = .reading u) :
    t.pc.Nearer (t.read cfg s u).2.pc := by
  have hraise : ∀ exc, t.pc.Nearer (t.raise s exc).2.pc := fun exc =>
    raise_nearer s exc (by rw [hpc]; rfl)
  have hgoto : ∀ pc : Pc, pc.holdsConnection = false → pc.remaining < 20 →
      t.pc.Nearer (t.goto pc).pc := by
    intro pc hfree hlt
    rw [hpc]
    exact Pc.nearer_free hfree hlt
  unfold read
  split
  · split
    · exact hraise _
    · exact hgoto _ rfl (by simp [Pc.remaining])
  · exact hgoto _ rfl (by simp [Pc.remaining])
  · exact hgoto _ rfl (by simp [Pc.remaining, ListPoint.remaining])
  all_goals exact hraise _

theorem Task.reserve_nearer {w : Work} (hpc : t.pc = .reserving w) :
    t.pc.Nearer (t.reserve cfg s w).2.pc := by
  have hraise : ∀ exc, t.pc.Nearer (t.raise s exc).2.pc := fun exc =>
    raise_nearer s exc (by rw [hpc]; rfl)
  unfold reserve
  split
  · rw [hpc]
    exact ⟨fun _ => .inr rfl, Nat.lt_succ_self 17⟩
  all_goals exact hraise _

theorem Task.lookUp_nearer {w : Work} {r : Reservation} {p : CallPoint}
    (hpc : t.pc = .calling w r p) (hstep : t.lookUp s w r p = some (s', t')) :
    t.pc.Nearer t'.pc := by
  have hraise : ∀ exc, t.pc.Nearer (t.raise s exc).2.pc := fun exc =>
    raise_nearer s exc (by rw [hpc]; rfl)
  cases p with
  | enterSlot =>
      simp only [lookUp] at hstep
      split at hstep
      · cases hstep
      · split at hstep
        · cases hstep
          exact hraise _
        · cases hstep
          rw [hpc]
          exact Pc.nearer_free rfl (Nat.lt_succ_self 14)
  | awaitResponse =>
      simp only [lookUp] at hstep
      split at hstep
      · cases hstep
        rw [hpc]
        exact Pc.nearer_free rfl (Nat.lt_succ_self 11)
      · cases hstep
  | _ =>
      cases hstep
      rw [hpc]
      exact Pc.nearer_free rfl (Nat.lt_succ_self _)

theorem Task.finish_nearer {w : Work} {r : Reservation} {result : LookupResponse} {p : FinishPoint}
    (hpc : t.pc = .finishing w r result p) :
    t.pc.Nearer (t.finish cfg s w r result p).2.pc := by
  have hraise : ∀ exc, t.pc.Nearer (t.raise s exc).2.pc := fun exc =>
    raise_nearer s exc (by rw [hpc]; rfl)
  cases p with
  | takeConnection =>
      rw [hpc]
      exact ⟨fun _ => .inl rfl, Nat.lt_succ_self _⟩
  | upsertRecords =>
      rw [hpc]
      exact ⟨fun _ => .inr rfl, Nat.lt_succ_self _⟩
  | settle =>
      simp only [finish]
      split
      · exact hraise _
      · rw [hpc]
        exact ⟨fun _ => .inr rfl, Nat.lt_succ_self _⟩
  | leaveConnection =>
      simp only [finish]
      rw [hpc]
      split
      · exact Pc.nearer_free rfl (Nat.succ_pos 3)
      · exact Pc.nearer_free rfl (Nat.lt_succ_self 3)
  | _ =>
      rw [hpc]
      exact Pc.nearer_free rfl (Nat.lt_succ_self _)

theorem Task.handle_nearer {w : Work} {r : Reservation} {attempted : Bool} {exc : Exception}
    {p : HandlerPoint} (hpc : t.pc = .handling w r attempted exc p) :
    t.pc.Nearer (t.handle s w r attempted exc p).2.pc := by
  have hraise : ∀ exc, t.pc.Nearer (t.raise s exc).2.pc := fun exc =>
    raise_nearer s exc (by rw [hpc]; rfl)
  cases p with
  | takeConnection =>
      rw [hpc]
      exact ⟨fun _ => .inl rfl, Nat.lt_succ_self _⟩
  | close =>
      have hclosed : ∀ e, t.pc.Nearer
          (t.did e (.handling w r attempted exc .leaveConnection)).pc := by
        intro e
        rw [hpc]
        exact ⟨fun _ => .inr rfl, Nat.lt_succ_self _⟩
      simp only [handle]
      split
      all_goals split
      all_goals first | exact hraise _ | exact hclosed _
  | leaveConnection =>
      rw [hpc]
      exact Pc.nearer_free rfl (Nat.lt_succ_self _)

theorem Task.record_nearer {w : Work} {r : Reservation} {result : LookupResponse} {jobId : JobId}
    {p : JobPoint} (hpc : t.pc = .recording w r result jobId p) :
    t.pc.Nearer (t.record cfg s w r result jobId p).2.pc := by
  have hraise : ∀ exc, t.pc.Nearer (t.raise s exc).2.pc := fun exc =>
    raise_nearer s exc (by rw [hpc]; rfl)
  cases p with
  | takeConnection =>
      rw [hpc]
      exact ⟨fun _ => .inl rfl, Nat.lt_succ_self _⟩
  | insertJob =>
      simp only [record]
      split
      · exact hraise _
      · rw [hpc]
        exact ⟨fun _ => .inr rfl, Nat.lt_succ_self _⟩
  | leaveConnection =>
      rw [hpc]
      exact Pc.nearer_free rfl (Nat.lt_succ_self _)

theorem Task.list_nearer {u : TenantId} {n : ℕ} {p : ListPoint} (hpc : t.pc = .listing u n p) :
    t.pc.Nearer (t.list s u n p).2.pc := by
  rw [hpc]
  cases p with
  | takeConnection => exact ⟨fun _ => .inl rfl, Nat.lt_succ_self _⟩
  | readRecords => exact ⟨fun _ => .inr rfl, Nat.lt_succ_self _⟩
  | leaveConnection page => exact Pc.nearer_free rfl (Nat.lt_succ_self _)

/-- **Step lemma.** A request that goes on takes a connection only where it asks for one, and has
fewer steps left. -/
theorem Task.advance_nearer (hstep : t.advance cfg s = some (s', t')) : t.pc.Nearer t'.pc := by
  have hnearer : ∀ {x : Service × Task}, t.pc.Nearer x.2.pc → some x = some (s', t') →
      t.pc.Nearer t'.pc := by
    rintro _ hx ⟨⟩
    exact hx
  unfold advance at hstep
  split at hstep
  · next hpc =>
      split at hstep
      · exact hnearer (raise_nearer s _ (by rw [hpc]; rfl)) hstep
      · cases hstep
        rw [hpc]
        exact Pc.nearer_free rfl (Nat.lt_succ_self 20)
  · next hpc => exact hnearer (read_nearer hpc) hstep
  · next hpc =>
      cases hstep
      rw [hpc]
      exact ⟨fun _ => .inl rfl, Nat.lt_succ_self 18⟩
  · next hpc => exact hnearer (reserve_nearer hpc) hstep
  · next hpc =>
      cases hstep
      rw [hpc]
      exact Pc.nearer_free rfl (Nat.lt_succ_self 16)
  · next hpc => exact lookUp_nearer hpc hstep
  · next hpc => exact hnearer (finish_nearer hpc) hstep
  · next hpc => exact hnearer (handle_nearer hpc) hstep
  · next hpc => exact hnearer (record_nearer hpc) hstep
  · next hpc => exact hnearer (list_nearer hpc) hstep
  · cases hstep

/-- No step rewrites a request. -/
theorem Task.advance_request (hstep : t.advance cfg s = some (s', t')) :
    t'.request = t.request := by
  unfold advance read reserve lookUp finish handle record list at hstep
  repeat' split at hstep
  all_goals first | cases hstep; rfl | cases hstep

theorem Task.fault_eq {f : Fault} (hstep : t.fault s f = some (s', t')) :
    t.pc.isEnded = false ∧ ∃ exc, (s', t') = t.raise s exc := by
  unfold fault at hstep
  split at hstep
  · cases hstep
  · next hend =>
      refine ⟨by simpa using hend, ?_⟩
      cases f with
      | cancelled | failed => exact ⟨_, (Option.some.inj hstep).symm⟩
      | deadline =>
          simp only at hstep
          split at hstep
          · exact ⟨_, (Option.some.inj hstep).symm⟩
          · cases hstep

/-- Where it goes on by itself: everywhere but at its end, and where it waits for the provider. -/
theorem Task.advance_isSome (hrep : t.request.replica < s.limiters.length)
    (hend : t.pc.isEnded = false) (hwaits : ¬ t.Waits) : (t.advance cfg s).isSome := by
  unfold advance
  cases hpc : t.pc with
  | ended e =>
      rw [hpc] at hend
      cases hend
  | authenticating => cases t.request.principal <;> rfl
  | calling w r p =>
      cases p with
      | enterSlot =>
          simp only [lookUp, List.getElem?_eq_getElem hrep]
          cases s.limiters[t.request.replica].enter <;> rfl
      | awaitResponse =>
          simp only [lookUp]
          split
          · rfl
          · next hnot =>
              exact absurd ⟨w, r, hpc, fun payload result h => hnot payload result h⟩ hwaits
      | _ => rfl
  | _ => rfl

/-- Whoever holds a connection goes on by itself, and asks for none. -/
theorem Pc.holdsConnection_free {pc : Pc} (h : pc.holdsConnection = true) :
    pc.isEnded = false ∧ pc.takesConnection = false ∧
      ∀ w r, pc ≠ .calling w r .awaitResponse := by
  cases pc with
  | finishing w r result p => cases p <;> first | exact ⟨rfl, rfl, nofun⟩ | cases h
  | handling w r attempted exc p => cases p <;> first | exact ⟨rfl, rfl, nofun⟩ | cases h
  | recording w r result jobId p => cases p <;> first | exact ⟨rfl, rfl, nofun⟩ | cases h
  | listing u n p => cases p <;> first | exact ⟨rfl, rfl, nofun⟩ | cases h
  | reserving | leavingConnection => exact ⟨rfl, rfl, nofun⟩
  | _ => cases h

/-! ## The application and its connection pools -/

variable {w w' : World} {e : Event} {s₀ : Store} {replicas : ℕ}

/-- Only a request that asks for a connection takes one. -/
theorem World.held_next (h : w.next cfg e = some w') (ρ : ℕ) :
    w'.held ρ ≤ w.held ρ ∨ w.takes e = some ρ ∧ w'.held ρ ≤ w.held ρ + 1 := by
  cases moves_of_next h with
  | arrived =>
      refine .inl ?_
      simp [held, List.countP_append, Task.holdsAt, Task.arrived, Pc.holdsConnection]
  | @advanced i t t' s' hi hstep =>
      by_cases htakes : t.pc.takesConnection = true ∧ t.request.replica = ρ
      · exact .inr ⟨by simp [takes, hi, htakes.1, htakes.2], countP_set_le_succ _ _ hi⟩
      · refine .inl (countP_set_le hi fun hholds => ?_)
        obtain ⟨hρ, hholds⟩ : t'.request.replica = ρ ∧ t'.pc.holdsConnection = true := by
          simpa [Task.holdsAt] using hholds
        rw [Task.advance_request hstep] at hρ
        rcases (Task.advance_nearer hstep).holds hholds with htook | hheld
        · exact absurd ⟨htook, hρ⟩ htakes
        · simp [Task.holdsAt, hρ, hheld]
  | @struck i f t t' s' hi hstep =>
      obtain ⟨-, exc, heq⟩ := Task.fault_eq hstep
      refine .inl (countP_set_le hi fun hholds => ?_)
      have hpc : t'.pc.holdsConnection = false := by
        obtain ⟨-, rfl⟩ := Prod.mk.inj heq
        simp only
        split <;> rfl
      simp [Task.holdsAt, hpc] at hholds
  | served _ hi => exact .inl (countP_set_le hi id)
  | woke =>
      refine .inl ?_
      simp only [held, List.countP_map]
      exact le_rfl
  | reset | quiet => exact .inl le_rfl

/-- The secure application, as the common routes see it. -/
def secureVariant (cfg : Config) : Variant World Event where
  variant := "secure"
  replicaName := cfg.replicaName
  readJob w := w.service.store.readJob
  usageSource w := w.service.store.readUsage
  replicas w := w.service.limiters.length
  handlers :=
    { next := World.next cfg
      takes := World.takes
      held := World.held
      held_next := World.held_next }

/-! ## Reads under a hold -/

variable {limiter : InFlightLimiter} {size : ℕ → ℕ} {p p' : Replicas World}

/-- The replicas with their pools. -/
def pooled (cfg : Config) (size : ℕ → ℕ) : Replicas World → ReplicaEvent Event →
    Option (Replicas World) := (secureVariant cfg).clients.guarded size

/-- The steps that all requests of the replicas have left. -/
def Replicas.left (p : Replicas World) : ℕ := p.remaining p.world.remaining

/-- Nobody in the replicas can go on by itself. -/
def Stopped (cfg : Config) (size : ℕ → ℕ) (p : Replicas World) : Prop :=
  ∀ e, e.isOwn Event.isOwn = true → pooled cfg size p e = none

/-- An event behind the pools keeps the invariant of the world. -/
theorem pooled_step_sound {e : ReplicaEvent Event} (h : World.Sound cfg s₀ replicas p.world)
    (hstep : pooled cfg size p e = some p') : World.Sound cfg s₀ replicas p'.world := by
  cases Replicas.moves_of_next (Clients.guarded_eq_some.mp hstep).2 with
  | inside hw => exact h.step (moves_of_next hw)
  | asked | advanced | struck => exact h

/-- The invariant of the world holds behind the pools. -/
theorem pooled_sound (hl : InFlightLimiter.make cfg.maxInFlightUpstream = .ok limiter)
    {es : List (ReplicaEvent Event)}
    (hrun : Run (Steps (pooled cfg size)) (.start (.start cfg s₀ replicas limiter)) es p) :
    World.Sound cfg s₀ replicas p.world :=
  hrun.invariant (I := fun p => World.Sound cfg s₀ replicas p.world)
    (fun _ _ _ h hstep => pooled_step_sound h hstep) (World.start_sound hl s₀ replicas)

/-- A step of a request by itself brings the stop nearer. -/
theorem left_lt {e : ReplicaEvent Event} (hown : e.isOwn Event.isOwn = true)
    (h : pooled cfg size p e = some p') : p'.left < p.left := by
  cases Replicas.moves_of_next (Clients.guarded_eq_some.mp h).2 with
  | @inside e w hw =>
      cases e with
      | advance i =>
          obtain ⟨t, s', t', hi, hstep, rfl⟩ := World.act_eq_some hw
          have hset := sum_map_set (fun t => t.pc.remaining) t' hi
          have hlt := (Task.advance_nearer hstep).remaining
          simp only [Replicas.left, Replicas.remaining, World.remaining]
          omega
      | _ => cases hown
  | asked | struck => cases hown
  | advanced hr hadvance => exact Replicas.remaining_advance _ hr hadvance

/-- **Where the replicas stop.** All connections are free, every request to a common route has
ended, and every other one has ended or waits for the provider. -/
theorem Stopped.everyone (hstop : Stopped cfg size p) (hs : World.Sound cfg s₀ replicas p.world)
    (hsize : ∀ ρ, 0 < size ρ) :
    (∀ ρ, Replicas.held (secureVariant cfg) p ρ = 0) ∧ (∀ r ∈ p.readers, ∃ a, r.point = .ended a) ∧
      ∀ t ∈ p.world.tasks, t.pc.isEnded = true ∨ t.Waits := by
  have hgoes : ∀ {i : ℕ} {t : Task}, p.world.tasks[i]? = some t → t.pc.isEnded = false →
      ¬ t.Waits →
      ((secureVariant cfg).clients.next p (.inside (.advance i))).isSome := by
    intro i t hi hend hwaits
    have hrep := (hs.replica t (List.mem_of_getElem? hi)).trans_eq hs.length.symm
    have hsome : (t.advance cfg p.world.service).isSome := Task.advance_isSome hrep hend hwaits
    obtain ⟨⟨s', t'⟩, hstep⟩ := Option.isSome_iff_exists.mp hsome
    show ((World.act p.world i fun s t => t.advance cfg s).map _).isSome
    simp [World.act, hi, hstep]
  have hreads : ∀ {j : ℕ} {r : CommonReader}, p.readers[j]? = some r → (∀ a, r.point ≠ .ended a) →
      ((secureVariant cfg).clients.next p (.advance j)).isSome := by
    intro j r hj hend
    obtain ⟨r', hr'⟩ := CommonReader.advance_isSome (secureVariant cfg) p.world hend
    show (p.act j fun r => r.advance (secureVariant cfg) p.world).isSome
    simp [Replicas.act, hj, hr']
  have hholder : ∀ ρ, 0 < (secureVariant cfg).clients.held p ρ →
      ∃ e, e.isOwn Event.isOwn = true ∧ (secureVariant cfg).clients.takes p e = none ∧
        ((secureVariant cfg).clients.next p e).isSome := by
    intro ρ hheld
    rcases Nat.add_pos_iff_pos_or_pos.mp hheld with htask | hreader
    · obtain ⟨t, ht, hholds⟩ := List.countP_pos_iff.mp htask
      obtain ⟨i, hi⟩ := List.mem_iff_getElem?.mp ht
      have hheld : t.pc.holdsConnection = true := by
        simp [Task.holdsAt] at hholds
        exact hholds.2
      obtain ⟨hend, htakes, hnot⟩ := Pc.holdsConnection_free hheld
      refine ⟨.inside (.advance i), rfl, ?_, hgoes hi hend fun ⟨w, r, hpc, _⟩ => hnot w r hpc⟩
      show World.takes p.world (.advance i) = none
      simp [World.takes, hi, htakes]
    · obtain ⟨r, hr, hholds⟩ := List.countP_pos_iff.mp hreader
      obtain ⟨j, hj⟩ := List.mem_iff_getElem?.mp hr
      have hheld : r.point.holdsConnection = true := by
        simp [CommonReader.holdsAt] at hholds
        exact hholds.2
      refine ⟨.advance j, rfl, ?_, hreads hj fun a ha => by rw [ha] at hheld; cases hheld⟩
      show Replicas.takes (secureVariant cfg) p (.advance j) = none
      cases hp : r.point with
      | takingConnection q =>
          rw [hp] at hheld
          cases hheld
      | _ => simp [Replicas.takes, hj, hp, CommonPoint.takesConnection]
  obtain ⟨hfree, hnext⟩ := Clients.stop_of_guarded hsize hholder hstop
  refine ⟨hfree, fun r hr => ?_, fun t ht => ?_⟩
  · obtain ⟨j, hj⟩ := List.mem_iff_getElem?.mp hr
    by_contra hend
    have hsome := hreads hj fun a ha => hend ⟨a, ha⟩
    rw [hnext (.advance j) rfl] at hsome
    cases hsome
  · obtain ⟨i, hi⟩ := List.mem_iff_getElem?.mp ht
    by_contra hnot
    rw [not_or, Bool.not_eq_true] at hnot
    have hsome := hgoes hi hnot.1 hnot.2
    rw [hnext (.inside (.advance i)) rfl] at hsome
    cases hsome

end Limitless
