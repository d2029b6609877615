import Mathlib.Data.List.Count
import Limitless.Lib.Indexed
import Limitless.Lib.Runs
import Limitless.Secure.Capacity

/-!
# Slots and deadlines on one event loop

Tasks share one `InFlightLimiter` and each keeps a stack of the `async with` contexts it is in:
`slot` and `deadline` of `secure/capacity.py`, nested as a task likes. A context is left when its
body completes or when an exception unwinds through it, and an exception comes from the body, from
a cancellation, or from a deadline of any depth that expires. Between two awaits a task is alone,
so one event is one step of one task.

A step changes `in_flight` by what it changes in the slots of the task that took it, and it moves
the peak only by what `in_flight` reaches (`advance_limiter`). So in every run `in_flight` is the
number of slots that are held, and the peak is its high-water mark.
-/

namespace Limitless

open Indexed Runs

/-! ## A task and its contexts -/

/-- The exception a task is unwinding with. -/
inductive ContextError
  | cancelled
  | timeout
  | limitReached (kind : RefusalKind) (operation : RefusedOperation)
  | raised (type : String)
  deriving DecidableEq, Repr

/-- An `async with` context a task is in. A deadline keeps the task's `cancelling()` at its entry
and whether it has expired. -/
inductive ContextFrame
  | deadline (operation : RefusedOperation) (cancelling : Nat) (expiring : Bool)
  | slot
  deriving DecidableEq, Repr

/-- A task: its contexts, the innermost first, its cancellation requests, whether a
`CancelledError` is still to be thrown into it, and the exception it unwinds with. -/
structure ContextTask where
  frames : List ContextFrame
  cancelling : Nat
  mustCancel : Bool
  unwinding : Option ContextError
  deriving DecidableEq, Repr

/-- A task before its first context. -/
def ContextTask.fresh : ContextTask := ⟨[], 0, false, none⟩

/-- What a task does between two awaits, or what the loop does to it. -/
inductive ContextStep
  | enterDeadline (operation : RefusedOperation)
  | enterSlot (operation : RefusedOperation)
  | complete
  | raise (e : ContextError)
  | unwind
  | handle
  | cancel
  | expire (depth : Nat)
  | deliver
  deriving DecidableEq, Repr

namespace ContextTask

/-- The slots a task holds. -/
def slots (t : ContextTask) : Int := t.frames.count .slot

/-- The task is inside a slot. -/
def isInside (t : ContextTask) : Bool := t.frames.contains .slot

/-- `Task.cancel`: one more request, and a `CancelledError` to throw. -/
def cancel (t : ContextTask) : ContextTask :=
  { t with cancelling := t.cancelling + 1, mustCancel := true }

/-- `Task.uncancel`: one request less; with none left there is nothing to throw. -/
def uncancel (t : ContextTask) : ContextTask :=
  { t with
    cancelling := t.cancelling - 1
    mustCancel := if t.cancelling - 1 = 0 then false else t.mustCancel }

/-- `Timeout.__aexit__` with an exception: the one a deadline's own expiry threw becomes a
`TimeoutError`, unless the task was cancelled besides. -/
def timeoutExit (t : ContextTask) (entered : Nat) (expiring : Bool) (e : ContextError) :
    ContextError :=
  if expiring ∧ t.cancelling - 1 ≤ entered ∧ e = .cancelled then .timeout else e

/-- `deadline`'s own handler: a `TimeoutError` out of its body becomes a refusal. -/
def refuseTimeout (operation : RefusedOperation) : ContextError → ContextError
  | .timeout => .limitReached .capacityShed operation
  | e => e

/-- The innermost context is left, and what the exception, if there is one, is outside it. -/
def exit (t : ContextTask) (l : InFlightLimiter) : Option (ContextTask × InFlightLimiter) :=
  match t.frames with
  | [] => none
  | .slot :: frames => some ({ t with frames }, l.leave)
  | .deadline operation entered expiring :: frames =>
    let e := t.unwinding.map fun e => refuseTimeout operation (t.timeoutExit entered expiring e)
    some ({ (if expiring then t.uncancel else t) with frames, unwinding := e }, l)

/-- One step of a task. `none` where it is not possible. -/
def advance (t : ContextTask) (l : InFlightLimiter) :
    ContextStep → Option (ContextTask × InFlightLimiter)
  | .enterDeadline operation =>
    if t.unwinding.isSome then none else
    some ({ t with frames := .deadline operation t.cancelling false :: t.frames }, l)
  | .enterSlot operation =>
    if t.unwinding.isSome then none else
    match l.enter with
    | .error kind => some ({ t with unwinding := some (.limitReached kind operation) }, l)
    | .ok l' => some ({ t with frames := .slot :: t.frames }, l')
  | .complete => if t.unwinding.isSome then none else t.exit l
  | .raise e => some ({ t with unwinding := some e }, l)
  | .unwind => if t.unwinding.isSome then t.exit l else none
  | .handle => if t.unwinding.isSome then some ({ t with unwinding := none }, l) else none
  | .cancel => some (t.cancel, l)
  | .expire depth =>
    match t.frames[depth]? with
    | some (.deadline operation entered false) =>
      some ({ t.cancel with frames := t.frames.set depth (.deadline operation entered true) }, l)
    | _ => none
  | .deliver =>
    if t.mustCancel then some ({ t with mustCancel := false, unwinding := some .cancelled }, l)
    else none

end ContextTask

/-! ## The loop -/

/-- The limiter of one process and the tasks of its event loop. -/
structure EventLoop where
  limiter : InFlightLimiter
  tasks : List ContextTask

/-- A task is created, or one of the tasks takes a step. -/
inductive LoopEvent
  | spawn
  | task (i : Nat) (step : ContextStep)
  deriving DecidableEq, Repr

namespace EventLoop

/-- One step of the loop. -/
def next (s : EventLoop) : LoopEvent → Option EventLoop
  | .spawn => some { s with tasks := s.tasks ++ [.fresh] }
  | .task i step =>
    s.tasks[i]?.bind fun t => (t.advance s.limiter step).map fun r =>
      ⟨r.2, s.tasks.set i r.1⟩

/-- The slots that are held. -/
def occupied (s : EventLoop) : Int := total (·.slots) s.tasks

/-- `k` tasks are created one after the other from the `n`th on, and each enters a slot. -/
def entrants (n : Nat) (operation : RefusedOperation) : Nat → List LoopEvent
  | 0 => []
  | k + 1 => entrants n operation k ++ [.spawn, .task (n + k) (.enterSlot operation)]

end EventLoop

/-! ## What one step does -/

namespace ContextTask

variable {t t' : ContextTask} {l l' : InFlightLimiter}

theorem slots_nonneg (t : ContextTask) : 0 ≤ t.slots := by
  unfold slots
  omega

/-- A task that holds at most one slot holds one exactly when it is inside. -/
theorem slots_eq_isInside (h : t.slots ≤ 1) : t.slots = if t.isInside then 1 else 0 := by
  unfold slots at h ⊢
  unfold isInside
  split
  · next hin =>
      have := List.count_pos_iff.mpr (List.contains_iff_mem.mp hin)
      omega
  · next hout =>
      have := List.count_eq_zero.mpr fun hmem => hout (List.contains_iff_mem.mpr hmem)
      omega

/-- What every step does to the limiter, whichever way a context is entered or left. -/
structure Counts (t : ContextTask) (l : InFlightLimiter) (t' : ContextTask)
    (l' : InFlightLimiter) : Prop where
  capacity : l'.capacity = l.capacity
  inFlight : l'.inFlight + t.slots = l.inFlight + t'.slots
  peak : l.inFlight ≤ l.peakInFlight → l'.peakInFlight = max l.peakInFlight l'.inFlight

/-- A step that leaves the limiter alone, and the slots of its task. -/
theorem Counts.of_slots (h : t'.slots = t.slots) : Counts t l t' l :=
  ⟨rfl, by rw [h], fun hle => (max_eq_left hle).symm⟩

theorem exit_counts (h : t.exit l = some (t', l')) : Counts t l t' l' := by
  unfold exit at h
  split at h
  · cases h
  · next frames hframes =>
      cases h
      refine ⟨rfl, ?_, ?_⟩
      · simp only [slots, hframes, List.count_cons_self, InFlightLimiter.leave]
        omega
      · intro hle
        exact (max_eq_left (by simp only [InFlightLimiter.leave]; omega)).symm
  · next operation entered expiring frames hframes =>
      cases h
      refine .of_slots ?_
      have hne : (ContextFrame.deadline operation entered expiring == .slot) = false := rfl
      simp only [slots, hframes, List.count_cons, hne]
      rfl

theorem enter_counts {operation : RefusedOperation}
    (h : t.advance l (.enterSlot operation) = some (t', l')) : Counts t l t' l' := by
  simp only [advance] at h
  split at h
  · cases h
  split at h
  · cases h
    exact .of_slots rfl
  · next l₁ henter =>
      cases h
      obtain ⟨hcap, hin⟩ := InFlightLimiter.enter_ok henter
      refine ⟨hcap, ?_, fun _ => ?_⟩
      · simp only [slots, List.count_cons_self]
        omega
      · exact (InFlightLimiter.enter_peak henter).trans (by rw [hin])

/-- An expired deadline is still a deadline. -/
theorem slots_expire {depth : Nat} {operation : RefusedOperation} {entered : Nat}
    (h : t.frames[depth]? = some (.deadline operation entered false)) :
    (t.frames.set depth (.deadline operation entered true)).count .slot =
      t.frames.count .slot := by
  obtain ⟨hlt, hget⟩ := List.getElem?_eq_some_iff.mp h
  rw [List.count_set hlt, hget]
  rfl

/-- **Step lemma.** Every step changes `in_flight` by what it changes in the slots of its task. -/
theorem advance_counts {a : ContextStep} (h : t.advance l a = some (t', l')) :
    Counts t l t' l' := by
  cases a with
  | enterSlot operation => exact enter_counts h
  | enterDeadline operation =>
      simp only [advance] at h
      split at h
      · cases h
      · cases h
        exact .of_slots rfl
  | complete =>
      simp only [advance] at h
      split at h
      · cases h
      · exact exit_counts h
  | unwind =>
      simp only [advance] at h
      split at h
      · exact exit_counts h
      · cases h
  | raise e =>
      cases h
      exact .of_slots rfl
  | cancel =>
      cases h
      exact .of_slots rfl
  | expire depth =>
      simp only [advance] at h
      split at h
      · next hframe =>
          cases h
          exact .of_slots (congrArg Int.ofNat (slots_expire hframe))
      · cases h
  | handle | deliver =>
      simp only [advance] at h
      split at h
      · cases h
        exact .of_slots rfl
      · cases h

end ContextTask

/-! ## Every run -/

namespace EventLoop

variable {s s' : EventLoop} {c : Int}

theorem next_task {i : Nat} {a : ContextStep} (h : s.next (.task i a) = some s') :
    ∃ t t' l', s.tasks[i]? = some t ∧ t.advance s.limiter a = some (t', l') ∧
      s' = ⟨l', s.tasks.set i t'⟩ := by
  obtain ⟨t, ht, h⟩ := Option.bind_eq_some_iff.mp h
  obtain ⟨⟨t', l'⟩, hadv, rfl⟩ := Option.map_eq_some_iff.mp h
  exact ⟨t, t', l', ht, hadv, rfl⟩

/-- The limiter has the capacity it was made with and counts the slots that are held. -/
structure Counted (c : Int) (s : EventLoop) : Prop where
  capacity : s.limiter.capacity = c
  inFlight : s.limiter.inFlight = s.occupied

theorem Counted.step {e : LoopEvent} (hs : s.Counted c) (h : s.next e = some s') :
    s'.Counted c := by
  cases e with
  | spawn =>
      cases h
      refine ⟨hs.capacity, ?_⟩
      have hfresh : ContextTask.fresh.slots = 0 := rfl
      simp only [occupied, total_append, total_cons, total_nil, hfresh, add_zero]
      exact hs.inFlight
  | task i a =>
      obtain ⟨t, t', l', ht, hadv, rfl⟩ := next_task h
      have hcount := ContextTask.advance_counts hadv
      refine ⟨hcount.capacity.trans hs.capacity, ?_⟩
      have hin := hcount.inFlight
      have hbefore := hs.inFlight
      simp only [occupied] at hbefore ⊢
      rw [total_set _ _ ht]
      omega

theorem peak_step {e : LoopEvent} (hle : s.limiter.inFlight ≤ s.limiter.peakInFlight)
    (h : s.next e = some s') :
    s'.limiter.peakInFlight = max s.limiter.peakInFlight s'.limiter.inFlight := by
  cases e with
  | spawn =>
      cases h
      exact (max_eq_left hle).symm
  | task i a =>
      obtain ⟨t, t', l', -, hadv, rfl⟩ := next_task h
      exact (ContextTask.advance_counts hadv).peak hle

theorem Counted.nonneg (hs : s.Counted c) : 0 ≤ s.limiter.inFlight :=
  hs.inFlight ▸ total_nonneg fun t _ => t.slots_nonneg

theorem Counted.le_capacity (hs : s.Counted c) : s.limiter.inFlight ≤ c :=
  hs.capacity ▸ s.limiter.within_capacity

/-- Where no task holds two slots, the held slots are the tasks inside one. -/
theorem occupied_eq_countP (h : ∀ t ∈ s.tasks, t.slots ≤ 1) :
    s.occupied = s.tasks.countP (·.isInside) := by
  have hone := total_congr fun t ht => ContextTask.slots_eq_isInside (h t ht)
  exact hone.trans (total_countP _ _)

/-- A task that has nothing to unwind enters a slot in one step, and is refused by the same step
exactly when every slot is held. -/
theorem enter_decides {i : Nat} {t : ContextTask} (ht : s.tasks[i]? = some t)
    (hrunning : t.unwinding = none) (operation : RefusedOperation) (hs : s.Counted c) :
    (s.limiter.inFlight < c ∧ ∃ l', s.limiter.enter = .ok l' ∧
      s.next (.task i (.enterSlot operation)) =
        some ⟨l', s.tasks.set i { t with frames := .slot :: t.frames }⟩) ∨
    (s.limiter.inFlight = c ∧ s.next (.task i (.enterSlot operation)) =
        some ⟨s.limiter, s.tasks.set i
          { t with unwinding := some (.limitReached .capacityShed operation) }⟩) := by
  have hle := hs.le_capacity
  have hcap := hs.capacity
  have hnext : ∀ r, t.advance s.limiter (.enterSlot operation) = some r →
      s.next (.task i (.enterSlot operation)) = some ⟨r.2, s.tasks.set i r.1⟩ := by
    intro r hr
    simp [next, ht, hr]
  cases henter : s.limiter.enter with
  | ok l' =>
      have hlt := InFlightLimiter.lt_of_enter_ok henter
      refine .inl ⟨by omega, l', rfl, hnext (_, _) ?_⟩
      simp [ContextTask.advance, hrunning, henter]
  | error kind =>
      have hge := InFlightLimiter.le_of_enter_error henter
      obtain rfl := InFlightLimiter.enter_error henter
      refine .inr ⟨by omega, hnext (_, _) ?_⟩
      simp [ContextTask.advance, hrunning, henter]

/-- As many tasks can enter one after the other as there are slots left. -/
theorem entrants_enter (hs : s.Counted c) (operation : RefusedOperation) (k : Nat)
    (hk : s.limiter.inFlight + k ≤ c) :
    ∃ s', replay next s (entrants s.tasks.length operation k) = some s' ∧ s'.Counted c ∧
      s'.limiter.inFlight = s.limiter.inFlight + k ∧
      s'.tasks = s.tasks ++ List.replicate k { ContextTask.fresh with frames := [.slot] } := by
  induction k with
  | zero => exact ⟨s, rfl, hs, by simp, by simp⟩
  | succ k ih =>
      obtain ⟨m, hm, hcounted, hin, htasks⟩ := ih (by omega)
      have hlength : m.tasks.length = s.tasks.length + k := by simp [htasks]
      have hspawn : m.next .spawn = some { m with tasks := m.tasks ++ [.fresh] } := rfl
      have hspawned := hcounted.step hspawn
      have hlast : (m.tasks ++ [ContextTask.fresh])[s.tasks.length + k]? = some .fresh := by
        simp [← hlength]
      rcases enter_decides hlast rfl operation hspawned with ⟨-, l', henter, hnext⟩ | ⟨hfull, -⟩
      · refine ⟨_, ?_, hspawned.step hnext, ?_, ?_⟩
        · rw [entrants, replay_append, hm]
          simp [replay, hspawn, hnext]
        · rw [(InFlightLimiter.enter_ok henter).2]
          show m.limiter.inFlight + 1 = _
          rw [hin]
          push_cast
          omega
        · rw [← hlength, List.set_append_right _ _ le_rfl, htasks, List.append_assoc,
            List.replicate_succ']
          simp [ContextTask.fresh]
      · have : m.limiter.inFlight = c := hfull
        push_cast at hk
        omega

theorem Counted.start {l : InFlightLimiter} (h : InFlightLimiter.make c = .ok l) :
    Counted c ⟨l, []⟩ :=
  ⟨(InFlightLimiter.make_ok h).1, (InFlightLimiter.make_ok h).2⟩

theorem Counted.replay {es : List LoopEvent} (hs : s.Counted c)
    (h : replay next s es = some s') : s'.Counted c :=
  (run_of_replay h).invariant (fun _ _ _ ha hab => ha.step hab) hs

/-- What a limiter of capacity `c` owes a loop that took the events `es` from `s₀` to `s`. -/
structure Kept (c : Int) (s₀ : EventLoop) (es : List LoopEvent) (s : EventLoop) : Prop where
  /-- `in_flight` is the number of slots held, so the number of tasks inside one. -/
  inFlight : s.limiter.inFlight = s.occupied
  inside : (∀ t ∈ s.tasks, t.slots ≤ 1) → s.limiter.inFlight = s.tasks.countP (·.isInside)
  nonneg : 0 ≤ s.limiter.inFlight
  le_capacity : s.limiter.inFlight ≤ c
  /-- `peak_in_flight` is the greatest `in_flight` on the way. -/
  le_peak : ∀ fs m, fs <+: es → Runs.replay next s₀ fs = some m →
    m.limiter.inFlight ≤ s.limiter.peakInFlight
  at_peak : ∃ fs m, fs <+: es ∧ Runs.replay next s₀ fs = some m ∧
    m.limiter.inFlight = s.limiter.peakInFlight
  peak_le : s.limiter.peakInFlight ≤ c
  /-- With every slot held a task that enters is refused in the same step, and nothing else. -/
  refused : ∀ i t operation, s.tasks[i]? = some t → t.unwinding = none → s.occupied = c →
    s.next (.task i (.enterSlot operation)) = some ⟨s.limiter, s.tasks.set i
      { t with unwinding := some (.limitReached .capacityShed operation) }⟩
  /-- With a slot free it is inside after the same step. -/
  entered : ∀ i t operation, s.tasks[i]? = some t → t.unwinding = none → s.occupied ≠ c →
    ∃ l', l'.inFlight = s.limiter.inFlight + 1 ∧ s.next (.task i (.enterSlot operation)) =
      some ⟨l', s.tasks.set i { t with frames := .slot :: t.frames }⟩
  /-- Once every task has left, as many as the capacity can enter. -/
  reusable : (∀ t ∈ s.tasks, t.slots = 0) → s.limiter.inFlight = 0 ∧ ∀ operation, ∃ s',
    Runs.replay next s (entrants s.tasks.length operation c.toNat) = some s' ∧
      s'.limiter.inFlight = c ∧ s'.tasks = s.tasks ++
        List.replicate c.toNat { ContextTask.fresh with frames := [.slot] }

/-- **The in-flight limiter.** For every capacity from one on, whatever tasks enter its slots and
deadlines and however they leave them, the limiter keeps its promise in every state reached. -/
theorem limiter_kept (c : Int) (hc : 1 ≤ c) :
    ∃ l, InFlightLimiter.make c = .ok l ∧ ∀ es s,
      Runs.replay next ⟨l, []⟩ es = some s → Kept c ⟨l, []⟩ es s := by
  obtain ⟨l, hl⟩ := InFlightLimiter.make_of_one_le hc
  have hstart := Counted.start hl
  refine ⟨l, hl, fun es s hrun => ?_⟩
  have hs := hstart.replay hrun
  have hmark : (⟨l, []⟩ : EventLoop).limiter.peakInFlight = l.inFlight :=
    (InFlightLimiter.make_peak hl).trans (InFlightLimiter.make_ok hl).2.symm
  obtain ⟨hle, fs, m, hfs, hm, hat⟩ := high_water (f := fun s => s.limiter.inFlight)
    (g := fun s => s.limiter.peakInFlight) hmark (fun _ _ _ h hab => peak_step h hab) hrun
  have hin := hs.inFlight
  refine ⟨hin, fun hone => hin.trans (occupied_eq_countP hone), hs.nonneg, hs.le_capacity, hle,
    ⟨fs, m, hfs, hm, hat⟩, hat ▸ (hstart.replay hm).le_capacity, ?_, ?_, ?_⟩
  · intro i t operation ht hrunning hfull
    rcases enter_decides ht hrunning operation hs with ⟨hlt, -⟩ | ⟨-, hnext⟩
    · omega
    · exact hnext
  · intro i t operation ht hrunning hfree
    rcases enter_decides ht hrunning operation hs with ⟨-, l', henter, hnext⟩ | ⟨hfull, -⟩
    · exact ⟨l', (InFlightLimiter.enter_ok henter).2, hnext⟩
    · omega
  · intro hleft
    have hzero : s.limiter.inFlight = 0 := hin.trans (total_eq_zero hleft)
    refine ⟨hzero, fun operation => ?_⟩
    obtain ⟨s', hs', -, hin', htasks⟩ := entrants_enter hs operation c.toNat (by omega)
    exact ⟨s', hs', by omega, htasks⟩

/-- `perform_lookups` enters its three contexts, a second task is shed, and then the first one's
outer deadline expires over its inner one. -/
def shedThenExpired : List LoopEvent :=
  [.spawn, .spawn, .task 0 (.enterDeadline .enrich), .task 0 (.enterSlot .enrich),
    .task 0 (.enterDeadline .enrich), .task 1 (.enterDeadline .importBundle),
    .task 1 (.enterSlot .importBundle), .task 1 .unwind, .task 0 (.expire 2), .task 0 .deliver,
    .task 0 .unwind, .task 0 .unwind, .task 0 .unwind]

theorem limiter_kept_when_expired : ∃ l s, InFlightLimiter.make 1 = .ok l ∧
    Runs.replay next ⟨l, []⟩ shedThenExpired = some s ∧ s.limiter.inFlight = 0 ∧
    s.limiter.peakInFlight = 1 ∧ Kept 1 ⟨l, []⟩ shedThenExpired s := by
  obtain ⟨l, hl, hkept⟩ := limiter_kept 1 (by decide)
  cases hl
  exact ⟨_, _, rfl, rfl, rfl, rfl, hkept shedThenExpired _ rfl⟩

end EventLoop

end Limitless
