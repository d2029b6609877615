import Mathlib.Algebra.Order.Group.Int

/-!
# Refusals and bounded in-flight work

`refusal.py`'s one refusal type, and the `InFlightLimiter` of `secure/capacity.py`: check and claim
are one step, and a full limiter refuses at once. A limiter carries that it is not over its
capacity, which `enter` keeps by its check and `leave` in any case.
-/

namespace Limitless

/-- The coarse category of a refusal. -/
inductive RefusalKind
  | inputTooLarge
  | allowanceExhausted
  | capacityShed
  deriving DecidableEq, Repr

/-- The endpoint that refused. -/
inductive RefusedOperation
  | enrich
  | listRecords
  | importBundle
  deriving DecidableEq, Repr

/-- An explicit cap on concurrent upstream work. -/
structure InFlightLimiter where
  capacity : Int
  inFlight : Int
  peakInFlight : Int
  within_capacity : inFlight ≤ capacity

namespace InFlightLimiter

/-- `__init__`: a capacity below one is refused. -/
def make (capacity : Int) : Except String InFlightLimiter :=
  if h : capacity < 1 then
    .error s!"in-flight capacity must be at least 1; got {capacity}"
  else .ok ⟨capacity, 0, 0, by omega⟩

/-- Entering `slot`: occupy one, or refuse immediately if there is none. -/
def enter (l : InFlightLimiter) : Except RefusalKind InFlightLimiter :=
  if h : l.inFlight ≥ l.capacity then .error .capacityShed else
  .ok ⟨l.capacity, l.inFlight + 1, max l.peakInFlight (l.inFlight + 1), by omega⟩

/-- Leaving `slot`, however its body ended. -/
def leave (l : InFlightLimiter) : InFlightLimiter :=
  ⟨l.capacity, l.inFlight - 1, l.peakInFlight, by have := l.within_capacity; omega⟩

variable {l l' : InFlightLimiter}

theorem make_ok {c : Int} (h : make c = .ok l) : l.capacity = c ∧ l.inFlight = 0 := by
  unfold make at h
  split at h
  · cases h
  · cases h
    exact ⟨rfl, rfl⟩

theorem make_of_one_le {c : Int} (h : 1 ≤ c) : ∃ l, make c = .ok l :=
  ⟨⟨c, 0, 0, by omega⟩, dif_neg (by omega)⟩

theorem make_peak {c : Int} (h : make c = .ok l) : l.peakInFlight = 0 := by
  unfold make at h
  split at h
  · cases h
  · cases h
    rfl

theorem one_le_of_make {c : Int} (h : make c = .ok l) : 1 ≤ c := by
  unfold make at h
  split at h
  · cases h
  · omega

theorem enter_ok (h : l.enter = .ok l') :
    l'.capacity = l.capacity ∧ l'.inFlight = l.inFlight + 1 := by
  unfold enter at h
  split at h
  · cases h
  · cases h
    exact ⟨rfl, rfl⟩

theorem enter_peak (h : l.enter = .ok l') :
    l'.peakInFlight = max l.peakInFlight (l.inFlight + 1) := by
  unfold enter at h
  split at h
  · cases h
  · cases h
    rfl

theorem lt_of_enter_ok (h : l.enter = .ok l') : l.inFlight < l.capacity := by
  have := l'.within_capacity
  have := enter_ok h
  omega

theorem le_of_enter_error {kind : RefusalKind} (h : l.enter = .error kind) :
    l.capacity ≤ l.inFlight := by
  unfold enter at h
  split at h
  · assumption
  · cases h

theorem enter_error {kind : RefusalKind} (h : l.enter = .error kind) : kind = .capacityShed := by
  unfold enter at h
  split at h
  · cases h
    rfl
  · cases h

end InFlightLimiter

end Limitless
