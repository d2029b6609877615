import Mathlib.Algebra.Order.Group.Defs
import Mathlib.Algebra.Order.Group.Unbundled.Basic
import Mathlib.Data.List.Count

/-!
# Sliding windows over a log of times

A log is a list of times, oldest first, in a linearly ordered group. `within w s log` counts the
times of the half-open window `(s - w, s]`, and `recent w t log` is the log without the times that
have left the window ending at `t`. Pruning forgets nothing that a later window looks at
(`recent_recent`), so a limiter may prune at every call.

`Admissible max w` is the log of a limiter that lets a time in only while fewer than `max` times
are in the window ending there. Then no window at all has more than `max` of them
(`Admissible.within_le`), wherever it ends.
-/

namespace SlidingWindow

variable {T : Type*} [AddCommGroup T] [LinearOrder T]

/-- How many times of the log are in the window `(s - w, s]`. -/
def within (w s : T) (log : List T) : ℕ := log.countP fun at' => s - w < at' ∧ at' ≤ s

/-- The log without the times that have left the window ending at `t`. -/
def recent (w t : T) (log : List T) : List T := log.filter fun at' => t - at' < w

@[simp] theorem within_nil (w s : T) : within w s [] = 0 := rfl

theorem within_append (w s : T) (log more : List T) :
    within w s (log ++ more) = within w s log + within w s more := List.countP_append

theorem within_singleton (w s t : T) :
    within w s [t] = if s - w < t ∧ t ≤ s then 1 else 0 := by
  simp [within]

@[simp] theorem recent_nil (w t : T) : recent w t [] = [] := rfl

theorem recent_append (w t : T) (log more : List T) :
    recent w t (log ++ more) = recent w t log ++ recent w t more := List.filter_append ..

variable [IsOrderedAddMonoid T] {w s t : T} {log : List T} {max : ℕ}

/-- **Pruning twice.** What an earlier pruning dropped, a later one drops too. -/
theorem recent_recent (h : s ≤ t) (log : List T) :
    recent w t (recent w s log) = recent w t log := by
  unfold recent
  rw [List.filter_filter]
  refine List.filter_congr fun at' _ => ?_
  have hmono : t - at' < w → s - at' < w := fun ht => (sub_le_sub_right h at').trans_lt ht
  by_cases ht : t - at' < w
  · simp [ht, hmono ht]
  · simp [ht]

/-- What is left after pruning is the window ending there, in a log of the past. -/
theorem length_recent (h : ∀ at' ∈ log, at' ≤ t) : (recent w t log).length = within w t log := by
  unfold recent within
  rw [← List.countP_eq_length_filter]
  refine List.countP_congr fun at' hat => ?_
  have hpast := h at' hat
  simp only [decide_eq_true_eq, hpast, and_true]
  exact sub_lt_comm

/-- A log whose every time found fewer than `max` in the window ending there. -/
inductive Admissible (max : ℕ) (w : T) : List T → Prop
  | nil : Admissible max w []
  | concat {log : List T} {t : T} : Admissible max w log → (∀ at' ∈ log, at' ≤ t) →
      within w t log < max → Admissible max w (log ++ [t])

/-- **Every window.** An admissible log has at most `max` times in any window. The last time of the
window found the others in its own. -/
theorem Admissible.within_le (h : Admissible max w log) (s : T) : within w s log ≤ max := by
  induction h with
  | nil => exact Nat.zero_le _
  | @concat log t hlog hpast hroom ih =>
      rw [within_append, within_singleton]
      split
      · next ht =>
          have hsub : within w s log ≤ within w t log := by
            refine List.countP_mono_left fun at' hat hs => ?_
            simp only [decide_eq_true_eq] at hs ⊢
            exact ⟨(sub_le_sub_right ht.2 w).trans_lt hs.1, hpast at' hat⟩
          omega
      · exact ih

end SlidingWindow
