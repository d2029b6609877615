import Mathlib.Algebra.BigOperators.Group.List.Basic
import Mathlib.Algebra.Order.Ring.Nat
import Mathlib.Data.List.DropRight

/-!
# Text cut at a separator, as it arrives

`List.splitOn` cuts a whole text at a separator. A reader that sees the text in pieces keeps the
segments that a separator has closed (`complete`) and what follows the last one (`rest`).
`splitOn_append` says that this is enough: what comes next is cut as if it followed the rest.
`mul_length_filterMap_le` bounds how many segments of some least length a text can hold.
-/

namespace Lines

universe u v
variable {α : Type u} [BEq α] {β : Type v} {sep a : α} {l m : List α}

/-- The segments of a text that a separator closes. -/
def complete (sep : α) (l : List α) : List (List α) := (l.splitOn sep).dropLast

/-- What follows the last separator. -/
def rest (sep : α) (l : List α) : List α := (l.splitOn sep).getLast (List.splitOn_ne_nil sep l)

/-- The segments of a text are the closed ones and the rest. -/
theorem complete_append_rest (sep : α) (l : List α) :
    complete sep l ++ [rest sep l] = l.splitOn sep :=
  List.dropLast_append_getLast (List.splitOn_ne_nil sep l)

/-- A first separator closes an empty segment. -/
theorem complete_cons_of_beq (h : (a == sep) = true) :
    complete sep (a :: l) = [] :: complete sep l ∧ rest sep (a :: l) = rest sep l := by
  have hsplit : (a :: l).splitOn sep = [] :: l.splitOn sep := by
    rw [List.splitOn_cons_eq_if_modifyHead, if_pos h]
  have hne := List.splitOn_ne_nil sep l
  simp only [complete, rest, hsplit]
  exact ⟨List.dropLast_cons_of_ne_nil hne, List.getLast_cons hne⟩

/-- Any other first element goes to the first segment, which the rest is where none is closed. -/
theorem splitOn_cons_of_not_beq (h : (a == sep) = false) :
    (a :: l).splitOn sep = (l.splitOn sep).modifyHead (a :: ·) := by
  rw [List.splitOn_cons_eq_if_modifyHead, if_neg (by simp [h])]

/-- **Cutting as it arrives.** What follows a text is cut as if it followed the text's rest. -/
theorem splitOn_append (l m : List α) :
    (l ++ m).splitOn sep = complete sep l ++ (rest sep l ++ m).splitOn sep := by
  induction l with
  | nil => rfl
  | cons a l ih =>
      cases h : a == sep with
      | true =>
          obtain ⟨hcomplete, hrest⟩ := complete_cons_of_beq (l := l) h
          rw [hcomplete, hrest, List.cons_append, List.cons_append, ← ih,
            List.splitOn_cons_eq_if_modifyHead, if_pos h]
      | false =>
          have hsplit := splitOn_cons_of_not_beq (l := l) h
          rw [List.cons_append, splitOn_cons_of_not_beq h, ih]
          -- the head of the segments is the rest where no segment is closed
          have hl := complete_append_rest sep l
          have hal := complete_append_rest sep (a :: l)
          rw [hsplit, ← hl] at hal
          cases hc : complete sep l with
          | nil =>
              rw [hc] at hal
              have hone : complete sep (a :: l) ++ [rest sep (a :: l)] =
                  [] ++ [a :: rest sep l] := hal
              obtain ⟨hnil, hrest⟩ := List.append_inj' hone rfl
              rw [hnil, List.singleton_inj.mp hrest]
              exact (splitOn_cons_of_not_beq h).symm
          | cons c cs =>
              rw [hc] at hal
              have hmore : complete sep (a :: l) ++ [rest sep (a :: l)] =
                ((a :: c) :: cs) ++ [rest sep l] := hal
              obtain ⟨hcons, hrest⟩ := List.append_inj' hmore rfl
              rw [hcons, List.singleton_inj.mp hrest]
              rfl

/-- The closed segments of a longer text. -/
theorem complete_append (l m : List α) :
    complete sep (l ++ m) = complete sep l ++ complete sep (rest sep l ++ m) := by
  unfold complete
  rw [splitOn_append, List.dropLast_append_of_ne_nil (List.splitOn_ne_nil _ _)]
  rfl

/-- The rest of a longer text. -/
theorem rest_append (l m : List α) : rest sep (l ++ m) = rest sep (rest sep l ++ m) := by
  unfold rest
  simp only [splitOn_append l m]
  exact List.getLast_append_of_ne_nil _ (List.splitOn_ne_nil _ _)

section
variable [LawfulBEq α]

/-- A text without a separator is a rest. -/
theorem complete_of_not_mem (h : sep ∉ l) : complete sep l = [] ∧ rest sep l = l := by
  simp only [complete, rest, List.splitOn_eq_singleton h]
  exact ⟨rfl, rfl⟩

/-- A text at its first separator. -/
theorem eq_of_idxOf? {n : Nat} (h : l.idxOf? sep = some n) :
    l = l.take n ++ sep :: l.drop (n + 1) ∧ sep ∉ l.take n := by
  obtain ⟨hn, hsep, hfirst⟩ := List.idxOf?_eq_some_iff.mp h
  constructor
  · rw [← hsep, List.getElem_cons_drop, List.take_append_drop]
  · intro hmem
    obtain ⟨j, hj, hget⟩ := List.mem_take_iff_getElem.mp hmem
    exact hfirst j (by omega) hget

/-- The first separator of a text closes what stands before it. -/
theorem complete_append_cons (h : sep ∉ l) :
    complete sep (l ++ sep :: m) = l :: complete sep m ∧
      rest sep (l ++ sep :: m) = rest sep m := by
  have hsplit := List.splitOn_append_cons_self_of_not_mem h m
  have hne := List.splitOn_ne_nil sep m
  simp only [complete, rest, hsplit]
  exact ⟨List.dropLast_cons_of_ne_nil hne, List.getLast_cons hne⟩

/-- No segment holds a separator. -/
theorem not_mem_of_mem_splitOn (l : List α) : ∀ s ∈ l.splitOn sep, sep ∉ s := by
  induction l with
  | nil => simp
  | cons a l ih =>
      obtain ⟨s, ss, hs⟩ := List.exists_cons_of_ne_nil (List.splitOn_ne_nil sep l)
      rw [hs] at ih
      cases h : a == sep with
      | true =>
          rw [List.splitOn_cons_eq_if_modifyHead, if_pos h, hs]
          exact List.forall_mem_cons.mpr ⟨List.not_mem_nil, ih⟩
      | false =>
          rw [splitOn_cons_of_not_beq h, hs, List.modifyHead_cons]
          obtain ⟨hfirst, hothers⟩ := List.forall_mem_cons.mp ih
          refine List.forall_mem_cons.mpr ⟨fun hmem => ?_, hothers⟩
          rcases List.mem_cons.mp hmem with rfl | hmem
          · simp at h
          · exact hfirst hmem

theorem rest_not_mem (l : List α) : sep ∉ rest sep l :=
  not_mem_of_mem_splitOn l _ (List.getLast_mem _)

/-- The rest is the longest end of a text without a separator. -/
theorem rest_eq_rtakeWhile (l : List α) : rest sep l = l.rtakeWhile (· != sep) := by
  induction l using List.reverseRecOn with
  | nil => rfl
  | append_singleton l a ih =>
      rw [rest_append]
      by_cases ha : a = sep
      · subst ha
        obtain ⟨-, hrest⟩ := complete_append_cons (m := []) (rest_not_mem l)
        rw [hrest, List.rtakeWhile_concat_neg _ _ _ (by simp)]
        rfl
      · have hmem : sep ∉ rest sep l ++ [a] := by
          rw [List.mem_append, List.mem_singleton]
          exact not_or.mpr ⟨rest_not_mem l, Ne.symm ha⟩
        rw [(complete_of_not_mem hmem).2, List.rtakeWhile_concat_pos _ _ _ (by simpa using ha), ih]

end

/-- Each segment with its separator: together the text, and one more for the last segment. -/
theorem sum_length_splitOn (sep : α) (l : List α) :
    ((l.splitOn sep).map fun s => s.length + 1).sum = l.length + 1 := by
  induction l with
  | nil => rfl
  | cons a l ih =>
      rw [List.splitOn_cons_eq_if_modifyHead]
      split
      · rw [List.map_cons, List.sum_cons, ih, List.length_cons, List.length_nil]
        omega
      · obtain ⟨s, ss, hs⟩ := List.exists_cons_of_ne_nil (List.splitOn_ne_nil sep l)
        rw [hs] at ih ⊢
        simp only [List.modifyHead_cons, List.map_cons, List.sum_cons, List.length_cons] at ih ⊢
        omega

omit [BEq α] in
/-- What is found in segments of a least length needs that much of every segment. -/
theorem mul_length_filterMap_le {f : List α → Option β} {k : Nat}
    (h : ∀ s b, f s = some b → k ≤ s.length) (ss : List (List α)) :
    (k + 1) * (ss.filterMap f).length ≤ (ss.map fun s => s.length + 1).sum := by
  induction ss with
  | nil => simp
  | cons s ss ih =>
      rw [List.map_cons, List.sum_cons]
      cases hs : f s with
      | none =>
          rw [List.filterMap_cons_none hs]
          omega
      | some b =>
          have := h s b hs
          rw [List.filterMap_cons_some hs, List.length_cons, Nat.mul_succ]
          omega

end Lines
