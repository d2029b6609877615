import Limitless.Lib.Keyed
import Mathlib.Order.Defs.LinearOrder

/-!
# Keyed lists in the order of their keys

A keyed list is in the order of insertion. Sorted by key it is in no order but that of the keys,
since no two entries have one: the keys strictly increase (`pairwise_sort`), and two keyed lists
that find the same entries sort to the same list (`sort_congr`).
-/

universe u v

namespace Keyed

variable {α : Type u} {κ : Type v} [LinearOrder κ] {key : α → κ} {le : α → α → Bool}

/-- The keys strictly increase. -/
theorem pairwise_sort (hle : ∀ a b, le a b = true ↔ key a ≤ key b) (t : Keyed key) :
    (t.entries.mergeSort le).Pairwise fun a b => key a < key b := by
  have hsorted : (t.entries.mergeSort le).Pairwise fun a b => le a b = true :=
    List.pairwise_mergeSort
      (fun a b c hab hbc => (hle a c).mpr (((hle a b).mp hab).trans ((hle b c).mp hbc)))
      (fun a b => by simpa [hle] using le_total (key a) (key b)) t.entries
  have hnodup : ((t.entries.mergeSort le).map key).Nodup :=
    ((List.mergeSort_perm t.entries le).map key).nodup_iff.mpr t.nodup
  refine (hsorted.and (List.pairwise_map.mp hnodup)).imp fun hab => ?_
  exact lt_of_le_of_ne ((hle _ _).mp hab.1) hab.2

/-- Keyed lists that find the same entries have the same entries. -/
theorem perm_of_find? {t t' : Keyed key} (h : ∀ k, t.find? k = t'.find? k) :
    t.entries.Perm t'.entries := by
  have hmem : ∀ {u u' : Keyed key}, (∀ k, u.find? k = u'.find? k) →
      ∀ a ∈ u.entries, a ∈ u'.entries := by
    intro u u' huu a ha
    exact find?_mem ((huu _).symm.trans (find?_of_mem ha))
  refine (List.perm_ext_iff_of_nodup t.nodup.of_map t'.nodup.of_map).mpr fun a => ?_
  exact ⟨hmem h a, hmem (fun k => (h k).symm) a⟩

/-- So they sort to the same list. -/
theorem sort_congr (hle : ∀ a b, le a b = true ↔ key a ≤ key b) {t t' : Keyed key}
    (h : ∀ k, t.find? k = t'.find? k) : t.entries.mergeSort le = t'.entries.mergeSort le := by
  have hperm : (t.entries.mergeSort le).Perm (t'.entries.mergeSort le) :=
    ((List.mergeSort_perm ..).trans (perm_of_find? h)).trans (List.mergeSort_perm ..).symm
  refine hperm.eq_of_pairwise (fun a b _ _ hab hba => ?_) (pairwise_sort hle t)
    (pairwise_sort hle t')
  exact absurd hab (lt_asymm hba)

/-- The first so many of a list in an order: an entry that is not among them comes after all of
them, and there are as many as there may be. -/
theorem mem_take_or_full {r : α → α → Prop} {l : List α} {a : α} (h : l.Pairwise r) (ha : a ∈ l)
    (n : Nat) : a ∈ l.take n ∨ (l.take n).length = n ∧ ∀ b ∈ l.take n, r b a := by
  rw [← List.take_append_drop n l] at h ha
  rcases List.mem_append.mp ha with htake | hdrop
  · exact .inl htake
  · have hpos := List.length_pos_of_mem hdrop
    rw [List.length_drop] at hpos
    refine .inr ⟨?_, fun b hb => (List.pairwise_append.mp h).2.2 b hb a hdrop⟩
    rw [List.length_take]
    omega

end Keyed
