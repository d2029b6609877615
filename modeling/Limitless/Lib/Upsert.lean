import Limitless.Lib.Keyed
import Mathlib.Data.List.Induction

/-!
# Upserts, where the last entry wins

An upsert makes one row of an entry and of the row that is there, if any (`Merges`). Where an entry
forgets what an earlier entry of its key left, a fold of upserts leaves under each key what the last
entry of the key makes of the row that was there first (`find?_foldl`). So it is the same for two
lists with the same last entries (`find?_foldl_congr`), in whatever order the keys come.
-/

universe u v w

namespace Keyed

variable {α : Type u} {κ : Type v} {ε : Type w} [DecidableEq κ] {key : α → κ}

/-- The last entry of a key. -/
def lastEntry (entryKey : ε → κ) (entries : List ε) (k : κ) : Option ε :=
  entries.reverse.find? fun e => entryKey e = k

variable {entryKey : ε → κ} {entries entries' : List ε} {e : ε} {k : κ}

theorem lastEntry_concat (entryKey : ε → κ) (entries : List ε) (e : ε) (k : κ) :
    lastEntry entryKey (entries ++ [e]) k =
      if entryKey e = k then some e else lastEntry entryKey entries k := by
  rw [lastEntry, List.reverse_concat, List.find?_cons]
  by_cases h : entryKey e = k <;> simp [h, lastEntry]

theorem lastEntry_append (entryKey : ε → κ) (entries entries' : List ε) (k : κ) :
    lastEntry entryKey (entries ++ entries') k =
      (lastEntry entryKey entries' k).or (lastEntry entryKey entries k) := by
  rw [lastEntry, List.reverse_append, List.find?_append]
  rfl

theorem lastEntry_key (h : lastEntry entryKey entries k = some e) : entryKey e = k := by
  simpa using List.find?_some h

theorem lastEntry_eq_none :
    lastEntry entryKey entries k = none ↔ ∀ e ∈ entries, entryKey e ≠ k := by
  simp [lastEntry]

/-- Nothing of its key comes after the last entry. -/
theorem lastEntry_eq_some : lastEntry entryKey entries k = some e ↔ entryKey e = k ∧
    ∃ earlier later, entries = earlier ++ e :: later ∧ ∀ e' ∈ later, entryKey e' ≠ k := by
  rw [lastEntry, List.find?_eq_some_iff_append]
  simp only [decide_eq_true_eq, Bool.not_eq_true', decide_eq_false_iff_not]
  refine and_congr_right fun _ => ?_
  constructor
  · rintro ⟨later, earlier, hrev, hlater⟩
    refine ⟨earlier.reverse, later.reverse, ?_, fun e' he' => hlater e' (by simpa using he')⟩
    rw [← List.reverse_reverse entries, hrev]
    simp
  · rintro ⟨earlier, later, rfl, hlater⟩
    exact ⟨later.reverse, earlier.reverse, by simp, fun e' he' => hlater e' (by simpa using he')⟩

/-- A keyed list of entries holds the last one of each key. -/
theorem find?_ofList (l : List α) (k : κ) : (ofList l : Keyed key).find? k = lastEntry key l k := by
  induction l using List.reverseRecOn with
  | nil => rfl
  | append_singleton l a ih =>
      have hput : (ofList (l ++ [a]) : Keyed key) = (ofList l).put a := List.foldl_concat ..
      rw [hput, find?_put, lastEntry_concat, ih]

/-- Entries of distinct keys are found in any order. -/
theorem lastEntry_of_perm {t : Keyed key} {l : List α} (h : l.Perm t.entries) (k : κ) :
    lastEntry key l k = t.find? k := by
  cases hfind : t.find? k with
  | none =>
      refine lastEntry_eq_none.mpr fun a ha hk => ?_
      rw [← hk, find?_of_mem (h.mem_iff.mp ha)] at hfind
      cases hfind
  | some a =>
      obtain rfl := find?_key hfind
      obtain ⟨earlier, later, rfl⟩ := List.append_of_mem (h.mem_iff.mpr (find?_mem hfind))
      refine lastEntry_eq_some.mpr ⟨rfl, earlier, later, rfl, fun b hb hkey => ?_⟩
      have hnodup := (h.map key).nodup_iff.mpr t.nodup
      rw [List.map_append, List.map_cons] at hnodup
      have hnot := (List.nodup_cons.mp (List.nodup_append.mp hnodup).2.1).1
      exact hnot (hkey ▸ List.mem_map_of_mem hb)

/-! ## Folds of upserts -/

/-- A write that makes one row of an entry and of the row under its key, forgetting what an earlier
entry of the key left. -/
structure Merges (entryKey : ε → κ) (merge : ε → Option α → α)
    (write : Keyed key → ε → Keyed key) : Prop where
  find? : ∀ t e k, (write t e).find? k =
    if entryKey e = k then some (merge e (t.find? k)) else t.find? k
  forgets : ∀ e e' o, entryKey e = entryKey e' → merge e' (some (merge e o)) = merge e' o

variable {merge : ε → Option α → α} {write : Keyed key → ε → Keyed key}

/-- **The last entry wins.** -/
theorem Merges.find?_foldl (h : Merges entryKey merge write) (t : Keyed key) (entries : List ε)
    (k : κ) : (entries.foldl write t).find? k =
      ((lastEntry entryKey entries k).map fun e => merge e (t.find? k)).or (t.find? k) := by
  induction entries using List.reverseRecOn with
  | nil => rfl
  | append_singleton entries e ih =>
      rw [List.foldl_concat, h.find?, lastEntry_concat, ih]
      by_cases hk : entryKey e = k
      · rw [if_pos hk, if_pos hk]
        cases hlast : lastEntry entryKey entries k with
        | none => rfl
        | some e' =>
            have hkey := (lastEntry_key hlast).trans hk.symm
            simp [h.forgets e' e _ hkey]
      · rw [if_neg hk, if_neg hk]

/-- The last entries are all that counts. -/
theorem Merges.find?_foldl_congr (h : Merges entryKey merge write) (t : Keyed key)
    (hlast : ∀ k, lastEntry entryKey entries k = lastEntry entryKey entries' k) (k : κ) :
    (entries.foldl write t).find? k = (entries'.foldl write t).find? k := by
  rw [h.find?_foldl, h.find?_foldl, hlast]

end Keyed
