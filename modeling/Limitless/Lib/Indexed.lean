import Mathlib.Algebra.BigOperators.Group.List.Basic
import Mathlib.Algebra.BigOperators.Ring.List
import Mathlib.Algebra.Order.BigOperators.Group.List
import Mathlib.Algebra.Order.Group.Int
import Mathlib.Algebra.Ring.Int.Defs

/-!
# Parties in a list, stepping one at a time

A system of parties keeps them in a list and a step rewrites one position. What such a step does
to a total over all parties is local: `sum_map_set` trades the old party's figure for the new
one's. `total_set` and `total_append` are the integer forms the counting invariants use.
-/

namespace Indexed

universe u v
variable {α : Type u}

/-- Rewriting one position trades that position's figure for the new one. -/
theorem sum_map_set {M : Type v} [AddCommMonoid M] (f : α → M) (b : α) :
    ∀ {l : List α} {i : Nat} {a : α}, l[i]? = some a →
      ((l.set i b).map f).sum + f a = (l.map f).sum + f b
  | [], _, _, h => by simp at h
  | c :: l, 0, a, h => by
      have hca : c = a := by simpa using h
      subst hca
      simp only [List.set_cons_zero, List.map_cons, List.sum_cons]
      rw [add_comm (f b), add_right_comm, add_comm (l.map f).sum (f c)]
  | c :: l, i + 1, a, h => by
      have ih := sum_map_set f b (l := l) (i := i) (a := a) (by simpa using h)
      simp only [List.set_cons_succ, List.map_cons, List.sum_cons]
      rw [add_assoc, ih, ← add_assoc]

/-- The total of an integer figure over the parties. -/
def total (f : α → Int) (l : List α) : Int := (l.map f).sum

@[simp] theorem total_nil (f : α → Int) : total f [] = 0 := rfl

@[simp] theorem total_cons (f : α → Int) (a : α) (l : List α) :
    total f (a :: l) = f a + total f l := by simp [total]

@[simp] theorem total_append (f : α → Int) (l m : List α) :
    total f (l ++ m) = total f l + total f m := by simp [total]

theorem total_map {β : Type v} (f : β → Int) (g : α → β) (l : List α) :
    total f (l.map g) = total (fun a => f (g a)) l := by
  unfold total
  rw [List.map_map]
  rfl

theorem total_perm (f : α → Int) {l m : List α} (h : l.Perm m) : total f l = total f m :=
  (h.map f).sum_eq

/-- A step of one party moves the total by the difference of its figures. -/
theorem total_set (f : α → Int) (b : α) {l : List α} {i : Nat} {a : α} (h : l[i]? = some a) :
    total f (l.set i b) = total f l + (f b - f a) := by
  have := sum_map_set f b h
  unfold total
  omega

theorem total_le_total {f g : α → Int} {l : List α} (h : ∀ a ∈ l, f a ≤ g a) :
    total f l ≤ total g l := List.sum_le_sum h

theorem total_nonneg {f : α → Int} {l : List α} (h : ∀ a ∈ l, 0 ≤ f a) : 0 ≤ total f l :=
  List.sum_nonneg (by simpa using h)

theorem total_nonpos {f : α → Int} {l : List α} (h : ∀ a ∈ l, f a ≤ 0) : total f l ≤ 0 :=
  (total_le_total h).trans_eq (List.sum_map_zero ..)

/-- One party's figure is at most the total, when none is negative. -/
theorem le_total_of_mem {f : α → Int} {l : List α} (h : ∀ a ∈ l, 0 ≤ f a) {a : α} (ha : a ∈ l) :
    f a ≤ total f l :=
  List.single_le_sum (by simpa using h) _ (List.mem_map_of_mem ha)

theorem total_congr {f g : α → Int} {l : List α} (h : ∀ a ∈ l, f a = g a) :
    total f l = total g l := by
  unfold total
  rw [List.map_congr_left h]

theorem total_eq_zero {f : α → Int} {l : List α} (h : ∀ a ∈ l, f a = 0) : total f l = 0 :=
  List.sum_eq_zero (by simpa using h)

theorem total_add (f g : α → Int) (l : List α) :
    total (fun a => f a + g a) l = total f l + total g l := List.sum_map_add

theorem total_mul (f : α → Int) (c : Int) (l : List α) :
    total f l * c = total (fun a => f a * c) l := (List.sum_map_mul_right ..).symm

/-- The total over the parties with a property. -/
theorem total_filter (f : α → Int) (p : α → Bool) (l : List α) :
    total f (l.filter p) = total (fun a => if p a then f a else 0) l := by
  induction l with
  | nil => rfl
  | cons a l ih =>
      rw [List.filter_cons, total_cons, ← ih]
      split <;> simp

/-- A total over what the parties have, party by party. -/
theorem total_flatMap {β : Type v} (f : β → Int) (g : α → List β) (l : List α) :
    total f (l.flatMap g) = total (fun a => total f (g a)) l := by
  induction l with
  | nil => rfl
  | cons a l ih => rw [List.flatMap_cons, total_append, total_cons, ih]

/-- The parties with a property, counted one by one. -/
theorem total_countP (p : α → Bool) (l : List α) :
    total (fun a => if p a then 1 else 0) l = l.countP p := by
  induction l with
  | nil => rfl
  | cons a l ih =>
      rw [total_cons, ih, List.countP_cons]
      split <;> simp [add_comm]

/-- A step of one party trades it in the count for the new one. -/
theorem countP_set (p : α → Bool) (b : α) {l : List α} {i : Nat} {a : α} (h : l[i]? = some a) :
    (l.set i b).countP p + (if p a then 1 else 0) = l.countP p + if p b then 1 else 0 := by
  have htotal := total_set (fun a => if p a then 1 else 0) b h
  rw [total_countP, total_countP] at htotal
  cases ha : p a <;> cases hb : p b <;> simp [ha, hb] at htotal ⊢ <;> omega

/-- A step that puts no party into the count does not raise it. -/
theorem countP_set_le {p : α → Bool} {b : α} {l : List α} {i : Nat} {a : α} (h : l[i]? = some a)
    (hkeep : p b = true → p a = true) : (l.set i b).countP p ≤ l.countP p := by
  have hset := countP_set p b h
  cases ha : p a with
  | true =>
      rw [ha, if_pos rfl] at hset
      split at hset <;> omega
  | false =>
      have hb : p b = false := by
        rw [← Bool.not_eq_true]
        intro hb
        rw [hkeep hb] at ha
        cases ha
      simp only [ha, hb, Bool.false_eq_true, if_false] at hset
      omega

/-- No step raises it by more than the one party. -/
theorem countP_set_le_succ (p : α → Bool) (b : α) {l : List α} {i : Nat} {a : α}
    (h : l[i]? = some a) : (l.set i b).countP p ≤ l.countP p + 1 := by
  have hset := countP_set p b h
  split at hset
  all_goals split at hset
  all_goals omega

/-- A step that takes no party out of it does not lower it. -/
theorem le_countP_set {p : α → Bool} {b : α} {l : List α} {i : Nat} {a : α} (h : l[i]? = some a)
    (hkeep : p a = true → p b = true) : l.countP p ≤ (l.set i b).countP p := by
  have hset := countP_set p b h
  cases ha : p a with
  | true =>
      rw [hkeep ha, ha] at hset
      omega
  | false =>
      simp only [ha, Bool.false_eq_true, if_false] at hset
      omega

/-- A figure that one key alone has. -/
theorem total_range_single (c : Int) {m n : Nat} (h : m < n) :
    total (fun k => if m = k then c else 0) (List.range n) = c := by
  induction n with
  | zero => omega
  | succ n ih =>
      rw [List.range_succ, total_append, total_cons, total_nil, add_zero]
      rcases Nat.lt_succ_iff_lt_or_eq.mp h with hlt | rfl
      · rw [ih hlt, if_neg (by omega), add_zero]
      · rw [if_pos rfl, total_eq_zero, zero_add]
        intro k hk
        have := List.mem_range.mp hk
        exact if_neg (by omega)

/-- A total over the parties, key by key. -/
theorem total_keyed (f : α → Int) (key : α → Nat) {n : Nat} {l : List α} (h : ∀ a ∈ l, key a < n) :
    total (fun k => total (fun a => if key a = k then f a else 0) l) (List.range n) =
      total f l := by
  induction l with
  | nil => exact total_eq_zero fun _ _ => rfl
  | cons a l ih =>
      have hrest := ih fun b hb => h b (List.mem_cons_of_mem a hb)
      simp only [total_cons, total_add, hrest, total_range_single (f a) (h a List.mem_cons_self)]

/-- Two totals, in either order. -/
theorem total_comm {β : Type v} (f : α → β → Int) (l : List α) (m : List β) :
    total (fun a => total (f a) m) l = total (fun b => total (fun a => f a b) l) m := by
  induction l with
  | nil => exact (total_eq_zero fun _ _ => rfl).symm
  | cons a l ih =>
      simp only [total_cons, ih]
      exact (total_add ..).symm

/-- A figure that the party with a key has, where no two parties have the same. -/
theorem total_unique {κ : Type v} [DecidableEq κ] (g : α → κ) (k : κ) (c : Int) {l : List α}
    (h : (l.map g).Nodup) :
    total (fun a => if k = g a then c else 0) l = if k ∈ l.map g then c else 0 := by
  induction l with
  | nil => rfl
  | cons a l ih =>
      obtain ⟨hnot, hnodup⟩ := List.nodup_cons.mp h
      rw [total_cons, ih hnodup]
      by_cases ha : k = g a
      · subst ha
        simp [hnot]
      · simp [ha]

/-- A total over the parties, position by position. -/
theorem total_range (f : α → Int) (l : List α) :
    total (fun i => l[i]?.elim 0 f) (List.range l.length) = total f l := by
  unfold total
  congr 1
  refine List.ext_getElem (by simp) fun i _ hi => ?_
  have hlt : i < l.length := by simpa using hi
  simp [hlt]

/-- What a rewritten list holds at a position. -/
theorem getElem?_set_cases {l : List α} {i j : Nat} {a b : α} (h : (l.set i b)[j]? = some a) :
    (j = i ∧ a = b) ∨ (j ≠ i ∧ l[j]? = some a) := by
  rw [List.getElem?_set] at h
  split at h
  · next hij =>
      split at h
      · cases h
        exact .inl ⟨hij.symm, rfl⟩
      · cases h
  · next hij => exact .inr ⟨Ne.symm hij, h⟩

/-- What a list with one more party holds at a position. -/
theorem getElem?_concat_cases {l : List α} {j : Nat} {a b : α} (h : (l ++ [b])[j]? = some a) :
    l[j]? = some a ∨ j = l.length ∧ a = b := by
  rw [List.getElem?_append] at h
  split at h
  · exact .inl h
  · obtain ⟨hlt, hab⟩ := List.getElem?_eq_some_iff.mp h
    have hj : j - l.length < 1 := hlt
    refine .inr ⟨by omega, ?_⟩
    rw [← hab]
    exact List.mem_singleton.mp (List.getElem_mem hlt)

/-- The total without one of the parties. -/
theorem total_eraseIdx (f : α → Int) {l : List α} {i : Nat} {a : α} (h : l[i]? = some a) :
    total f (l.eraseIdx i) = total f l - f a := by
  obtain ⟨hi, rfl⟩ := List.getElem?_eq_some_iff.mp h
  have hperm := ((List.getElem_cons_eraseIdx_perm hi).map f).sum_eq
  rw [List.map_cons, List.sum_cons] at hperm
  unfold total
  omega

/-- A party of a rewritten list is the new one, or was there before. -/
theorem mem_of_mem_set {l : List α} {i : Nat} {a b : α} (h : a ∈ l.set i b) : a = b ∨ a ∈ l := by
  rcases List.mem_or_eq_of_mem_set h with h | h
  exacts [.inr h, .inl h]

/-- What holds of every party holds after a step to one of which it holds. -/
theorem forall_mem_set {P : α → Prop} {l : List α} {i : Nat} {b : α} (hb : P b)
    (h : ∀ a ∈ l, P a) : ∀ a ∈ l.set i b, P a := by
  intro a ha
  rcases mem_of_mem_set ha with rfl | ha
  exacts [hb, h a ha]

/-- It holds with one more party of which it holds. -/
theorem forall_mem_concat {P : α → Prop} {l : List α} {b : α} (h : ∀ a ∈ l, P a) (hb : P b) :
    ∀ a ∈ l ++ [b], P a :=
  List.forall_mem_append.mpr ⟨h, List.forall_mem_singleton.mpr hb⟩

/-- What holds of the party at a position still does, if no step there ends it. -/
theorem exists_getElem?_set {P : α → Prop} {l : List α} {i j : Nat} {a b c : α}
    (hi : l[i]? = some a) (ha : P a) (hj : l[j]? = some b) (hkeep : P b → P c) :
    ∃ a', (l.set j c)[i]? = some a' ∧ P a' := by
  by_cases hji : j = i
  · subst hji
    cases hi.symm.trans hj
    exact ⟨c, List.getElem?_set_self (List.getElem?_eq_some_iff.mp hj).1, hkeep ha⟩
  · exact ⟨a, (List.getElem?_set_ne hji).trans hi, ha⟩

/-! ## What parties keep -/

/-- What held of a party, or held of it when it came, holds of it still. -/
def Carries (P : α → Prop) (l₀ l : List α) : Prop :=
  ∀ (i : Nat) (a : α), l[i]? = some a → (∀ a₀, l₀[i]? = some a₀ → P a₀) → P a

section
variable {P : α → Prop} {l₀ l : List α} {a b : α} {i : Nat}

theorem Carries.refl (P : α → Prop) (l : List α) : Carries P l l := fun _ a hi h => h a hi

theorem Carries.set (h : Carries P l₀ l) (hi : l[i]? = some a) (hkeep : P a → P b) :
    Carries P l₀ (l.set i b) := by
  intro j c hj h₀
  rcases getElem?_set_cases hj with ⟨rfl, rfl⟩ | ⟨-, hj⟩
  · exact hkeep (h j a hi h₀)
  · exact h j c hj h₀

theorem Carries.concat (h : Carries P l₀ l) (hb : P b) : Carries P l₀ (l ++ [b]) := by
  intro j c hj h₀
  rcases getElem?_concat_cases hj with hj | ⟨-, rfl⟩
  exacts [h j c hj h₀, hb]

theorem Carries.map (h : Carries P l₀ l) {g : α → α} (hg : ∀ a, P a → P (g a)) :
    Carries P l₀ (l.map g) := by
  intro j c hj h₀
  rw [List.getElem?_map] at hj
  obtain ⟨a, ha, rfl⟩ := Option.map_eq_some_iff.mp hj
  exact hg a (h j a ha h₀)

end

end Indexed
