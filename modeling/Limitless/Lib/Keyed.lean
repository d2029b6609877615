import Mathlib.Algebra.BigOperators.Group.List.Basic
import Mathlib.Algebra.Order.BigOperators.Group.List
import Mathlib.Algebra.Order.Group.Int
import Mathlib.Data.List.Nodup

/-!
# Keyed lists

A `Keyed key` is a finite list of entries no two of which have the same `key`: a database table
with a primary key, or an insertion-ordered dictionary. Reading is `find?`, writing is `put`,
which replaces the entry of the same key in place or appends. `sum` totals a figure over the
entries, and `put_sum` says how a write moves the total.

`Update` is the shape of a conditional update of one entry, `SET … WHERE key = … AND …`, with
`Keyed.update` reporting how many entries it touched.
-/

universe u v w

/-- A list of entries whose keys are distinct. -/
structure Keyed {α : Type u} {κ : Type v} (key : α → κ) where
  /-- The entries, oldest first. -/
  entries : List α
  /-- No two entries share a key. -/
  nodup : (entries.map key).Nodup

namespace Keyed

variable {α : Type u} {κ : Type v} {key : α → κ}

/-- The keyed list with no entries. -/
def empty : Keyed key := ⟨[], List.nodup_nil⟩

/-- Total a figure over the entries. -/
def sum {M : Type w} [AddCommMonoid M] (t : Keyed key) (f : α → M) : M := (t.entries.map f).sum

section
variable [DecidableEq κ]

/-- The entry of key `k`. -/
def find? (t : Keyed key) (k : κ) : Option α := t.entries.find? fun a => key a = k

/-- Replace the entry that has `a`'s key in place, or append `a`. -/
def putEntry (key : α → κ) (a : α) : List α → List α
  | [] => [a]
  | b :: bs => if key b = key a then a :: bs else b :: putEntry key a bs

/-! ## Finding -/

theorem find?_mem {t : Keyed key} {k : κ} {a : α} (h : t.find? k = some a) : a ∈ t.entries :=
  List.mem_of_find?_eq_some h

theorem find?_key {t : Keyed key} {k : κ} {a : α} (h : t.find? k = some a) : key a = k := by
  simpa using List.find?_some h

/-- Keys are distinct, so an entry is the one found under its key. -/
theorem find?_of_mem {t : Keyed key} {a : α} (h : a ∈ t.entries) : t.find? (key a) = some a := by
  obtain ⟨l, hl⟩ := t
  show l.find? _ = some a
  change a ∈ l at h
  induction l with
  | nil => cases h
  | cons b bs ih =>
      rw [List.map_cons, List.nodup_cons] at hl
      rcases List.mem_cons.mp h with rfl | hmem
      · simp
      · have hne : key b ≠ key a := fun he => hl.1 (he ▸ List.mem_map_of_mem hmem)
        rw [List.find?_cons_of_neg (by simpa using hne)]
        exact ih hl.2 hmem

/-! ## Writing -/

theorem find?_putEntry (a : α) (l : List α) (k : κ) :
    (putEntry key a l).find? (fun b => key b = k) =
      if key a = k then some a else l.find? fun b => key b = k := by
  induction l with
  | nil => by_cases hk : key a = k <;> simp [putEntry, hk]
  | cons b bs ih =>
      by_cases hb : key b = key a
      · by_cases hk : key a = k <;> simp [putEntry, hb, hk]
      · by_cases hk : key b = k
        · have hak : key a ≠ k := fun h => hb (hk.trans h.symm)
          rw [putEntry, if_neg hb, if_neg hak, List.find?_cons_of_pos (by simpa using hk),
            List.find?_cons_of_pos (by simpa using hk)]
        · simp [putEntry, hb, hk, ih]

/-- An entry of a new key is appended. -/
theorem putEntry_of_not_mem {a : α} {l : List α} (h : key a ∉ l.map key) :
    putEntry key a l = l ++ [a] := by
  induction l with
  | nil => rfl
  | cons b bs ih =>
      obtain ⟨hb, hbs⟩ := not_or.mp (List.mem_cons.not.mp h)
      rw [putEntry, if_neg fun he => hb he.symm, ih hbs]
      rfl

/-- Entries of distinct new keys are appended in order. -/
theorem foldl_putEntry {l new : List α} (h : ((l ++ new).map key).Nodup) :
    new.foldl (fun l a => putEntry key a l) l = l ++ new := by
  induction new generalizing l with
  | nil => rw [List.foldl_nil, List.append_nil]
  | cons a new ih =>
      have hassoc : l ++ a :: new = (l ++ [a]) ++ new := by simp
      have hnew : key a ∉ l.map key := by
        rw [List.map_append, List.map_cons] at h
        have hdisjoint := List.disjoint_of_nodup_append h
        exact fun hmem => hdisjoint hmem List.mem_cons_self
      rw [List.foldl_cons, putEntry_of_not_mem hnew, hassoc]
      exact ih (hassoc ▸ h)

theorem keys_putEntry_subset (a : α) (l : List α) :
    ∀ k ∈ (putEntry key a l).map key, k = key a ∨ k ∈ l.map key := by
  induction l with
  | nil => simp [putEntry]
  | cons b bs ih =>
      intro k hk
      by_cases hb : key b = key a
      · rw [putEntry, if_pos hb, List.map_cons] at hk
        rcases List.mem_cons.mp hk with rfl | hk
        · exact .inl rfl
        · exact .inr (List.mem_cons_of_mem _ hk)
      · rw [putEntry, if_neg hb, List.map_cons] at hk
        rcases List.mem_cons.mp hk with rfl | hk
        · exact .inr List.mem_cons_self
        · exact (ih k hk).imp_right (List.mem_cons_of_mem _)

theorem nodup_putEntry (a : α) {l : List α} (hl : (l.map key).Nodup) :
    ((putEntry key a l).map key).Nodup := by
  induction l with
  | nil => simp [putEntry]
  | cons b bs ih =>
      rw [List.map_cons, List.nodup_cons] at hl
      by_cases hb : key b = key a
      · rw [putEntry, if_pos hb, List.map_cons, List.nodup_cons, ← hb]
        exact hl
      · rw [putEntry, if_neg hb, List.map_cons, List.nodup_cons]
        refine ⟨fun hmem => ?_, ih hl.2⟩
        rcases keys_putEntry_subset a bs _ hmem with he | he
        exacts [hb he, hl.1 he]

theorem mem_putEntry {a b : α} : ∀ {l : List α}, b ∈ putEntry key a l → b = a ∨ b ∈ l
  | [], h => .inl (by simpa [putEntry] using h)
  | c :: cs, h => by
      by_cases hc : key c = key a
      · rw [putEntry, if_pos hc] at h
        exact (List.mem_cons.mp h).imp_right (List.mem_cons_of_mem _)
      · rw [putEntry, if_neg hc] at h
        rcases List.mem_cons.mp h with rfl | h
        · exact .inr List.mem_cons_self
        · exact (mem_putEntry h).imp_right (List.mem_cons_of_mem _)

/-- Write an entry: replace the one of the same key, or append. -/
def put (t : Keyed key) (a : α) : Keyed key := ⟨putEntry key a t.entries, nodup_putEntry a t.nodup⟩

/-- Insert entries one by one into an empty keyed list. -/
def ofList (l : List α) : Keyed key := l.foldl put empty

/-- Nothing is in `ofList l` that is not in `l`. -/
theorem mem_of_mem_ofList {l : List α} {a : α} (h : a ∈ (ofList l : Keyed key).entries) :
    a ∈ l := by
  suffices hgen : ∀ (l : List α) (t : Keyed key), a ∈ (l.foldl put t).entries →
      a ∈ t.entries ∨ a ∈ l by
    rcases hgen l empty h with h | h
    exacts [(List.not_mem_nil h).elim, h]
  intro l
  induction l with
  | nil => exact fun t h => .inl h
  | cons b bs ih =>
      intro t h
      rcases ih (t.put b) h with h | h
      · rcases mem_putEntry h with rfl | h
        exacts [.inr List.mem_cons_self, .inl h]
      · exact .inr (List.mem_cons_of_mem _ h)

/-- Reading after a write. -/
theorem find?_put (t : Keyed key) (a : α) (k : κ) :
    (t.put a).find? k = if key a = k then some a else t.find? k := find?_putEntry a t.entries k

@[simp] theorem find?_put_self (t : Keyed key) (a : α) : (t.put a).find? (key a) = some a := by
  simp [find?_put]

theorem find?_put_of_ne (t : Keyed key) {a : α} {k : κ} (h : key a ≠ k) :
    (t.put a).find? k = t.find? k := by simp [find?_put, h]

/-- A new version of an entry keeps what is read of it, if it does. -/
theorem map_find?_put {β : Type w} {f : α → β} (t : Keyed key) {a a' : α}
    (ha : t.find? (key a') = some a) (hf : f a' = f a) (k : κ) :
    ((t.put a').find? k).map f = (t.find? k).map f := by
  rw [find?_put]
  split
  · next h => rw [← h, ha, Option.map_some, Option.map_some, hf]
  · rfl

theorem putEntry_putEntry {a a' : α} (h : key a = key a') (l : List α) :
    putEntry key a' (putEntry key a l) = putEntry key a' l := by
  induction l with
  | nil => simp [putEntry, h]
  | cons b bs ih =>
      by_cases hb : key b = key a
      · simp [putEntry, hb, h]
      · simp [putEntry, hb, h ▸ hb, ih]

/-- Only the last write of a key is seen. -/
theorem put_put (t : Keyed key) {a a' : α} (h : key a = key a') : (t.put a).put a' = t.put a' := by
  simp only [put, putEntry_putEntry h]

theorem sum_putEntry {M : Type w} [AddCommMonoid M] (f : α → M) (a : α) (l : List α) :
    ((putEntry key a l).map f).sum + ((l.find? fun b => key b = key a).elim 0 f) =
      (l.map f).sum + f a := by
  induction l with
  | nil => simp [putEntry]
  | cons b bs ih =>
      by_cases hb : key b = key a
      · simp only [putEntry, hb, if_true, List.map_cons, List.sum_cons, decide_true,
          List.find?_cons_of_pos, Option.elim_some]
        rw [add_comm (f a), add_right_comm, add_comm _ (f b)]
      · rw [putEntry, if_neg hb, List.find?_cons_of_neg (by simpa using hb)]
        simp only [List.map_cons, List.sum_cons, add_assoc, ih]

/-- A write moves a total by the new entry in place of the old one. -/
theorem sum_put {M : Type w} [AddCommMonoid M] (t : Keyed key) (f : α → M) (a : α) :
    (t.put a).sum f + (t.find? (key a)).elim 0 f = t.sum f + f a := sum_putEntry f a t.entries

end

/-! ## Totals -/

section
variable {M : Type w} [AddCommMonoid M]

theorem sum_add (t : Keyed key) (f g : α → M) :
    t.sum (fun a => f a + g a) = t.sum f + t.sum g := List.sum_map_add

end

/-- A figure that is zero entry by entry totals zero. -/
theorem sum_eq_zero {M : Type w} [AddCommMonoid M] {t : Keyed key} {f : α → M}
    (h : ∀ a ∈ t.entries, f a = 0) : t.sum f = 0 := List.sum_eq_zero (by simpa using h)

/-- An integer total is bounded entry by entry. -/
theorem sum_le_sum (t : Keyed key) {f g : α → Int} (h : ∀ a ∈ t.entries, f a ≤ g a) :
    t.sum f ≤ t.sum g := List.sum_le_sum h

/-- A non-negative figure has a non-negative total. -/
theorem sum_nonneg (t : Keyed key) {f : α → Int} (h : ∀ a ∈ t.entries, 0 ≤ f a) : 0 ≤ t.sum f :=
  List.sum_nonneg (by simpa using h)

/-- One entry of a non-negative figure is at most the total. -/
theorem le_sum_of_mem (t : Keyed key) {f : α → Int} (h : ∀ a ∈ t.entries, 0 ≤ f a) {a : α}
    (ha : a ∈ t.entries) : f a ≤ t.sum f :=
  List.single_le_sum (by simpa using h) _ (List.mem_map_of_mem ha)

end Keyed

/-! ## Conditional updates -/

/-- An update of at most one entry: the part of its `WHERE` beyond the key, and its `SET`, which
may be refused by a constraint. The new version keeps the key. -/
structure Update {α : Type u} {κ : Type v} (key : α → κ) (ε : Type w) where
  /-- The conditions beyond the key. -/
  guard : α → Bool
  /-- The new version of the entry. -/
  set : α → Except ε α
  /-- The key is not among the columns set. -/
  key_set : ∀ a b, set a = .ok b → key b = key a

namespace Update

variable {α : Type u} {κ : Type v} {key : α → κ} {ε : Type w}

/-- What the update makes of the entry under its key: the new version, or `none` when it touches
nothing. -/
def touch (u : Update key ε) : Option α → Except ε (Option α)
  | none => .ok none
  | some a => if u.guard a then (u.set a).map some else .ok none

@[simp] theorem touch_none (u : Update key ε) : u.touch none = .ok none := rfl

theorem touch_some (u : Update key ε) (a : α) :
    u.touch (some a) = if u.guard a then (u.set a).map some else .ok none := rfl

/-- The three outcomes of an update. -/
theorem touch_cases (u : Update key ε) (o : Option α) :
    (u.touch o = .ok none ∧ ∀ a, o = some a → u.guard a = false) ∨
      (∃ a b, o = some a ∧ u.guard a = true ∧ u.set a = .ok b ∧ u.touch o = .ok (some b)) ∨
      (∃ a e, o = some a ∧ u.guard a = true ∧ u.set a = .error e ∧ u.touch o = .error e) := by
  cases o with
  | none => exact .inl ⟨rfl, fun _ h => by cases h⟩
  | some a =>
      cases hg : u.guard a with
      | false => exact .inl ⟨by simp [touch_some, hg], fun _ h => by cases h; exact hg⟩
      | true =>
          cases hs : u.set a with
          | ok b => exact .inr (.inl ⟨a, b, rfl, hg, hs, by simp [touch_some, hg, hs, Except.map]⟩)
          | error e =>
              exact .inr (.inr ⟨a, e, rfl, hg, hs, by simp [touch_some, hg, hs, Except.map]⟩)

/-- A touched entry passed the guard, and its new version keeps the key. -/
theorem touch_eq_some {u : Update key ε} {o : Option α} {b : α} (h : u.touch o = .ok (some b)) :
    ∃ a, o = some a ∧ u.guard a = true ∧ u.set a = .ok b ∧ key b = key a := by
  rcases u.touch_cases o with ⟨h', _⟩ | ⟨a, b', rfl, hg, hs, h'⟩ | ⟨a, e, _, _, _, h'⟩
  · rw [h'] at h; cases h
  · rw [h'] at h; cases h; exact ⟨a, rfl, hg, hs, u.key_set a b hs⟩
  · rw [h'] at h; cases h

end Update

namespace Keyed

variable {α : Type u} {κ : Type v} [DecidableEq κ] {key : α → κ} {ε : Type w}

/-- `UPDATE … WHERE key = k AND …`: the new list and the affected row count. -/
def update (t : Keyed key) (k : κ) (u : Update key ε) : Except ε (Keyed key × Nat) :=
  (u.touch (t.find? k)).map fun
    | none => (t, 0)
    | some b => (t.put b, 1)

end Keyed
