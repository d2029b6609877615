import Limitless.Lib.RowLock
import Mathlib.Data.Finset.Max

/-!
# Lock order

A session that waits for a row waits for another session. Where every transaction names its rows in
one agreed order (`Ascending`), what a session holds ranks below what it may still wait for
(`Climbing`), so a session that waits for a row of the highest rank waits for one that does not
wait. `exists_next` is the consequence: some session that has not ended has a next step.

In `Database` a statement that touches nothing takes no lock. `Statement.locking` is the statement
that takes it all the same, by writing the version it has seen.
-/

namespace RowLock

open Indexed Runs

universe u v w x
variable {ι : Type u} [DecidableEq ι] {V : ι → Type v} {E : Type w} {β : Type x} [LinearOrder β]

/-- The statement with the lock of its row taken in any case. -/
def Statement.locking (st : Statement V E) : Statement V E where
  row := st.row
  run old :=
    match st.run old with
    | .error e => .error e
    | .ok none => .ok (some old)
    | .ok (some v) => .ok (some v)

/-- The program with every lock taken. -/
def Program.locking (p : Program V E) : Program V E := p.map (·.map Statement.locking)

/-- Every transaction names its rows by increasing rank. -/
def Ascending (rank : ι → β) (programs : List (Program V E)) : Prop :=
  ∀ l, .ok l ∈ programs → l.Pairwise fun a b => rank a.row < rank b.row

omit [DecidableEq ι] in
/-- Taking every lock does not change which rows are named. -/
theorem Ascending.locking {rank : ι → β} {programs : List (Program V E)}
    (h : Ascending rank programs) : Ascending rank (programs.map Program.locking) := by
  intro l hl
  obtain ⟨p, hp, hpl⟩ := List.mem_map.mp hl
  cases p with
  | error e => cases hpl
  | ok m =>
      cases hpl
      exact List.pairwise_map.mpr (h m hp)

namespace Session

/-- The transaction has ended. -/
def isEnded : Session V E → Bool
  | ended _ => true
  | idle | running _ _ | failing _ _ => false

/-- The row of the next statement. -/
def wants? : Session V E → Option ι
  | running (st :: _) _ => some st.row
  | idle | running [] _ | failing _ _ | ended _ => none

/-- What the session holds ranks below what it has still to do. -/
def Climbs (rank : ι → β) : Session V E → Prop
  | running todo p => todo.Pairwise (fun a b => rank a.row < rank b.row) ∧
      ∀ i, (p i).isSome → ∀ st ∈ todo, rank i < rank st.row
  | idle | failing _ _ | ended _ => True

omit [DecidableEq ι] in
/-- A session that holds a row wants a higher one, if any. -/
theorem Climbs.lt {rank : ι → β} {s : Session V E} (h : s.Climbs rank) {i j : ι}
    (hi : s.holds i = true) (hj : s.wants? = some j) : rank i < rank j := by
  unfold wants? at hj
  split at hj
  · cases hj
    exact h.2 i hi _ List.mem_cons_self
  all_goals cases hj

end Session

namespace Database

variable {rank : ι → β} {programs : List (Program V E)} {s₀ : ∀ i, V i} {d d' : Database V E}
  {t : ℕ}

/-- Every session climbs, and has a program. -/
structure Climbing (rank : ι → β) (programs : List (Program V E)) (d : Database V E) : Prop where
  length : d.sessions.length = programs.length
  climbs : ∀ x ∈ d.sessions, x.Climbs rank

omit [DecidableEq ι] in
theorem start_climbing (rank : ι → β) (programs : List (Program V E)) (s₀ : ∀ i, V i) :
    Climbing rank programs (start programs s₀) where
  length := List.length_map _
  climbs x hx := by
    obtain ⟨_, _, rfl⟩ := List.mem_map.mp hx
    trivial

omit [DecidableEq ι] in
theorem Climbing.set (h : Climbing rank programs d) {x : Session V E} {c : ∀ i, V i}
    (hx : x.Climbs rank) : Climbing rank programs ⟨c, d.sessions.set t x⟩ where
  length := (List.length_set ..).trans h.length
  climbs y hy := by
    rcases List.mem_or_eq_of_mem_set hy with hy | rfl
    exacts [h.climbs y hy, hx]

/-- **One step.** A statement that runs ranks below the rest of its transaction. -/
theorem Climbing.step (hasc : Ascending rank programs) (h : Climbing rank programs d)
    (hstep : next programs d t = some d') : Climbing rank programs d' := by
  rcases next_cases hstep with ⟨l, -, hp, rfl⟩ | ⟨e, -, -, rfl⟩ | ⟨p, -, rfl⟩ |
    ⟨st, rest, p, e, -, -, rfl⟩ | ⟨st, rest, p, q, ht, -, -, hnew, rfl⟩ | ⟨e, p, -, rfl⟩
  · refine h.set ⟨hasc l (List.mem_of_getElem? hp), fun i hi => ?_⟩
    cases hi
  · exact h.set trivial
  · exact h.set trivial
  · exact h.set trivial
  · obtain ⟨hsorted, hheld⟩ := h.climbs _ (List.mem_of_getElem? ht)
    obtain ⟨hfirst, hrest⟩ := List.pairwise_cons.mp hsorted
    refine h.set ⟨hrest, fun i hi st' hst' => ?_⟩
    rcases hnew i hi with hi | rfl
    exacts [hheld i hi st' (List.mem_cons_of_mem _ hst'), hfirst st' hst']
  · exact h.set trivial

/-- A session that has not ended has a next step, or wants a row that another one holds. -/
theorem next_or_waits (hlength : d.sessions.length = programs.length) {x : Session V E}
    (hx : d.sessions[t]? = some x) (hopen : x.isEnded = false) :
    (∃ d', next programs d t = some d') ∨
      ∃ i, x.wants? = some i ∧ ∃ y ∈ d.sessions, y.holds i = true := by
  unfold next
  rw [hx]
  cases x with
  | idle =>
      left
      have ht : t < programs.length := hlength ▸ (List.getElem?_eq_some_iff.mp hx).1
      rw [List.getElem?_eq_getElem ht]
      cases programs[t] with
      | ok l => exact ⟨_, rfl⟩
      | error e => exact ⟨_, rfl⟩
  | running todo p =>
      cases todo with
      | nil => exact .inl ⟨_, rfl⟩
      | cons st rest =>
          cases hlocked : d.locked t st.row with
          | true =>
              obtain ⟨y, hy, hholds⟩ := List.any_eq_true.mp hlocked
              exact .inr ⟨st.row, rfl, y, List.mem_of_mem_eraseIdx hy, hholds⟩
          | false =>
              left
              simp only [hlocked, Bool.false_eq_true, if_false]
              rcases st.run (view d.committed p st.row) with e | (_ | v) <;> exact ⟨_, rfl⟩
  | failing e p => exact .inl ⟨_, rfl⟩
  | ended o => cases hopen

omit [DecidableEq ι] in
/-- A session that holds a row has not ended. -/
theorem isEnded_of_holds {x : Session V E} {i : ι} (h : x.holds i = true) : x.isEnded = false := by
  cases x with
  | ended o => cases h
  | idle | running | failing => rfl

/-- **No deadlock.** In every reachable state with a session that has not ended, some session that
has not ended has a next step. -/
theorem exists_next (hasc : Ascending rank programs) {sched : List ℕ}
    (hrun : Run (Steps (next programs)) (start programs s₀) sched d) {x : Session V E}
    (hx : x ∈ d.sessions) (hopen : x.isEnded = false) :
    ∃ t d' y, d.sessions[t]? = some y ∧ y.isEnded = false ∧ next programs d t = some d' := by
  have h : Climbing rank programs d :=
    hrun.invariant (fun a t b ha hab => ha.step hasc hab) (start_climbing rank programs s₀)
  by_contra! hstuck
  -- every session that has not ended waits for a row that such a session holds
  have hwaits : ∀ y ∈ d.sessions, y.isEnded = false → ∃ i, y.wants? = some i ∧
      ∃ z ∈ d.sessions, z.isEnded = false ∧ z.holds i = true := by
    intro y hy hyopen
    obtain ⟨t, ht⟩ := List.mem_iff_getElem?.mp hy
    rcases next_or_waits h.length ht hyopen with ⟨d', hd'⟩ | ⟨i, hi, z, hz, hholds⟩
    · exact absurd hd' (hstuck t d' y ht hyopen)
    · exact ⟨i, hi, z, hz, isEnded_of_holds hholds, hholds⟩
  -- so the highest row that one of them wants is held by one that wants a higher one
  obtain ⟨i, hi, -⟩ := hwaits x hx hopen
  obtain ⟨top, htop, hmax⟩ := (d.sessions.filterMap Session.wants?).toFinset.exists_max_image rank
    ⟨i, List.mem_toFinset.mpr (List.mem_filterMap.mpr ⟨x, hx, hi⟩)⟩
  obtain ⟨y, hy, hytop⟩ := List.mem_filterMap.mp (List.mem_toFinset.mp htop)
  have hyopen : y.isEnded = false := by
    cases y with
    | ended o => cases hytop
    | idle | running | failing => rfl
  obtain ⟨j, hj, z, hz, hzopen, hholds⟩ := hwaits y hy hyopen
  obtain rfl : j = top := Option.some.inj (hj.symm.trans hytop)
  obtain ⟨k, hk, -⟩ := hwaits z hz hzopen
  have hlt : rank j < rank k := (h.climbs z hz).lt hholds hk
  have hle : rank k ≤ rank j :=
    hmax k (List.mem_toFinset.mpr (List.mem_filterMap.mpr ⟨z, hz, hk⟩))
  exact absurd hle (not_le_of_gt hlt)

end Database

/-! ## Two sets of rows in one database -/

section
variable {κ : Type u} [DecidableEq κ] {W : κ → Type v}

/-- What the rows of two sets hold. -/
abbrev Either (V : ι → Type v) (W : κ → Type v) : ι ⊕ κ → Type v
  | .inl i => V i
  | .inr k => W k

/-- A statement on the first of two sets of rows. -/
def Statement.inl (st : Statement V E) : Statement (Either V W) E := ⟨.inl st.row, st.run⟩

/-- A program on the first set of rows. -/
def Program.inl (p : Program V E) : Program (Either V W) E := p.map (·.map Statement.inl)

/-- The rows of both. -/
def both (s : ∀ i, V i) (r : ∀ k, W k) : ∀ i, Either V W i
  | .inl i => s i
  | .inr k => r k

theorem both_update_inl (s : ∀ i, V i) (r : ∀ k, W k) (i : ι) (v : V i) :
    Function.update (both s r) (.inl i) v = both (Function.update s i v) r := by
  funext j
  cases j with
  | inl j =>
      rcases eq_or_ne j i with rfl | hj
      · rw [Function.update_self]
        exact (Function.update_self ..).symm
      · rw [Function.update_of_ne (by simpa using hj)]
        exact (Function.update_of_ne hj ..).symm
  | inr k => rw [Function.update_of_ne (by simp)]; rfl

theorem both_update_inr (s : ∀ i, V i) (r : ∀ k, W k) (k : κ) (v : W k) :
    Function.update (both s r) (.inr k) v = both s (Function.update r k v) := by
  funext j
  cases j with
  | inl i => rw [Function.update_of_ne (by simp)]; rfl
  | inr j =>
      rcases eq_or_ne j k with rfl | hj
      · rw [Function.update_self]
        exact (Function.update_self ..).symm
      · rw [Function.update_of_ne (by simpa using hj)]
        exact (Function.update_of_ne hj ..).symm

/-- Statements on the first set of rows leave the second alone. -/
theorem exec_inl (s : ∀ i, V i) (r : ∀ k, W k) (l : List (Statement V E)) :
    exec (both s r) (l.map Statement.inl) = (exec s l).map fun s' => both s' r := by
  induction l generalizing s with
  | nil => rfl
  | cons st rest ih =>
      have hrun : (Statement.inl (W := W) st).run (both s r (Statement.inl (W := W) st).row) =
          st.run (s st.row) := rfl
      simp only [List.map_cons, exec]
      rw [hrun]
      rcases st.run (s st.row) with e | (_ | v)
      · rfl
      · exact ih s
      · show exec (Function.update (both s r) (.inl st.row) v) _ = _
        rw [both_update_inl]
        exact ih _

/-- A transaction on the first set of rows leaves the second alone. -/
theorem atomic_inl (s : ∀ i, V i) (r : ∀ k, W k) (p : Program V E) :
    atomic (both s r) p.inl = (both (atomic s p).1 r, (atomic s p).2) := by
  cases p with
  | error e => rfl
  | ok l =>
      simp only [Program.inl, Except.map, atomic, exec_inl]
      cases exec s l <;> rfl

end

end RowLock
