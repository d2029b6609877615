import Limitless.Lib.Indexed
import Limitless.Lib.Runs
import Mathlib.Data.List.Nodup
import Mathlib.Data.List.Perm.Basic
import Mathlib.Data.List.Range
import Mathlib.Logic.Function.Basic

/-!
# Row locks make transactions serial

A database of rows indexed by `ι`, and sessions that each run one transaction: a list of
statements, each of which reads one row and writes a new version of it, touches nothing, or fails.
A new version is the session's own until it commits. A statement on a row that another session has
written waits, and one that runs sees the session's own version or else the latest committed one.

`atomic` is a whole transaction at once. `serializable` says that any interleaving of the
statements, commits and rollbacks in which every session ends is some order of whole transactions:
the same outcome for each, the same rows at the end. A transaction takes its place in that order
when it commits, or when the statement that refuses it is evaluated. The order is right because
what a session has run so far would still run the same way on the rows committed now
(`Consistent.executed`): a row it has written is locked, and a row it has looked at without
touching is one that nobody can write (`Inert`).
-/

namespace RowLock

open Indexed Runs

universe u v w
variable {ι : Type u} [DecidableEq ι] {V : ι → Type v} {E : Type w}

/-- One statement on one row: a new version of it, `none` where it touches nothing, or an error,
which unwinds the transaction. -/
structure Statement (V : ι → Type v) (E : Type w) where
  row : ι
  run : V row → Except E (Option (V row))

/-- A client's use of a transaction: an error before one is opened, or the statements in it. -/
abbrev Program (V : ι → Type v) (E : Type w) := Except E (List (Statement V E))

/-- The new versions a session has written and not committed. -/
abbrev Pending (V : ι → Type v) := ∀ i, Option (V i)

/-- A session's view of a row: its own version, or else the committed one. -/
def view (s : ∀ i, V i) (p : Pending V) (i : ι) : V i := (p i).getD (s i)

/-- Run statements over the committed rows `s`, on top of the versions in `p`. -/
def run (s : ∀ i, V i) : List (Statement V E) → Pending V → Except E (Pending V)
  | [], p => .ok p
  | st :: rest, p =>
    match st.run (view s p st.row) with
    | .error e => .error e
    | .ok none => run s rest p
    | .ok (some v) => run s rest (Function.update p st.row (some v))

/-- Nothing written. -/
def clean : Pending V := fun _ => none

/-- Run statements on the rows directly. -/
def exec (s : ∀ i, V i) : List (Statement V E) → Except E (∀ i, V i)
  | [] => .ok s
  | st :: rest =>
    match st.run (s st.row) with
    | .error e => .error e
    | .ok none => exec s rest
    | .ok (some v) => exec (Function.update s st.row v) rest

/-- A whole transaction at once: the rows it leaves, and how it ended. -/
def atomic (s : ∀ i, V i) : Program V E → (∀ i, V i) × Except E Unit
  | .error e => (s, .error e)
  | .ok l =>
    match exec s l with
    | .ok s' => (s', .ok ())
    | .error e => (s, .error e)

/-! ## Running statements -/

section
variable {s s' : ∀ i, V i} {p q : Pending V}

/-- A new version is seen in place of the old one. -/
theorem view_update (s : ∀ i, V i) (p : Pending V) (i : ι) (v : V i) :
    view s (Function.update p i (some v)) = Function.update (view s p) i v := by
  funext j
  by_cases hj : j = i
  · subst hj
    simp [view]
  · simp [view, Function.update_of_ne hj]

/-- Pending versions over the committed rows stand for the rows themselves. -/
theorem exec_view (l : List (Statement V E)) (p : Pending V) :
    exec (view s p) l = (run s l p).map (view s) := by
  induction l generalizing p with
  | nil => rfl
  | cons st rest ih =>
      simp only [exec, run]
      split
      · rfl
      · exact ih p
      · rw [← view_update]
        exact ih _

theorem exec_of_run (l : List (Statement V E)) : exec s l = (run s l clean).map (view s) :=
  exec_view l clean

/-- A run of statements is a run of the first ones, then of the others. -/
theorem run_append (l m : List (Statement V E)) (h : run s l p = .ok q) :
    run s (l ++ m) p = run s m q := by
  induction l generalizing p with
  | nil => cases h; rfl
  | cons st rest ih =>
      simp only [run] at h
      simp only [List.cons_append, run]
      split at h
      · cases h
      · exact ih h
      · exact ih h

/-- Statements depend on the rows they name only. -/
theorem run_congr {l : List (Statement V E)} (h : ∀ st ∈ l, s st.row = s' st.row)
    (p : Pending V) : run s l p = run s' l p := by
  induction l generalizing p with
  | nil => rfl
  | cons st rest ih =>
      have hview : view s p st.row = view s' p st.row := by
        simp only [view, h st List.mem_cons_self]
      have hrest := ih fun st' hst' => h st' (List.mem_cons_of_mem _ hst')
      simp only [run, hview, hrest]

/-- What has a version keeps one. -/
theorem run_keeps {l : List (Statement V E)} (h : run s l p = .ok q) {i : ι}
    (hi : (p i).isSome) : (q i).isSome := by
  induction l generalizing p with
  | nil => cases h; exact hi
  | cons st rest ih =>
      simp only [run] at h
      split at h
      · cases h
      · exact ih h hi
      · refine ih h ?_
        by_cases he : i = st.row
        · subst he
          rw [Function.update_self]
          rfl
        · rwa [Function.update_of_ne he]

/-- A row left without a version was looked at in its committed state, and not touched. -/
theorem run_untouched {l : List (Statement V E)} (h : run s l p = .ok q) {st : Statement V E}
    (hst : st ∈ l) (hq : q st.row = none) : st.run (s st.row) = .ok none := by
  induction l generalizing p with
  | nil => cases hst
  | cons st' rest ih =>
      have hp : p st.row = none := by
        cases hp : p st.row with
        | none => rfl
        | some v =>
            have := run_keeps h (i := st.row) (by rw [hp]; rfl)
            rw [hq] at this
            cases this
      simp only [run] at h
      rcases List.mem_cons.mp hst with rfl | hst
      · rw [show view s p st.row = s st.row by simp [view, hp]] at h
        split at h
        · cases h
        · assumption
        · have := run_keeps h (i := st.row) (by simp)
          rw [hq] at this
          cases this
      · split at h
        · cases h
        · exact ih h hst
        · exact ih h hst

/-- The first version of a row was written by a statement that saw the committed one. -/
theorem run_touched {l : List (Statement V E)} (h : run s l p = .ok q) {i : ι} (hp : p i = none)
    (hq : (q i).isSome) :
    ∃ st ∈ l, st.row = i ∧ ∃ v, st.run (s st.row) = .ok (some v) := by
  induction l generalizing p with
  | nil => cases h; rw [hp] at hq; cases hq
  | cons st rest ih =>
      simp only [run] at h
      split at h
      · cases h
      · obtain ⟨st', hmem, hrest⟩ := ih h hp
        exact ⟨st', List.mem_cons_of_mem _ hmem, hrest⟩
      · next v hv =>
          by_cases hi : st.row = i
          · subst hi
            rw [show view s p st.row = s st.row by simp [view, hp]] at hv
            exact ⟨st, List.mem_cons_self, rfl, v, hv⟩
          · obtain ⟨st', hmem, hrest⟩ := ih h (by rw [Function.update_of_ne (Ne.symm hi)]; exact hp)
            exact ⟨st', List.mem_cons_of_mem _ hmem, hrest⟩

end

/-! ## Sessions -/

/-- Where a session stands in its transaction. -/
inductive Session (V : ι → Type v) (E : Type w)
  | idle
  | running (todo : List (Statement V E)) (pending : Pending V)
  /-- A statement failed; the rollback is still to come. -/
  | failing (error : E) (pending : Pending V)
  | ended (outcome : Except E Unit)

namespace Session

/-- The session has a version of the row that it has not committed, which locks it. -/
def holds : Session V E → ι → Bool
  | running _ p, i | failing _ p, i => (p i).isSome
  | idle, _ | ended _, _ => false

/-- How the transaction ended, from the moment that is decided. -/
def outcome? : Session V E → Option (Except E Unit)
  | idle | running _ _ => none
  | failing e _ => some (.error e)
  | ended o => some o

end Session

/-- The committed rows, and the sessions. -/
structure Database (V : ι → Type v) (E : Type w) where
  committed : ∀ i, V i
  sessions : List (Session V E)

namespace Database

variable {programs : List (Program V E)} {s₀ : ∀ i, V i} {d d' : Database V E} {t : Nat}

/-- Another session than `t` holds the row. -/
def locked (d : Database V E) (t : Nat) (i : ι) : Bool := (d.sessions.eraseIdx t).any (·.holds i)

/-- Session `t` takes its next step: it opens its transaction, runs a statement, commits, or rolls
back. A statement on a locked row is not enabled. -/
def next (programs : List (Program V E)) (d : Database V E) (t : Nat) : Option (Database V E) :=
  match d.sessions[t]? with
  | some .idle =>
    match programs[t]? with
    | some (.ok l) => some { d with sessions := d.sessions.set t (.running l clean) }
    | some (.error e) => some { d with sessions := d.sessions.set t (.ended (.error e)) }
    | none => none
  | some (.running [] p) =>
    some { committed := view d.committed p, sessions := d.sessions.set t (.ended (.ok ())) }
  | some (.running (st :: rest) p) =>
    if d.locked t st.row then none else
    match st.run (view d.committed p st.row) with
    | .error e => some { d with sessions := d.sessions.set t (.failing e p) }
    | .ok none => some { d with sessions := d.sessions.set t (.running rest p) }
    | .ok (some v) =>
      some { d with
        sessions := d.sessions.set t (.running rest (Function.update p st.row (some v))) }
  | some (.failing e _) => some { d with sessions := d.sessions.set t (.ended (.error e)) }
  | some (.ended _) | none => none

/-- Every session is yet to open its transaction. -/
def start (programs : List (Program V E)) (s : ∀ i, V i) : Database V E :=
  ⟨s, programs.map fun _ => .idle⟩

omit [DecidableEq ι] in
theorem locked_eq_false {i : ι} (h : d.locked t i = false) {u : Nat} {x : Session V E}
    (hu : d.sessions[u]? = some x) (hne : u ≠ t) : x.holds i = false := by
  cases hx : x.holds i with
  | false => rfl
  | true =>
      have hmem : x ∈ d.sessions.eraseIdx t :=
        List.mem_eraseIdx_iff_getElem?.mpr ⟨u, hne, hu⟩
      have hany : d.locked t i = true := List.any_eq_true.mpr ⟨x, hmem, hx⟩
      rw [hany] at h
      cases h

/-- Everything one step of a session can be. -/
theorem next_cases (h : next programs d t = some d') :
    (∃ l, d.sessions[t]? = some .idle ∧ programs[t]? = some (.ok l) ∧
      d' = ⟨d.committed, d.sessions.set t (.running l clean)⟩) ∨
    (∃ e, d.sessions[t]? = some .idle ∧ programs[t]? = some (.error e) ∧
      d' = ⟨d.committed, d.sessions.set t (.ended (.error e))⟩) ∨
    (∃ p, d.sessions[t]? = some (.running [] p) ∧
      d' = ⟨view d.committed p, d.sessions.set t (.ended (.ok ()))⟩) ∨
    (∃ st rest p e, d.sessions[t]? = some (.running (st :: rest) p) ∧
      st.run (view d.committed p st.row) = .error e ∧
      d' = ⟨d.committed, d.sessions.set t (.failing e p)⟩) ∨
    (∃ st rest p q, d.sessions[t]? = some (.running (st :: rest) p) ∧
      d.locked t st.row = false ∧ run d.committed [st] p = .ok q ∧
      (∀ i, (q i).isSome → (p i).isSome ∨ i = st.row) ∧
      d' = ⟨d.committed, d.sessions.set t (.running rest q)⟩) ∨
    ∃ e p, d.sessions[t]? = some (.failing e p) ∧
      d' = ⟨d.committed, d.sessions.set t (.ended (.error e))⟩ := by
  unfold next at h
  split at h
  · next ht =>
      split at h
      · next l hl => cases h; exact .inl ⟨l, ht, hl, rfl⟩
      · next e he => cases h; exact .inr (.inl ⟨e, ht, he, rfl⟩)
      · cases h
  · next p ht => cases h; exact .inr (.inr (.inl ⟨p, ht, rfl⟩))
  · next st rest p ht =>
      split at h
      · cases h
      · next hfree =>
          have hfree' : d.locked t st.row = false := by simpa using hfree
          split at h
          · next e he => cases h; exact .inr (.inr (.inr (.inl ⟨st, rest, p, e, ht, he, rfl⟩)))
          · next hn =>
              cases h
              exact .inr (.inr (.inr (.inr (.inl ⟨st, rest, p, p, ht, hfree', by simp [run, hn],
                fun i hi => .inl hi, rfl⟩))))
          · next v hv =>
              cases h
              refine .inr (.inr (.inr (.inr (.inl ⟨st, rest, p, _, ht, hfree', by simp [run, hv],
                fun i hi => ?_, rfl⟩))))
              by_cases he : i = st.row
              · exact .inr he
              · exact .inl (by rwa [Function.update_of_ne he] at hi)
  · next e p ht => cases h; exact .inr (.inr (.inr (.inr (.inr ⟨e, p, ht, rfl⟩))))
  · cases h
  · cases h

/-! ## The invariant -/

/-- One transaction of the serial order: which it is, and how it ended. -/
def Applies (programs : List (Program V E)) (s : ∀ i, V i) (e : Nat × Except E Unit)
    (s' : ∀ i, V i) : Prop :=
  ∃ p, programs[e.1]? = some p ∧ atomic s p = (s', e.2)

/-- Where one statement touches nothing, no statement writes. -/
def Inert (programs : List (Program V E)) : Prop :=
  ∀ l, Except.ok l ∈ programs → ∀ m, Except.ok m ∈ programs → ∀ a ∈ l, ∀ b ∈ m, a.row = b.row →
    ∀ s : (∀ i, V i), a.run (s a.row) = .ok none → ∀ v, b.run (s b.row) ≠ .ok (some v)

/-- `log` is a serial order of the transactions decided so far. -/
structure SerialTo (programs : List (Program V E)) (s₀ : ∀ i, V i) (d : Database V E)
    (log : List (Nat × Except E Unit)) : Prop where
  applied : Run (Applies programs) s₀ log d.committed
  nodup : (log.map Prod.fst).Nodup
  decided : ∀ t o, (t, o) ∈ log ↔ ∃ x, d.sessions[t]? = some x ∧ x.outcome? = some o

/-- What holds between any two steps. -/
structure Consistent (programs : List (Program V E)) (s₀ : ∀ i, V i) (d : Database V E) :
    Prop where
  length : d.sessions.length = programs.length
  /-- What a session has run would run the same way on the rows committed now. -/
  executed : ∀ (t : Nat) todo p, d.sessions[t]? = some (.running todo p) →
    ∃ pre, programs[t]? = some (.ok (pre ++ todo)) ∧ run d.committed pre clean = .ok p
  /-- No two sessions hold a version of one row. -/
  exclusive : ∀ (t u : Nat) x y i, t ≠ u → d.sessions[t]? = some x → d.sessions[u]? = some y →
    x.holds i = true → y.holds i = false
  serial : ∃ log, SerialTo programs s₀ d log

theorem start_consistent (programs : List (Program V E)) (s₀ : ∀ i, V i) :
    Consistent programs s₀ (start programs s₀) := by
  have hidle : ∀ (t : Nat) x, (start programs s₀).sessions[t]? = some x → x = .idle := by
    intro t x h
    obtain ⟨_, _, rfl⟩ := List.mem_map.mp (List.mem_of_getElem? h)
    rfl
  refine ⟨List.length_map _, ?_, ?_, [], .nil, List.nodup_nil, ?_⟩
  · intro t todo p h
    cases hidle t _ h
  · intro t u x y i _ hx _ hxi
    rw [hidle t x hx] at hxi
    cases hxi
  · intro t o
    refine ⟨fun h => (List.not_mem_nil h).elim, ?_⟩
    rintro ⟨x, hx, ho⟩
    rw [hidle t x hx] at ho
    cases ho

section Replace
variable {old x : Session V E} {c : ∀ i, V i}

/-- A session that holds nothing new but what was unlocked keeps the locks exclusive. -/
theorem Consistent.exclusive_set (h : Consistent programs s₀ d) (ht : d.sessions[t]? = some old)
    (hx : ∀ i, x.holds i = true → old.holds i = true ∨ d.locked t i = false) :
    ∀ (u u' : Nat) y y' i, u ≠ u' → (d.sessions.set t x)[u]? = some y →
      (d.sessions.set t x)[u']? = some y' → y.holds i = true → y'.holds i = false := by
  have hone : ∀ (u : Nat) y i, u ≠ t → d.sessions[u]? = some y → x.holds i = true →
      y.holds i = false := by
    intro u y i hne hu hxi
    rcases hx i hxi with hold | hfree
    · exact h.exclusive t u old y i hne.symm ht hu hold
    · exact locked_eq_false hfree hu hne
  intro u u' y y' i hne hu hu' hyi
  rcases getElem?_set_cases hu with ⟨hut, rfl⟩ | ⟨hut, hold⟩
  · rcases getElem?_set_cases hu' with ⟨hut', _⟩ | ⟨hut', hold'⟩
    · exact absurd (hut.trans hut'.symm) hne
    · exact hone u' y' i hut' hold' hyi
  · rcases getElem?_set_cases hu' with ⟨_, rfl⟩ | ⟨_, hold'⟩
    · cases hx' : y'.holds i with
      | false => rfl
      | true =>
          rw [hone u y i hut hold hx'] at hyi
          cases hyi
    · exact h.exclusive u u' y y' i hne hold hold' hyi

/-- A step that decides nothing leaves the serial order as it is. -/
theorem SerialTo.keep {log : List (Nat × Except E Unit)} (h : SerialTo programs s₀ d log)
    (ht : d.sessions[t]? = some old) (ho : x.outcome? = old.outcome?) :
    SerialTo programs s₀ ⟨d.committed, d.sessions.set t x⟩ log := by
  refine ⟨h.applied, h.nodup, fun u o => (h.decided u o).trans ⟨?_, ?_⟩⟩
  · rintro ⟨y, hy, hyo⟩
    by_cases hu : u = t
    · subst hu
      rw [ht] at hy
      cases hy
      refine ⟨x, List.getElem?_set_self ?_, ho.trans hyo⟩
      exact (List.getElem?_eq_some_iff.mp ht).1
    · exact ⟨y, (List.getElem?_set_ne (Ne.symm hu)).trans hy, hyo⟩
  · rintro ⟨y, hy, hyo⟩
    rcases getElem?_set_cases hy with ⟨rfl, rfl⟩ | ⟨_, hy⟩
    · exact ⟨old, ht, ho ▸ hyo⟩
    · exact ⟨y, hy, hyo⟩

/-- A transaction that is decided takes the last place in the serial order. -/
theorem SerialTo.snoc {log : List (Nat × Except E Unit)} (h : SerialTo programs s₀ d log)
    (ht : d.sessions[t]? = some old) (hold : old.outcome? = none) {o : Except E Unit}
    (ho : x.outcome? = some o) (happ : Applies programs d.committed (t, o) c) :
    SerialTo programs s₀ ⟨c, d.sessions.set t x⟩ (log ++ [(t, o)]) := by
  have hundecided : ∀ o', (t, o') ∉ log := by
    intro o' hmem
    obtain ⟨y, hy, hyo⟩ := (h.decided t o').mp hmem
    rw [ht] at hy
    cases hy
    rw [hold] at hyo
    cases hyo
  refine ⟨h.applied.append (.cons happ .nil), ?_, fun u o' => ?_⟩
  · rw [List.map_append, List.nodup_append]
    refine ⟨h.nodup, by simp, ?_⟩
    rintro u hu _ hut rfl
    obtain ⟨⟨u', o'⟩, hmem, rfl⟩ := List.mem_map.mp hu
    simp only [List.map_cons, List.map_nil, List.mem_singleton] at hut
    subst hut
    exact hundecided o' hmem
  · have hset : (d.sessions.set t x)[t]? = some x :=
      List.getElem?_set_self (List.getElem?_eq_some_iff.mp ht).1
    rw [List.mem_append, h.decided u o', List.mem_singleton]
    refine ⟨?_, ?_⟩
    · rintro (⟨y, hy, hyo⟩ | heq)
      · have hne : u ≠ t := by
          rintro rfl
          exact hundecided o' ((h.decided u o').mpr ⟨y, hy, hyo⟩)
        exact ⟨y, (List.getElem?_set_ne hne.symm).trans hy, hyo⟩
      · cases heq
        exact ⟨x, hset, ho⟩
    · rintro ⟨y, hy, hyo⟩
      rcases getElem?_set_cases hy with ⟨rfl, rfl⟩ | ⟨_, hy⟩
      · rw [ho] at hyo
        cases hyo
        exact .inr rfl
      · exact .inl ⟨y, hy, hyo⟩

/-- A step that commits nothing leaves what the other sessions have run as it is. -/
theorem Consistent.executed_set (h : Consistent programs s₀ d)
    (hx : ∀ todo p, x = .running todo p →
      ∃ pre, programs[t]? = some (.ok (pre ++ todo)) ∧ run d.committed pre clean = .ok p) :
    ∀ (u : Nat) todo p, (d.sessions.set t x)[u]? = some (.running todo p) →
      ∃ pre, programs[u]? = some (.ok (pre ++ todo)) ∧ run d.committed pre clean = .ok p := by
  intro u todo p hu
  rcases getElem?_set_cases hu with ⟨rfl, hx'⟩ | ⟨_, hu⟩
  · exact hx todo p hx'.symm
  · exact h.executed u todo p hu

end Replace

/-- **One step of the invariant.** -/
theorem Consistent.step (hinert : Inert programs) (h : Consistent programs s₀ d)
    (hstep : next programs d t = some d') : Consistent programs s₀ d' := by
  obtain ⟨log, hlog⟩ := h.serial
  rcases next_cases hstep with ⟨l, ht, hp, rfl⟩ | ⟨e, ht, hp, rfl⟩ | ⟨p, ht, rfl⟩ |
    ⟨st, rest, p, e, ht, he, rfl⟩ | ⟨st, rest, p, q, ht, hfree, hq, hnew, rfl⟩ | ⟨e, p, ht, rfl⟩
  · -- it opens its transaction
    refine ⟨(List.length_set ..).trans h.length, h.executed_set ?_, h.exclusive_set ht ?_,
      log, hlog.keep ht rfl⟩
    · rintro todo p ⟨⟩
      exact ⟨[], hp, rfl⟩
    · intro i hi
      cases hi
  · -- it fails before it opens one
    refine ⟨(List.length_set ..).trans h.length, h.executed_set ?_, h.exclusive_set ht ?_,
      _, hlog.snoc ht rfl rfl ⟨_, hp, rfl⟩⟩
    · rintro todo p ⟨⟩
    · intro i hi
      cases hi
  · -- it commits: no other session has so much as looked at a row it wrote
    obtain ⟨l, hl, hrun⟩ := h.executed t [] p ht
    rw [List.append_nil] at hl
    refine ⟨(List.length_set ..).trans h.length, ?_, h.exclusive_set ht ?_,
      _, hlog.snoc ht rfl rfl ⟨_, hl, ?_⟩⟩
    · intro u todo p' hu
      rcases getElem?_set_cases hu with ⟨_, hx⟩ | ⟨hne, hu⟩
      · cases hx
      · obtain ⟨pre, hpre, hrun'⟩ := h.executed u todo p' hu
        refine ⟨pre, hpre, (run_congr (fun a ha => ?_) clean).trans hrun'⟩
        cases hpa : p a.row with
        | none => simp [view, hpa]
        | some v =>
            exfalso
            have hsome : (p a.row).isSome = true := by rw [hpa]; rfl
            have hfree := h.exclusive t u _ _ a.row hne.symm ht hu hsome
            have huntouched : a.run (d.committed a.row) = .ok none :=
              run_untouched hrun' ha (by simpa [Session.holds] using hfree)
            obtain ⟨b, hb, hrow, w, hw⟩ := run_touched hrun rfl hsome
            exact hinert _ (List.mem_of_getElem? hpre) _ (List.mem_of_getElem? hl) a
              (List.mem_append_left _ ha) b hb hrow.symm d.committed huntouched w hw
    · intro i hi
      cases hi
    · simp only [atomic, exec_of_run, hrun, Except.map]
  · -- a statement refuses it, on the rows committed now and its own
    obtain ⟨pre, hpre, hrun⟩ := h.executed t _ p ht
    refine ⟨(List.length_set ..).trans h.length, h.executed_set ?_, h.exclusive_set ht ?_,
      _, hlog.snoc ht rfl rfl ⟨_, hpre, ?_⟩⟩
    · rintro todo p ⟨⟩
    · exact fun i hi => .inl hi
    · have hrefused : run d.committed (pre ++ st :: rest) clean = .error e := by
        rw [run_append pre (st :: rest) hrun]
        simp only [run, he]
      simp only [atomic, exec_of_run, hrefused, Except.map]
  · -- a statement runs
    obtain ⟨pre, hpre, hrun⟩ := h.executed t _ p ht
    refine ⟨(List.length_set ..).trans h.length, h.executed_set ?_, h.exclusive_set ht ?_,
      log, hlog.keep ht rfl⟩
    · rintro todo p ⟨⟩
      exact ⟨pre ++ [st], by rw [hpre]; simp, (run_append pre [st] hrun).trans hq⟩
    · intro i hi
      rcases hnew i hi with hi | rfl
      exacts [.inl hi, .inr hfree]
  · -- it rolls back
    refine ⟨(List.length_set ..).trans h.length, h.executed_set ?_, h.exclusive_set ht ?_,
      log, hlog.keep ht rfl⟩
    · rintro todo p ⟨⟩
    · intro i hi
      cases hi

/-- **Serializability.** When every session has ended, the whole transactions one after the other,
in some order, end the same way each and leave the same rows. -/
theorem serializable (hinert : Inert programs) {sched : List Nat}
    (hrun : Run (Steps (next programs)) (start programs s₀) sched d)
    (hended : ∀ x ∈ d.sessions, ∃ o, x = .ended o) :
    ∃ log : List (Nat × Except E Unit),
      (log.map Prod.fst).Perm (List.range programs.length) ∧
      (∀ t o, (t, o) ∈ log ↔ d.sessions[t]? = some (.ended o)) ∧
      Run (Applies programs) s₀ log d.committed := by
  have h : Consistent programs s₀ d :=
    hrun.invariant (fun a t b ha hab => ha.step hinert hab) (start_consistent programs s₀)
  obtain ⟨log, hlog⟩ := h.serial
  have hdecided : ∀ t o, (t, o) ∈ log ↔ d.sessions[t]? = some (.ended o) := by
    intro t o
    rw [hlog.decided]
    refine ⟨?_, fun ht => ⟨_, ht, rfl⟩⟩
    rintro ⟨x, hx, hxo⟩
    obtain ⟨o', rfl⟩ := hended x (List.mem_of_getElem? hx)
    cases hxo
    exact hx
  refine ⟨log, (List.perm_ext_iff_of_nodup hlog.nodup List.nodup_range).mpr fun t => ?_, hdecided,
    hlog.applied⟩
  rw [List.mem_range, ← h.length]
  refine ⟨fun ht => ?_, fun ht => ?_⟩
  · obtain ⟨⟨u, o⟩, hmem, rfl⟩ := List.mem_map.mp ht
    exact (List.getElem?_eq_some_iff.mp ((hdecided u o).mp hmem)).1
  · obtain ⟨o, ho⟩ := hended _ (List.getElem_mem ht)
    refine List.mem_map.mpr ⟨(t, o), (hdecided t o).mpr ?_, rfl⟩
    rw [List.getElem?_eq_getElem ht, ho]

end Database

end RowLock
