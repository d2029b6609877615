import Mathlib.Data.List.Induction
import Mathlib.Order.MinMax

/-!
# Runs of a labelled step relation

A system is a relation `step : σ → ε → σ → Prop` between states, labelled by events. `Run step`
is its closure over lists of events, oldest first. `Run.invariant` carries a state predicate along
a run, and `restrict` is the relation whose steps also satisfy a side condition. `replay` is the
executable form of a run for a step function, and `run_of_replay` turns a computed replay into a
`Run`.
-/

namespace Runs

universe u v
variable {σ : Type u} {ε : Type v}

/-- The events `es`, taken in order, lead from the first state to the last. -/
inductive Run (step : σ → ε → σ → Prop) : σ → List ε → σ → Prop
  | nil {s : σ} : Run step s [] s
  | cons {s t r : σ} {e : ε} {es : List ε} :
      step s e t → Run step t es r → Run step s (e :: es) r

variable {step : σ → ε → σ → Prop} {s t r : σ} {es fs : List ε}

/-- **Invariant rule.** What holds at the start of a run and is kept by every step holds at its
end. -/
theorem Run.invariant {I : σ → Prop} (hrun : Run step s es t)
    (hstep : ∀ a e b, I a → step a e b → I b) (hs : I s) : I t := by
  induction hrun with
  | nil => exact hs
  | cons h _ ih => exact ih (hstep _ _ _ hs h)

/-- The invariant rule where a step may use that its event is one of the run's. -/
theorem Run.invariant_mem {I : σ → Prop} (hrun : Run step s es t)
    (hstep : ∀ a, ∀ e ∈ es, ∀ b, I a → step a e b → I b) (hs : I s) : I t := by
  induction hrun with
  | nil => exact hs
  | cons h _ ih =>
      exact ih (fun a e he b => hstep a e (List.mem_cons_of_mem _ he) b)
        (hstep _ _ List.mem_cons_self _ hs h)

/-- The invariant rule for what is said of a state and of the events that led to it. -/
theorem Run.invariant_trace {I : List ε → σ → Prop} (hrun : Run step s es t)
    (hstep : ∀ gs a e b, I gs a → step a e b → I (gs ++ [e]) b) (hs : I [] s) : I es t := by
  suffices hfrom : ∀ gs, I gs s → I (gs ++ es) t from hfrom [] hs
  clear hs
  induction hrun with
  | nil =>
      intro gs hgs
      rwa [List.append_nil]
  | @cons a b r e es h _ ih =>
      intro gs hgs
      have hnext := ih _ (hstep gs a e b hgs h)
      rwa [List.append_assoc, List.singleton_append] at hnext

/-- Two runs compose. -/
theorem Run.append (h₁ : Run step s es t) (h₂ : Run step t fs r) : Run step s (es ++ fs) r := by
  induction h₁ with
  | nil => exact h₂
  | cons h _ ih => exact .cons h (ih h₂)

/-- A run goes on with a step. -/
theorem Run.snoc {e : ε} (h : Run step s es t) (hstep : step t e r) : Run step s (es ++ [e]) r :=
  h.append (.cons hstep .nil)

/-- A run is empty, or it has a last step. -/
theorem Run.eq_or_snoc (h : Run step s es t) :
    es = [] ∧ s = t ∨ ∃ gs e a, es = gs ++ [e] ∧ Run step s gs a ∧ step a e t := by
  refine h.invariant_trace (I := fun es t => es = [] ∧ s = t ∨
    ∃ gs e a, es = gs ++ [e] ∧ Run step s gs a ∧ step a e t) (fun gs a e b ha hab => ?_)
    (.inl ⟨rfl, rfl⟩)
  rcases ha with ⟨rfl, rfl⟩ | ⟨gs, f, m, rfl, hrun, hlast⟩
  · exact .inr ⟨[], e, s, rfl, .nil, hab⟩
  · exact .inr ⟨gs ++ [f], e, a, rfl, hrun.snoc hlast, hab⟩

/-- A run of a stronger step relation is a run of a weaker one. -/
theorem Run.mono {step' : σ → ε → σ → Prop} (hle : ∀ a e b, step a e b → step' a e b)
    (h : Run step s es t) : Run step' s es t := by
  induction h with
  | nil => exact .nil
  | cons h _ ih => exact .cons (hle _ _ _ h) ih

/-- Where no state has two steps, two runs to states with none are the same run. -/
theorem Run.unique {es' : List ε} {t' : σ}
    (hdet : ∀ a e b e' b', step a e b → step a e' b' → e = e' ∧ b = b')
    (h : Run step s es t) (h' : Run step s es' t') (ht : ∀ e b, ¬ step t e b)
    (ht' : ∀ e b, ¬ step t' e b) : es = es' ∧ t = t' := by
  induction h generalizing es' with
  | nil =>
      cases h' with
      | nil => exact ⟨rfl, rfl⟩
      | cons hstep _ => exact absurd hstep (ht _ _)
  | cons hstep _ ih =>
      cases h' with
      | nil => exact absurd hstep (ht' _ _)
      | cons hstep' hrest =>
          obtain ⟨rfl, rfl⟩ := hdet _ _ _ _ _ hstep hstep'
          obtain ⟨rfl, rfl⟩ := ih hrest ht
          exact ⟨rfl, rfl⟩

/-- **Termination rule.** Where every unfinished state has a step that finishes or descends in a
well-founded order, every state has a run to a finished one. -/
theorem exists_run_of_wf {r : σ → σ → Prop} (hr : WellFounded r) (step : σ → ε → σ → Prop)
    (I done : σ → Prop)
    (hstep : ∀ a, I a → ¬ done a → ∃ e b, step a e b ∧ I b ∧ (done b ∨ r b a)) (hs : I s) :
    ∃ es t, Run step s es t ∧ I t ∧ done t := by
  induction s using hr.induction with
  | h s ih =>
      by_cases hd : done s
      · exact ⟨[], s, .nil, hs, hd⟩
      · obtain ⟨e, b, hab, hb, hdone | hlt⟩ := hstep s hs hd
        · exact ⟨[e], b, .cons hab .nil, hb, hdone⟩
        · obtain ⟨es, t, hrun, ht, hdone⟩ := ih b hlt hb
          exact ⟨e :: es, t, .cons hab hrun, ht, hdone⟩

/-- A measure that every step from an unfinished state lowers: every state has a run to a finished
one. -/
theorem exists_run_of_measure (step : σ → ε → σ → Prop) (I done : σ → Prop) (μ : σ → Nat)
    (hstep : ∀ a, I a → ¬ done a → ∃ e b, step a e b ∧ I b ∧ (done b ∨ μ b < μ a)) (hs : I s) :
    ∃ es t, Run step s es t ∧ I t ∧ done t :=
  exists_run_of_wf (measure μ).wf step I done hstep hs

/-- **Length rule.** A run whose every step lowers a measure is no longer than the measure. -/
theorem Run.length_le (μ : σ → Nat) (hstep : ∀ a e b, step a e b → μ b < μ a)
    (h : Run step s es t) : es.length + μ t ≤ μ s := by
  induction h with
  | nil => simp
  | cons hab _ ih =>
      have := hstep _ _ _ hab
      simp only [List.length_cons]
      omega

/-- The steps of `step` whose state and event satisfy `P`. -/
def restrict (P : σ → ε → Prop) (step : σ → ε → σ → Prop) : σ → ε → σ → Prop :=
  fun a e b => P a e ∧ step a e b

/-- A run whose every event satisfies a side condition. -/
theorem Run.restrict {P : σ → ε → Prop} (h : Run step s es t) (hP : ∀ a, ∀ e ∈ es, P a e) :
    Run (restrict P step) s es t := by
  induction h with
  | nil => exact .nil
  | cons hstep _ ih =>
      exact .cons ⟨hP _ _ List.mem_cons_self, hstep⟩
        (ih fun a e he => hP a e (List.mem_cons_of_mem _ he))

/-- Every event of a run restricted to some is one of them. -/
theorem Run.forall_of_restrict {P : ε → Prop}
    (h : Run (Runs.restrict (fun _ e => P e) step) s es t) : ∀ e ∈ es, P e := by
  induction h with
  | nil => exact fun e he => absurd he List.not_mem_nil
  | cons hstep _ ih => exact List.forall_mem_cons.mpr ⟨hstep.1, ih⟩

/-! ## Step functions -/

variable {next : σ → ε → Option σ}

/-- Replay events through a step function; `none` as soon as one of them is not enabled. -/
def replay (next : σ → ε → Option σ) : σ → List ε → Option σ
  | s, [] => some s
  | s, e :: es => (next s e).bind fun t => replay next t es

theorem replay_append (s : σ) (es fs : List ε) :
    replay next s (es ++ fs) = (replay next s es).bind fun t => replay next t fs := by
  induction es generalizing s with
  | nil => rfl
  | cons e es ih =>
      cases hs : next s e with
      | none => simp [replay, hs]
      | some m => simp [replay, hs, ih m]

/-- What the last event of a replay did. -/
theorem replay_concat {e : ε} (h : replay next s (es ++ [e]) = some t) :
    ∃ m, replay next s es = some m ∧ next m e = some t := by
  rw [replay_append] at h
  obtain ⟨m, hm, hlast⟩ := Option.bind_eq_some_iff.mp h
  obtain ⟨m', hm', hnil⟩ := Option.bind_eq_some_iff.mp hlast
  cases hnil
  exact ⟨m, hm, hm'⟩

/-- **High-water rule.** Where every step raises the mark `g` to the level `f` it reaches, the mark
at the end of a replay is the greatest level the replay has been at. -/
theorem high_water {f g : σ → Int} (hs : g s = f s)
    (hstep : ∀ a e b, f a ≤ g a → next a e = some b → g b = max (g a) (f b))
    (h : replay next s es = some t) :
    (∀ fs m, fs <+: es → replay next s fs = some m → f m ≤ g t) ∧
      ∃ fs m, fs <+: es ∧ replay next s fs = some m ∧ f m = g t := by
  induction es using List.reverseRecOn generalizing t with
  | nil =>
      cases h
      refine ⟨fun fs m hfs hm => ?_, [], s, List.prefix_rfl, rfl, hs.symm⟩
      rw [List.prefix_nil.mp hfs] at hm
      cases hm
      exact hs.ge
  | append_singleton es e ih =>
      obtain ⟨a, ha, hat⟩ := replay_concat h
      obtain ⟨hle, fs, m, hfs, hm, hmax⟩ := ih ha
      have hmark := hstep a e t (hle es a List.prefix_rfl ha) hat
      refine ⟨fun fs' m' hfs' hm' => ?_, ?_⟩
      · rcases List.prefix_concat_iff.mp hfs' with rfl | hfs'
        · rw [h] at hm'
          cases hm'
          omega
        · have := hle fs' m' hfs' hm'
          omega
      -- The mark is the new level, or the one an earlier state had already set.
      · rcases max_choice (g a) (f t) with hold | hnew
        · exact ⟨fs, m, hfs.trans (List.prefix_append es [e]), hm, by omega⟩
        · exact ⟨es ++ [e], t, List.prefix_rfl, h, by omega⟩

/-- The step relation of a step function. -/
def Steps (next : σ → ε → Option σ) : σ → ε → σ → Prop := fun a e b => next a e = some b

/-- A successful replay is a run. -/
theorem run_of_replay (h : replay next s es = some t) : Run (Steps next) s es t := by
  induction es generalizing s with
  | nil => cases h; exact .nil
  | cons e es ih =>
      obtain ⟨m, hm, hrest⟩ := Option.bind_eq_some_iff.mp h
      exact .cons hm (ih hrest)

/-- A system that goes on inside another as it does by itself has the same runs there. -/
theorem run_map_iff {σ' : Type*} {ε' : Type*} {next' : σ' → ε' → Option σ'} {g : σ → σ'}
    {h : ε → ε'} (hnext : ∀ a e, next' (g a) (h e) = (next a e).map g) {t' : σ'} :
    Run (Steps next') (g s) (es.map h) t' ↔ ∃ t, Run (Steps next) s es t ∧ t' = g t := by
  constructor
  · intro hrun
    induction es generalizing s with
    | nil =>
        cases hrun
        exact ⟨s, .nil, rfl⟩
    | cons e es ih =>
        cases hrun with
        | cons hstep hrest =>
            obtain ⟨m, hm, rfl⟩ := Option.map_eq_some_iff.mp ((hnext s e).symm.trans hstep)
            obtain ⟨t, hrun, rfl⟩ := ih hrest
            exact ⟨t, .cons hm hrun, rfl⟩
  · rintro ⟨t, hrun, rfl⟩
    induction hrun with
    | nil => exact .nil
    | @cons a b _ e _ hstep _ ih =>
        have hnext' : next a e = some b := hstep
        exact .cons ((hnext a e).trans (by rw [hnext', Option.map_some])) ih

/-- A replay whose every step passes the check `p` is a run restricted to `p`. -/
theorem run_of_replay_checked {p : σ → ε → Bool}
    (h : replay (fun a e => if p a e then next a e else none) s es = some t) :
    Run (restrict (fun a e => p a e = true) (Steps next)) s es t := by
  refine (run_of_replay h).mono fun a e b hab => ?_
  have hab' : (if p a e then next a e else none) = some b := hab
  split at hab'
  · exact ⟨‹_›, hab'⟩
  · cases hab'

end Runs
