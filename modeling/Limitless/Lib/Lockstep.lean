import Limitless.Lib.Runs

/-!
# Two systems in lockstep

Two runs of one step function under the same events, from states that a relation `R` relates. What
the steps ask of the part of the state that `R` leaves open is an `ask`: most events ask nothing
and some get an answer. `transcript` is the list of the answers along a run. Where related states
ask the same questions, and the same answer leads to related states, equal transcripts lead to
related ends: all that a run shows of what `R` leaves open is its transcript.
-/

namespace Runs

universe u v w
variable {σ : Type u} {ε : Type v} {β : Type w}

/-- The answers that the events get, in order, as long as they are enabled. -/
def transcript (next : σ → ε → Option σ) (ask : σ → ε → Option β) : σ → List ε → List β
  | _, [] => []
  | s, e :: es =>
    (ask s e).toList ++ (next s e).elim [] fun t => transcript next ask t es

variable {next : σ → ε → Option σ} {ask : σ → ε → Option β}

theorem transcript_cons {s t : σ} {e : ε} (h : next s e = some t) (es : List ε) :
    transcript next ask s (e :: es) = (ask s e).toList ++ transcript next ask t es := by
  simp only [transcript, h, Option.elim_some]

/-- Answers to the same question that start equal lists are the same answer. -/
theorem toList_append_inj {a b : Option β} {l m : List β} (hsome : a.isSome = b.isSome)
    (h : a.toList ++ l = b.toList ++ m) : a = b ∧ l = m := by
  cases a with
  | none =>
      cases b with
      | none => exact ⟨rfl, h⟩
      | some y => cases hsome
  | some x =>
      cases b with
      | none => cases hsome
      | some y =>
          obtain ⟨rfl, hrest⟩ := List.cons.inj h
          exact ⟨rfl, hrest⟩

/-- **Lockstep rule.** Where related states ask the same and go on to related states under the same
answer, runs with the same transcript stay related. -/
theorem lockstep {R : σ → σ → Prop} {s s' t : σ} {es : List ε}
    (hask : ∀ a a', R a a' → ∀ e, (ask a e).isSome = (ask a' e).isSome)
    (hstep : ∀ a a' e b, R a a' → next a e = some b → ask a e = ask a' e →
      ∃ b', next a' e = some b' ∧ R b b')
    (hs : R s s') (hrun : Run (Steps next) s es t)
    (hsame : transcript next ask s es = transcript next ask s' es) :
    ∃ t', Run (Steps next) s' es t' ∧ R t t' := by
  induction hrun generalizing s' with
  | nil => exact ⟨s', .nil, hs⟩
  | @cons a b t e es hab _ ih =>
      rw [transcript_cons hab] at hsame
      obtain ⟨hanswer, -⟩ := toList_append_inj (hask a s' hs e) hsame
      obtain ⟨b', hb', hR⟩ := hstep a s' e b hs hab hanswer
      rw [transcript_cons hb'] at hsame
      obtain ⟨-, hrest⟩ := toList_append_inj (hask a s' hs e) hsame
      obtain ⟨t', hrun', ht⟩ := ih hR hrest
      exact ⟨t', .cons hb' hrun', ht⟩

end Runs
