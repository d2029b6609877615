import Limitless.Harness.Controls
import Limitless.Harness.Names

/-!
# A key that the caller chooses

The second half of `caller_keyed_allowance` of `harness/controls.py`: the loop of
`_spend_until_refused` with an identifier of its own for each request. Each request is the only one
that is counted under its key, so each finds the whole allowance: however small it is, so long as a
request fits into it, the repair refuses none of them (`rotation_is_never_refused`).
-/

namespace Limitless.Vulnerable

open Indexed Runs

variable {cfg : Config} {w w' : World} {e : Event} {t : Task} {halfFix : HalfFix} {key : String}

/-! ## What others do to a key -/

/-- **Step lemma.** Events of requests that are not counted under a key leave its counters alone. -/
theorem quiet_step (h : ∀ t ∈ w.tasks, t.Quiet halfFix key)
    (harrives : ∀ q, e = .arrive q → ¬ q.Names halfFix key) (hnext : w.next cfg e = some w') :
    (∀ t ∈ w'.tasks, t.Quiet halfFix key) ∧
      w'.service.counters halfFix key = w.service.counters halfFix key := by
  cases moves_of_next hnext with
  | arrived =>
      refine ⟨forall_mem_concat h (.inr ⟨fun u hu => ?_, harrives _ rfl⟩), rfl⟩
      cases hu
  | advanced hi hadvance =>
      obtain ⟨hquiet, hcounters⟩ := (step_of_advance hadvance).quiet (h _ (List.mem_of_getElem? hi))
      exact ⟨forall_mem_set hquiet h, hcounters⟩
  | struck | timedOut => exact ⟨forall_mem_set (.raise _ _) h, rfl⟩
  | served _ hi => exact ⟨forall_mem_set ((h _ (List.mem_of_getElem? hi)).call _) h, rfl⟩
  | woke => exact ⟨List.forall_mem_map.mpr fun t ht => (h t ht).call _, rfl⟩
  | quiet => exact ⟨h, rfl⟩

/-- **Run lemma.** So does every run of them. -/
theorem quiet_run {es : List Event} (h : ∀ t ∈ w.tasks, t.Quiet halfFix key)
    (harrives : ∀ q, .arrive q ∈ es → ¬ q.Names halfFix key)
    (hrun : Run (Steps (World.next cfg)) w es w') :
    (∀ t ∈ w'.tasks, t.Quiet halfFix key) ∧
      w'.service.counters halfFix key = w.service.counters halfFix key := by
  refine hrun.invariant_mem (I := fun a => (∀ t ∈ a.tasks, t.Quiet halfFix key) ∧
    a.service.counters halfFix key = w.service.counters halfFix key) ?_ ⟨h, rfl⟩
  rintro a e he b ⟨hquiet, hcounters⟩ hnext
  obtain ⟨hquiet', hcounters'⟩ := quiet_step hquiet (fun q hq => harrives q (hq ▸ he)) hnext
  exact ⟨hquiet', hcounters'.trans hcounters⟩

/-! ## The keys of the loop -/

namespace Spending

/-- The identifier of a request. -/
def rotated (sequence : ℕ) : String := "rotated-" ++ toString sequence

/-- The loop as it would be with the identifier of one of its requests throughout. -/
def steady (p : Spending) (sequence : ℕ) : Spending :=
  { p with rotate := false, clientId := some (rotated sequence) }

theorem rotated_inj {m n : ℕ} (h : rotated m = rotated n) : m = n := by
  have hlist := congrArg String.toList h
  simp only [rotated, String.toList_append, List.append_cancel_left_eq] at hlist
  exact Int.ofNat_inj.mp
    (Fixtures.toString_inj (Int.natCast_nonneg m) (Int.natCast_nonneg n) hlist)

theorem rotated_ne_empty (sequence : ℕ) : rotated sequence ≠ "" := by
  intro h
  have hlist := congrArg String.toList h
  simp [rotated] at hlist

variable {p : Spending}

theorem steady_request (hrotate : p.rotate = true) (sequence : ℕ) :
    (p.steady sequence).request sequence = p.request sequence := by
  simp [request, steady, hrotate, rotated, names]

theorem steady_key (hfix : p.halfFix = .callerKeyedAllowance) (sequence : ℕ) :
    (p.steady sequence).key = rotated sequence := by
  simp [key, steady, hfix, HalfFixState.keyFor, rotated_ne_empty]

/-- A request of the loop is counted under its own identifier. -/
theorem request_names (hrotate : p.rotate = true) {m n : ℕ}
    (h : (p.request m).Names .callerKeyedAllowance (rotated n)) : m = n := by
  obtain ⟨-, u, -, hkey⟩ := h
  rw [show (p.request m).clientId = some (rotated m) by simp [request, hrotate, rotated]] at hkey
  simp only [HalfFixState.keyFor, if_true, rotated_ne_empty, if_false] at hkey
  exact rotated_inj hkey

end Spending

/-! ## The loop -/

/-- The loop, from a sequence number on whose keys have counted nothing. -/
theorem UntilRefused.rotates {others : Request → Prop} {p : Spending}
    {n sequence allowanceCents admittedCents inputBytes : ℕ} {tasks : List Task}
    (hfix : p.halfFix = .callerKeyedAllowance) (hrotate : p.rotate = true)
    (hothers : ∀ q, others q → ∀ k, ¬ q.Names .callerKeyedAllowance (Spending.rotated k))
    (hfits : p.records * cfg.priceCents ≤ allowanceCents)
    (hrun : UntilRefused cfg others p sequence n w admittedCents inputBytes tasks w') :
    (∀ k ≥ sequence, w.service.counters .callerKeyedAllowance (Spending.rotated k)
        (p.request k).replica = some (0, allowanceCents)) →
      (∀ k ≥ sequence, ∀ t ∈ w.tasks, t.Quiet .callerKeyedAllowance (Spending.rotated k)) →
      (∀ t ∈ tasks, t.Undisturbed → t.created = true) ∧
        ((∀ t ∈ tasks, t.Undisturbed) →
          tasks.length = n ∧ admittedCents = n * (p.records * cfg.priceCents)) := by
  -- a request whose key has counted nothing is not refused by the repair
  have hfirst : ∀ {sequence : ℕ} {w w' : World} {t : Task},
      Served cfg others w (p.request sequence) t w' →
      w.service.counters .callerKeyedAllowance (Spending.rotated sequence)
        (p.request sequence).replica = some (0, allowanceCents) →
      (∀ t ∈ w.tasks, t.Quiet .callerKeyedAllowance (Spending.rotated sequence)) →
      t.Undisturbed → t.created = true := by
    intro sequence w w' t hserved hcounter hquiet hundisturbed
    have hkey := Spending.steady_key hfix sequence
    have hsteadyFix : (p.steady sequence).halfFix = .callerKeyedAllowance := hfix
    rw [← Spending.steady_request hrotate sequence] at hserved hcounter
    have hsteady : (p.steady sequence).Steady := .inr ⟨hfix, rfl⟩
    have hspec := hserved.spec hsteady
      (by rwa [hsteadyFix, hkey])
      (fun q hq => by rw [hsteadyFix, hkey]; exact hothers q hq sequence)
      (by rwa [hsteadyFix, hkey]) hundisturbed
    rcases hspec.2 with ⟨hcreated, -⟩ | ⟨-, hover, -⟩
    · exact hcreated
    · rw [zero_add] at hover
      exact absurd hfits (not_le.mpr hover)
  induction hrun with
  | limit => exact fun _ _ => ⟨fun t ht => absurd ht List.not_mem_nil, fun _ => by simp⟩
  | @refused sequence n w w' t hserved hcreated =>
      intro hcounters hquiet
      have hnot : ¬ t.Undisturbed := by
        intro hundisturbed
        cases hcreated.symm.trans
          (hfirst hserved (hcounters _ le_rfl) (hquiet _ le_rfl) hundisturbed)
      refine ⟨fun x hx hx' => ?_, fun hall => absurd (hall t List.mem_cons_self) hnot⟩
      obtain rfl := List.mem_singleton.mp hx
      exact absurd hx' hnot
  | @admitted sequence n admittedCents inputBytes w w₁ w₂ t tasks hserved hcreated _ ih =>
      intro hcounters hquiet
      -- the keys of the later requests are as they were
      have hlater : ∀ k ≥ sequence + 1,
          (∀ x ∈ w₁.tasks, x.Quiet .callerKeyedAllowance (Spending.rotated k)) ∧
            w₁.service.counters .callerKeyedAllowance (Spending.rotated k) =
              w.service.counters .callerKeyedAllowance (Spending.rotated k) := by
        intro k hk
        obtain ⟨es, hrun, -, -, hes⟩ := hserved
        refine quiet_run (hquiet k (by omega)) (fun q hq => ?_) hrun
        rcases List.mem_cons.mp hq with hq | hq
        · cases hq
          intro hnames
          have heq := Spending.request_names hrotate hnames
          omega
        · exact hothers q (hes q hq) k
      obtain ⟨hcreates, htotal⟩ := ih
        (fun k hk => by rw [(hlater k hk).2]; exact hcounters k (by omega))
        (fun k hk => (hlater k hk).1)
      refine ⟨List.forall_mem_cons.mpr ⟨fun _ => hcreated, hcreates⟩, fun hall => ?_⟩
      obtain ⟨hlength, hadmitted⟩ := htotal fun x hx => hall x (List.mem_cons_of_mem _ hx)
      rw [List.length_cons, hlength, hadmitted]
      exact ⟨rfl, by ring⟩

/-- **A key that the caller rotates holds nothing.** However small the allowance of the repair that
counts by the caller's identifier is, so long as one request fits into it, it refuses no request of
a loop that sends each with an identifier of its own: every one that nothing else refuses is
created, and where nothing else refuses any, all that the loop asks for is admitted. -/
theorem rotation_is_never_refused {others : Request → Prop} {p : Spending}
    {limit allowanceCents admittedCents inputBytes : ℕ} {tasks : List Task}
    (hfix : p.halfFix = .callerKeyedAllowance) (hrotate : p.rotate = true)
    (hcounters : ∀ k, w.service.counters .callerKeyedAllowance (Spending.rotated k)
      (p.request k).replica = some (0, allowanceCents))
    (hquiet : ∀ k, ∀ t ∈ w.tasks, t.Quiet .callerKeyedAllowance (Spending.rotated k))
    (hothers : ∀ q, others q → ∀ k, ¬ q.Names .callerKeyedAllowance (Spending.rotated k))
    (hfits : p.records * cfg.priceCents ≤ allowanceCents)
    (hrun : UntilRefused cfg others p 1 limit w admittedCents inputBytes tasks w') :
    (∀ t ∈ tasks, t.Undisturbed → t.created = true) ∧
      ((∀ t ∈ tasks, t.Undisturbed) →
        tasks.length = limit ∧ admittedCents = limit * (p.records * cfg.priceCents)) :=
  hrun.rotates hfix hrotate hothers hfits (fun k _ => hcounters k) fun k _ => hquiet k

/-- The demonstration's loop with the caller's own identifiers, a new one each time. -/
def Spending.rotating : Spending :=
  { Spending.demo with halfFix := .callerKeyedAllowance, rotate := true }

theorem two_rotated_requests : ∃ inputBytes tasks w,
    UntilRefused (.demo 4) (fun _ => False) .rotating 1 2 (.start (.demo 4) .demo 2 8) 16 inputBytes
      tasks w ∧ tasks.length = 2 := by
  have hfix := parseHalfFix_value .callerKeyedAllowance
  have hrun : ∃ v₁ u₁ w₁ t₁ v₂ u₂ w₂ t₂,
      (replay (World.next (.demo 4)) (.start (.demo 4) .demo 2 8)
          (askEvents (Spending.rotating.request 1) 0) = some v₁ ∧
        v₁.next (.demo 4) (.advance 0) = some u₁ ∧
        replay (World.next (.demo 4)) u₁ (spendEvents 0) = some w₁ ∧
        w₁.tasks[0]? = some t₁ ∧ t₁.pc.isEnded = true ∧ t₁.created = true ∧ t₁.raised = none) ∧
      (replay (World.next (.demo 4)) w₁
          (askEvents (Spending.rotating.request 2) w₁.tasks.length) = some v₂ ∧
        v₂.next (.demo 4) (.advance w₁.tasks.length) = some u₂ ∧
        replay (World.next (.demo 4)) u₂ (spendEvents 1) = some w₂ ∧
        w₂.tasks[w₁.tasks.length]? = some t₂ ∧ t₂.pc.isEnded = true ∧ t₂.created = true ∧
        t₂.raised = none) :=
    ⟨_, _, _, _, _, _, _, _,
      ⟨rfl, World.next_select rfl rfl hfix rfl rfl, rfl, rfl, rfl, rfl, rfl⟩,
      ⟨rfl, World.next_select rfl rfl hfix rfl rfl, rfl, rfl, rfl, rfl, rfl⟩⟩
  obtain ⟨v₁, u₁, w₁, t₁, v₂, u₂, w₂, t₂,
    ⟨hask₁, hselect₁, hspend₁, ht₁, hended₁, hcreated₁, hraised₁⟩,
    ⟨hask₂, hselect₂, hspend₂, ht₂, hended₂, hcreated₂, hraised₂⟩⟩ := hrun
  have hevents : ∀ i r, Event.arrive r ∉ spendEvents i := by
    intro i r
    simp [spendEvents]
  have hloop : UntilRefused (.demo 4) (fun _ => False) .rotating 1 2
      (.start (.demo 4) .demo 2 8) 16 _ [t₁, t₂] w₂ :=
    .admitted (served_of_replay hask₁ hselect₁ hspend₁ ht₁ hended₁ (hevents 0)) hcreated₁
      (.admitted (served_of_replay hask₂ hselect₂ hspend₂ ht₂ hended₂ (hevents 1)) hcreated₂ .limit)
  refine ⟨_, _, w₂, hloop, ?_⟩
  have hrotation := rotation_is_never_refused rfl rfl (fun k => ?_)
    (by simp [World.start]) (by simp) (show 2 * 4 ≤ 8 by decide) hloop
  · refine (hrotation.2 fun t ht => ?_).1
    rcases List.mem_pair.mp ht with rfl | rfl
    exacts [.inl hraised₁, .inl hraised₂]
  · have hreplica : (Spending.rotating.request k).replica = 0 ∨
        (Spending.rotating.request k).replica = 1 := by
      show (if _ then 0 else 1) = 0 ∨ (if _ then 0 else 1) = 1
      split
      exacts [.inl rfl, .inr rfl]
    rcases hreplica with hreplica | hreplica
    all_goals
      rw [hreplica]
      rfl

end Limitless.Vulnerable
