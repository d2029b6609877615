import Limitless.Secure.Invariant

/-!
# A refused request leaves nothing behind

A request that ends in a `401`, a `400` or a refusal by a bound, by its tenant's allowance or by
the cap has done nothing, and one that was shed by the slot has reserved and released:
`Task.Sound.refused`, read off where a refusal can be raised. So it counts for nothing in any
figure the requests share. What is not a figure is left alone step by step: no step of a request
does what the trail it ends with does not show (`World.Sound.trail_grows`), so no step of a
refused one reached the provider, a limiter, the records or the jobs.
-/

namespace Limitless

open Indexed Runs

/-- The event is a step of the request. -/
def Event.isOf (i : Nat) : Event → Bool
  | advance j | fault j _ => j = i
  | _ => false

/-- Nothing is touched but the two budget tables. -/
structure Service.Aside (s s' : Service) : Prop where
  provider : s'.provider = s.provider
  limiters : s'.limiters = s.limiters
  records : s'.store.records = s.store.records
  jobs : s'.store.jobs = s.store.jobs

variable {cfg : Config} {s s' : Service} {t t' : Task} {exc : Exception}

/-! ## The past of a refused request -/

/-- **What a refused request has done.** Nothing, or a reservation and its release when the slot
shed it. -/
theorem Task.Sound.refused (hs : t.Sound cfg) (hpc : t.pc = .ended (.raised exc))
    (hexc : exc.isRefusal = true) : t.call = none ∧
      ((∀ op, exc ≠ .limitReached .capacityShed op) ∧ t.trail = [] ∨
        ∃ r op, exc = .limitReached .capacityShed op ∧ t.trail = [.reserved r, .settled r 0 0]) := by
  obtain ⟨e, he, last, before, hlive, hexit⟩ := hs.left (by rw [hpc]; rfl)
  rw [hpc] at he
  cases he
  rcases hexit with ⟨hexit, _⟩ | ⟨_, ⟨⟩, hframe, hrefuses, _⟩
  · cases hexit with
    | @raised w r attempted exc =>
        obtain ⟨⟨op, hop⟩, _, hcall, htrail⟩ := hlive.shed hexc
        exact ⟨hcall, .inr ⟨r, op, hop, htrail⟩⟩
  · obtain ⟨hop, hcall, htrail⟩ := hlive.refused hframe (hrefuses hexc)
    exact ⟨hcall, .inl ⟨hop, htrail⟩⟩

/-- It counts for nothing in the books. -/
theorem Task.Sound.refused_amounts (hs : t.Sound cfg) (hpc : t.pc = .ended (.raised exc))
    (hexc : exc.isRefusal = true) (a : Account) : amounts t.trail a = 0 := by
  rcases (hs.refused hpc hexc).2 with ⟨_, htrail⟩ | ⟨r, _, _, htrail⟩
  · rw [htrail]
    rfl
  · rw [htrail]
    simpa [amounts, Effect.amount] using r.released a

/-- What a step adds to the trail of a request that will be refused says the step was harmless. -/
theorem Acted.aside (hacted : Acted s t s' t') {trail : List Effect} (hgrown : t'.trail <+: trail)
    (htrail : trail = [] ∨ ∃ r, trail = [.reserved r, .settled r 0 0]) :
    s.Aside s' ∧ (trail = [] → s'.store = s.store) := by
  obtain ⟨new, hnew, hwrote, hlimiters⟩ := hacted.books
  have hmem : ∀ e ∈ new, e ∈ trail := fun e he =>
    hgrown.subset (hnew ▸ List.mem_append_right t.trail he)
  have habsent : ∀ e ∈ new, e.isWrite = true ∧ (∀ entries, e ≠ .upserted entries) ∧
      ∀ jobId, e ≠ .insertedJob jobId := by
    intro e he
    rcases htrail with rfl | ⟨r, rfl⟩
    · cases hmem e he
    · rcases List.mem_pair.mp (hmem e he) with rfl | rfl <;> exact ⟨rfl, by simp, by simp⟩
  refine ⟨⟨hacted.provider, hlimiters (fun h => ?_) fun h => ?_, hwrote.records fun entries h => ?_,
    hwrote.jobs fun jobId h => ?_⟩, fun hnil => hwrote.unchanged fun e he => ?_⟩
  · have := (habsent _ h).1
    cases this
  · have := (habsent _ h).1
    cases this
  · exact (habsent _ h).2.1 entries rfl
  · exact (habsent _ h).2.2 jobId rfl
  · have := hmem e he
    rw [hnil] at this
    cases this

/-! ## The steps of one request in a run -/

variable {s₀ : Store} {replicas : Nat} {w w' : World} {e : Event}

/-- A request stays where it is in the list, and its trail only grows. -/
theorem World.Sound.trail_grows (hs : World.Sound cfg s₀ replicas w) (hmoves : Moves cfg w e w')
    {i : Nat} (hi : w.tasks[i]? = some t) :
    ∃ t', w'.tasks[i]? = some t' ∧ t.trail <+: t'.trail := by
  have hset : ∀ {j : Nat} {u u' : Task}, w.tasks[j]? = some u → u.trail <+: u'.trail →
      ∃ t', (w.tasks.set j u')[i]? = some t' ∧ t.trail <+: t'.trail := fun hj hgrown =>
    exists_getElem?_set (P := fun u => t.trail <+: u.trail) hi List.prefix_rfl hj
      fun hprefix => hprefix.trans hgrown
  have hacted : ∀ {j : Nat} {u u' : Task} {s' : Service}, w.tasks[j]? = some u →
      Acted w.service u s' u' → ∃ t', (w.tasks.set j u')[i]? = some t' ∧ t.trail <+: t'.trail := by
    intro j u u' s' hj ha
    obtain ⟨new, hnew, _⟩ := ha.books
    exact hset hj (hnew ▸ List.prefix_append u.trail new)
  cases hmoves with
  | arrived =>
      have hlt := (List.getElem?_eq_some_iff.mp hi).1
      exact ⟨t, (List.getElem?_append_left hlt).trans hi, List.prefix_rfl⟩
  | advanced hj hstep => exact hacted hj (hs.of_advance hj hstep).2
  | struck hj hstep => exact hacted hj (hs.of_fault hj hstep).2
  | served _ hj _ _ => exact hset hj List.prefix_rfl
  | woke => exact ⟨{ t with call := t.call.map Call.wake }, by simp [hi], List.prefix_rfl⟩
  | reset => exact ⟨t, hi, List.prefix_rfl⟩
  | quiet => exact ⟨t, hi, List.prefix_rfl⟩

/-- So it does over a run. -/
theorem World.Sound.run_trail_grows {es : List Event} {i : Nat}
    (hrun : Run (Steps (World.next cfg)) w es w') (hs : World.Sound cfg s₀ replicas w)
    (hi : w.tasks[i]? = some t) : ∃ t', w'.tasks[i]? = some t' ∧ t.trail <+: t'.trail := by
  have h : World.Sound cfg s₀ replicas w' ∧
      ∃ t', w'.tasks[i]? = some t' ∧ t.trail <+: t'.trail := by
    refine hrun.invariant (I := fun x => World.Sound cfg s₀ replicas x ∧
      ∃ t', x.tasks[i]? = some t' ∧ t.trail <+: t'.trail) ?_ ⟨hs, t, hi, List.prefix_rfl⟩
    rintro a e b ⟨ha, t', ht', hgrown⟩ hstep
    have hmoves := moves_of_next hstep
    obtain ⟨t'', ht'', hgrown'⟩ := ha.trail_grows hmoves ht'
    exact ⟨ha.step hmoves, t'', ht'', hgrown.trans hgrown'⟩
  exact h.2

/-- A step of a request is an `Acted` of it. -/
theorem World.Sound.own_step (hs : World.Sound cfg s₀ replicas w) (hmoves : Moves cfg w e w')
    {i : Nat} (he : e.isOf i = true) :
    ∃ t t', w'.tasks[i]? = some t' ∧ Acted w.service t w'.service t' := by
  cases hmoves with
  | @advanced j t t' s' hj hstep =>
      obtain rfl : j = i := of_decide_eq_true he
      exact ⟨t, t', List.getElem?_set_self (List.getElem?_eq_some_iff.mp hj).1,
        (hs.of_advance hj hstep).2⟩
  | @struck j f t t' s' hj hstep =>
      obtain rfl : j = i := of_decide_eq_true he
      exact ⟨t, t', List.getElem?_set_self (List.getElem?_eq_some_iff.mp hj).1,
        (hs.of_fault hj hstep).2⟩
  | served hor => rcases hor with rfl | rfl <;> cases he
  | quiet _ hfault hadvance =>
      cases e with
      | advance j => exact absurd rfl (hadvance j)
      | fault j f => exact absurd rfl (hfault j f)
      | _ => cases he
  | _ => cases he

/-! ## Nothing left behind -/

/-- **A refused request leaves nothing behind.** In every run, for every request that ended in a
refusal: it sent nothing; what it did is nothing, or a reservation and its release if the slot shed
it; the books, the slots in use and the provider's occupancy are what the other requests account
for; and each of its own steps left the provider, the limiters, the records and the jobs as they
were, and the whole store too unless it was shed. -/
theorem refused_leaves_nothing {limiter : InFlightLimiter} {es : List Event} {i : Nat}
    (hl : InFlightLimiter.make cfg.maxInFlightUpstream = .ok limiter)
    (hrun : Run (Steps (World.next cfg)) (.start cfg s₀ replicas limiter) es w)
    (hi : w.tasks[i]? = some t) (hpc : t.pc = .ended (.raised exc))
    (hexc : exc.isRefusal = true) :
    t.call = none ∧
    ((∀ op, exc ≠ .limitReached .capacityShed op) ∧ t.trail = [] ∨
      ∃ r op, exc = .limitReached .capacityShed op ∧ t.trail = [.reserved r, .settled r 0 0]) ∧
    (∀ a, w.service.store.balance a =
      s₀.balance a + total (fun u => amounts u.trail a) (w.tasks.eraseIdx i)) ∧
    (∀ ρ, w.service.occupancy ρ = total (fun u => u.slots ρ) (w.tasks.eraseIdx i)) ∧
    w.service.provider.inFlight = total Task.occupies (w.tasks.eraseIdx i) ∧
    ∀ es₁ e es₂ w₁ w₂, Run (Steps (World.next cfg)) (.start cfg s₀ replicas limiter) es₁ w₁ →
      Steps (World.next cfg) w₁ e w₂ → Run (Steps (World.next cfg)) w₂ es₂ w → e.isOf i = true →
      w₁.service.Aside w₂.service ∧ (t.trail = [] → w₂.service.store = w₁.service.store) := by
  have hs := World.run_sound hl hrun
  have hsound := hs.task t (List.mem_of_getElem? hi)
  obtain ⟨hcall, htrail⟩ := hsound.refused hpc hexc
  refine ⟨hcall, htrail, fun a => ?_, fun ρ => ?_, ?_, fun es₁ e es₂ w₁ w₂ h₁ hstep h₂ he => ?_⟩
  · rw [total_eraseIdx _ hi, hsound.refused_amounts hpc hexc, hs.books]
    omega
  · have hslots : t.slots ρ = 0 := by simp [Task.slots, hpc, Pc.holdsSlot]
    rw [total_eraseIdx _ hi, hslots, hs.slots]
    omega
  · have hoccupies : t.occupies = 0 := by simp [Task.occupies, hcall]
    rw [total_eraseIdx _ hi, hoccupies, hs.inFlight]
    omega
  · have hs₁ := World.run_sound hl h₁
    have hmoves := moves_of_next hstep
    obtain ⟨t₁, t₂, ht₂, hacted⟩ := hs₁.own_step hmoves he
    obtain ⟨t₃, ht₃, hgrown⟩ := World.Sound.run_trail_grows h₂ (hs₁.step hmoves) ht₂
    obtain rfl : t₃ = t := Option.some.inj (ht₃.symm.trans hi)
    refine hacted.aside hgrown ?_
    rcases htrail with ⟨_, htrail⟩ | ⟨r, _, _, htrail⟩
    exacts [.inl htrail, .inr ⟨r, htrail⟩]

/-- With one slot, a second request is shed while the first has its lookup call out. -/
def shedByTheSlot : List Event :=
  [.arrive (.demo 0), .arrive (.demo 0)] ++ List.replicate 9 (.advance 0) ++
    List.replicate 10 (.advance 1)

/-- The slots, the reservation and the call that are left are the first request's. -/
theorem shed_request_leaves_nothing :
    ∃ w t, replay (World.next (.demo 1)) (.demo 1) shedByTheSlot = some w ∧
      w.tasks[1]? = some t ∧ t.pc = .ended (.raised (.limitReached .capacityShed .enrich)) ∧
      t.call = none ∧ t.trail = [.reserved .demo, .settled .demo 0 0] ∧
      (∀ a, w.service.store.balance a =
        Store.demo.balance a + total (fun u => amounts u.trail a) (w.tasks.eraseIdx 1)) ∧
      w.service.occupancy 0 = total (fun u => u.slots 0) (w.tasks.eraseIdx 1) := by
  have htask : ((replay (World.next (.demo 1)) (.demo 1) shedByTheSlot).bind
      (·.tasks[1]?)).map (fun t => (t.pc, t.trail)) =
      some (.ended (.raised (.limitReached .capacityShed .enrich)),
        [.reserved .demo, .settled .demo 0 0]) := by decide
  obtain ⟨t, ht, hfacts⟩ := Option.map_eq_some_iff.mp htask
  obtain ⟨w, hw, ht⟩ := Option.bind_eq_some_iff.mp ht
  simp only [Prod.mk.injEq] at hfacts
  obtain ⟨hpc, htrail⟩ := hfacts
  obtain ⟨hcall, _, hbooks, hslots, _⟩ :=
    refused_leaves_nothing rfl (World.run_demo hw) ht hpc rfl
  exact ⟨w, t, hw, ht, hpc, hcall, htrail, hbooks, hslots 0⟩

end Limitless
