import Limitless.Secure.Invariant

/-!
# How much runs at the provider

A limiter counts the requests inside its slot, and the provider the lookup calls it works on. A
request is in its slot while it waits for its call, so the provider works on no more calls than the
slots allow, as long as no exception takes a request away from a call that still runs: that is
`World.spares`, and `in_flight_le_capacity` is the bound over every run that has it. A deadline
does take it away. Its slot goes to the next request while the provider still works for the first
(`over_capacity_under_a_hold`).
-/

namespace Limitless

open Indexed Runs

/-- The lookup call of a request is on its way to the provider, or runs there. -/
def Task.isCalling (t : Task) : Bool := t.call.elim false (·.phase.isRunning)

/-- The event takes no request away from a call that still runs. -/
def World.spares (w : World) : Event → Bool
  | .fault i _ => w.tasks[i]?.all fun t => !t.isCalling
  | _ => true

/-- A request whose call still runs waits for it. -/
def Task.Attended (t : Task) : Prop :=
  t.isCalling = true → ∃ w r, t.pc = .calling w r .awaitResponse

variable {cfg : Config} {s s' : Service} {t t' : Task}

/-! ## A running call is waited for -/

/-- A request does not go on while its call runs. -/
theorem Task.advance_attended (hacted : Acted s t s' t') (h : t.Attended)
    (hstep : t.advance cfg s = some (s', t')) : t'.Attended := by
  intro hcalling
  rcases hacted.call with hcall | ⟨_, w, r, _, hpc, _⟩
  · have ht : t.isCalling = true := by rwa [isCalling, hcall] at hcalling
    obtain ⟨w, r, hpc⟩ := h ht
    simp only [advance, hpc, lookUp] at hstep
    split at hstep
    · next hanswered =>
        rw [isCalling, hanswered] at ht
        cases ht
    · cases hstep
  · exact ⟨w, r, hpc⟩

/-- Nor does it leave its slot. -/
theorem Task.Attended.occupies_le (h : t.Attended) :
    t.occupies ≤ if t.pc.holdsSlot = true then 1 else 0 := by
  cases hcalling : t.isCalling with
  | true =>
      obtain ⟨w, r, hpc⟩ := h hcalling
      have hslot : t.pc.holdsSlot = true := by rw [hpc]; rfl
      rw [if_pos hslot, occupies]
      cases t.call with
      | none => exact Int.zero_le_ofNat 1
      | some c => exact c.phase.occupies_le_one
  | false =>
      have hzero : t.occupies = 0 := by
        unfold isCalling at hcalling
        unfold occupies
        cases hc : t.call with
        | none => rfl
        | some c =>
            rw [hc] at hcalling
            exact CallPhase.occupies_of_not_isRunning hcalling
      rw [hzero]
      split <;> omega

/-- Every request attends to its call. -/
def World.Attended (w : World) : Prop := ∀ t ∈ w.tasks, t.Attended

variable {w w' : World} {e : Event} {s₀ : Store} {replicas : Nat}

/-- **One event keeps every running call attended**, if it spares it. -/
theorem World.Attended.step (h : w.Attended) (hs : World.Sound cfg s₀ replicas w)
    (hmoves : Moves cfg w e w') (hspares : w.spares e = true) : w'.Attended := by
  cases hmoves with
  | arrived =>
      refine forall_mem_concat h ?_
      intro hcalling
      cases hcalling
  | advanced hi hstep =>
      exact forall_mem_set
        (Task.advance_attended (hs.of_advance hi hstep).2 (h _ (List.mem_of_getElem? hi)) hstep) h
  | @struck i f t t' s' hi hstep =>
      refine forall_mem_set ?_ h
      -- the request's call does not run, and an exception starts none
      have hidle : t.isCalling = false := by simpa [spares, hi] using hspares
      rcases (hs.of_fault hi hstep).2.call with hcall | ⟨_, w, r, _, hpc, _⟩
      · intro hcalling
        rw [Task.isCalling, hcall] at hcalling
        rw [Task.isCalling, hcalling] at hidle
        cases hidle
      · exact fun _ => ⟨w, r, hpc⟩
  | @served _ i t c c' p' _ hi hc hserved =>
      refine forall_mem_set ?_ h
      have hcalling : t.isCalling = true := by
        rw [Task.isCalling, hc]
        exact hserved.running
      exact fun _ => h t (List.mem_of_getElem? hi) hcalling
  | woke =>
      refine List.forall_mem_map.mpr fun t ht hcalling => h t ht ?_
      cases hc : t.call with
      | none => simp [Task.isCalling, hc] at hcalling
      | some c => simpa [Task.isCalling, hc] using hcalling
  | reset | quiet => exact h

/-! ## The bound -/

/-- No replica has more requests in a slot than its cap. -/
theorem World.Sound.occupancy_le (hs : World.Sound cfg s₀ replicas w)
    (hcap : 0 ≤ cfg.maxInFlightUpstream) (ρ : Nat) :
    w.service.occupancy ρ ≤ cfg.maxInFlightUpstream := by
  unfold Service.occupancy
  cases hl : w.service.limiters[ρ]? with
  | none => exact hcap
  | some l =>
      have := l.within_capacity
      rwa [hs.capacity l (List.mem_of_getElem? hl)] at this

/-- While every running call is attended, the provider works on no more than the slots allow. -/
theorem World.Attended.inFlight_le (h : w.Attended) (hs : World.Sound cfg s₀ replicas w)
    (hcap : 0 ≤ cfg.maxInFlightUpstream) :
    w.service.provider.inFlight ≤ replicas * cfg.maxInFlightUpstream := by
  have hslots : total (fun t => if t.pc.holdsSlot = true then 1 else 0) w.tasks =
      total w.service.occupancy (List.range replicas) := by
    rw [← total_keyed _ (fun t : Task => t.request.replica) hs.replica]
    refine total_congr fun ρ _ => ?_
    rw [hs.slots]
    exact total_congr fun t _ => by simp only [Task.slots, ite_and]
  calc w.service.provider.inFlight
      = total Task.occupies w.tasks := hs.inFlight
    _ ≤ total (fun t => if t.pc.holdsSlot = true then 1 else 0) w.tasks :=
        total_le_total fun t ht => (h t ht).occupies_le
    _ = total w.service.occupancy (List.range replicas) := hslots
    _ ≤ total (fun _ => cfg.maxInFlightUpstream) (List.range replicas) :=
        total_le_total fun ρ _ => hs.occupancy_le hcap ρ
    _ = replicas * cfg.maxInFlightUpstream := by simp [total]

/-- The high-water mark follows the count, or is forgotten. -/
theorem World.Sound.peak_le (hs : World.Sound cfg s₀ replicas w) (hmoves : Moves cfg w e w') :
    w'.service.provider.peakInFlight ≤
      max w.service.provider.peakInFlight w'.service.provider.inFlight := by
  have hsame : ∀ p : ProviderState, p = w.service.provider →
      p.peakInFlight ≤ max w.service.provider.peakInFlight p.inFlight := by
    rintro p rfl
    exact le_max_left _ _
  cases hmoves with
  | arrived => exact hsame _ rfl
  | advanced hi hstep => exact hsame _ (hs.of_advance hi hstep).2.provider
  | struck hi hstep => exact hsame _ (hs.of_fault hi hstep).2.provider
  | served _ _ _ hserved => exact hserved.peak
  | woke => exact le_max_left _ _
  | reset => exact le_max_right _ _
  | quiet _ _ _ _ _ hpeak => exact hpeak.le.trans (le_max_left _ _)

/-- **The occupancy bound.** In every run of any number of replicas in which no exception takes a
request away from a lookup call that still runs, whatever is held, delayed, released or given up:
the provider works on at most the replicas' slots, and never has worked on more. -/
theorem in_flight_le_capacity {limiter : InFlightLimiter} {es : List Event}
    (hl : InFlightLimiter.make cfg.maxInFlightUpstream = .ok limiter)
    (hrun : Run (restrict (fun w e => w.spares e = true) (Steps (World.next cfg)))
      (.start cfg s₀ replicas limiter) es w) :
    w.service.provider.inFlight ≤ replicas * cfg.maxInFlightUpstream ∧
      w.service.provider.peakInFlight ≤ replicas * cfg.maxInFlightUpstream := by
  have hcap : 0 ≤ cfg.maxInFlightUpstream := by
    have := InFlightLimiter.one_le_of_make hl
    omega
  have h : World.Sound cfg s₀ replicas w ∧ w.Attended ∧
      w.service.provider.peakInFlight ≤ replicas * cfg.maxInFlightUpstream := by
    refine hrun.invariant (I := fun w => World.Sound cfg s₀ replicas w ∧ w.Attended ∧
      w.service.provider.peakInFlight ≤ replicas * cfg.maxInFlightUpstream) ?_
      ⟨World.start_sound hl s₀ replicas, by simp [World.Attended, World.start],
        mul_nonneg (Int.natCast_nonneg _) hcap⟩
    rintro a e b ⟨hs, hattended, hpeak⟩ ⟨hspares, hstep⟩
    have hmoves := moves_of_next hstep
    have hs' := hs.step hmoves
    have hattended' := hattended.step hs hmoves hspares
    have hin := hattended'.inFlight_le hs' hcap
    exact ⟨hs', hattended', (hs.peak_le hmoves).trans (max_le hpeak hin)⟩
  exact ⟨h.2.1.inFlight_le h.1 hcap, h.2.2⟩

/-- Two requests share one slot one after the other, the first through a hold; the second is given
up at its deadline before its call goes out. -/
def oneAfterTheOther : List Event :=
  [.hold, .arrive (.demo 0)] ++ List.replicate 9 (.advance 0) ++
    [.resume 0, .resume 0, .release, .resume 0] ++ List.replicate 9 (.advance 0) ++
    [.arrive (.demo 0)] ++ List.replicate 8 (.advance 1) ++ [.fault 1 .deadline]

theorem in_flight_le_one :
    ∃ w, replay (fun a e => if a.spares e then World.next (.demo 1) a e else none) (.demo 1)
        oneAfterTheOther = some w ∧ w.service.provider.peakInFlight ≤ 1 * 1 := by
  have hsome : (replay (fun a e => if a.spares e then World.next (.demo 1) a e else none) (.demo 1)
      oneAfterTheOther).isSome = true := by decide
  obtain ⟨w, hw⟩ := Option.isSome_iff_exists.mp hsome
  have hrun : Run (restrict (fun a e => a.spares e = true) (Steps (World.next (.demo 1))))
      (.start (.demo 1) .demo 1 ⟨1, 0, 0, Int.natCast_nonneg 1⟩) oneAfterTheOther w :=
    run_of_replay_checked hw
  exact ⟨w, hw, (in_flight_le_capacity rfl hrun).2⟩

/-- A deadline takes the first request away from its held call, and the second takes its slot. -/
def deadlineUnderAHold : List Event :=
  [.hold, .arrive (.demo 0)] ++ List.replicate 9 (.advance 0) ++
    [.resume 0, .fault 0 .deadline, .arrive (.demo 0)] ++ List.replicate 9 (.advance 1) ++
    [.resume 1]

/-- One replica with one slot has two calls at the provider. -/
theorem over_capacity_under_a_hold :
    ∃ w, replay (World.next (.demo 1)) (.demo 1) deadlineUnderAHold = some w ∧
      w.service.limiters.map (·.capacity) = [1] ∧ w.service.limiters.map (·.inFlight) = [1] ∧
      w.service.provider.inFlight = 2 ∧ w.service.provider.peakInFlight = 2 ∧
      ¬ w.service.provider.inFlight ≤ 1 * 1 := by
  have hfigures : (replay (World.next (.demo 1)) (.demo 1) deadlineUnderAHold).map (fun w =>
      ((w.service.limiters.map (·.capacity), w.service.limiters.map (·.inFlight)),
        (w.service.provider.inFlight, w.service.provider.peakInFlight))) =
      some (([1], [1]), (2, 2)) := by decide
  obtain ⟨w, hw, h⟩ := Option.map_eq_some_iff.mp hfigures
  simp only [Prod.mk.injEq] at h
  obtain ⟨⟨hcapacity, hslots⟩, hin, hpeak⟩ := h
  exact ⟨w, hw, hcapacity, hslots, hin, hpeak, by omega⟩

end Limitless
