import Limitless.Harness.FalseAlarm
import Limitless.Harness.Names

/-!
# The work a round names

`MAX_LOOKUPS_PER_ROUND` is documented as a hard ceiling on the work of a round. The slots of a round
are sized in three places: the ordinary ones by a parameter of the run, the spending tenant's by
dividing the ceiling among them, and the bystanders' by the parameter again, on top of what the
division has given away. So the ceiling holds exactly where the bystanders' work fits in what the
division leaves (`lookups_bounded_iff`), which it does not by default
(`default_round_over_ceiling`).
-/

namespace Limitless.Harness

/-- The lookups that the work slots of one round name, all tenants together. -/
def Plan.roundLookups (plan : Plan) (roundNumber : ℕ) : ℕ :=
  ((RoundBuilder.workRequests plan.slots (plan.firstSequence + (roundNumber - 1) * plan.total)
    (roundNumber * plan.nameStride)).map (·.call.names.length)).sum

/-- Every round a plan runs names a bounded amount of work. -/
def Plan.Bounded (plan : Plan) : Prop :=
  ∀ roundNumber, 1 ≤ roundNumber → roundNumber ≤ plan.rounds →
    plan.roundLookups roundNumber ≤ maxLookupsPerRound

/-- The four bystander slots fit in what the spending tenant's slots leave of the ceiling: five
hundred records to each of up to three slots leave the rest, and dividing the ceiling among more of
them leaves the remainder. Up to twelve requests, there is no spending tenant. -/
def BystandersFit (concurrency batchRecords : ℕ) : Prop :=
  concurrency ≤ 12 ∨ (concurrency ≤ 15 ∧ batchRecords ≤ 125 * (16 - concurrency)) ∨
    (16 ≤ concurrency ∧ 4 * batchRecords ≤ maxLookupsPerRound % (workSlots concurrency - 4))

section
variable {config : HarnessConfig} {composition : Composition} {slotCount : ℕ}

/-- A round names the records of its slots, whatever its number. -/
theorem Plan.roundLookups_eq (plan : Plan) (roundNumber : ℕ) :
    plan.roundLookups roundNumber = (plan.slots.map (·.records)).sum := by
  have hlength : ((RoundBuilder.workRequests plan.slots
      (plan.firstSequence + (roundNumber - 1) * plan.total)
      (roundNumber * plan.nameStride)).map (·.call.names.length)).length =
      (plan.slots.map (·.records)).length := by simp [RoundBuilder.workRequests]
  refine congrArg List.sum (List.ext_getElem hlength fun i h₁ h₂ => ?_)
  simp [RoundBuilder.workRequests, Call.names, length_companyNames]

/-- Any one round decides, where there is one. -/
theorem Plan.bounded_iff {plan : Plan} (h : 1 ≤ plan.rounds) :
    plan.Bounded ↔ (plan.slots.map (·.records)).sum ≤ maxLookupsPerRound := by
  unfold Plan.Bounded
  simp only [Plan.roundLookups_eq]
  exact ⟨fun hall => hall 1 le_rfl h, fun hsum _ _ _ => hsum⟩

theorem legitimate_bounded_iff (config : HarnessConfig) (composition : Composition) :
    (legitimatePlan config composition).Bounded ↔
      composition.work * config.batchRecords ≤ maxLookupsPerRound := by
  rw [Plan.bounded_iff config.rounds.2.1]
  simp [legitimatePlan, Function.comp_def]

theorem one_le_isolationRounds (config : HarnessConfig) (slotCount : ℕ) :
    1 ≤ isolationRounds config slotCount := by
  have := config.rounds.2.1
  have hmax : maxRounds = 20 := rfl
  unfold isolationRounds
  dsimp only
  omega

theorem isolation_bounded_iff (config : HarnessConfig) (composition : Composition)
    (slotCount : ℕ) :
    (isolationPlan config composition slotCount).Bounded ↔
      slotCount * attackerRecords slotCount + 4 * config.batchRecords ≤ maxLookupsPerRound := by
  rw [Plan.bounded_iff (one_le_isolationRounds config slotCount)]
  have hbystanders : ((bystanderSlots config).map (·.records)).sum = 4 * config.batchRecords := by
    simp only [bystanderSlots, Fixtures.bystanderTenantIds, bystanderSlotsEach,
      List.flatMap_cons, List.flatMap_nil, List.replicate, List.map_append, List.map_cons,
      List.map_nil, List.sum_append, List.sum_cons, List.sum_nil]
    omega
  simp [isolationPlan, hbystanders]

/-- Up to three spending slots name the most one request may. -/
theorem attackerRecords_of_le_three (h1 : 1 ≤ slotCount) (h : slotCount ≤ 3) :
    attackerRecords slotCount = 500 := by
  rcases (by omega : slotCount = 1 ∨ slotCount = 2 ∨ slotCount = 3) with rfl | rfl | rfl
  all_goals rfl

/-- More of them name what dividing the ceiling among them gives. -/
theorem slotCount_mul_attackerRecords (h4 : 4 ≤ slotCount) (h : slotCount ≤ maxLookupsPerRound) :
    slotCount * attackerRecords slotCount + maxLookupsPerRound % slotCount =
      maxLookupsPerRound := by
  have hpos : 1 ≤ maxLookupsPerRound / slotCount :=
    (Nat.one_le_div_iff (by omega)).mpr h
  have hfew : maxLookupsPerRound / slotCount ≤ SecureBounds.shipped.maxBatchItems :=
    (Nat.div_le_div_left h4 (by omega)).trans_eq rfl
  unfold attackerRecords
  rw [min_eq_right hfew, max_eq_right hpos]
  exact Nat.div_add_mod maxLookupsPerRound slotCount

/-- Where there is a spending tenant, its slots and the bystanders' are inside the ceiling exactly
when the bystanders fit. -/
theorem isolation_fits_iff {concurrency batchRecords : ℕ} (h13 : 13 ≤ concurrency)
    (h : concurrency ≤ maxConcurrency) :
    (workSlots concurrency - 4) * attackerRecords (workSlots concurrency - 4) + 4 * batchRecords ≤
      maxLookupsPerRound ↔ BystandersFit concurrency batchRecords := by
  have hslots : workSlots concurrency = concurrency - 4 - max 4 (concurrency / 6) := rfl
  have hceiling : maxLookupsPerRound = 2000 := rfl
  unfold maxConcurrency at h
  unfold BystandersFit
  by_cases hfew : concurrency ≤ 15
  · rw [attackerRecords_of_le_three (by omega) (by omega)]
    omega
  · have hfour : 4 ≤ workSlots concurrency - 4 := by omega
    have := slotCount_mul_attackerRecords hfour (by omega)
    omega

/-- The ordinary slots are inside the ceiling wherever the bystanders fit. -/
theorem legitimate_fits_of_bystandersFit {concurrency batchRecords : ℕ}
    (h12 : 12 ≤ concurrency) (h : concurrency ≤ maxConcurrency)
    (hbatch : batchRecords ≤ SecureBounds.shipped.maxBatchItems)
    (hfit : BystandersFit concurrency batchRecords) :
    workSlots concurrency * batchRecords ≤ maxLookupsPerRound := by
  have hslots : workSlots concurrency = concurrency - 4 - max 4 (concurrency / 6) := rfl
  have hmax : SecureBounds.shipped.maxBatchItems = 500 := rfl
  have hceiling : maxLookupsPerRound = 2000 := rfl
  unfold maxConcurrency at h
  rcases hfit with hnone | ⟨hfew, hbatch'⟩ | ⟨hmany, hbatch'⟩
  · have : workSlots concurrency = 4 := by omega
    rw [this]
    omega
  · rcases (by omega : concurrency = 12 ∨ concurrency = 13 ∨ concurrency = 14 ∨ concurrency = 15)
      with rfl | rfl | rfl | rfl
    all_goals exact (Nat.mul_le_mul_left _ hbatch').trans (by decide)
  · have hrest : maxLookupsPerRound % (workSlots concurrency - 4) < workSlots concurrency - 4 :=
      Nat.mod_lt _ (by omega)
    calc workSlots concurrency * batchRecords ≤ 24 * 5 := Nat.mul_le_mul (by omega) (by omega)
      _ ≤ maxLookupsPerRound := by omega

/-- Room for the spending tenant begins at thirteen requests. -/
theorem attackerSlotCount_iff (hcompose : compose config.concurrency = .ok composition) :
    attackerSlotCount config composition = .ok slotCount ↔
      13 ≤ config.concurrency.val ∧ slotCount = workSlots config.concurrency - 4 := by
  have hwork := (compose_ok hcompose).1
  have hslots : workSlots config.concurrency =
    config.concurrency.val - 4 - max 4 (config.concurrency.val / 6) := rfl
  have hlength : (bystanderSlots config).length = 4 := rfl
  unfold attackerSlotCount
  rw [hlength]
  split
  · rw [Except.ok.injEq]
    omega
  · simp only [reduceCtorEq, false_iff]
    omega

/-- **The work of a round.** The rounds of both scenarios keep to the ceiling exactly when the
bystanders fit beside the spending tenant. -/
theorem lookups_bounded_iff (config : HarnessConfig) :
    ((∀ composition, compose config.concurrency = .ok composition →
        (legitimatePlan config composition).Bounded) ∧
      ∀ composition slotCount, compose config.concurrency = .ok composition →
        attackerSlotCount config composition = .ok slotCount →
          (isolationPlan config composition slotCount).Bounded) ↔
      BystandersFit config.concurrency config.batchRecords := by
  constructor
  · intro ⟨_, hisolation⟩
    by_cases h13 : 13 ≤ config.concurrency.val
    · have hcompose : ∃ composition, compose config.concurrency = .ok composition :=
        ⟨_, if_neg (by unfold minConcurrency; omega)⟩
      obtain ⟨composition, hcompose⟩ := hcompose
      have hbounded := hisolation composition _ hcompose
        ((attackerSlotCount_iff hcompose).mpr ⟨h13, rfl⟩)
      exact (isolation_fits_iff h13 config.concurrency.2.2).mp
        ((isolation_bounded_iff config composition _).mp hbounded)
    · exact .inl (by omega)
  · intro hfit
    refine ⟨fun composition hcompose => ?_, fun composition slotCount hcompose hcount => ?_⟩
    · rw [legitimate_bounded_iff, (compose_ok hcompose).1]
      refine legitimate_fits_of_bystandersFit ?_ config.concurrency.2.2 config.batchRecords.2.2 hfit
      by_contra hlow
      rw [compose, if_pos (by unfold minConcurrency; omega)] at hcompose
      cases hcompose
    · obtain ⟨h13, rfl⟩ := (attackerSlotCount_iff hcompose).mp hcount
      rw [isolation_bounded_iff]
      exact (isolation_fits_iff h13 config.concurrency.2.2).mpr hfit

end

/-- The shipped configuration names 2072 lookups in every round of the isolation scenario: twelve
spending slots of 166 records and four bystander slots of 20. -/
theorem default_round_over_ceiling :
    HarnessConfig.fromEnv decimal (.ok twoReplicas) (fun _ => none) = .ok byDefault ∧
    compose byDefault.concurrency = .ok ⟨16, 4, 4⟩ ∧
    attackerSlotCount byDefault ⟨16, 4, 4⟩ = .ok 12 ∧
    ∃ roundNumber, 1 ≤ roundNumber ∧
      roundNumber ≤ (isolationPlan byDefault ⟨16, 4, 4⟩ 12).rounds ∧
      (isolationPlan byDefault ⟨16, 4, 4⟩ 12).roundLookups roundNumber = 2072 ∧
      maxLookupsPerRound < (isolationPlan byDefault ⟨16, 4, 4⟩ 12).roundLookups roundNumber := by
  have hlookups : (isolationPlan byDefault ⟨16, 4, 4⟩ 12).roundLookups 1 = 2072 := by
    rw [Plan.roundLookups_eq]
    decide
  refine ⟨rfl, rfl, rfl, 1, le_rfl, one_le_isolationRounds byDefault 12, hlookups, ?_⟩
  rw [hlookups]
  decide

end Limitless.Harness
