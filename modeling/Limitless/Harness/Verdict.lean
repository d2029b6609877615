import Limitless.Harness.Rounds
import Mathlib.Algebra.Order.Ring.Int
import Mathlib.Tactic.Positivity

/-!
# When the harness raises no alarm

Against an application that honours every bound, a violation can only come from work the
application had to refuse. Whether there is any is arithmetic: `_concurrent_legitimate` finds none
exactly when what its busiest tenant asks for in all rounds fits a partition (`legitimateFits`),
and `_allowance_isolation` exactly when a bystander's does (`isolationFits`). The final checks on
the spending tenant never find anything: it is refused at the first request that does not fit, and
from then on it has no room for another.
-/

namespace Limitless.Harness

open Indexed Runs

/-- The work slots of a round. -/
def workSlots (concurrency : Nat) : Nat := concurrency - overLimitProbes - max 4 (concurrency / 6)

/-- What the first tenant of the round robin asks for, with its setup import, fits a partition. -/
def legitimateFits (config : HarnessConfig) : Prop :=
  (Fixtures.lookupPriceCents * (setupImportRecords +
    config.rounds * config.batchRecords * ((workSlots config.concurrency + 2) / 3)) : Nat) ≤
      Fixtures.tenantAllowanceCents

/-- What a bystander asks for in its two slots fits a partition. -/
def isolationFits (config : HarnessConfig) : Prop :=
  (Fixtures.lookupPriceCents * (bystanderSlotsEach * config.batchRecords *
    isolationRounds config (workSlots config.concurrency - 4)) : Nat) ≤
      Fixtures.tenantAllowanceCents

instance (config : HarnessConfig) : Decidable (legitimateFits config) := by
  unfold legitimateFits
  infer_instance

instance (config : HarnessConfig) : Decidable (isolationFits config) := by
  unfold isolationFits
  infer_instance

theorem verdict_eq_bounded (a : ScenarioAccounting) :
    a.verdict = "bounded" ↔ a.violations = [] := by
  unfold ScenarioAccounting.verdict
  split
  · next h => simp [h]
  · next h => simp [h]

theorem compose_ok {concurrency : Nat} {composition : Composition}
    (h : compose concurrency = .ok composition) :
    composition.work = workSlots concurrency ∧ composition.work ≤ concurrency := by
  unfold compose at h
  split at h
  · cases h
  · cases h
    refine ⟨rfl, ?_⟩
    show concurrency - overLimitProbes - max 4 (concurrency / 6) ≤ concurrency
    omega

section
variable {σ : Type} {app : Application σ} {config : HarnessConfig} {gzipBytes : List String → Nat}
  {jobId : String} {s s' : σ} {outcomes : List RoundOutcome} {plan : Plan}

/-! ## From the preparation to the accounting -/

theorem attacker_billable : Fixtures.attackerTenantId ∈ Fixtures.billableTenantIds := by decide

/-- After the preparation the probing tenant has paid for its setup import, and nobody else for
anything. -/
theorem Honours.prepared (hon : Honours app config.inFlightCapacity)
    (h : Prepare app gzipBytes Fixtures.attackerTenantId jobId s) :
    Ready app Fixtures.attackerTenantId jobId s ∧ ∀ u, app.usage s u =
      if Fixtures.attackerTenantId = u then
        (setupImportRecords * Fixtures.lookupPriceCents : Int) else 0 := by
  obtain ⟨s₀, imported, body, hseeded, hans, hstatus, hbody, hjob⟩ := h
  have hbooks := hon.books_of_seeded hseeded
  have hok : imported.succeeded = true := by simp [Response.succeeded, hstatus]
  refine ⟨⟨hon.books_step hbooks hans attacker_billable,
    hon.created _ _ _ _ body jobId hans rfl hok hbody hjob⟩, fun u => ?_⟩
  rw [hon.usage_step hbooks hans u, (hon.seeded s₀ hseeded).1 u, zero_add]
  simp [Exchange.spent, hok, Call.cents, Call.lookups?, ndjsonBundle]

/-- A scenario up to its accounting, as one run of exchanges from the state it is prepared in. -/
theorem Honours.planRun_covers (hon : Honours app config.inFlightCapacity) (hsound : plan.Sound)
    (h : PlanRun app gzipBytes config plan outcomes s') :
    ∃ jobId s order, Prepare app gzipBytes Fixtures.attackerTenantId jobId s ∧
      Run app.answers s order s' ∧ Ready app Fixtures.attackerTenantId jobId s' ∧
      Covers plan Fixtures.attackerTenantId jobId outcomes order ∧
      outcomes.length = plan.rounds := by
  obtain ⟨jobId, s, hprepare, hrun⟩ := h
  have hlast : plan.rounds + 1 ≤ maxRounds + 1 := Nat.succ_le_succ hsound.rounds
  obtain ⟨hlength, order, horder, hready, hcovers⟩ :=
    hon.rounds_cover hsound attacker_billable (hon.prepared hprepare).1 hlast hrun
  exact ⟨jobId, s, order, hprepare, horder, hready, hcovers, by simp only at hlength; omega⟩

/-- Only tenants that take part are billed, so the accounting reports what the rounds did. -/
theorem Books.accounting_violations (hs : Books app s') {scenario description bound : String}
    {roles : List (TenantId × String)} (hroles : roles.map Prod.fst = Fixtures.billableTenantIds) :
    (accounting app config scenario description bound outcomes roles s').violations = [] ↔
      ∀ o ∈ outcomes, o.violations = [] := by
  have hbilled : (app.ledger s').view.perTenant.filter
      (fun e => e.tenantId ∉ roles.map Prod.fst) = [] := by
    refine List.filter_eq_nil_iff.mpr fun e he => ?_
    obtain ⟨l, hl, rfl⟩ := List.mem_map.mp he
    have := hs.tenants l (List.mem_mergeSort.mp hl)
    rw [hroles]
    simpa using this
  simp only [accounting, hbilled, List.map_nil, List.append_nil]
  exact List.flatMap_eq_nil_iff

/-- None of a tenant's work is refused exactly when its slots' work in all rounds fits. -/
theorem Honours.covered_served_iff (hon : Honours app config.inFlightCapacity)
    (hs : Ready app Fixtures.attackerTenantId jobId s) {order : List Exchange}
    (hrun : Run app.answers s order s')
    (hcovers : Covers plan Fixtures.attackerTenantId jobId outcomes order) {u : TenantId}
    (hu : u ∈ Fixtures.billableTenantIds) :
    (∀ x ∈ order, x.sent.tenantId = u → x.sent.call.inBound → x.response.succeeded) ↔
      app.usage s u + outcomes.length * slotDemand plan.slots u ≤
        Fixtures.tenantAllowanceCents := by
  rw [hon.served_iff hs hcovers.planned hrun hu, hcovers.demand]

/-! ## Every tenant working at once -/

/-- How many of the first `w` numbers leave the rest `p`. -/
theorem total_range_mod (c : Int) {p : Nat} (hp : p ≤ 2) (w : Nat) :
    total (fun i => if i % 3 = p then c else 0) (List.range w) = ((w + 2 - p) / 3 : Nat) * c := by
  induction w with
  | zero =>
      have hnone : (0 + 2 - p) / 3 = 0 := by omega
      simp [hnone]
  | succ w ih =>
      rw [List.range_succ, total_append, ih, total_cons, total_nil, add_zero]
      split
      · have hone : (w + 1 + 2 - p) / 3 = (w + 2 - p) / 3 + 1 := by omega
        rw [hone]
        push_cast
        ring
      · have hsame : (w + 1 + 2 - p) / 3 = (w + 2 - p) / 3 := by omega
        rw [hsame, add_zero]

/-- The round robin reaches a tenant as often as its place in the list allows. -/
theorem slotDemand_legitimate (config : HarnessConfig) (composition : Composition) {p : Nat}
    (hp : p ≤ 2) {u : TenantId} (hu : Fixtures.billableTenantIds.getD p "" = u) :
    slotDemand (legitimatePlan config composition).slots u =
      ((composition.work + 2 - p) / 3 : Nat) *
        (config.batchRecords * Fixtures.lookupPriceCents : Int) := by
  have hplace : ∀ j ≤ 2, ∀ p ≤ 2, (Fixtures.billableTenantIds.getD j "" =
      Fixtures.billableTenantIds.getD p "" ↔ j = p) := by decide
  have hlength : Fixtures.billableTenantIds.length = 3 := by decide
  rw [← total_range_mod _ hp, slotDemand, legitimatePlan, total_map]
  refine total_congr fun i _ => ?_
  rw [hlength, ← hu]
  have := hplace (i % 3) (by omega) p hp
  simp only [this]

/-- What it asks of a tenant in all rounds. -/
theorem rounds_slotDemand (config : HarnessConfig) (composition : Composition) {p : Nat}
    (hp : p ≤ 2) {u : TenantId} (hu : Fixtures.billableTenantIds.getD p "" = u) :
    (config.rounds : Nat) * slotDemand (legitimatePlan config composition).slots u =
      4 * ((config.rounds : Nat) * (config.batchRecords : Nat) *
        ((composition.work + 2 - p) / 3 : Nat) : Int) := by
  have hprice : (Fixtures.lookupPriceCents : Int) = 4 := rfl
  rw [slotDemand_legitimate config composition hp hu, hprice]
  ring

theorem legitimateFits_iff {composition : Composition}
    (h : compose config.concurrency = .ok composition) :
    legitimateFits config ↔ 40 + 4 * ((config.rounds : Nat) * (config.batchRecords : Nat) *
      ((composition.work + 2) / 3 : Nat) : Int) ≤ Fixtures.tenantAllowanceCents := by
  have hprice : (Fixtures.lookupPriceCents : Int) = 4 := rfl
  have hsetup : (setupImportRecords : Int) = 10 := rfl
  unfold legitimateFits
  rw [← (compose_ok h).1]
  push_cast
  rw [hprice, hsetup, mul_add]
  exact Iff.rfl

theorem legitimate_sound {composition : Composition}
    (h : compose config.concurrency = .ok composition) :
    (legitimatePlan config composition).Sound where
  slots := by
    have hall : ∀ j ≤ 2, Fixtures.billableTenantIds.getD j "" ∈ Fixtures.billableTenantIds := by
      decide
    have hlength : Fixtures.billableTenantIds.length = 3 := by decide
    intro slot hslot
    obtain ⟨i, -, rfl⟩ := List.mem_map.mp hslot
    refine ⟨?_, config.batchRecords.2.1, config.batchRecords.2.2⟩
    show Fixtures.billableTenantIds.getD (i % Fixtures.billableTenantIds.length) "" ∈ _
    rw [hlength]
    exact hall _ (by omega)
  few := by
    have := (compose_ok h).2.trans config.concurrency.2.2
    simpa [legitimatePlan] using this
  stride := by show 10000 ≤ 500000; omega
  rounds := config.rounds.2.2

/-- Any work that was not served is a finding. -/
theorem legitimate_judge (config : HarnessConfig) (composition : Composition) {n : Nat}
    {x : Exchange} (hx : Answered x) (hin : x.sent.call.inBound) :
    (legitimatePlan config composition).judge n x.record = none ↔ x.response.succeeded := by
  have hsame : x.record.succeeded = x.response.succeeded := rfl
  simp only [legitimatePlan, hsame]
  split
  · next hbad =>
      simp only [Bool.not_eq_true] at hbad
      simp [hbad.1]
  · next hgood =>
      refine ⟨fun _ => ?_, fun _ => rfl⟩
      rcases hx.work hin with hok | hrefused
      · exact hok
      · by_contra hnot
        exact hgood ⟨hnot, by simp [Exchange.record, hrefused]⟩

/-- Its tenants' demands fit exactly when that of the first of them does: it has the most slots,
and the setup import besides. -/
theorem legitimate_fits {composition : Composition}
    (h : compose config.concurrency = .ok composition)
    (husage : ∀ u, app.usage s u = if Fixtures.attackerTenantId = u then
      (setupImportRecords * Fixtures.lookupPriceCents : Int) else 0) :
    (∀ u ∈ Fixtures.billableTenantIds, app.usage s u + (config.rounds : Nat) *
      slotDemand (legitimatePlan config composition).slots u ≤ Fixtures.tenantAllowanceCents) ↔
      legitimateFits config := by
  have hplace : ∀ u ∈ Fixtures.billableTenantIds,
      ∃ p ≤ 2, Fixtures.billableTenantIds.getD p "" = u := by decide
  have hfirst : Fixtures.billableTenantIds.getD 0 "" = Fixtures.attackerTenantId := by decide
  have hsetup : (setupImportRecords * Fixtures.lookupPriceCents : Int) = 40 := rfl
  rw [legitimateFits_iff h]
  constructor
  · intro hall
    have hmost := hall _ attacker_billable
    rwa [husage, if_pos rfl, hsetup,
      rounds_slotDemand config composition (by omega) hfirst] at hmost
  · intro hmost u hu
    obtain ⟨p, hp, hup⟩ := hplace u hu
    rw [rounds_slotDemand config composition hp hup]
    have hspent : app.usage s u ≤ 40 := by
      rw [husage, hsetup]
      split <;> omega
    have hless : ((config.rounds : Nat) * (config.batchRecords : Nat) *
        ((composition.work + 2 - p) / 3 : Nat) : Int) ≤ (config.rounds : Nat) *
          (config.batchRecords : Nat) * ((composition.work + 2) / 3 : Nat) := by
      refine mul_le_mul_of_nonneg_left ?_ (by positivity)
      exact_mod_cast Nat.div_le_div_right (Nat.sub_le _ _)
    omega

/-- `_concurrent_legitimate` finds no violation exactly when the load fits. -/
theorem Honours.legitimate_iff (hon : Honours app config.inFlightCapacity)
    {result : ScenarioAccounting} (h : ConcurrentLegitimate app gzipBytes config result) :
    result.violations = [] ↔ legitimateFits config := by
  obtain ⟨composition, outcomes, s', hcompose, hplan, rfl⟩ := h
  obtain ⟨jobId, s, order, hprepare, hrun, hready, hcovers, hlength⟩ :=
    hon.planRun_covers (legitimate_sound hcompose) hplan
  obtain ⟨hs, husage⟩ := hon.prepared hprepare
  have hrounds : outcomes.length = config.rounds := hlength
  rw [hready.accounting_violations (by decide), hcovers.judged (fun x => x.response.succeeded)
    fun n x hx hin => legitimate_judge config composition hx hin, ← legitimate_fits hcompose husage]
  have hserved := fun u hu => hon.covered_served_iff (u := u) hs hrun hcovers hu
  rw [hrounds] at hserved
  constructor
  · intro hall u hu
    exact (hserved u hu).mp fun x hx _ hin => hall x hx hin
  · intro hfits x hx hin
    have hu := (hcovers.planned x hx).1
    exact (hserved _ hu).mpr (hfits _ hu) x hx rfl hin

/-! ## One tenant spending its whole partition -/

theorem total_replicate_slot (f : WorkSlot → Int) (n : Nat) (slot : WorkSlot) :
    total f (List.replicate n slot) = n * f slot := by
  simp [total]

theorem attackerSlotCount_ok {composition : Composition} {slotCount : Nat}
    (h : attackerSlotCount config composition = .ok slotCount) :
    1 ≤ slotCount ∧ slotCount + 4 = composition.work := by
  have hlength : (bystanderSlots config).length = 4 := rfl
  unfold attackerSlotCount at h
  rw [hlength] at h
  split at h
  · cases h
    omega
  · cases h

theorem isolation_sound {composition : Composition} {slotCount : Nat}
    (h : compose config.concurrency = .ok composition)
    (hcount : attackerSlotCount config composition = .ok slotCount) :
    (isolationPlan config composition slotCount).Sound where
  slots := by
    intro slot hslot
    rcases List.mem_append.mp hslot with hslot | hslot
    · rw [List.eq_of_mem_replicate hslot]
      refine ⟨attacker_billable, le_max_left _ _, ?_⟩
      have hmax : SecureBounds.shipped.maxBatchItems = 500 := rfl
      show max 1 (min SecureBounds.shipped.maxBatchItems _) ≤ _
      omega
    · obtain ⟨t, ht, hslot⟩ := List.mem_flatMap.mp hslot
      rw [List.eq_of_mem_replicate hslot]
      have hall : ∀ t ∈ Fixtures.bystanderTenantIds, t ∈ Fixtures.billableTenantIds := by decide
      exact ⟨hall t ht, config.batchRecords.2.1, config.batchRecords.2.2⟩
  few := by
    have hlength : (bystanderSlots config).length = 4 := rfl
    have hcount := (attackerSlotCount_ok hcount).2
    have := (compose_ok h).2.trans config.concurrency.2.2
    simp only [isolationPlan, List.length_append, List.length_replicate, hlength]
    omega
  stride := le_rfl
  rounds := min_le_left _ _

/-- A bystander has two ordinary slots in every round. -/
theorem slotDemand_bystander (config : HarnessConfig) (composition : Composition) (slotCount : Nat)
    {u : TenantId} (hu : u ∈ Fixtures.bystanderTenantIds) :
    slotDemand (isolationPlan config composition slotCount).slots u =
      2 * (config.batchRecords * Fixtures.lookupPriceCents : Int) := by
  have hne : Fixtures.attackerTenantId ≠ u := by
    rintro rfl
    revert hu
    decide
  have hslots : (isolationPlan config composition slotCount).slots =
      List.replicate slotCount ⟨Fixtures.attackerTenantId, attackerRecords slotCount⟩ ++
        Fixtures.bystanderTenantIds.flatMap fun t => [⟨t, config.batchRecords⟩,
          ⟨t, config.batchRecords⟩] := rfl
  rw [slotDemand, hslots, total_append, total_replicate_slot, if_neg hne, mul_zero, zero_add]
  simp only [Fixtures.bystanderTenantIds, List.mem_cons, List.not_mem_nil, or_false] at hu
  rcases hu with rfl | rfl
  · simp [Fixtures.bystanderTenantIds, two_mul]
  · simp [Fixtures.bystanderTenantIds, two_mul]

/-- The spending tenant has the rest. -/
theorem slotDemand_attacker (config : HarnessConfig) (composition : Composition) (slotCount : Nat) :
    slotDemand (isolationPlan config composition slotCount).slots Fixtures.attackerTenantId =
      slotCount * (attackerRecords slotCount * Fixtures.lookupPriceCents : Int) := by
  have hslots : (isolationPlan config composition slotCount).slots =
      List.replicate slotCount ⟨Fixtures.attackerTenantId, attackerRecords slotCount⟩ ++
        Fixtures.bystanderTenantIds.flatMap fun t => [⟨t, config.batchRecords⟩,
          ⟨t, config.batchRecords⟩] := rfl
  rw [slotDemand, hslots, total_append, total_replicate_slot, if_pos rfl]
  simp [Fixtures.bystanderTenantIds, Fixtures.attackerTenantId]

/-- Only a bystander's refused work is a finding. -/
theorem isolation_judge (config : HarnessConfig) (composition : Composition) (slotCount n : Nat)
    (x : Exchange) : (isolationPlan config composition slotCount).judge n x.record = none ↔
      (x.sent.tenantId ∈ Fixtures.bystanderTenantIds → x.response.succeeded) := by
  have htenant : x.record.tenantId = x.sent.tenantId := rfl
  have hsame : x.record.succeeded = x.response.succeeded := rfl
  simp only [isolationPlan, htenant, hsame]
  split
  · next hbad => simp [hbad.1, hbad.2]
  · next hgood =>
      refine ⟨fun _ ht => ?_, fun _ => rfl⟩
      by_contra hnot
      exact hgood ⟨ht, hnot⟩

/-- The spending tenant ends without room for another request, and has been refused: the final
checks find nothing. -/
theorem Honours.isolationExtra_eq_nil (hon : Honours app config.inFlightCapacity)
    {composition : Composition} {slotCount : Nat}
    (hs : Ready app Fixtures.attackerTenantId jobId s)
    (hspent : 0 ≤ app.usage s Fixtures.attackerTenantId) {order : List Exchange}
    (hrun : Run app.answers s order s') (hready : Ready app Fixtures.attackerTenantId jobId s')
    (hcovers : Covers (isolationPlan config composition slotCount) Fixtures.attackerTenantId jobId
      outcomes order) (hlength : outcomes.length = isolationRounds config slotCount)
    {scenario description bound : String} {roles : List (TenantId × String)} {role : String} :
    isolationExtra config slotCount (accounting app config scenario description bound outcomes
      ((Fixtures.attackerTenantId, role) :: roles) s') = [] := by
  unfold isolationExtra
  simp only
  split
  · rfl
  · next hmore =>
      -- it asked for more than its partition, so some of its work was refused
      have hunfit : ¬ (app.usage s Fixtures.attackerTenantId + outcomes.length *
          slotDemand (isolationPlan config composition slotCount).slots
            Fixtures.attackerTenantId ≤ Fixtures.tenantAllowanceCents) := by
        rw [hlength, slotDemand_attacker]
        have hring : ((isolationRounds config slotCount : Nat) : Int) * (slotCount *
            (attackerRecords slotCount * Fixtures.lookupPriceCents)) = slotCount *
              (attackerRecords slotCount * Fixtures.lookupPriceCents) *
                isolationRounds config slotCount := by ring
        rw [hring]
        omega
      rw [← hon.covered_served_iff hs hrun hcovers attacker_billable] at hunfit
      push Not at hunfit
      obtain ⟨x, hx, htenant, hin, hrefused⟩ := hunfit
      have hlast := hon.lt_of_refused hs hcovers.planned hrun hx hin (by simpa using hrefused)
      have hcents : x.sent.call.cents = attackerRecords slotCount * Fixtures.lookupPriceCents := by
        obtain ⟨slot, hslot, hsame, hcents⟩ := hcovers.slot x hx hin
        rcases List.mem_append.mp hslot with hslot | hslot
        · rw [hcents, List.eq_of_mem_replicate hslot]
        · obtain ⟨t, ht, hslot⟩ := List.mem_flatMap.mp hslot
          rw [List.eq_of_mem_replicate hslot, htenant] at hsame
          have hnot : Fixtures.attackerTenantId ∉ Fixtures.bystanderTenantIds := by decide
          exact absurd (hsame ▸ ht) hnot
      have hbill : (app.ledger s').view.centsOf Fixtures.attackerTenantId =
          app.usage s' Fixtures.attackerTenantId := by
        rw [Ledger.view_centsOf, hready.price, hready.usage]
      rw [htenant, hcents] at hlast
      have hstatus : x.response.statusCode = 429 := by
        rcases ((hon.ready_run hs hcovers.planned hrun).2.1 x hx).work hin with hok | hstatus
        · exact absurd hok hrefused
        · exact hstatus
      have hcounted : 0 < refusalsByKind (outcomes.flatMap (·.records.allRecords))
          .allowanceExhausted := by
        refine List.countP_pos_iff.mpr ⟨x.record, hcovers.recorded x hx, ?_⟩
        simp [Exchange.record, hstatus, refusalKind]
      have hfigures : ((accounting app config scenario description bound outcomes
          ((Fixtures.attackerTenantId, role) :: roles) s').perTenant.find?
            (·.tenantId = Fixtures.attackerTenantId)).elim 0 (·.cents) =
          (app.ledger s').view.centsOf Fixtures.attackerTenantId := by
        simp [accounting, LedgerView.centsOf]
      rw [hfigures, hbill, if_neg (by omega), if_neg (by exact hcounted.ne'), List.append_nil]

theorem isolationFits_iff {composition : Composition} {slotCount : Nat}
    (h : compose config.concurrency = .ok composition)
    (hcount : attackerSlotCount config composition = .ok slotCount) :
    isolationFits config ↔ (isolationRounds config slotCount : Int) *
      (2 * (config.batchRecords * Fixtures.lookupPriceCents)) ≤ Fixtures.tenantAllowanceCents := by
  have hslots : workSlots config.concurrency - 4 = slotCount := by
    have := attackerSlotCount_ok hcount
    have := (compose_ok h).1
    omega
  unfold isolationFits
  rw [hslots]
  push_cast
  have hring : (Fixtures.lookupPriceCents : Int) *
      (bystanderSlotsEach * (config.batchRecords : Nat) * isolationRounds config slotCount) =
        (isolationRounds config slotCount : Int) *
          (2 * ((config.batchRecords : Nat) * Fixtures.lookupPriceCents)) := by
    unfold bystanderSlotsEach
    push_cast
    ring
  rw [hring]

/-- `_allowance_isolation` finds no violation exactly when a bystander's load fits. -/
theorem Honours.isolation_iff (hon : Honours app config.inFlightCapacity)
    {result : ScenarioAccounting} (h : AllowanceIsolation app gzipBytes config result) :
    result.violations = [] ↔ isolationFits config := by
  obtain ⟨composition, slotCount, outcomes, s', hcompose, hcount, hplan, rfl⟩ := h
  obtain ⟨jobId, s, order, hprepare, hrun, hready, hcovers, hlength⟩ :=
    hon.planRun_covers (isolation_sound hcompose hcount) hplan
  obtain ⟨hs, husage⟩ := hon.prepared hprepare
  have hrounds : outcomes.length = isolationRounds config slotCount := hlength
  have hspent : 0 ≤ app.usage s Fixtures.attackerTenantId := by
    rw [husage, if_pos rfl]
    decide
  rw [hon.isolationExtra_eq_nil hs hspent hrun hready hcovers hrounds,
    List.append_nil, hready.accounting_violations (by decide), hcovers.judged
      (fun x => x.sent.tenantId ∈ Fixtures.bystanderTenantIds → x.response.succeeded)
      fun n x _ _ => isolation_judge config composition slotCount n x,
    isolationFits_iff hcompose hcount]
  have hbystander : ∀ u ∈ Fixtures.bystanderTenantIds,
      u ∈ Fixtures.billableTenantIds ∧ u ≠ Fixtures.attackerTenantId := by decide
  have hserved : ∀ u ∈ Fixtures.bystanderTenantIds, ((∀ x ∈ order, x.sent.tenantId = u →
      x.sent.call.inBound → x.response.succeeded) ↔ (isolationRounds config slotCount : Int) *
        (2 * (config.batchRecords * Fixtures.lookupPriceCents)) ≤
          Fixtures.tenantAllowanceCents) := by
    intro u hu
    rw [hon.covered_served_iff hs hrun hcovers (hbystander u hu).1, hrounds,
      slotDemand_bystander config composition slotCount hu, husage,
      if_neg (hbystander u hu).2.symm, zero_add]
  constructor
  · intro hall
    have hone : "TEN-BASIL" ∈ Fixtures.bystanderTenantIds := by decide
    exact (hserved _ hone).mp fun x hx ht hin => hall x hx hin (ht ▸ hone)
  · intro hfits x hx hin hu
    exact (hserved _ hu).mpr hfits x hx rfl hin

end

end Limitless.Harness
