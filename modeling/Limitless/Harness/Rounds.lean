import Limitless.Harness.Honoured
import Mathlib.Tactic.Ring

/-!
# The rounds of a plan against such an application

Every request of a round is planned for: the work is inside every bound whatever its slot names,
and the four probes are over a limit. So the rounds of a plan are one run of exchanges (`Covers`)
that asks each tenant for its slots' work in every round, and the violations a round reports are
those its plan's own judgement makes of the work.
-/

namespace Limitless.Harness

open Indexed Runs

/-! ## The requests of a round -/

/-- The cents a tenant's slots ask for in one round. -/
def slotDemand (slots : List WorkSlot) (u : TenantId) : Int :=
  total (fun slot => if slot.tenantId = u then slot.records * Fixtures.lookupPriceCents else 0)
    slots

/-- A plan whose slots are inside every bound, and whose rounds are few. -/
structure Plan.Sound (plan : Plan) : Prop where
  slots : ∀ slot ∈ plan.slots, slot.tenantId ∈ Fixtures.billableTenantIds ∧ 1 ≤ slot.records ∧
    slot.records ≤ SecureBounds.shipped.maxBatchItems
  few : plan.slots.length ≤ maxConcurrency
  stride : plan.nameStride ≤ 500000
  rounds : plan.rounds ≤ maxRounds

theorem length_companyNames (count offset : Nat) : (companyNames count offset).length = count := by
  simp [companyNames]

/-- An enrichment of up to five hundred early names is inside every bound. -/
theorem inBound_enrich {count offset : Nat} (h1 : 1 ≤ count)
    (hcount : count ≤ SecureBounds.shipped.maxBatchItems) (h : offset + count ≤ 100000000) :
    (Call.enrich (companyNames count offset)).inBound := by
  have hbytes := enrichBodyBytes_le h
  have hmax : SecureBounds.shipped.maxBatchItems = 500 := rfl
  have hbody : SecureBounds.shipped.maxBodyBytes = 65536 := rfl
  simp only [Call.inBound, length_companyNames, decide_eq_true_eq, List.all_eq_true]
  refine ⟨h1, hcount, by omega, fun name hname => ?_⟩
  obtain ⟨i, hi, rfl⟩ := List.mem_map.mp hname
  have hrange := List.mem_range'_1.mp hi
  have := Fixtures.length_companyName (i := ((offset + i : Nat) : Int)) (by omega) (by omega)
  omega

theorem cents_enrich (count offset : Nat) :
    (Call.enrich (companyNames count offset)).cents = count * Fixtures.lookupPriceCents := by
  simp [Call.cents, Call.lookups?, length_companyNames]

namespace RoundBuilder

variable {plan : Plan} {k startSequence : Nat} {gzipBytes : List String → Nat}
  {probeTenant : TenantId} {jobId : String}

/-- A work request is its slot's, and inside every bound. -/
theorem workRequest_eq (hsound : plan.Sound) (hk : k ≤ maxRounds) {q : Sent}
    (hq : q ∈ workRequests plan.slots startSequence (k * plan.nameStride)) :
    q.call.inBound ∧ ∃ slot ∈ plan.slots, q.tenantId = slot.tenantId ∧
      q.call.cents = slot.records * Fixtures.lookupPriceCents := by
  obtain ⟨index, hindex, rfl⟩ := List.mem_mapIdx.mp hq
  have hslot := List.getElem_mem hindex
  obtain ⟨-, h1, hcount⟩ := hsound.slots _ hslot
  refine ⟨inBound_enrich h1 hcount ?_, _, hslot, rfl, cents_enrich _ _⟩
  have hstride : k * plan.nameStride ≤ maxRounds * 500000 := Nat.mul_le_mul hk hsound.stride
  have hoffset : index * plan.slots[index].records ≤ 32 * 500 :=
    Nat.mul_le_mul (hindex.le.trans hsound.few) hcount
  have hmax : SecureBounds.shipped.maxBatchItems = 500 := rfl
  unfold maxRounds at hstride
  omega

/-- Each probe names more than a bound allows. -/
theorem overLimit_of_mem {sequence nameOffset : Nat} {q : Sent}
    (hq : q ∈ (make gzipBytes probeTenant).overLimitRequests sequence nameOffset) :
    q.tenantId = probeTenant ∧ q.call.overLimit := by
  have hline : (Fixtures.enrichmentLine 1).length = 68 := by decide +kernel
  have hbundle : (make gzipBytes probeTenant).overExpandingBundle.decompressedBytes =
      150000 * 69 := by
    simp only [make, repetitiveNdjsonBundle, Bundle.decompressedBytes, List.map_replicate,
      List.sum_replicate, hline, Fixtures.overExpandingImportRecords, smul_eq_mul]
  simp only [overLimitRequests, List.mem_cons, List.not_mem_nil, or_false] at hq
  rcases hq with rfl | rfl | rfl | rfl
  · exact ⟨rfl, rfl⟩
  · refine ⟨rfl, ?_⟩
    simp [Call.overLimit, length_companyNames]
  · exact ⟨rfl, rfl⟩
  · refine ⟨rfl, ?_⟩
    have hmax : SecureBounds.shipped.maxDecompressedBytes = 4194304 := rfl
    simp only [Call.overLimit, hbundle, hmax, decide_eq_true_eq]
    omega

theorem cheap_of_mem {b : RoundBuilder} {cheap sequence : Nat} {q : Sent}
    (hq : q ∈ b.cheapRequests cheap jobId sequence) :
    q.tenantId = b.probeTenantId ∧ q.call = .job jobId := by
  obtain ⟨i, -, rfl⟩ := List.mem_map.mp hq
  exact ⟨rfl, rfl⟩

/-- The work of a round asks each tenant for its slots' records. -/
theorem total_workRequests (hsound : plan.Sound) (hk : k ≤ maxRounds) (u : TenantId) :
    total (fun q => q.demand u) (workRequests plan.slots startSequence (k * plan.nameStride)) =
      slotDemand plan.slots u := by
  unfold slotDemand total
  refine congrArg List.sum (List.ext_getElem (by simp [workRequests]) fun i h₁ h₂ => ?_)
  have hi : i < (workRequests plan.slots startSequence (k * plan.nameStride)).length := by
    simpa using h₁
  have hin := (workRequest_eq hsound hk (List.getElem_mem hi)).1
  rw [List.getElem_map, List.getElem_map]
  simp only [Sent.demand, hin, and_true]
  simp [workRequests, cents_enrich]

end RoundBuilder

/-! ## A round against the application -/

/-- The requests of a round and their records, group by group. -/
theorem RoundBuilder.Runs.exchanges {σ : Type} {app : Application σ} {b : RoundBuilder}
    {slots : List WorkSlot} {cheap startSequence nameOffset : Nat} {jobId : String} {s s' : σ}
    {records : RoundRecords}
    (h : b.Runs app slots cheap jobId startSequence nameOffset s records s') :
    ∃ w c o order : List Exchange, order.Perm (w ++ (c ++ o)) ∧ Run app.answers s order s' ∧
      w.map Exchange.sent = workRequests slots startSequence nameOffset ∧
      c.map Exchange.sent = b.cheapRequests cheap jobId (startSequence + slots.length) ∧
      o.map Exchange.sent =
        b.overLimitRequests (startSequence + slots.length + cheap) nameOffset ∧
      records = ⟨w.map Exchange.record, c.map Exchange.record, o.map Exchange.record⟩ := by
  obtain ⟨released, ⟨exchanges, order, hsent, hperm, hrun, rfl⟩, rfl⟩ := h
  obtain ⟨w, rest, rfl, hw, hrest⟩ := List.map_eq_append_iff.mp hsent
  obtain ⟨c, o, rfl, hc, ho⟩ := List.map_eq_append_iff.mp hrest
  have hwlen : w.length = slots.length := by
    have := congrArg List.length hw
    simpa [workRequests] using this
  have hclen : c.length = cheap := by
    have := congrArg List.length hc
    simpa [cheapRequests] using this
  refine ⟨w, c, o, order, hperm, hrun, hw, hc, ho, ?_⟩
  simp [← hwlen, ← hclen, List.drop_append]

/-- The rounds of a plan are one run of exchanges, and their records are what the rounds report. -/
theorem PlanRound.exchanges {σ : Type} {app : Application σ} {config : HarnessConfig}
    {b : RoundBuilder} {jobId : String} {plan : Plan} {k k' : Nat × σ}
    {outcomes : List RoundOutcome} (h : Run (PlanRound app config b jobId plan) k outcomes k') :
    ∃ order : List Exchange, Run app.answers k.2 order k'.2 ∧
      (order.map Exchange.record).Perm (outcomes.flatMap (·.records.allRecords)) := by
  induction h with
  | nil => exact ⟨[], .nil, .refl _⟩
  | cons hround _ ih =>
      obtain ⟨-, records, hruns, rfl⟩ := hround
      obtain ⟨w, c, o, order, hperm, hrun, -, -, -, rfl⟩ := hruns.exchanges
      obtain ⟨rest, hrest, hrecords⟩ := ih
      refine ⟨order ++ rest, hrun.append hrest, ?_⟩
      rw [List.map_append, List.flatMap_cons]
      refine List.Perm.append ?_ hrecords
      simpa [RoundRecords.allRecords] using hperm.map Exchange.record

/-- The common checks find nothing where the probes and the work were answered as they
should be. -/
theorem checkCommon_eq_nil {k : Nat} {records : RoundRecords} {peak capacity cents : Int}
    (hover : ∀ r ∈ records.overLimit, r.succeeded = false)
    (hcheap : ∀ r ∈ records.cheap, r.succeeded = true)
    (hwork : ∀ r ∈ records.work, r.statusCode ≠ 503) (hpeak : peak ≤ capacity)
    (hcents : cents ≤ Fixtures.globalSpendCapCents) :
    checkCommon k records peak capacity cents = [] := by
  have hover' : records.overLimit.filter (·.succeeded) = [] :=
    List.filter_eq_nil_iff.mpr fun r hr => by simp [hover r hr]
  have hcheap' : records.cheap.filter (!·.succeeded) = [] :=
    List.filter_eq_nil_iff.mpr fun r hr => by simp [hcheap r hr]
  have hwork' : records.work.filter (·.statusCode = 503) = [] :=
    List.filter_eq_nil_iff.mpr fun r hr => by simp [hwork r hr]
  simp [checkCommon, hover', hcheap', hwork', not_lt.mpr hpeak, not_lt.mpr hcents]

/-- The exchanges of the rounds whose outcomes are `outcomes`, in the order they were served. -/
structure Covers (plan : Plan) (probeTenant : TenantId) (jobId : String)
    (outcomes : List RoundOutcome) (order : List Exchange) : Prop where
  planned : ∀ x ∈ order, Planned probeTenant jobId x.sent
  slot : ∀ x ∈ order, x.sent.call.inBound → ∃ slot ∈ plan.slots,
    x.sent.tenantId = slot.tenantId ∧ x.sent.call.cents = slot.records * Fixtures.lookupPriceCents
  demand : ∀ u, total (fun x => x.sent.demand u) order =
    outcomes.length * slotDemand plan.slots u
  recorded : ∀ x ∈ order, x.record ∈ outcomes.flatMap (·.records.allRecords)
  /-- The rounds report what the plan makes of the work, and nothing else. -/
  judged : ∀ p : Exchange → Prop, (∀ n x, Answered x → x.sent.call.inBound →
    (plan.judge n x.record = none ↔ p x)) →
    ((∀ o ∈ outcomes, o.violations = []) ↔ ∀ x ∈ order, x.sent.call.inBound → p x)

theorem Covers.nil (plan : Plan) (probeTenant : TenantId) (jobId : String) :
    Covers plan probeTenant jobId [] [] :=
  ⟨by simp, by simp, by simp, by simp, by simp⟩

theorem Covers.cons {plan : Plan} {probeTenant : TenantId} {jobId : String} {o : RoundOutcome}
    {outcomes : List RoundOutcome} {order₁ order₂ : List Exchange}
    (h₁ : Covers plan probeTenant jobId [o] order₁)
    (h₂ : Covers plan probeTenant jobId outcomes order₂) :
    Covers plan probeTenant jobId (o :: outcomes) (order₁ ++ order₂) where
  planned := List.forall_mem_append.mpr ⟨h₁.planned, h₂.planned⟩
  slot := List.forall_mem_append.mpr ⟨h₁.slot, h₂.slot⟩
  demand u := by
    rw [total_append, h₁.demand, h₂.demand, List.length_singleton, List.length_cons]
    push_cast
    ring
  recorded := by
    rw [List.flatMap_cons]
    refine List.forall_mem_append.mpr ⟨fun x hx => ?_, fun x hx => ?_⟩
    · have := h₁.recorded x hx
      simp only [List.flatMap_cons, List.flatMap_nil, List.append_nil] at this
      exact List.mem_append_left _ this
    · exact List.mem_append_right _ (h₂.recorded x hx)
  judged p hp := by
    have hfirst := h₁.judged p hp
    rw [List.forall_mem_singleton] at hfirst
    rw [List.forall_mem_cons, List.forall_mem_append, hfirst, h₂.judged p hp]

section
variable {σ : Type} {app : Application σ} {config : HarnessConfig} {gzipBytes : List String → Nat}
  {plan : Plan} {probeTenant : TenantId} {jobId : String} {k k' : Nat × σ} {w c o : List Exchange}

/-- The requests of a round are planned for. -/
theorem Plan.Sound.planned (hsound : plan.Sound) (hprobe : probeTenant ∈ Fixtures.billableTenantIds)
    {n startSequence sequence₁ sequence₂ : Nat} (hn : n ≤ maxRounds)
    (hw : w.map Exchange.sent =
      RoundBuilder.workRequests plan.slots startSequence (n * plan.nameStride))
    (hc : c.map Exchange.sent =
      (RoundBuilder.make gzipBytes probeTenant).cheapRequests plan.cheap jobId sequence₁)
    (ho : o.map Exchange.sent = (RoundBuilder.make gzipBytes probeTenant).overLimitRequests
      sequence₂ (n * plan.nameStride)) :
    (∀ x ∈ w, x.sent.call.inBound ∧ ∃ slot ∈ plan.slots, x.sent.tenantId = slot.tenantId ∧
      x.sent.call.cents = slot.records * Fixtures.lookupPriceCents) ∧
    (∀ x ∈ c, x.sent.tenantId = probeTenant ∧ x.sent.call = .job jobId) ∧
    (∀ x ∈ o, x.sent.tenantId = probeTenant ∧ x.sent.call.overLimit) ∧
    ∀ x ∈ w ++ (c ++ o), Planned probeTenant jobId x.sent := by
  have hwork : ∀ x ∈ w, x.sent.call.inBound ∧ ∃ slot ∈ plan.slots, x.sent.tenantId = slot.tenantId ∧
      x.sent.call.cents = slot.records * Fixtures.lookupPriceCents := fun x hx =>
    RoundBuilder.workRequest_eq hsound hn (hw ▸ List.mem_map_of_mem hx)
  have hcheap : ∀ x ∈ c, x.sent.tenantId = probeTenant ∧ x.sent.call = .job jobId := fun x hx =>
    RoundBuilder.cheap_of_mem (hc ▸ List.mem_map_of_mem hx)
  have hover : ∀ x ∈ o, x.sent.tenantId = probeTenant ∧ x.sent.call.overLimit := fun x hx =>
    RoundBuilder.overLimit_of_mem (ho ▸ List.mem_map_of_mem hx)
  refine ⟨hwork, hcheap, hover, fun x hx => ?_⟩
  rcases List.mem_append.mp hx with hx | hx
  · obtain ⟨hin, slot, hslot, htenant, -⟩ := hwork x hx
    exact ⟨htenant ▸ (hsound.slots slot hslot).1, .inl hin⟩
  rcases List.mem_append.mp hx with hx | hx
  · obtain ⟨htenant, hjob⟩ := hcheap x hx
    exact ⟨htenant ▸ hprobe, .inr (.inr ⟨htenant, hjob⟩)⟩
  · obtain ⟨htenant, hlimit⟩ := hover x hx
    exact ⟨htenant ▸ hprobe, .inr (.inl hlimit)⟩

/-- Answered requests leave nothing to what every round is checked for. -/
theorem checkCommon_answered (roundNumber : Nat) {peak capacity cents : Int}
    (hwork : ∀ x ∈ w, x.sent.call.inBound) (hcheap : ∀ x ∈ c, ∃ jobId, x.sent.call = .job jobId)
    (hover : ∀ x ∈ o, x.sent.call.overLimit) (hw : ∀ x ∈ w, Answered x)
    (hc : ∀ x ∈ c, Answered x) (ho : ∀ x ∈ o, Answered x) (hpeak : peak ≤ capacity)
    (hcents : cents ≤ Fixtures.globalSpendCapCents) :
    checkCommon roundNumber
      ⟨w.map Exchange.record, c.map Exchange.record, o.map Exchange.record⟩ peak capacity cents =
        [] := by
  have hovers : ∀ r ∈ o.map Exchange.record, r.succeeded = false := by
    intro r hr
    obtain ⟨x, hx, rfl⟩ := List.mem_map.mp hr
    exact Response.not_succeeded ((ho x hx).overLimit (hover x hx)) (by decide)
  have hcheaps : ∀ r ∈ c.map Exchange.record, r.succeeded = true := by
    intro r hr
    obtain ⟨x, hx, rfl⟩ := List.mem_map.mp hr
    obtain ⟨jobId, hjob⟩ := hcheap x hx
    have := (hc x hx).cheap jobId hjob
    simp [RequestRecord.succeeded, Exchange.record, this]
  have hworks : ∀ r ∈ w.map Exchange.record, r.statusCode ≠ 503 := by
    intro r hr
    obtain ⟨x, hx, rfl⟩ := List.mem_map.mp hr
    rcases (hw x hx).work (hwork x hx) with hok | hrefused
    · simp only [Response.succeeded, decide_eq_true_eq] at hok
      simp only [Exchange.record]
      omega
    · simp [Exchange.record, hrefused]
  exact checkCommon_eq_nil hovers hcheaps hworks hpeak hcents

/-- **Round lemma.** A round is a run of exchanges that asks each tenant for its slots' work, and
what it reports is its plan's judgement. -/
theorem Honours.round_covers (hon : Honours app config.inFlightCapacity) (hsound : plan.Sound)
    (hprobe : probeTenant ∈ Fixtures.billableTenantIds) (hk : k.1 ≤ maxRounds)
    (hs : Ready app probeTenant jobId k.2) {outcome : RoundOutcome}
    (h : PlanRound app config (.make gzipBytes probeTenant) jobId plan k outcome k') :
    ∃ order, Run app.answers k.2 order k'.2 ∧ Ready app probeTenant jobId k'.2 ∧
      Covers plan probeTenant jobId [outcome] order := by
  obtain ⟨-, records, hruns, rfl⟩ := h
  obtain ⟨w, c, o, order, hperm, hrun, hw, hc, ho, rfl⟩ := hruns.exchanges
  obtain ⟨hwork, hcheap, hover, hall⟩ := hsound.planned hprobe hk hw hc ho
  have hplanned : ∀ x ∈ order, Planned probeTenant jobId x.sent :=
    fun x hx => hall x (hperm.mem_iff.mp hx)
  obtain ⟨hready, hanswered, -⟩ := hon.ready_run hs hplanned hrun
  have hmem : ∀ x ∈ w ++ (c ++ o), Answered x := fun x hx => hanswered x (hperm.mem_iff.mpr hx)
  rw [List.forall_mem_append, List.forall_mem_append] at hmem
  obtain ⟨hanswered_w, hanswered_c, hanswered_o⟩ := hmem
  -- only the work is inside every bound
  have hin_c : ∀ x ∈ c, x.sent.call.inBound = false := by
    intro x hx
    rw [(hcheap x hx).2]
    rfl
  have hin_o : ∀ x ∈ o, x.sent.call.inBound = false := fun x hx =>
    Call.not_inBound (hover x hx).2
  have hinside : ∀ x ∈ order, x.sent.call.inBound → x ∈ w := by
    intro x hx hin
    rcases List.mem_append.mp (hperm.mem_iff.mp hx) with hx | hx
    · exact hx
    rcases List.mem_append.mp hx with hx | hx
    · rw [hin_c x hx] at hin
      cases hin
    · rw [hin_o x hx] at hin
      cases hin
  refine ⟨order, hrun, hready, ⟨hplanned, fun x hx hin => (hwork x (hinside x hx hin)).2,
    fun u => ?_, fun x hx => ?_, fun p hp => ?_⟩⟩
  · have hzero : ∀ xs : List Exchange, (∀ x ∈ xs, x.sent.call.inBound = false) →
        total (fun x => x.sent.demand u) xs = 0 := fun xs hxs =>
      total_eq_zero fun x hx => by simp [Sent.demand, hxs x hx]
    rw [total_perm _ hperm, total_append, total_append, hzero c hin_c, hzero o hin_o,
      ← total_map (fun q => q.demand u) Exchange.sent, hw,
      RoundBuilder.total_workRequests hsound hk]
    simp
  · have := List.mem_map_of_mem (f := Exchange.record) (hperm.mem_iff.mp hx)
    simpa [RoundRecords.allRecords] using this
  · have hcommon := checkCommon_answered k.1 (fun x hx => (hwork x hx).1)
      (fun x hx => ⟨jobId, (hcheap x hx).2⟩) (fun x hx => (hover x hx).2) hanswered_w hanswered_c
      hanswered_o (hon.peak k'.2) hready.totalCents_le
    rw [List.forall_mem_singleton, hcommon, hready.budgetViolations_eq_nil, List.append_nil,
      List.nil_append, List.filterMap_eq_nil_iff]
    refine ⟨fun hjudge x hx hin => ?_, fun hgood r hr => ?_⟩
    · exact (hp k.1 x (hanswered x hx) hin).mp
        (hjudge _ (List.mem_map_of_mem (hinside x hx hin)))
    · obtain ⟨x, hx, rfl⟩ := List.mem_map.mp hr
      have hxo : x ∈ order := hperm.mem_iff.mpr (List.mem_append_left _ hx)
      exact (hp k.1 x (hanswered_w x hx) (hwork x hx).1).mpr (hgood x hxo (hwork x hx).1)

/-- **Run lemma.** So are all the rounds of a plan together. -/
theorem Honours.rounds_cover (hon : Honours app config.inFlightCapacity) (hsound : plan.Sound)
    (hprobe : probeTenant ∈ Fixtures.billableTenantIds) {outcomes : List RoundOutcome}
    (hs : Ready app probeTenant jobId k.2) (hk' : k'.1 ≤ maxRounds + 1)
    (hrun : Run (PlanRound app config (.make gzipBytes probeTenant) jobId plan) k outcomes k') :
    k'.1 = k.1 + outcomes.length ∧ ∃ order, Run app.answers k.2 order k'.2 ∧
      Ready app probeTenant jobId k'.2 ∧ Covers plan probeTenant jobId outcomes order := by
  induction hrun with
  | nil => exact ⟨rfl, [], .nil, hs, .nil plan probeTenant jobId⟩
  | @cons k m k' outcome outcomes hround hrest ih =>
      have hnext := hround.1
      have hlater : m.1 ≤ k'.1 :=
        hrest.invariant (I := fun n => m.1 ≤ n.1) (fun a _ b hle hab => by rw [hab.1]; omega) le_rfl
      obtain ⟨order₁, hrun₁, hready, hcovers₁⟩ :=
        hon.round_covers hsound hprobe (by omega) hs hround
      obtain ⟨hlength, order₂, hrun₂, hready', hcovers₂⟩ := ih hready hk'
      refine ⟨?_, order₁ ++ order₂, hrun₁.append hrun₂, hready', hcovers₁.cons hcovers₂⟩
      rw [List.length_cons]
      omega

end

end Limitless.Harness
