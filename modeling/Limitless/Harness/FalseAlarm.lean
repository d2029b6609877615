import Limitless.Harness.Verdict

/-!
# The harness against an application that does everything right

`bounded_iff_load_fits` is the verdict on the harness itself. The reference application `Honest`
honours every bound and can always answer, so every configuration with room for its rounds has a
run of either scenario against it (`exists_legitimate`, `exists_isolation`): both sides of the
equivalence are met, one by the configuration the harness ships and one by a configuration that it
accepts as well.
-/

namespace Limitless.Harness

open Runs

section
variable {σ : Type} {app : Application σ} {config : HarnessConfig} {gzipBytes : List String → Nat}

/-- **No false alarm.** Against an application that honours every bound, in whatever order it
answers, either scenario ends bounded exactly when the load of its configuration fits. -/
theorem bounded_iff_load_fits (hon : Honours app config.inFlightCapacity) :
    (∀ result, ConcurrentLegitimate app gzipBytes config result →
      (result.violations = [] ∧ result.verdict = "bounded" ↔ legitimateFits config)) ∧
    ∀ result, AllowanceIsolation app gzipBytes config result →
      (result.violations = [] ∧ result.verdict = "bounded" ↔ isolationFits config) := by
  refine ⟨fun result h => ?_, fun result h => ?_⟩
  · rw [verdict_eq_bounded, and_self, hon.legitimate_iff h]
  · rw [verdict_eq_bounded, and_self, hon.isolation_iff h]

/-! ## Runs against an application that always answers -/

section
variable {I : σ → Prop} (htotal : ∀ s q, I s → ∃ r s', app.answers s ⟨q, r⟩ s' ∧ I s')
include htotal

/-- Requests that are released together can all be answered. -/
theorem exists_released (sent : List Sent) {s : σ} (hs : I s) :
    ∃ records s', Released app s sent records s' ∧ I s' := by
  suffices hrun : ∃ exchanges s', exchanges.map Exchange.sent = sent ∧
      Run app.answers s exchanges s' ∧ I s' by
    obtain ⟨exchanges, s', hsent, hrun, hs'⟩ := hrun
    exact ⟨_, s', ⟨exchanges, exchanges, hsent, .refl _, hrun, rfl⟩, hs'⟩
  induction sent generalizing s with
  | nil => exact ⟨[], s, rfl, .nil, hs⟩
  | cons q sent ih =>
      obtain ⟨r, t, hstep, ht⟩ := htotal s q hs
      obtain ⟨exchanges, s', hsent, hrun, hs'⟩ := ih ht
      exact ⟨⟨q, r⟩ :: exchanges, s', by simp [hsent], .cons hstep hrun, hs'⟩

/-- All the rounds of a plan can take place. -/
theorem exists_rounds (builder : RoundBuilder) (jobId : String) (plan : Plan) (n : Nat)
    {k : Nat × σ} (hk : I k.2) : ∃ outcomes s',
      Run (PlanRound app config builder jobId plan) k outcomes (k.1 + n, s') ∧ I s' := by
  induction n generalizing k with
  | zero => exact ⟨[], k.2, .nil, hk⟩
  | succ n ih =>
      obtain ⟨released, t, hreleased, ht⟩ := exists_released htotal
        (builder.requests plan.slots plan.cheap jobId
          (plan.firstSequence + (k.1 - 1) * plan.total) (k.1 * plan.nameStride)) hk
      obtain ⟨outcomes, s', hrun, hs'⟩ := ih (k := (k.1 + 1, t)) ht
      refine ⟨_ :: outcomes, s',
        .cons (t := (k.1 + 1, t)) ⟨rfl, _, ⟨released, hreleased, rfl⟩, rfl⟩ ?_, hs'⟩
      rwa [Nat.add_assoc, Nat.add_comm 1 n] at hrun

theorem exists_planRun (config : HarnessConfig) {jobId : String} {s : σ}
    (h : Prepare app gzipBytes Fixtures.attackerTenantId jobId s) (hs : I s) (plan : Plan) :
    ∃ outcomes s', PlanRun app gzipBytes config plan outcomes s' ∧ I s' := by
  obtain ⟨outcomes, s', hrun, hs'⟩ := exists_rounds htotal
    (.make gzipBytes Fixtures.attackerTenantId) jobId plan plan.rounds (k := (1, s)) hs
  rw [Nat.add_comm] at hrun
  exact ⟨outcomes, s', ⟨jobId, s, h, hrun⟩, hs'⟩

end

end

/-! ## The reference application -/

/-- An application that keeps the provider's books and the jobs it has created. -/
structure Honest where
  lookups : Keyed TenantLookups.tenantId
  jobs : List (TenantId × String)

namespace Honest

/-- The provider's bill, at the documented price. -/
def ledger (s : Honest) : Ledger := ⟨Fixtures.lookupPriceCents, s.lookups⟩

/-- What a tenant has spent. -/
def usage (s : Honest) (u : TenantId) : Int := s.ledger.lookupsOf u * Fixtures.lookupPriceCents

/-- Admit `n` lookups where they fit, and create the job, if there is one. -/
def grant (s : Honest) (t : TenantId) (n : Nat) (jobId : Option String) : Response × Honest :=
  let cents : Int := n * Fixtures.lookupPriceCents
  if s.usage t + cents ≤ Fixtures.tenantAllowanceCents then
    (⟨201, some ⟨some n, some cents, jobId⟩⟩,
      ⟨s.lookups.put ⟨t, s.ledger.lookupsOf t + n⟩, jobId.toList.map (t, ·) ++ s.jobs⟩)
  else (⟨429, none⟩, s)

/-- Answer one request. -/
def serve (s : Honest) (q : Sent) : Response × Honest :=
  if q.call.overLimit then (⟨413, none⟩, s) else
  match q.call with
  | .enrich companyNames => s.grant q.tenantId companyNames.length none
  | .importBundle bundle => s.grant q.tenantId bundle.lines.length (some "JOB-1")
  | .job jobId => (⟨if (q.tenantId, jobId) ∈ s.jobs then 200 else 404, none⟩, s)
  | .listRecords _ => (⟨200, none⟩, s)
  | .enrichRaw _ => (⟨400, none⟩, s)

/-- It as the harness sees it. -/
def app : Application Honest where
  seeded s := s = ⟨Keyed.empty, []⟩
  answers s x s' := s.serve x.sent = (x.response, s')
  jobs s t jobId := (t, jobId) ∈ s.jobs
  usage := usage
  ledger := ledger
  peakInFlight _ := 0

variable {s s' : Honest} {x : Exchange} {t : TenantId} {n : Nat} {jobId : Option String}

/-- What fits is charged to the tenant that asked for it. -/
theorem grant_fits (jobId : Option String)
    (h : s.usage t + n * Fixtures.lookupPriceCents ≤ Fixtures.tenantAllowanceCents) :
    (s.grant t n jobId).1 = ⟨201, some ⟨some n, some (n * Fixtures.lookupPriceCents), jobId⟩⟩ ∧
      s.ledger.charge t n = .ok ((s.grant t n jobId).2.ledger, n * Fixtures.lookupPriceCents) ∧
      (s.grant t n jobId).2.jobs = jobId.toList.map (t, ·) ++ s.jobs := by
  unfold grant
  simp only
  rw [if_pos h]
  refine ⟨rfl, ?_, rfl⟩
  unfold Ledger.charge
  rw [if_neg (by omega)]
  rfl

/-- What does not is refused, and nothing changes. -/
theorem grant_refused
    (h : ¬ s.usage t + n * Fixtures.lookupPriceCents ≤ Fixtures.tenantAllowanceCents) :
    s.grant t n jobId = (⟨429, none⟩, s) := if_neg h

/-- A charge moves the usage of its tenant. -/
theorem usage_of_charge {cents : Int} (h : s.ledger.charge t n = .ok (s'.ledger, cents))
    (u : TenantId) : s'.usage u = s.usage u + if t = u then cents else 0 := by
  obtain ⟨-, rfl, -, hlookups⟩ := Ledger.charge_ok h
  have hprice : s.ledger.priceCentsPerLookup = Fixtures.lookupPriceCents := rfl
  unfold usage
  rw [hlookups, add_mul, hprice]
  split <;> simp

theorem cents_of_lookups {c : Call} (h : c.lookups? = some n) :
    c.cents = n * Fixtures.lookupPriceCents := by
  simp [Call.cents, h]

/-- What serving a request comes to. -/
inductive Served (s : Honest) (x : Exchange) : Honest → Prop
  /-- Its work fits, and is charged. -/
  | charged {s' : Honest} {n : Nat} {jobId : Option String} (hn : x.sent.call.lookups? = some n)
      (hfits : s.usage x.sent.tenantId + x.sent.call.cents ≤ Fixtures.tenantAllowanceCents)
      (hresponse : x.response = ⟨201, some ⟨some n, some x.sent.call.cents, jobId⟩⟩)
      (hcharge : s.ledger.charge x.sent.tenantId n = .ok (s'.ledger, x.sent.call.cents))
      (hjobs : s'.jobs = jobId.toList.map (x.sent.tenantId, ·) ++ s.jobs) : Served s x s'
  /-- Its work does not fit. -/
  | refused
      (hunfit : Fixtures.tenantAllowanceCents < s.usage x.sent.tenantId + x.sent.call.cents)
      (hresponse : x.response = ⟨429, none⟩) : Served s x s
  /-- It is over a bound, or asks for no work. -/
  | unbilled (hfree : x.sent.call.lookups? = none ∨ x.response.succeeded = false)
      (hin : x.sent.call.inBound = false) : Served s x s

/-- Admitting is charging what fits, or refusing with 429. -/
theorem served_grant (hn : x.sent.call.lookups? = some n)
    (hgrant : s.grant x.sent.tenantId n jobId = (x.response, s')) : Served s x s' := by
  have hcents := cents_of_lookups hn
  by_cases hfits : s.usage x.sent.tenantId + n * Fixtures.lookupPriceCents ≤
      Fixtures.tenantAllowanceCents
  · obtain ⟨hresponse, hcharge, hjobs⟩ := grant_fits jobId hfits
    rw [hgrant, ← hcents] at hresponse hcharge
    rw [hgrant] at hjobs
    exact .charged hn (hcents ▸ hfits) hresponse hcharge hjobs
  · rw [grant_refused hfits] at hgrant
    obtain ⟨hresponse, rfl⟩ := Prod.mk.injEq .. ▸ hgrant
    rw [← hcents] at hfits
    exact .refused (not_le.mp hfits) hresponse.symm

/-- **What an answer can be.** -/
theorem served (h : app.answers s x s') : Served s x s' := by
  have hserve : s.serve x.sent = (x.response, s') := h
  unfold serve at hserve
  split at hserve
  · next hover =>
      obtain ⟨hresponse, rfl⟩ := Prod.mk.injEq .. ▸ hserve
      exact .unbilled (.inr (by rw [← hresponse]; rfl)) (Call.not_inBound hover)
  · split at hserve
    · next companyNames hcall => exact served_grant (by rw [hcall]; rfl) hserve
    · next bundle hcall => exact served_grant (by rw [hcall]; rfl) hserve
    all_goals
      next hcall =>
        obtain ⟨-, rfl⟩ := Prod.mk.injEq .. ▸ hserve
        exact .unbilled (.inl (by rw [hcall]; rfl)) (by rw [hcall]; rfl)

/-- The reference application honours every bound. -/
theorem honours {capacity : Int} (hcapacity : 0 ≤ capacity) : Honours app capacity where
  seeded := by
    rintro s rfl
    exact ⟨fun u => rfl, rfl, rfl⟩
  served s x s' h _ hin hfits := by
    cases served h with
    | charged _ _ hresponse => rw [hresponse]; rfl
    | refused hunfit => exact absurd hfits (not_le.mpr hunfit)
    | unbilled _ hout => exact absurd hin (by simp [hout])
  exhausted s x s' h _ hin hunfit := by
    cases served h with
    | charged _ hfits => exact absurd hfits (not_le.mpr hunfit)
    | refused _ hresponse => rw [hresponse]
    | unbilled _ hout => exact absurd hin (by simp [hout])
  overLimit s x s' h hover := by
    have hserve : s.serve x.sent = (x.response, s') := h
    rw [serve, if_pos hover] at hserve
    exact (congrArg (fun r => r.1.statusCode) hserve).symm
  cheap s x s' jobId h hcall hjob := by
    have hserve : s.serve x.sent = (x.response, s') := h
    have hover : ¬ (Call.job jobId).overLimit = true := by simp [Call.overLimit]
    have hmem : (x.sent.tenantId, jobId) ∈ s.jobs := hjob
    rw [serve, hcall, if_neg hover] at hserve
    simp only [hmem, if_true] at hserve
    exact (congrArg (fun r => r.1.statusCode) hserve).symm
  created s x s' bundle body jobId h hcall hok hbody hjob := by
    cases served h with
    | charged _ _ hresponse _ hjobs =>
        rw [hresponse] at hbody
        cases hbody
        cases hjob
        show (x.sent.tenantId, jobId) ∈ s'.jobs
        rw [hjobs]
        simp
    | refused _ hresponse => exact absurd hok (by simp [hresponse, Response.succeeded])
    | unbilled hfree => exact absurd hfree (by simp [hcall, hok, Call.lookups?])
  kept s x s' t jobId h hjob := by
    cases served h with
    | charged _ _ _ _ hjobs =>
        show (t, jobId) ∈ s'.jobs
        rw [hjobs]
        exact List.mem_append_right _ hjob
    | refused => exact hjob
    | unbilled => exact hjob
  billed s x s' n h hn hok := by
    cases served h with
    | @charged _ m _ hm _ _ hcharge =>
        obtain rfl : m = n := Option.some.inj (hm.symm.trans hn)
        rw [cents_of_lookups hn] at hcharge
        exact ⟨_, hcharge, usage_of_charge hcharge⟩
    | refused _ hresponse => exact absurd hok (by simp [hresponse, Response.succeeded])
    | unbilled hfree => exact absurd hfree (by simp [hn, hok])
  free s x s' h hfree := by
    cases served h with
    | charged hn _ hresponse => exact absurd hfree (by simp [hn, hresponse, Response.succeeded])
    | refused => exact ⟨rfl, fun _ => rfl⟩
    | unbilled => exact ⟨rfl, fun _ => rfl⟩
  within s x s' u h _ hle := by
    cases served h with
    | charged _ hfits _ hcharge =>
        show s'.usage u ≤ _
        rw [usage_of_charge hcharge]
        split
        · next hu => exact hu ▸ hfits
        · rwa [add_zero]
    | refused => exact hle
    | unbilled => exact hle
  peak _ := hcapacity

theorem answers_serve (s : Honest) (q : Sent) :
    app.answers s ⟨q, (s.serve q).1⟩ (s.serve q).2 := rfl

theorem total (s : Honest) (q : Sent) (_ : True) : ∃ r s', app.answers s ⟨q, r⟩ s' ∧ True :=
  ⟨_, _, answers_serve s q, trivial⟩

/-- A scenario against it can be prepared. -/
theorem prepared (gzipBytes : List String → Nat) :
    ∃ s, Prepare app gzipBytes Fixtures.attackerTenantId "JOB-1" s := by
  let s₀ : Honest := ⟨Keyed.empty, []⟩
  let q : Sent := ⟨1, Fixtures.attackerTenantId,
    .importBundle (ndjsonBundle gzipBytes setupImportRecords)⟩
  have hsmall : (ndjsonBundle gzipBytes setupImportRecords).decompressedBytes ≤
      SecureBounds.shipped.maxDecompressedBytes :=
    (decompressedBytes_ndjsonBundle (by decide)).trans (by decide)
  have hover : ¬ q.call.overLimit = true := by
    simpa only [q, Call.overLimit, decide_eq_true_eq, not_lt] using hsmall
  have hserve : s₀.serve q = s₀.grant Fixtures.attackerTenantId setupImportRecords
      (some "JOB-1") := by
    rw [serve, if_neg hover]
    simp [q, ndjsonBundle]
  have hfits : s₀.usage Fixtures.attackerTenantId + setupImportRecords * Fixtures.lookupPriceCents ≤
      Fixtures.tenantAllowanceCents := by
    have hnone : s₀.usage Fixtures.attackerTenantId = 0 := rfl
    rw [hnone]
    decide
  have hresponse := (grant_fits (some "JOB-1") hfits).1
  exact ⟨(s₀.serve q).2, s₀, (s₀.serve q).1, _, rfl, answers_serve s₀ q,
    by rw [hserve, hresponse], by rw [hserve, hresponse], rfl⟩

/-- Every configuration with room for a round has a run of the first scenario against it. -/
theorem exists_legitimate (gzipBytes : List String → Nat) (config : HarnessConfig)
    (h : minConcurrency ≤ config.concurrency) :
    ∃ result, ConcurrentLegitimate app gzipBytes config result := by
  obtain ⟨s, hprepare⟩ := prepared gzipBytes
  obtain ⟨outcomes, s', hrun, -⟩ :=
    exists_planRun total config hprepare trivial (legitimatePlan config
      ⟨workSlots config.concurrency, max 4 (config.concurrency / 6), overLimitProbes⟩)
  exact ⟨_, _, outcomes, s', if_neg (not_lt.mpr h), hrun, rfl⟩

/-- Every configuration with room for the spending tenant has one of the second. -/
theorem exists_isolation (gzipBytes : List String → Nat) (config : HarnessConfig)
    (h : minConcurrency < config.concurrency) :
    ∃ result, AllowanceIsolation app gzipBytes config result := by
  obtain ⟨s, hprepare⟩ := prepared gzipBytes
  let composition : Composition :=
    ⟨workSlots config.concurrency, max 4 (config.concurrency / 6), overLimitProbes⟩
  have hroom : (bystanderSlots config).length < composition.work := by
    have hlength : (bystanderSlots config).length = 4 := rfl
    show _ < config.concurrency.val - overLimitProbes - max 4 (config.concurrency.val / 6)
    unfold minConcurrency at h
    unfold overLimitProbes
    omega
  obtain ⟨outcomes, s', hrun, -⟩ := exists_planRun total config hprepare trivial
    (isolationPlan config composition (composition.work - (bystanderSlots config).length))
  exact ⟨_, composition, _, outcomes, s', if_neg (not_lt.mpr h.le), if_pos hroom, hrun, rfl⟩

end Honest

/-! ## Both sides of the equivalence -/

/-- `int` of a string of decimal digits. -/
def decimal (raw : String) : Option Int :=
  if raw ≠ "" ∧ raw.toList.all Char.isDigit then
    some (raw.toList.foldl (fun n c => 10 * n + (c.toNat - 48)) 0)
  else none

/-- The two replicas of the demonstration. -/
def twoReplicas : RunnerConfig := ⟨["http://app-a:8000", "http://app-b:8000"], by decide⟩

/-- The default configuration, but for the rounds and the records of a batch. -/
def configured (rounds : BoundedInt maxRounds)
    (batchRecords : BoundedInt SecureBounds.shipped.maxBatchItems) : HarnessConfig :=
  ⟨twoReplicas, .deterministic, ⟨defaultConcurrency, by decide⟩, rounds, batchRecords,
    ⟨8, by decide⟩, "/artifacts/harness-transcript.txt"⟩

/-- The configuration of an empty environment. -/
def byDefault : HarnessConfig :=
  configured ⟨defaultRounds, by decide⟩ ⟨defaultBatchRecords, by decide⟩

theorem bounded_iff_load_fits_by_default : ∃ result result',
    ConcurrentLegitimate Honest.app (fun _ => 100) byDefault result ∧
    AllowanceIsolation Honest.app (fun _ => 100) byDefault result' ∧
    result.verdict = "bounded" ∧ result'.verdict = "bounded" := by
  obtain ⟨result, hresult⟩ :=
    Honest.exists_legitimate (fun _ => 100) byDefault (by decide)
  obtain ⟨result', hresult'⟩ :=
    Honest.exists_isolation (fun _ => 100) byDefault (by decide)
  have hhonours : Honours Honest.app byDefault.inFlightCapacity := Honest.honours (by decide)
  obtain ⟨hlegitimate, hisolation⟩ := bounded_iff_load_fits hhonours
  exact ⟨result, result', hresult, hresult', ((hlegitimate result hresult).mpr (by decide)).2,
    ((hisolation result' hresult').mpr (by decide)).2⟩

/-- Four rounds of the largest ordinary batches. -/
def largestBatches : String → Option String
  | "LIMITLESS_ROUNDS" => some "4"
  | "LIMITLESS_BATCH_RECORDS" => some "500"
  | _ => none

/-- What it is read as. -/
def fourLargest : HarnessConfig := configured ⟨4, by decide⟩ ⟨500, by decide⟩

/-- `from_env` accepts four rounds of five hundred records in each ordinary request, and an
application that honours every bound has to refuse some of that work. -/
theorem false_alarm :
    HarnessConfig.fromEnv decimal (.ok twoReplicas) largestBatches = .ok fourLargest ∧
    Honours Honest.app fourLargest.inFlightCapacity ∧
    ∃ result, ConcurrentLegitimate Honest.app (fun _ => 100) fourLargest result ∧
      result.violations ≠ [] ∧ result.verdict = "unbounded" := by
  have hhonours : Honours Honest.app fourLargest.inFlightCapacity := Honest.honours (by decide)
  obtain ⟨result, hresult⟩ :=
    Honest.exists_legitimate (fun _ => 100) fourLargest (by decide)
  have hne : result.violations ≠ [] := fun hnil =>
    absurd ((hhonours.legitimate_iff hresult).mp hnil) (by decide)
  exact ⟨rfl, hhonours, result, hresult, hne, if_neg hne⟩

end Limitless.Harness
