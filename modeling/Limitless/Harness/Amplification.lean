import Limitless.Harness.FalseAlarm
import Limitless.Harness.Secured

/-!
# The two sides of the amplification ratio

The provider's bill is read for the whole of a scenario, and the records are those of its rounds.
Between the seeding and the first round there is one more request, the import of `_prepare`, which
is on the bill and in no round. So the two sides of the amplification ratio are never of one set of
requests: `ratio_counts_setup`, for every run against a deployment of the secure application.
-/

namespace Limitless.Harness

open Indexed Runs

/-! ## The two sides of the ratio -/

/-- The amplification ratio is of one set of requests: what was billed, in all and to each tenant,
is what the requests of the rounds have admitted. -/
structure ScenarioAccounting.FromOneSet (a : ScenarioAccounting) (price : Int) : Prop where
  lookups : a.lookups = a.itemsAdmitted
  cents : a.centsTotal = price * a.itemsAdmitted
  tenants : ∀ f ∈ a.perTenant, f.lookups = f.itemsAdmitted ∧ f.cents = price * f.itemsAdmitted

/-- What was billed has the setup import as well, which is the attacking tenant's. -/
structure ScenarioAccounting.CountsSetup (a : ScenarioAccounting) (price : Int) : Prop where
  lookups : a.lookups = a.itemsAdmitted + setupImportRecords
  cents : a.centsTotal = price * a.lookups
  tenants : ∀ f ∈ a.perTenant, f.lookups = f.itemsAdmitted +
    (if f.tenantId = Fixtures.attackerTenantId then (setupImportRecords : Int) else 0) ∧
    f.cents = price * f.lookups

section
variable {d : Deployment} {gzipBytes : List String → Nat} {config : HarnessConfig} {plan : Plan}
  {outcomes : List RoundOutcome} {v : Driven}

/-- What is on the bill of a scenario: the setup import, and what the records of its rounds
count. -/
theorem billed_of_planRun (hrun : PlanRun d.app gzipBytes config plan outcomes v)
    (hsettled : v.Settled) (hclean : v.Clean) :
    v.world.service.provider.ledger.totalLookups = setupImportRecords +
        total RequestRecord.recordsAdmitted (outcomes.flatMap (·.records.allRecords)) ∧
      (∀ u, v.world.service.provider.ledger.lookupsOf u =
        (if u = Fixtures.attackerTenantId then (setupImportRecords : Int) else 0) +
          total (fun r => r.admittedFor u) (outcomes.flatMap (·.records.allRecords))) ∧
      v.world.service.provider.ledger.priceCentsPerLookup = d.config.providerPriceCents := by
  obtain ⟨jobId, s, ⟨s₀, imported, body, ⟨hseeded, hnone⟩, hanswers, hcreated, -, -⟩, hrounds⟩ :=
    hrun
  have hstart := hseeded.tallied hnone
  obtain ⟨order, horder, hrecords⟩ := PlanRound.exchanges hrounds
  have h := hstart.of_run (.cons hanswers horder)
  have hbilled := h.billed hsettled hclean
  have hsetup := hanswers.imported hstart rfl hcreated
  have hlength : (ndjsonBundle gzipBytes setupImportRecords).lines.length = setupImportRecords := by
    simp [ndjsonBundle]
  rw [hlength] at hsetup
  refine ⟨?_, fun u => ?_, h.sound.price⟩
  · have htotal := Ledger.totalLookups_eq (fun x : Exchange => x.record.tenantId)
      (fun x : Exchange => x.record.recordsAdmitted) h.nonneg hbilled
    rw [htotal, total_cons, hsetup, ← total_perm _ hrecords, total_map]
  · rw [hbilled u, total_cons, ← total_perm _ hrecords, total_map, RequestRecord.admittedFor,
      hsetup]
    exact congrArg (· + _) (if_congr eq_comm rfl rfl)

/-- **The two sides.** In every scenario the bill has the setup import besides what the records
count. -/
theorem countsSetup (hrun : PlanRun d.app gzipBytes config plan outcomes v) (hsettled : v.Settled)
    (hclean : v.Clean) (scenario description boundInEffect : String)
    (roles : List (TenantId × String)) :
    (accounting d.app config scenario description boundInEffect outcomes roles v).CountsSetup
      d.config.providerPriceCents := by
  obtain ⟨htotal, hbilled, hprice⟩ := billed_of_planRun hrun hsettled hclean
  refine ⟨htotal.trans (add_comm _ _), ?_, fun f hf => ?_⟩
  · show v.world.service.provider.ledger.totalCents = _
    rw [Ledger.totalCents, hprice, mul_comm]
    rfl
  · obtain ⟨r, -, rfl⟩ := List.mem_map.mp hf
    have hfilter : total RequestRecord.recordsAdmitted
        ((outcomes.flatMap (·.records.allRecords)).filter (·.tenantId = r.1)) =
        total (fun x => x.admittedFor r.1) (outcomes.flatMap (·.records.allRecords)) := by
      rw [total_filter]
      exact total_congr fun x _ => by simp [RequestRecord.admittedFor]
    have hlookups : (v.world.service.provider.ledger.view.perTenant.find? (·.tenantId = r.1)).elim 0
        (·.lookups) = v.world.service.provider.ledger.lookupsOf r.1 := by
      rw [Ledger.view_find?, Ledger.lookupsOf]
      cases v.world.service.provider.ledger.lookups.find? r.1 <;> rfl
    have hcents : (v.world.service.provider.ledger.view.perTenant.find? (·.tenantId = r.1)).elim 0
        (·.cents) = v.world.service.provider.ledger.lookupsOf r.1 * d.config.providerPriceCents :=
      (Ledger.view_centsOf _ _).trans (by rw [hprice])
    refine ⟨?_, ?_⟩
    · show (v.world.service.provider.ledger.view.perTenant.find? _).elim 0 _ = total _ _ + _
      rw [hlookups, hbilled r.1, hfilter, add_comm]
    · show (v.world.service.provider.ledger.view.perTenant.find? _).elim 0 _ =
        _ * (v.world.service.provider.ledger.view.perTenant.find? _).elim 0 _
      rw [hcents, hlookups, mul_comm]

/-- So they are not of one set of requests. -/
theorem ScenarioAccounting.CountsSetup.not_fromOneSet {a : ScenarioAccounting} {price : Int}
    (h : a.CountsSetup price) : ¬ a.FromOneSet price := by
  intro hone
  have hsetup : setupImportRecords = 10 := rfl
  have := h.lookups
  have := hone.lookups
  omega

end

/-! ## The demonstration -/

/-- The two replicas of the demonstration. -/
def Deployment.demo : Deployment where
  config := .demo 48
  replicas := 2
  jobText jobId := toString jobId

/-- It, as seeding leaves it. -/
def Driven.demo : Driven where
  world := .start (.demo 48) .resetFixtures 2 ⟨48, 0, 0, by decide⟩
  answered := []

theorem demo_seeded : Deployment.demo.Seeded Driven.demo.world where
  idle := rfl
  store := rfl
  provider := rfl
  length := rfl
  free l hl := by
    rw [List.eq_of_mem_replicate hl]
    exact ⟨rfl, rfl⟩

theorem demo_idle : Idle .demo .demo where
  tallied := ⟨[], demo_seeded.tallied rfl⟩
  settled i hi := absurd hi (Nat.not_lt_zero i)
  clean t ht := by cases ht
  slot := ⟨_, rfl, by decide⟩
  released := rfl

/-- The setup import, with the names of its bundle. -/
def setupRequest : Request where
  replica := 0
  principal := some Fixtures.attackerTenantId
  payload :=
    .importBundle (.ok ((List.range' 1 setupImportRecords).map fun i => Fixtures.companyName i)) 1

/-- It is prepared for a scenario. -/
theorem exists_prepared (gzipBytes : List String → Nat) :
    ∃ v, Prepare Deployment.demo.app gzipBytes Fixtures.attackerTenantId "1" v ∧ Idle .demo v := by
  have hsolo : ∃ s' t n cents, replay (Task.next (.demo 48))
      (Driven.demo.world.service, .arrived setupRequest)
      (List.replicate 9 .advance ++ [.resume, .resume] ++ List.replicate 12 .advance) =
        some (s', t) ∧ t.request = setupRequest ∧
      t.pc = .ended (.responded (.imported 1 Fixtures.attackerTenantId .completed n cents)) ∧
      t.raised = [] ∧ s'.limiters = [⟨48, 0, 1, by decide⟩, ⟨48, 0, 0, by decide⟩] ∧
      s'.provider.released = true := ⟨_, _, _, _, rfl, rfl, rfl, rfl, rfl, rfl⟩
  obtain ⟨s', t, n, cents, hreplay, hrequest, hpc, hraised, hlimiters, hreleased⟩ := hsolo
  let q : Sent := ⟨1, Fixtures.attackerTenantId,
    .importBundle (ndjsonBundle gzipBytes setupImportRecords)⟩
  have hreads : Reads q.call setupRequest.payload := by
    intro names hnames
    cases hnames
    simp [ndjsonBundle]
  have hclean : t.Admitted → ∀ x ∈ t.raised, x.2.isRefusal = true := by
    rw [hraised]
    exact fun _ x hx => by cases hx
  have hslot : s'.HasSlot 0 := ⟨_, by rw [hlimiters]; rfl, by decide⟩
  obtain ⟨v, hanswers, hidle⟩ := demo_idle.handled (q := q) rfl (run_of_replay hreplay) hrequest hpc
    rfl rfl hreads hclean hslot hreleased
  exact ⟨v, ⟨Driven.demo, _, _, ⟨demo_seeded, rfl⟩, hanswers, rfl, rfl, rfl⟩, hidle⟩

/-- Any plan is carried out against it, with every request answered and none of them failing after
its reservation. -/
theorem exists_secured (gzipBytes : List String → Nat) (config : HarnessConfig) (plan : Plan) :
    ∃ outcomes v, PlanRun Deployment.demo.app gzipBytes config plan outcomes v ∧ v.Settled ∧
      v.Clean := by
  obtain ⟨v, hprepare, hidle⟩ := exists_prepared gzipBytes
  obtain ⟨outcomes, v', hrun, hidle'⟩ :=
    exists_planRun (Idle.total rfl) config hprepare hidle plan
  exact ⟨outcomes, v', hrun, hidle'.settled, hidle'.clean⟩

/-! ## The ratio -/

section
variable {d : Deployment} {gzipBytes : List String → Nat} {config : HarnessConfig} {plan : Plan}
  {outcomes : List RoundOutcome} {v : Driven}

/-- **The amplification ratio is never of one set of requests.** In every scenario against the
secure application whose requests have all been answered, none of them failing after its
reservation, the bill has the setup import as well: its records are not among the rounds'. -/
theorem ratio_counts_setup (hrun : PlanRun d.app gzipBytes config plan outcomes v)
    (hsettled : v.Settled) (hclean : v.Clean) (scenario description boundInEffect : String)
    (roles : List (TenantId × String)) :
    ¬ (accounting d.app config scenario description boundInEffect outcomes roles v).FromOneSet
        d.config.providerPriceCents ∧
      (accounting d.app config scenario description boundInEffect outcomes roles v).CountsSetup
        d.config.providerPriceCents := by
  have hcounts := countsSetup hrun hsettled hclean scenario description boundInEffect roles
  exact ⟨hcounts.not_fromOneSet, hcounts⟩

/-- So it is when the spending tenant is refused what its partition does not hold. -/
theorem ratio_counts_setup_in_isolation : ∃ outcomes v,
    PlanRun Deployment.demo.app (fun _ => 100) byDefault (isolationPlan byDefault ⟨16, 4, 4⟩ 12)
      outcomes v ∧ v.Settled ∧ v.Clean ∧
    ¬ (accounting Deployment.demo.app byDefault "allowance_isolation" "" "" outcomes
      [(Fixtures.attackerTenantId, "attacker")] v).FromOneSet Fixtures.lookupPriceCents := by
  obtain ⟨outcomes, v, hrun, hsettled, hclean⟩ :=
    exists_secured (fun _ => 100) byDefault (isolationPlan byDefault ⟨16, 4, 4⟩ 12)
  exact ⟨outcomes, v, hrun, hsettled, hclean,
    (ratio_counts_setup hrun hsettled hclean _ _ _ _).1⟩

/-- The shipped configuration has a run of the first scenario where all the work is answered, and
the provider has billed ten lookups more than the records admit. -/
theorem default_ratio_counts_setup :
    HarnessConfig.fromEnv decimal (.ok twoReplicas) (fun _ => none) = .ok byDefault ∧
    compose byDefault.concurrency = .ok ⟨16, 4, 4⟩ ∧
    ∃ outcomes v, PlanRun Deployment.demo.app (fun _ => 100) byDefault
        (legitimatePlan byDefault ⟨16, 4, 4⟩) outcomes v ∧ v.Settled ∧ v.Clean ∧
      ¬ (accounting Deployment.demo.app byDefault "concurrent_legitimate" "" "" outcomes
        (Fixtures.billableTenantIds.map fun t => (t, "tenant")) v).FromOneSet
          Fixtures.lookupPriceCents := by
  obtain ⟨outcomes, v, hrun, hsettled, hclean⟩ :=
    exists_secured (fun _ => 100) byDefault (legitimatePlan byDefault ⟨16, 4, 4⟩)
  exact ⟨rfl, rfl, outcomes, v, hrun, hsettled, hclean,
    (countsSetup hrun hsettled hclean _ _ _ _).not_fromOneSet⟩

end

end Limitless.Harness
