import Limitless.Harness.Burst
import Limitless.Secure.Capacity

/-!
# The scenarios and their accounting

`harness/accounting.py` and the two scenarios of `harness/engine.py`. A scenario is a plan: the
slots of its rounds, how many rounds there are, and what it makes of a work record on top of the
common checks. `PlanRound` is one round of a plan with everything the harness reads after it, and
`ConcurrentLegitimate` and `AllowanceIsolation` are the two scenarios against an application: any
rounds it lets happen, and the accounting that is built from them.
-/

namespace Limitless.Harness

open Runs

/-! ## Accounting -/

/-- `refusal_kind`: which kind of limit refused a request, if one did. -/
def refusalKind (statusCode : Nat) : Option RefusalKind :=
  if statusCode = 413 then some .inputTooLarge
  else if statusCode = 429 then some .allowanceExhausted
  else if statusCode = 503 then some .capacityShed
  else none

/-- The ways a bound can be observed to have failed. -/
inductive ViolationKind
  | overLimitAdmitted
  | allowanceExceeded
  | spendCapBreached
  | bystanderAffected
  | crossTenantCharge
  | cheapEndpointUnanswered
  | inFlightOverCapacity
  | unaccountedSpend
  | legitimateWorkShed
  deriving DecidableEq, Repr

/-- An observed breach of a bound. -/
structure Violation where
  kind : ViolationKind
  roundNumber : Nat
  detail : String
  deriving DecidableEq, Repr

/-- `_refusals_by_kind`: how many of the records each kind of limit refused. -/
def refusalsByKind (records : List RequestRecord) (kind : RefusalKind) : Nat :=
  records.countP fun r => refusalKind r.statusCode = some kind

/-- One tenant's side of the accounting, read from the provider's own bill. -/
structure TenantFigures where
  tenantId : TenantId
  role : String
  inputBytes : Nat
  itemsAdmitted : Int
  lookups : Int
  cents : Int
  centsAccounted : Int
  refusals : RefusalKind → Nat

/-- Everything one scenario observed. -/
structure ScenarioAccounting where
  scenario : String
  description : String
  variant : String
  mode : String
  replicas : Nat
  concurrency : Nat
  rounds : Nat
  boundInEffect : String
  inputBytes : Nat
  itemsAdmitted : Int
  lookups : Int
  centsTotal : Int
  perTenant : List TenantFigures
  spendCapCents : Int
  spendCapRemaining : Int
  spendCapBreached : Bool
  peakInFlight : Int
  inFlightCapacity : Int
  cheapEndpointIssued : Nat
  cheapEndpointAnswered : Nat
  refusalsByKind : RefusalKind → Nat
  violations : List Violation

/-- `verdict`. -/
def ScenarioAccounting.verdict (a : ScenarioAccounting) : String :=
  if a.violations = [] then "bounded" else "unbounded"

/-! ## The checks of a round -/

/-- `_check_common`: the checks that hold in every scenario. -/
def checkCommon (roundNumber : Nat) (records : RoundRecords) (peakInFlight capacity
    providerCents : Int) : List Violation :=
  ((records.overLimit.filter (·.succeeded)).map fun record =>
    ⟨.overLimitAdmitted, roundNumber,
      s!"{record.operation} naming more than a bound allows returned {record.statusCode}"⟩) ++
  ((records.cheap.filter (!·.succeeded)).map fun record =>
    ⟨.cheapEndpointUnanswered, roundNumber,
      s!"an endpoint that needs no provider, allowance, or slot returned {record.statusCode}"⟩) ++
  ((records.work.filter (·.statusCode = 503)).map fun record =>
    ⟨.legitimateWorkShed, roundNumber,
      s!"valid work from {record.tenantId} was turned away with 503"⟩) ++
  (if peakInFlight > capacity then
    [⟨.inFlightOverCapacity, roundNumber, s!"{peakInFlight} upstream calls were in flight at " ++
      s!"once against a capacity of {capacity}"⟩] else []) ++
  (if providerCents > Fixtures.globalSpendCapCents then
    [⟨.spendCapBreached, roundNumber, s!"{providerCents} {Fixtures.currencyLabel} spent against " ++
      s!"a cap of {Fixtures.globalSpendCapCents}"⟩] else [])

/-- `_accounted_cents`: what the application itself says each tenant has spent. -/
def accountedCents {σ : Type} (app : Application σ) (s : σ) (tenantIds : List TenantId) :
    List (TenantId × Int) := tenantIds.map fun t => (t, app.usage s t)

/-- `billed`: the cents of each line of the bill. -/
def billedCents (view : LedgerView) : List (TenantId × Int) :=
  view.perTenant.map fun e => (e.tenantId, e.cents)

/-- `_budget_violations`: the two money checks. -/
def budgetViolations (roundNumber : Nat) (accounted billed : List (TenantId × Int))
    (allowance : Int) : List Violation :=
  ((accounted.filter fun a => allowance < a.2).map fun a =>
    ⟨.allowanceExceeded, roundNumber,
      s!"{a.1} was charged {a.2} against a partition of {allowance}"⟩) ++
  ((billed.filter fun b => (accounted.lookup b.1).getD 0 < b.2).map fun b =>
    ⟨.unaccountedSpend, roundNumber, s!"the provider billed {b.1} {b.2} while the application " ++
      s!"accounted for {(accounted.lookup b.1).getD 0}"⟩)

/-! ## Plans -/

/-- What a scenario does in its rounds. -/
structure Plan where
  slots : List WorkSlot
  cheap : Nat
  total : Nat
  rounds : Nat
  firstSequence : Nat
  nameStride : Nat
  /-- What the scenario makes of a work record, on top of the common checks. -/
  judge : Nat → RequestRecord → Option Violation

/-- The outcome of a round. -/
structure RoundOutcome where
  number : Nat
  records : RoundRecords
  violations : List Violation

/-- One round of a plan, numbered, and what the harness reads once all its requests are
answered. -/
def PlanRound {σ : Type} (app : Application σ) (config : HarnessConfig) (builder : RoundBuilder)
    (jobId : String) (plan : Plan) (k : Nat × σ) (outcome : RoundOutcome) (k' : Nat × σ) : Prop :=
  k'.1 = k.1 + 1 ∧ ∃ records,
    builder.Runs app plan.slots plan.cheap jobId (plan.firstSequence + (k.1 - 1) * plan.total)
      (k.1 * plan.nameStride) k.2 records k'.2 ∧
    outcome = ⟨k.1, records,
      checkCommon k.1 records (app.peakInFlight k'.2) config.inFlightCapacity
          (app.ledger k'.2).view.totalCents ++
        records.work.filterMap (plan.judge k.1) ++
        budgetViolations k.1 (accountedCents app k'.2 Fixtures.billableTenantIds)
          (billedCents (app.ledger k'.2).view) Fixtures.tenantAllowanceCents⟩

/-- `SETUP_IMPORT_RECORDS`. -/
def setupImportRecords : Nat := 10

/-- `_prepare`: a seeding, and an import that makes a job to read. -/
def Prepare {σ : Type} (app : Application σ) (gzipBytes : List String → Nat)
    (probeTenant : TenantId) (jobId : String) (s : σ) : Prop :=
  ∃ s₀ imported body, app.seeded s₀ ∧
    app.answers s₀ ⟨⟨1, probeTenant, .importBundle (ndjsonBundle gzipBytes setupImportRecords)⟩,
      imported⟩ s ∧
    imported.statusCode = 201 ∧ imported.body = some body ∧ body.jobId = some jobId

/-- A scenario up to its accounting: it is prepared, and the rounds of its plan take place. -/
def PlanRun {σ : Type} (app : Application σ) (gzipBytes : List String → Nat)
    (config : HarnessConfig) (plan : Plan) (outcomes : List RoundOutcome) (s' : σ) : Prop :=
  ∃ jobId s, Prepare app gzipBytes Fixtures.attackerTenantId jobId s ∧
    Run (PlanRound app config (.make gzipBytes Fixtures.attackerTenantId) jobId plan) (1, s)
      outcomes (plan.rounds + 1, s')

/-- `_accounting`: turn what the rounds observed into the accounting. -/
def accounting {σ : Type} (app : Application σ) (config : HarnessConfig) (scenario description
    boundInEffect : String) (outcomes : List RoundOutcome) (roles : List (TenantId × String))
    (s : σ) : ScenarioAccounting :=
  let allRecords := outcomes.flatMap (·.records.allRecords)
  let view := (app.ledger s).view
  let cheap := outcomes.flatMap (·.records.cheap)
  let accounted := accountedCents app s (roles.map Prod.fst)
  { scenario
    description
    variant := "secure"
    mode := config.mode.value
    replicas := config.runner.replicaUrls.length
    concurrency := config.concurrency
    rounds := outcomes.length
    boundInEffect
    inputBytes := (allRecords.map (·.inputBytes)).sum
    itemsAdmitted := (allRecords.map (·.recordsAdmitted)).sum
    lookups := view.totalLookups
    centsTotal := view.totalCents
    perTenant := roles.map fun r =>
      let tenantRecords := allRecords.filter (·.tenantId = r.1)
      let entry := view.perTenant.find? (·.tenantId = r.1)
      { tenantId := r.1
        role := r.2
        inputBytes := (tenantRecords.map (·.inputBytes)).sum
        itemsAdmitted := (tenantRecords.map (·.recordsAdmitted)).sum
        lookups := entry.elim 0 (·.lookups)
        cents := entry.elim 0 (·.cents)
        centsAccounted := (accounted.lookup r.1).getD 0
        refusals := refusalsByKind tenantRecords }
    spendCapCents := Fixtures.globalSpendCapCents
    spendCapRemaining := Fixtures.globalSpendCapCents - view.totalCents
    spendCapBreached := Fixtures.globalSpendCapCents < view.totalCents
    peakInFlight := app.peakInFlight s
    inFlightCapacity := config.inFlightCapacity
    cheapEndpointIssued := cheap.length
    cheapEndpointAnswered := cheap.countP (·.succeeded)
    refusalsByKind := refusalsByKind allRecords
    violations := outcomes.flatMap (·.violations) ++
      -- Anyone billed who never appeared in this scenario is charged for somebody else's work.
      ((view.perTenant.filter fun e => e.tenantId ∉ roles.map Prod.fst).map fun e =>
        ⟨.crossTenantCharge, (outcomes.getLast?.map (·.number)).getD 0,
          s!"{e.tenantId} was billed {e.cents} for work it never asked for"⟩) }

/-! ## Every tenant working at once -/

/-- The plan of `_concurrent_legitimate`: its slots go round the tenants, and any refused work at
all is a finding. -/
def legitimatePlan (config : HarnessConfig) (composition : Composition) : Plan where
  slots := (List.range composition.work).map fun index =>
    ⟨Fixtures.billableTenantIds.getD (index % Fixtures.billableTenantIds.length) "",
      config.batchRecords⟩
  cheap := composition.cheap
  total := composition.total
  rounds := config.rounds
  firstSequence := 100
  nameStride := 10000
  judge roundNumber record :=
    if ¬ record.succeeded ∧ record.statusCode ≠ 503 then
      some ⟨.legitimateWorkShed, roundNumber, s!"valid work from {record.tenantId}, well inside " ++
        s!"every bound, returned {record.statusCode}"⟩
    else none

/-- `_concurrent_legitimate`. -/
def ConcurrentLegitimate {σ : Type} (app : Application σ) (gzipBytes : List String → Nat)
    (config : HarnessConfig) (result : ScenarioAccounting) : Prop :=
  ∃ composition outcomes s, compose config.concurrency = .ok composition ∧
    PlanRun app gzipBytes config (legitimatePlan config composition) outcomes s ∧
    result = accounting app config "concurrent_legitimate"
      ("every fictional tenant working at once, well inside every bound: valid work is " ++
        "served, over-limit input is refused, and the cheap endpoint answers throughout")
      "all five bounds" outcomes (Fixtures.billableTenantIds.map fun t => (t, "tenant")) s

/-! ## One tenant spending its whole partition -/

/-- `BYSTANDER_SLOTS_EACH`. -/
def bystanderSlotsEach : Nat := 2

/-- The slots of the tenants that spend nothing of anyone else's. -/
def bystanderSlots (config : HarnessConfig) : List WorkSlot :=
  Fixtures.bystanderTenantIds.flatMap fun t =>
    List.replicate bystanderSlotsEach ⟨t, config.batchRecords⟩

/-- How many slots the spending tenant has, or the `ValueError` where there is no room for it. -/
def attackerSlotCount (config : HarnessConfig) (composition : Composition) : Except String Nat :=
  if (bystanderSlots config).length < composition.work then
    .ok (composition.work - (bystanderSlots config).length)
  else
    .error (s!"concurrency {config.concurrency.val} leaves no room for the spending tenant; " ++
      "raise it or lower the bystander slots")

/-- How many records each of them names: the work of a round is bounded. -/
def attackerRecords (slotCount : Nat) : Nat :=
  max 1 (min SecureBounds.shipped.maxBatchItems (maxLookupsPerRound / slotCount))

/-- Enough rounds to spend the whole partition and then be refused, below the ceiling. The
quotient's `math.ceil` is exact: both numbers are far below the precision of a float. -/
def isolationRounds (config : HarnessConfig) (slotCount : Nat) : Nat :=
  let roundCents := slotCount * attackerRecords slotCount * Fixtures.lookupPriceCents
  let roundsNeeded := (Fixtures.tenantAllowanceCents.toNat + roundCents - 1) / roundCents + 1
  min maxRounds (max config.rounds roundsNeeded)

/-- The plan of `_allowance_isolation`: the spending tenant may be refused, a bystander may
not. -/
def isolationPlan (config : HarnessConfig) (composition : Composition) (slotCount : Nat) :
    Plan where
  slots := List.replicate slotCount ⟨Fixtures.attackerTenantId, attackerRecords slotCount⟩ ++
    bystanderSlots config
  cheap := composition.cheap
  total := composition.total
  rounds := isolationRounds config slotCount
  firstSequence := 5000
  nameStride := 500000
  judge roundNumber record :=
    if record.tenantId ∈ Fixtures.bystanderTenantIds ∧ ¬ record.succeeded then
      some ⟨.bystanderAffected, roundNumber,
        s!"{record.tenantId} spent nothing and was refused with {record.statusCode}"⟩
    else none

/-- The two facts that make the scenario mean what it says, checked where the load asked for more
than the partition holds. -/
def isolationExtra (config : HarnessConfig) (slotCount : Nat) (result : ScenarioAccounting) :
    List Violation :=
  let attacker := Fixtures.attackerTenantId
  let allowance := Fixtures.tenantAllowanceCents
  let rounds := isolationRounds config slotCount
  let oneRequest : Int := attackerRecords slotCount * Fixtures.lookupPriceCents
  let requested := slotCount * oneRequest * rounds
  if requested ≤ allowance then [] else
  let spent := (result.perTenant.find? (·.tenantId = attacker)).elim 0 (·.cents)
  (if allowance - spent ≥ oneRequest then
    [⟨.legitimateWorkShed, rounds, s!"{attacker} finished on {spent} of its {allowance}-cent " ++
      "partition with room for another full request, so valid work was lost"⟩] else []) ++
  (if result.refusalsByKind .allowanceExhausted = 0 then
    [⟨.allowanceExceeded, rounds, s!"{attacker} asked for {requested} against a partition of " ++
      s!"{allowance} and was never refused"⟩] else [])

/-- `_allowance_isolation`. -/
def AllowanceIsolation {σ : Type} (app : Application σ) (gzipBytes : List String → Nat)
    (config : HarnessConfig) (result : ScenarioAccounting) : Prop :=
  ∃ composition slotCount outcomes s, compose config.concurrency = .ok composition ∧
    attackerSlotCount config composition = .ok slotCount ∧
    PlanRun app gzipBytes config (isolationPlan config composition slotCount) outcomes s ∧
    let counted := accounting app config "allowance_isolation"
      ("one tenant spends its entire partition of the fictional budget with the largest " ++
        "batches allowed, while the tenants that spent nothing keep working untouched")
      "partitioned per-tenant allowance, charged in provider lookups" outcomes
      ((Fixtures.attackerTenantId, "attacker") ::
        Fixtures.bystanderTenantIds.map fun t => (t, "bystander")) s
    result = { counted with
      violations := counted.violations ++ isolationExtra config slotCount counted }

end Limitless.Harness
