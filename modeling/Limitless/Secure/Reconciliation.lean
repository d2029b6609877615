import Limitless.Secure.Settlement

/-!
# The records of the same money agree

A tenant's spending is written down four times: in the responses of its requests, in its row, in
the period's row and in the provider's ledger, each by a different step. They agree when every
request has ended and no admitted one was struck, because they agree for each request apart:
`Task.Reconciled` says what one request has added to each record, and `reconciled_ended` goes
through the three ways such a request can end. `reconciled` is the sum.
-/

namespace Limitless

open Indexed Runs

/-- The `cents_charged` of a `201` response to a tenant. -/
def Response.charged : Response → TenantId → Int
  | enriched tenantId _ _ cents _, u | imported _ tenantId _ _ cents, u =>
    if u = tenantId then cents else 0
  | page _, _ => 0

/-- An exception charges nobody anything in its response. -/
def Ending.charged : Ending → TenantId → Int
  | responded response, u => response.charged u
  | raised _, _ => 0

/-- What the response of a request says it charged a tenant. -/
def Task.charged (t : Task) (u : TenantId) : Int :=
  match t.pc with
  | .ended e => e.charged u
  | _ => 0

/-- The sum of `cents_charged` over a tenant's `201` responses. -/
def World.charged (w : World) (u : TenantId) : Int := total (fun t => t.charged u) w.tasks

/-- The tenant whose work a `201` reports, and its `records_admitted`. -/
def Response.admission? : Response → Option (TenantId × Nat)
  | enriched tenantId recordsAdmitted _ _ _ => some (tenantId, recordsAdmitted)
  | imported _ tenantId _ recordsAdmitted _ => some (tenantId, recordsAdmitted)
  | page _ => none

/-- An exception admits nothing. -/
def Ending.admission? : Ending → Option (TenantId × Nat)
  | responded response => response.admission?
  | raised _ => none

/-- The request was admitted. -/
def Task.Admitted (t : Task) : Prop := ∃ r, .reserved r ∈ t.trail

/-- A request has added the same to each of the records, and holds nothing any more. -/
structure Task.Reconciled (cfg : Config) (t : Task) : Prop where
  committed : ∀ u, amounts t.trail (.tenant u .committed) = t.charged u
  lookups : ∀ u, amounts t.trail (.lookups u) = t.billed u
  cents : ∀ u, t.charged u = t.billed u * cfg.priceCents
  reserved : ∀ {a : Account}, a.money? = some .reserved → amounts t.trail a = 0

variable {cfg : Config} {t : Task} {w : Work} {r : Reservation}

/-! ## One request -/

/-- A request that was not admitted, or was shed, has added nothing. -/
theorem Task.reconciled_of_uncharged (hamounts : ∀ a, amounts t.trail a = 0) (hcall : t.call = none)
    (hcharged : ∀ u, t.charged u = 0) : t.Reconciled cfg := by
  have hbilled : ∀ u, t.billed u = 0 := fun u => by simp [billed, hcall]
  refine ⟨fun u => ?_, fun u => ?_, fun u => ?_, fun _ => hamounts _⟩
  · rw [hamounts, hcharged]
  · rw [hamounts, hbilled]
  · rw [hcharged, hbilled, zero_mul]

/-- A request that was answered and settled has added the answer's lookups and charge. -/
theorem Task.reconciled_of_answered (hpriced : r = w.reservation cfg.priceCents)
    (hcall : t.call = some ⟨w.lookupRequest, .answered (w.lookupRequest.response cfg.priceCents)⟩)
    (hamounts : ∀ a, amounts t.trail a = r.held.amount a +
      (r.closed w.companyNames.length (w.companyNames.length * cfg.priceCents)).amount a)
    (hcharged : ∀ u, t.charged u =
      if u = w.tenantId then (w.companyNames.length * cfg.priceCents : Int) else 0) :
    t.Reconciled cfg := by
  have hbilled : ∀ u, t.billed u = if u = w.tenantId then (w.companyNames.length : Int) else 0 := by
    intro u
    simp [billed, hcall, Call.billed, CallPhase.isAnswered, Work.lookupRequest,
      eq_comm (a := u)]
  have htenant : r.tenantId = w.tenantId := by rw [hpriced]; rfl
  refine ⟨fun u => ?_, fun u => ?_, fun u => ?_, fun {a} ha => ?_⟩
  · rw [hamounts, hcharged, r.committed_of_closed, htenant]
  · rw [hamounts, hbilled, r.lookups_of_closed, htenant]
  · rw [hcharged, hbilled]
    split <;> simp
  · rw [hamounts, Reservation.closed_reserved ha]
    omega

/-- A request that has ended without a `201`, and was not struck if it was admitted, has made no
call and moved nothing. -/
theorem Task.idle_of_unadmitted {e : Ending} (hs : t.Sound cfg) (hpc : t.pc = .ended e)
    (hnone : e.admission? = none) (hclean : t.Admitted → ∀ x ∈ t.raised, x.2.isRefusal = true) :
    t.call = none ∧ ∀ a, amounts t.trail a = 0 := by
  obtain ⟨_, hpc', last, before, hlive, hexit⟩ := hs.left (by rw [hpc]; rfl)
  cases hpc.symm.trans hpc'
  rcases hexit with ⟨hexit, hraised⟩ | ⟨exc, rfl, hframe, hrefuses, hraised⟩
  · cases hexit with
    | enriched | imported => cases hnone
    | page =>
        obtain ⟨_, hcall, _, htrail⟩ := hlive
        exact ⟨hcall, fun a => by rw [htrail]; rfl⟩
    | @raised w r attempted exc =>
        -- the request was admitted, so what struck it is a refusal: it was shed
        obtain ⟨_, struck, hframe, _, _, _, hbefore, htrail⟩ := id hlive
        have hadmitted : .reserved r ∈ t.trail := by
          rw [htrail]
          simp [Pc.reserved_of_frame hframe]
        have hexc := hclean ⟨r, hadmitted⟩ (struck, exc) (by rw [hraised, hbefore]; simp)
        obtain ⟨_, _, hcall, hshed⟩ := hlive.shed hexc
        refine ⟨hcall, fun a => ?_⟩
        rw [hshed]
        simpa [amounts, Effect.amount] using r.released a
  · rcases hlive.reserved with htrail | hadmitted
    · rw [htrail] at hlive
      exact ⟨hlive.uncalled, fun a => by rw [htrail]; rfl⟩
    · have hexc := hclean hadmitted (last, exc) (by rw [hraised]; simp)
      obtain ⟨_, hcall, htrail⟩ := hlive.refused hframe (hrefuses hexc)
      exact ⟨hcall, fun a => by rw [htrail]; rfl⟩

/-- **One request.** A request that has ended, and was not struck if it was admitted, has added the
same to each of the records. -/
theorem reconciled_ended (hs : t.Sound cfg) (hprice : cfg.priceCents = cfg.providerPriceCents)
    (hend : t.pc.isEnded = true) (hclean : t.Admitted → ∀ x ∈ t.raised, x.2.isRefusal = true) :
    t.Reconciled cfg := by
  obtain ⟨e, hpc, last, before, hlive, hexit⟩ := hs.left hend
  have hcharged : ∀ u, t.charged u = e.charged u := fun u => by simp [Task.charged, hpc]
  have hidle : e.admission? = none → (∀ u, e.charged u = 0) → t.Reconciled cfg := by
    intro hnone hzero
    obtain ⟨hcall, hamounts⟩ := Task.idle_of_unadmitted hs hpc hnone hclean
    exact Task.reconciled_of_uncharged hamounts hcall fun u => (hcharged u).trans (hzero u)
  rcases hexit with ⟨hexit, -⟩ | ⟨exc, rfl, -⟩
  · cases hexit with
    | @enriched w r result hjob =>
        obtain ⟨hpriced, ⟨hcall, rfl⟩, _, htrail⟩ := hlive
        rw [← hprice] at hcall hcharged
        refine Task.reconciled_of_answered hpriced hcall (fun a => ?_) hcharged
        have hframe : (Pc.finishing w r (w.lookupRequest.response cfg.priceCents)
          .leaveConnection).frame? = some (w, r) := rfl
        rw [htrail, ← hprice]
        exact amounts_framed hframe a
    | @imported w r result jobId =>
        obtain ⟨hpriced, ⟨hcall, rfl⟩, _, htrail⟩ := hlive
        rw [← hprice] at hcall hcharged
        refine Task.reconciled_of_answered hpriced hcall (fun a => ?_) hcharged
        rw [htrail, ← hprice]
        exact (recording_trail a).2.1
    | page | raised => exact hidle rfl fun _ => rfl
  · exact hidle rfl fun _ => rfl

/-! ## Every run -/

/-- While the ledger is not reset, the bill goes with the calls that are on it. -/
theorem World.Sound.run_unbilled {s₀ : Store} {replicas : Nat} {es : List Event}
    {world world' : World} (hs : World.Sound cfg s₀ replicas world)
    (hrun : Run (Steps (World.next cfg)) world es world') (hreset : .resetLedger ∉ es) :
    World.Sound cfg s₀ replicas world' ∧ ∀ u, world'.unbilled u = world.unbilled u := by
  refine hrun.invariant_mem
    (I := fun x => World.Sound cfg s₀ replicas x ∧ ∀ u, x.unbilled u = world.unbilled u) ?_
    ⟨hs, fun _ => rfl⟩
  rintro a e he b ⟨hs, hu⟩ hstep
  have hmoves := moves_of_next hstep
  have hne : e ≠ .resetLedger := fun h => hreset (h ▸ he)
  exact ⟨hs.step hmoves, fun u => ((hs.bill hmoves u).1 hne).trans (hu u)⟩

/-- So it shows all that the calls have put on it. -/
theorem World.run_unbilled {s₀ : Store} {replicas : Nat} {limiter : InFlightLimiter}
    {es : List Event} {world : World}
    (hl : InFlightLimiter.make cfg.maxInFlightUpstream = .ok limiter)
    (hrun : Run (Steps (World.next cfg)) (.start cfg s₀ replicas limiter) es world)
    (hreset : .resetLedger ∉ es) (u : TenantId) : world.unbilled u = 0 :=
  ((World.start_sound hl s₀ replicas).run_unbilled hrun hreset).2 u

/-- A trail moves the period's money with the sum of the tenants'. -/
theorem amounts_period (trail : List Effect) (m : Money) :
    amounts trail (.period m) = amounts trail (.tenants m) := by
  refine total_congr fun e _ => ?_
  cases e <;> rfl

/-- **Reconciliation.** In every run from seeded rows, once every request has ended and no admitted
one was struck by anything but a refusal: what a tenant's responses charged is what its row has
committed and `/v1/usage` shows, the price of the lookups performed, and what the provider's bill
shows for it. The bill adds up, the period has committed what the tenants have, and nothing is
reserved. -/
theorem reconciled {s₀ : Store} {replicas : Nat} {limiter : InFlightLimiter} {es : List Event}
    {world : World} (hl : InFlightLimiter.make cfg.maxInFlightUpstream = .ok limiter)
    (hprice : cfg.priceCents = cfg.providerPriceCents) (hs₀ : s₀.FreshlySeeded)
    (hrun : Run (Steps (World.next cfg)) (.start cfg s₀ replicas limiter) es world)
    (hreset : .resetLedger ∉ es) (hended : world.Ended)
    (hclean : ∀ t ∈ world.tasks, t.Admitted → ∀ x ∈ t.raised, x.2.isRefusal = true) :
    (∀ u, world.charged u = world.service.store.balance (.tenant u .committed) ∧
      world.charged u = cfg.priceCents * world.service.store.balance (.lookups u) ∧
      (∀ v, world.service.store.readUsage u = some v → v.centsCharged = world.charged u ∧
        v.lookupsPerformed = world.service.store.balance (.lookups u)) ∧
      world.charged u = world.service.provider.ledger.view.centsOf u ∧
      world.service.store.balance (.tenant u .reserved) = 0) ∧
    world.service.provider.ledger.view.totalLookups =
      (world.service.provider.ledger.view.perTenant.map TenantLedgerEntry.lookups).sum ∧
    world.service.provider.ledger.view.totalCents =
      (world.service.provider.ledger.view.perTenant.map TenantLedgerEntry.cents).sum ∧
    world.service.store.balance (.period .committed) =
      world.service.store.balance (.tenants .committed) ∧
    world.service.store.balance (.period .reserved) = 0 := by
  have hs := World.run_sound hl hrun
  have hbooks : ∀ a, world.service.store.balance a =
      total (fun t => amounts t.trail a) world.tasks := fun a => by
    rw [hs.books, hs₀.balance, zero_add]
  have hone : ∀ t ∈ world.tasks, t.Reconciled cfg := fun t ht =>
    reconciled_ended (hs.task t ht) hprice (hended t ht) (hclean t ht)
  have hreserved : ∀ {a : Account}, a.money? = some .reserved →
      world.service.store.balance a = 0 := fun ha => by
    rw [hbooks]
    exact total_eq_zero fun t ht => (hone t ht).reserved ha
  obtain ⟨htotalLookups, htotalCents⟩ := world.service.provider.ledger.view_totals
  refine ⟨fun u => ?_, htotalLookups, htotalCents, ?_, hreserved rfl⟩
  · have hcommitted : world.charged u = world.service.store.balance (.tenant u .committed) := by
      rw [hbooks]
      exact total_congr fun t ht => ((hone t ht).committed u).symm
    have hlookups : world.service.store.balance (.lookups u) =
        total (fun t => t.billed u) world.tasks := by
      rw [hbooks]
      exact total_congr fun t ht => (hone t ht).lookups u
    have hcents : world.charged u = total (fun t => t.billed u) world.tasks * cfg.priceCents := by
      rw [total_mul]
      exact total_congr fun t ht => (hone t ht).cents u
    have hbill : world.service.provider.ledger.lookupsOf u =
        total (fun t => t.billed u) world.tasks := by
      have := World.run_unbilled hl hrun hreset u
      unfold World.unbilled at this
      omega
    refine ⟨hcommitted, ?_, fun v hv => ?_, ?_, hreserved rfl⟩
    · rw [hcents, hlookups, mul_comm]
    · obtain ⟨h1, h2⟩ := Store.readUsage_eq_some hv
      exact ⟨h1.trans hcommitted.symm, h2⟩
    · rw [Ledger.view_centsOf, hbill, hs.price, ← hprice, hcents]
  · rw [hbooks, hbooks]
    exact total_congr fun t _ => amounts_period t.trail .committed

/-- With one slot, a second request is shed while the first has its lookup call out. -/
def admittedAndShed : List Event :=
  [.arrive (.demo 0), .arrive (.demo 0)] ++ List.replicate 9 (.advance 0) ++
    List.replicate 10 (.advance 1) ++ [.resume 0, .resume 0] ++ List.replicate 9 (.advance 0)

/-- The four cents of the first are what every record shows. -/
theorem reconciled_after_a_shed_request :
    ∃ w, replay (World.next (.demo 1)) (.demo 1) admittedAndShed = some w ∧
      w.charged Fixtures.attackerTenantId = 4 ∧
      w.service.store.balance (.tenant Fixtures.attackerTenantId .committed) = 4 ∧
      w.service.provider.ledger.view.centsOf Fixtures.attackerTenantId = 4 ∧
      w.service.store.balance (.period .reserved) = 0 := by
  have hcharged : (replay (World.next (.demo 1)) (.demo 1) admittedAndShed).map
      (fun w => w.charged Fixtures.attackerTenantId) = some 4 := by decide
  have htasks : (replay (World.next (.demo 1)) (.demo 1) admittedAndShed).map
      (fun w => decide (∀ t ∈ w.tasks, t.pc.isEnded = true ∧
        ∀ x ∈ t.raised, x.2.isRefusal = true)) = some true := by decide
  obtain ⟨w, hw, hfour⟩ := Option.map_eq_some_iff.mp hcharged
  rw [hw, Option.map_some, Option.some.injEq, decide_eq_true_eq] at htasks
  have hreset : Event.resetLedger ∉ admittedAndShed := by simp [admittedAndShed]
  obtain ⟨hmoney, _, _, _, hperiod⟩ := reconciled rfl rfl Store.demo_freshlySeeded
    (World.run_demo hw) hreset (fun t ht => (htasks t ht).1) fun t ht _ => (htasks t ht).2
  obtain ⟨hcommitted, _, _, hbill, _⟩ := hmoney Fixtures.attackerTenantId
  exact ⟨w, hw, hfour, hcommitted.symm.trans hfour, hbill.symm.trans hfour, hperiod⟩

end Limitless
