import Limitless.Secure.Admitted
import Limitless.Vulnerable.Enrich

/-!
# Where they answer, both applications answer the same

The two applications differ in whom they refuse and in whom they let wait, not in what an
enrichment is: where both answer one with a `201`, whatever else goes on in either, they answer the
same, and have upserted the same records (`same_answer`).
-/

namespace Limitless

open Indexed Runs

variable {cfg cfg' : Config}

/-- A `201` of the secure application to an enrichment is the answer to what was asked, and its
records have been upserted. -/
theorem Task.Asked.enriched {t : Task} {u : TenantId} {n : ℕ} {lookups cents : Int}
    {results : List EnrichedRecord} (hasked : t.Asked) (hs : t.Sound cfg)
    (hpc : t.pc = .ended (.responded (.enriched u n lookups cents results))) :
    ∃ b : Vulnerable.Enrichment, t.request.Asks b.lookupRequest ∧
      .enriched u n lookups cents results = b.response cfg ∧
      ∀ entries, .upserted entries ∈ t.trail ↔
        entries = recordEntries cfg b.tenantId (b.result cfg) := by
  obtain ⟨e, hpc', last, before, hlive, hexit⟩ := hs.left (by rw [hpc]; rfl)
  cases hpc.symm.trans hpc'
  rcases hexit with ⟨hexit, -⟩ | ⟨exc, hraised, -⟩
  · cases hexit with
    | @enriched w r result hjob =>
        obtain ⟨-, ⟨-, rfl⟩, -, htrail⟩ := hlive
        refine ⟨⟨w.tenantId, w.companyNames⟩, hasked.sends _ ?_, ?_, fun entries => ?_⟩
        · rw [htrail]
          simp [Pc.trail, FinishPoint.trail, Work.lookupRequest, Vulnerable.Enrichment.lookupRequest]
        · simp [Vulnerable.Enrichment.response, Vulnerable.Enrichment.result,
            Vulnerable.Enrichment.lookupRequest, Work.lookupRequest, LookupRequest.response,
            LookupRequest.results, enrichedRecords, recordEntries]
        · rw [htrail]
          simp [Pc.trail, FinishPoint.trail, Vulnerable.Enrichment.result,
            Vulnerable.Enrichment.lookupRequest, Work.lookupRequest]
  · cases hraised

namespace Vulnerable

/-- The answer to an enrichment is a matter of the digest and of the provider's price. -/
theorem Enrichment.response_congr (hdigest : cfg'.digest = cfg.digest)
    (hprice : cfg'.providerPriceCents = cfg.providerPriceCents) (b : Enrichment) :
    b.result cfg' = b.result cfg ∧ b.response cfg' = b.response cfg ∧
      recordEntries cfg' b.tenantId (b.result cfg') =
        recordEntries cfg b.tenantId (b.result cfg) := by
  have hresult : b.result cfg' = b.result cfg := by
    rw [Enrichment.result, Enrichment.result, hprice]
  have hentries : recordEntries cfg' b.tenantId (b.result cfg') =
      recordEntries cfg b.tenantId (b.result cfg) := by
    simp only [hresult, recordEntries, enrichedRecordId, hdigest]
  exact ⟨hresult, by simp only [Enrichment.response, enrichedRecords, hentries, hprice], hentries⟩

/-- **The same answer.** Take any run of any number of replicas of the secure application, and any
run of the unbounded one, over whatever stores and whatever happens in them, with one digest and
one price of the provider. Where an enrichment of the one and an enrichment of the other ask for the
same names for the same tenant and have both been answered with a `201`, they have been answered
the same, and have upserted the same records. -/
theorem same_answer {limiter : InFlightLimiter} {s₀ : Store} {d : Database}
    {replicas replicas' allowanceCents n : ℕ} {es : List Limitless.Event} {es' : List Event}
    {w : Limitless.World} {w' : World} {t : Limitless.Task} {t' : Task} {u : TenantId}
    {lookups cents : Int} {results : List EnrichedRecord} {response : Response}
    (hl : InFlightLimiter.make cfg.maxInFlightUpstream = .ok limiter)
    (hdigest : cfg'.digest = cfg.digest)
    (hprice : cfg'.providerPriceCents = cfg.providerPriceCents)
    (hrun : Run (Steps (Limitless.World.next cfg)) (.start cfg s₀ replicas limiter) es w)
    (hrun' : Run (Steps (World.next cfg')) (.start cfg' d replicas' allowanceCents) es' w')
    (ht : t ∈ w.tasks) (ht' : t' ∈ w'.tasks)
    (hprincipal : t'.request.principal = t.request.principal)
    (hpayload : t'.request.payload = .enrich t.request.payload.names?)
    (hpc : t.pc = .ended (.responded (.enriched u n lookups cents results)))
    (hpc' : t'.pc = .ended (.responded response)) :
    response = .enriched u n lookups cents results ∧ ∀ entries,
      .upserted entries ∈ t.trail ↔ .upserted entries ∈ t'.trail := by
  have hasked := Limitless.World.run_asked (fun x hx => absurd hx List.not_mem_nil) hrun t ht
  have hsound := (Limitless.World.run_sound hl hrun).task t ht
  obtain ⟨b, hasks, hresponse, hupserted⟩ := hasked.enriched hsound hpc
  have hnames : t'.request.payload = .enrich (some b.companyNames) :=
    hpayload.trans (congrArg _ hasks.names)
  obtain ⟨v, halfFix, key, grantCents, hv, hresponse', hperm⟩ :=
    (onCourse_of_run hrun' t' ht').answered hnames hpc'
  obtain rfl : v = b.tenantId := Option.some.inj (hv.symm.trans (hprincipal.trans hasks.principal))
  obtain ⟨-, hcongr, hentries⟩ := Enrichment.response_congr hdigest hprice b
  refine ⟨hresponse'.trans (hcongr.trans hresponse.symm), fun entries => ?_⟩
  rw [hupserted, hperm.mem_iff, ← hentries]
  simp

/-- One enrichment of the secure application's small deployment, served. -/
def oneServedSecurely : List Limitless.Event :=
  .arrive (.demo 0) :: List.replicate 9 (.advance 0) ++ [.resume 0, .resume 0] ++
    List.replicate 9 (.advance 0)

theorem one_name_answered_the_same :
    ∃ w t w' t' response, replay (Limitless.World.next (.demo 1)) (.demo 1) oneServedSecurely =
        some w ∧
      replay (World.next (.demo 1)) (.start (.demo 1) .demo 1 40) oneServed = some w' ∧
      w.tasks = [t] ∧ w'.tasks = [t'] ∧ t.pc = .ended (.responded response) ∧
      t'.pc = .ended (.responded response) := by
  have hrun : ∃ w t u n lookups cents results, replay (Limitless.World.next (.demo 1)) (.demo 1)
      oneServedSecurely = some w ∧ w.tasks = [t] ∧ t.request = .demo 0 ∧
        t.pc = .ended (.responded (.enriched u n lookups cents results)) :=
    ⟨_, _, _, _, _, _, _, rfl, rfl, rfl, rfl⟩
  have hrun' : ∃ w t response, replay (World.next (.demo 1)) (.start (.demo 1) .demo 1 40)
      oneServed = some w ∧ w.tasks = [t] ∧ t.request = .demo ∧
        t.pc = .ended (.responded response) := ⟨_, _, _, rfl, rfl, rfl, rfl⟩
  obtain ⟨w, t, u, n, lookups, cents, results, hw, htasks, hrequest, hpc⟩ := hrun
  obtain ⟨w', t', response, hw', htasks', hrequest', hpc'⟩ := hrun'
  have hprincipal : t'.request.principal = t.request.principal := by
    rw [hrequest, hrequest']
    rfl
  have hpayload : t'.request.payload = .enrich t.request.payload.names? := by
    rw [hrequest, hrequest']
    rfl
  have hsame := same_answer rfl rfl rfl (Limitless.World.run_demo hw) (run_of_replay hw')
    (by simp [htasks]) (by simp [htasks']) hprincipal hpayload hpc hpc'
  exact ⟨w, t, w', t', _, hw, hw', htasks, htasks', hpc, hpc'.trans (by rw [hsame.1])⟩

end Vulnerable

end Limitless
