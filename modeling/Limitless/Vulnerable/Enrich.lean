import Limitless.Vulnerable.Invariant

/-!
# What an enrichment has done

The handler `enrich` charges, writes down, calls and upserts once each, but not always in one order:
the repair that calls first has its answer before the pool is charged. `Task.OnCourse` says of an
enrichment at every point what it has done beside being let through by its repair, up to that
order. What a `201` says follows, and what must have happened before it (`created_did_it_all`).
-/

namespace Limitless.Vulnerable

open Indexed Runs

/-! ## At a point -/

namespace Enrichment

/-- The lookup call of an enrichment. -/
def lookupRequest (b : Enrichment) : LookupRequest := ⟨b.tenantId, b.companyNames, true⟩

/-- What the provider answers it. -/
def result (cfg : Config) (b : Enrichment) : LookupResponse :=
  b.lookupRequest.response cfg.providerPriceCents

/-- The call and its answer. -/
def called (cfg : Config) (b : Enrichment) : List Effect :=
  [.sent b.lookupRequest, .received b.lookupRequest (b.result cfg)]

/-- The charge and its record. -/
def paid (cfg : Config) (b : Enrichment) : List Effect :=
  [.charged (b.companyNames.length * cfg.priceCents),
    .recordedWork b.tenantId b.companyNames.length (b.companyNames.length * cfg.priceCents)]

/-- The answer to the caller. -/
def response (cfg : Config) (b : Enrichment) : Response :=
  .enriched b.tenantId b.companyNames.length b.companyNames.length
    (b.companyNames.length * cfg.providerPriceCents)
    (enrichedRecords cfg b.tenantId (b.result cfg))

end Enrichment

/-- The request enriches these names for this tenant. -/
def Request.Enriches (q : Request) (b : Enrichment) : Prop :=
  q.principal = some b.tenantId ∧ q.payload = .enrich (some b.companyNames)

/-- The answer of the provider that a request holds at a point. -/
def EnrichPoint.result? : EnrichPoint → Option LookupResponse
  | takeConnection early | chargePool early | recordWork early | callProvider early => early
  | upsertRecords result | leaveConnection result => some result
  | select | callEarly | awaitEarly | awaitResponse => none

/-- The call that a request has behind it at a point where it may have called first. -/
def Enrichment.calledEarly (cfg : Config) (b : Enrichment) (early : Option LookupResponse) :
    List Effect :=
  if early.isSome then b.called cfg else []

/-- What a request has done by a point, beside being let through. -/
def EnrichPoint.done (cfg : Config) (b : Enrichment) : EnrichPoint → List Effect
  | select | callEarly => []
  | awaitEarly => [.sent b.lookupRequest]
  | takeConnection early | chargePool early => b.calledEarly cfg early
  | recordWork early =>
    .charged (b.companyNames.length * cfg.priceCents) :: b.calledEarly cfg early
  | callProvider early => b.paid cfg ++ b.calledEarly cfg early
  | awaitResponse => b.paid cfg ++ [.sent b.lookupRequest]
  | upsertRecords _ => b.paid cfg ++ b.called cfg
  | leaveConnection _ =>
    b.paid cfg ++ b.called cfg ++ [.upserted (recordEntries cfg b.tenantId (b.result cfg))]

/-- The repair has let the request through, and it has done this besides. -/
def Task.Did (t : Task) (done : List Effect) : Prop :=
  ∃ halfFix key cents, t.trail.Perm (.granted t.request.replica halfFix key cents :: done)

/-- A request is on its course: what it has done is what its point says. -/
def Task.OnCourse (cfg : Config) (t : Task) : Prop :=
  match t.pc with
  | .authenticating => t.trail = []
  | .reading u => t.trail = [] ∧ t.request.principal = some u
  | .enriching b .select => t.trail = [] ∧ t.request.Enriches b
  | .enriching b p =>
    t.request.Enriches b ∧ t.Did (p.done cfg b) ∧ ∀ r ∈ p.result?, r = b.result cfg
  | .importing b _ => ∃ bytes, t.request.payload = .importBundle bytes (.ok b.records) b.jobId
  | .ended (.responded response) => ∀ names, t.request.payload = .enrich (some names) →
      ∃ b : Enrichment, t.request.Enriches b ∧ response = b.response cfg ∧
        t.Did ((EnrichPoint.leaveConnection (b.result cfg)).done cfg b)
  | .ended (.raised _) => True

variable {cfg : Config} {s s' : Service} {t t' : Task} {w w' : World} {e : Event}

/-! ## The step lemma -/

/-- One thing more has been done. -/
theorem Task.Did.did {done done' : List Effect} {eff : Effect} (h : t.Did done) (pc : Pc)
    (hdone : done'.Perm (done ++ [eff])) : (t.did eff pc).Did done' := by
  obtain ⟨halfFix, key, cents, hperm⟩ := h
  exact ⟨halfFix, key, cents, (hperm.append_right [eff]).trans (hdone.symm.cons _)⟩

/-- An enrichment that has been let through goes on. -/
theorem Task.onCourse_of {b : Enrichment} {p : EnrichPoint} (hpc : t.pc = .enriching b p)
    (hof : t.request.Enriches b) (hdid : t.Did (p.done cfg b))
    (hresult : ∀ r ∈ p.result?, r = b.result cfg) (hselect : p ≠ .select) : t.OnCourse cfg := by
  unfold OnCourse
  rw [hpc]
  cases p with
  | select => exact absurd rfl hselect
  | _ => exact ⟨hof, hdid, hresult⟩

/-- What is known of an enrichment that has been let through. -/
theorem Task.OnCourse.spec {b : Enrichment} {p : EnrichPoint} (h : t.OnCourse cfg)
    (hpc : t.pc = .enriching b p) (hselect : p ≠ .select) :
    t.request.Enriches b ∧ t.Did (p.done cfg b) ∧ ∀ r ∈ p.result?, r = b.result cfg := by
  unfold OnCourse at h
  rw [hpc] at h
  cases p with
  | select => exact absurd rfl hselect
  | _ => exact h

/-- The answer to a call is what the provider makes of it. -/
theorem Task.Fits.answer {payload payload' : LookupRequest} {result : LookupResponse}
    (h : t.Fits cfg.providerPriceCents) (hend : t.pc.isEnded = false)
    (hawaits : t.pc.awaits = some payload) (hcall : t.call = some ⟨payload', .answered result⟩) :
    payload' = payload ∧ result = payload.response cfg.providerPriceCents := by
  obtain ⟨c, hc, hpayload, hanswer⟩ := (Pc.calls_some hawaits).mp (h hend)
  rw [hcall] at hc
  cases hc
  exact ⟨hpayload, hanswer result rfl⟩

/-- The records of an answer are as many as the names. -/
theorem length_enrichedRecords (cfg : Config) (b : Enrichment) :
    (enrichedRecords cfg b.tenantId (b.result cfg)).length = b.companyNames.length := by
  simp [enrichedRecords, recordEntries, Enrichment.result, LookupRequest.response,
    LookupRequest.results, Enrichment.lookupRequest]

/-- A request that goes on is on its course. -/
theorem Task.OnCourse.goto {pc : Pc} (h : t.OnCourse cfg) (honward : Onward cfg t.request t.pc pc) :
    (t.goto pc).OnCourse cfg := by
  obtain ⟨q, tpc, call, trail, raised⟩ := t
  cases honward with
  | authenticated hprincipal => exact ⟨h, hprincipal⟩
  | readEnrich hpayload => exact ⟨h.1, h.2, hpayload⟩
  | readImport hpayload => exact ⟨_, hpayload⟩
  | connected | hadEarly =>
      obtain ⟨hof, hdid, hresult⟩ := h.spec rfl (by simp)
      exact Task.onCourse_of rfl hof hdid hresult (by simp)
  | @enriched b result =>
      obtain ⟨hof, hdid, hresult⟩ := h.spec rfl (by simp)
      obtain rfl : result = b.result cfg := hresult result rfl
      refine fun names hnames => ⟨b, hof, ?_, hdid⟩
      rw [length_enrichedRecords]
      rfl
  | admitting | admitted | spending | performed => exact h
  | imported =>
      obtain ⟨bytes, hpayload⟩ := h
      refine fun names hnames => ?_
      cases hpayload.symm.trans hnames

/-- A request that sends its call is. -/
theorem Task.OnCourse.send {payload : LookupRequest} {pc : Pc} (h : t.OnCourse cfg)
    (hsends : Sends t.pc pc) (hawaits : pc.awaits = some payload) :
    (t.send payload pc).OnCourse cfg := by
  obtain ⟨q, tpc, call, trail, raised⟩ := t
  cases hsends with
  | @early b =>
      cases hawaits
      obtain ⟨hof, hdid, -⟩ := h.spec rfl (by simp)
      exact Task.onCourse_of rfl hof (hdid.did (.enriching b .awaitEarly) (.refl _))
        (by simp [EnrichPoint.result?]) (by simp)
  | @enrich b =>
      cases hawaits
      obtain ⟨hof, hdid, -⟩ := h.spec rfl (by simp)
      exact Task.onCourse_of rfl hof (hdid.did (.enriching b .awaitResponse) (.refl _))
        (by simp [EnrichPoint.result?]) (by simp)
  | chunk => exact h

/-- So is one that takes its answer. -/
theorem Task.OnCourse.receive {payload : LookupRequest} {result : LookupResponse} {pc : Pc}
    (h : t.OnCourse cfg) (hfits : t.Fits cfg.providerPriceCents) (htakes : Takes result t.pc pc)
    (hcall : t.call = some ⟨payload, .answered result⟩) :
    (t.receive payload result pc).OnCourse cfg := by
  have hend := htakes.free.1
  obtain ⟨q, tpc, call, trail, raised⟩ := t
  cases htakes with
  | @early b =>
      obtain ⟨hof, hdid, -⟩ := h.spec rfl (by simp)
      obtain ⟨rfl, rfl⟩ := hfits.answer hend rfl hcall
      refine Task.onCourse_of rfl hof
        (hdid.did (.enriching b (.takeConnection (some (b.result cfg)))) (.refl _))
        (fun r hr => ?_) (by simp)
      cases hr
      rfl
  | @enrich b =>
      obtain ⟨hof, hdid, -⟩ := h.spec rfl (by simp)
      obtain ⟨rfl, rfl⟩ := hfits.answer hend rfl hcall
      refine Task.onCourse_of rfl hof
        (hdid.did (.enriching b (.upsertRecords (b.result cfg))) (.of_eq ?_))
        (fun r hr => ?_) (by simp)
      · simp [EnrichPoint.done, Enrichment.called, Enrichment.result, Enrichment.lookupRequest]
      · cases hr
        rfl
  | chunk => exact h

/-- One that its repair lets through has done nothing but that. -/
theorem Task.OnCourse.granted {b : Enrichment} {p : EnrichPoint} {halfFix : HalfFix} {key : String}
    {cents : ℕ} (h : t.OnCourse cfg) (hpc : t.pc = .enriching b .select)
    (hp : p = .callEarly ∨ p = .takeConnection none) :
    (t.did (.granted t.request.replica halfFix key cents) (.enriching b p)).OnCourse cfg := by
  unfold Task.OnCourse at h
  rw [hpc] at h
  obtain ⟨htrail, hof⟩ := h
  have hdid : (t.did (.granted t.request.replica halfFix key cents) (.enriching b p)).Did [] :=
    ⟨halfFix, key, cents, by simp [Task.did, htrail]⟩
  rcases hp with rfl | rfl
  all_goals exact Task.onCourse_of rfl hof hdid (by simp [EnrichPoint.result?]) (by simp)

/-- One that pays is on its course. -/
theorem Task.OnCourse.charge {lookups : ℕ} {pc : Pc} (h : t.OnCourse cfg)
    (hcharges : Charges t.pc lookups pc) :
    (t.did (.charged (lookups * cfg.priceCents)) pc).OnCourse cfg := by
  obtain ⟨q, tpc, call, trail, raised⟩ := t
  cases hcharges with
  | enrich =>
      obtain ⟨hof, hdid, hresult⟩ := h.spec rfl (by simp)
      exact Task.onCourse_of rfl hof (hdid.did _ (List.perm_append_singleton _ _).symm) hresult
        (by simp)
  | chunk => exact h

/-- So is one whose work is written down. -/
theorem Task.OnCourse.record {u : TenantId} {records : ℕ} {pc : Pc} (h : t.OnCourse cfg)
    (hrecords : Records t.pc u records pc) :
    (t.did (.recordedWork u records (records * cfg.priceCents)) pc).OnCourse cfg := by
  obtain ⟨q, tpc, call, trail, raised⟩ := t
  cases hrecords with
  | enrich =>
      obtain ⟨hof, hdid, hresult⟩ := h.spec rfl (by simp)
      exact Task.onCourse_of rfl hof (hdid.did _
        ((List.perm_append_singleton _ _).symm.cons _)) hresult (by simp)
  | flush => exact h

/-- **Step lemma.** A request stays on its course. -/
theorem Task.OnCourse.step (h : t.OnCourse cfg) (hfits : t.Fits cfg.providerPriceCents)
    (hadvance : t.advance cfg s = some (s', t')) : t'.OnCourse cfg := by
  cases step_of_advance hadvance with
  | refuses | collides => trivial
  | onward honward => exact h.goto honward
  | sends hsends hawaits => exact h.send hsends hawaits
  | takes htakes hcall => exact h.receive hfits htakes hcall
  | charges hcharges => exact h.charge hcharges
  | records hrecords => exact h.record hrecords
  | selects hpc _ _ _ _ _ hout =>
      rcases hout with ⟨-, rfl⟩ | ⟨-, rfl⟩
      · split
        exacts [h.granted hpc (.inl rfl), h.granted hpc (.inr rfl)]
      · trivial
  | drains hpc | inserts hpc =>
      unfold Task.OnCourse at h
      rw [hpc] at h
      exact h
  | @upserts b result entries s' hpc =>
      obtain ⟨hof, hdid, hresult⟩ := h.spec hpc (by simp)
      obtain rfl : result = b.result cfg := hresult result rfl
      obtain rfl : entries = recordEntries cfg b.tenantId (b.result cfg) := by
        simp only [Task.advance, hpc, Task.enrich, Option.some.injEq, Prod.mk.injEq] at hadvance
        have htrail := congrArg Task.trail hadvance.2
        simpa [Task.did] using htrail.symm
      refine Task.onCourse_of rfl hof (hdid.did _ (.refl _)) (fun r hr => ?_) (by simp)
      cases hr
      rfl

/-! ## In a run -/

/-- What the provider does about its call leaves a request on its course. -/
theorem Task.OnCourse.call (h : t.OnCourse cfg) (call : Option Call) :
    Task.OnCourse cfg { t with call := call } := h

/-- **Step lemma.** Whatever happens, every request stays on its course. -/
theorem onCourse_next {s₀ : Service} (hsound : Sound cfg s₀ w) (h : ∀ t ∈ w.tasks, t.OnCourse cfg)
    (hnext : w.next cfg e = some w') : ∀ t ∈ w'.tasks, t.OnCourse cfg := by
  cases moves_of_next hnext with
  | arrived => exact forall_mem_concat h rfl
  | advanced hi hadvance =>
      have hmem := List.mem_of_getElem? hi
      exact forall_mem_set ((h _ hmem).step (hsound.fits _ hmem) hadvance) h
  | struck | timedOut => exact forall_mem_set trivial h
  | served _ hi => exact forall_mem_set ((h _ (List.mem_of_getElem? hi)).call _) h
  | woke => exact List.forall_mem_map.mpr fun t ht => (h t ht).call _
  | quiet => exact h

/-- **Run lemma.** In every run every request is on its course. -/
theorem onCourse_of_run {d : Database} {replicas allowanceCents : ℕ} {es : List Event}
    (hrun : Run (Steps (World.next cfg)) (.start cfg d replicas allowanceCents) es w) :
    ∀ t ∈ w.tasks, t.OnCourse cfg := by
  have hboth : Sound cfg (World.start cfg d replicas allowanceCents).service w ∧
      ∀ t ∈ w.tasks, t.OnCourse cfg := by
    refine hrun.invariant (I := fun a => Sound cfg
      (World.start cfg d replicas allowanceCents).service a ∧ ∀ t ∈ a.tasks, t.OnCourse cfg) ?_
      ⟨.start cfg d replicas allowanceCents, fun t ht => absurd ht List.not_mem_nil⟩
    rintro a e b ⟨hsound, h⟩ hnext
    exact ⟨hsound.step hnext, onCourse_next hsound h hnext⟩
  exact hboth.2

/-- What an enrichment on its course has done once it has been answered. -/
theorem Task.OnCourse.answered {names : List String} {response : Response} (h : t.OnCourse cfg)
    (hpayload : t.request.payload = .enrich (some names))
    (hpc : t.pc = .ended (.responded response)) :
    ∃ u halfFix key cents, t.request.principal = some u ∧
      response = Enrichment.response cfg ⟨u, names⟩ ∧
      t.trail.Perm [.granted t.request.replica halfFix key cents,
        .charged (names.length * cfg.priceCents),
        .recordedWork u names.length (names.length * cfg.priceCents), .sent ⟨u, names, true⟩,
        .received ⟨u, names, true⟩ (Enrichment.result cfg ⟨u, names⟩),
        .upserted (recordEntries cfg u (Enrichment.result cfg ⟨u, names⟩))] := by
  unfold Task.OnCourse at h
  rw [hpc] at h
  obtain ⟨⟨u, names'⟩, hof, rfl, halfFix, key, cents, hperm⟩ := h names hpayload
  obtain rfl : names = names' := by
    cases hpayload.symm.trans hof.2
    rfl
  exact ⟨u, halfFix, key, cents, hof.1, rfl, hperm⟩

/-- **A `201` did it all, once.** In every run, whatever faults strike whom: an enrichment that has
been answered with a `201` has been let through by its repair, and has charged the pool for every
name, written that down, sent one call, taken its answer and upserted its records, each exactly
once, and nothing else; and its answer says so, for the tenant it came from. -/
theorem created_did_it_all {d : Database} {replicas allowanceCents : ℕ} {es : List Event}
    {names : List String} {response : Response}
    (hrun : Run (Steps (World.next cfg)) (.start cfg d replicas allowanceCents) es w)
    (ht : t ∈ w.tasks) (hpayload : t.request.payload = .enrich (some names))
    (hpc : t.pc = .ended (.responded response)) :
    ∃ u halfFix key cents, t.request.principal = some u ∧
      response = Enrichment.response cfg ⟨u, names⟩ ∧
      t.trail.Perm [.granted t.request.replica halfFix key cents,
        .charged (names.length * cfg.priceCents),
        .recordedWork u names.length (names.length * cfg.priceCents), .sent ⟨u, names, true⟩,
        .received ⟨u, names, true⟩ (Enrichment.result cfg ⟨u, names⟩),
        .upserted (recordEntries cfg u (Enrichment.result cfg ⟨u, names⟩))] :=
  (onCourse_of_run hrun t ht).answered hpayload hpc

/-- One enrichment of the small deployment, served. -/
def oneServed : List Event :=
  .arrive .demo :: List.replicate 7 (.advance 0) ++ List.replicate 2 (.resume 0) ++
    List.replicate 3 (.advance 0)

theorem one_created_did_it_all :
    ∃ w t halfFix key cents, replay (World.next (.demo 1)) (.start (.demo 1) .demo 1 40) oneServed =
        some w ∧ w.tasks = [t] ∧
      t.trail.Perm [.granted 0 halfFix key cents, .charged 4,
        .recordedWork Fixtures.attackerTenantId 1 4,
        .sent ⟨Fixtures.attackerTenantId, [Fixtures.companyName 1], true⟩,
        .received ⟨Fixtures.attackerTenantId, [Fixtures.companyName 1], true⟩
          (Enrichment.result (.demo 1) ⟨Fixtures.attackerTenantId, [Fixtures.companyName 1]⟩),
        .upserted (recordEntries (.demo 1) Fixtures.attackerTenantId (Enrichment.result (.demo 1)
          ⟨Fixtures.attackerTenantId, [Fixtures.companyName 1]⟩))] := by
  have hrun : ∃ w t response, replay (World.next (.demo 1)) (.start (.demo 1) .demo 1 40)
      oneServed = some w ∧ w.tasks = [t] ∧ t.request = .demo ∧
        t.pc = .ended (.responded response) := ⟨_, _, _, rfl, rfl, rfl, rfl⟩
  obtain ⟨w, t, response, hw, htasks, hrequest, hpc⟩ := hrun
  have hpayload : t.request.payload = .enrich (some [Fixtures.companyName 1]) := by
    rw [hrequest]
    rfl
  obtain ⟨u, halfFix, key, cents, hu, -, hperm⟩ :=
    created_did_it_all (run_of_replay hw) (by simp [htasks]) hpayload hpc
  rw [hrequest] at hu hperm
  cases hu
  exact ⟨w, t, halfFix, key, cents, hw, htasks, hperm⟩

end Limitless.Vulnerable
