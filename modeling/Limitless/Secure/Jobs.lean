import Limitless.Secure.Admitted
import Limitless.Secure.Reads

/-!
# Every job is somebody's import

The converse of `imported_then_shown`. A job that `get_job` shows, at any time, was inserted for an
`import_bundle` of its tenant, with one record for each name of the bundle, and for the money that
the request was charged when it settled (`shown_was_imported`).
-/

namespace Limitless

open Indexed Runs Pools

/-- The request is the import that inserted the job: its tenant's, with a record for each of its
names, charged as it settled. -/
structure Task.Backs (cfg : Config) (t : Task) (job : Job) : Prop where
  inserted : .insertedJob job.jobId ∈ t.trail
  principal : t.request.principal = some job.tenantId
  names : ∃ names, t.request.payload.names? = some names ∧ job.recordsAdmitted = names.length ∧
    job.centsCharged = names.length * cfg.providerPriceCents
  settled : ∃ r, r.tenantId = job.tenantId ∧
    .settled r job.recordsAdmitted job.centsCharged ∈ t.trail

/-- Every job of the store has its import. -/
def World.Backed (cfg : Config) (w : World) : Prop :=
  ∀ j job, w.service.store.jobs.find? j = some job → ∃ t ∈ w.tasks, t.Backs cfg job

variable {cfg : Config} {t t' : Task} {w w' : World} {e : Event} {job : Job} {s₀ : Store}
  {replicas : ℕ}

/-- A request that goes on still backs its job. -/
theorem Task.Backs.grow (h : t.Backs cfg job) (hrequest : t'.request = t.request)
    (hgrown : t.trail <+: t'.trail) : t'.Backs cfg job := by
  obtain ⟨hinserted, hprincipal, hnames, r, hr, hsettled⟩ := h
  rw [← hrequest] at hprincipal hnames
  exact ⟨hgrown.subset hinserted, hprincipal, hnames, r, hr, hgrown.subset hsettled⟩

/-- A request that has just inserted a job backs it. -/
theorem Task.Sound.backs {st : Store} {work : Work} {r : Reservation} {result : LookupResponse}
    {j : JobId} (hsound : t.Sound cfg) (hasked : t.Asked) (hfiled : t.Filed cfg st)
    (hpc : t.pc = .recording work r result j .leaveConnection)
    (hjob : st.jobs.find? j = some job) : t.Backs cfg job := by
  have hlive := hsound.live (by rw [hpc]; rfl)
  rw [hpc] at hlive
  obtain ⟨rfl, ⟨-, rfl⟩, -, htrail⟩ := hlive
  obtain ⟨job', hjob', htenant, hrecords, hcents⟩ :=
    hfiled j work.tenantId _ _ (by rw [hpc]; rfl)
  cases hjob.symm.trans hjob'
  have hasks := hasked.works work (by rw [hpc]; rfl)
  have hlength : job.recordsAdmitted = work.companyNames.length := by
    rw [hrecords]
    simp [enrichedRecords, recordEntries, LookupRequest.response, LookupRequest.results,
      Work.lookupRequest]
  refine ⟨?_, ?_, ⟨work.companyNames, hasks.names, hlength, hcents⟩,
    work.reservation cfg.priceCents, htenant.symm, ?_⟩
  · rw [htrail, Keyed.find?_key hjob]
    simp [Pc.trail, JobPoint.trail]
  · rw [htenant]
    exact hasks.principal
  · rw [htrail, hlength, hcents]
    simp [Pc.trail, FinishPoint.trail, LookupRequest.response, Work.lookupRequest]

/-- One event keeps every job backed. -/
theorem World.Backed.step (h : w.Backed cfg) (hsound : w.Sound cfg s₀ replicas)
    (hasked : ∀ t ∈ w.tasks, t.Asked) (hfiled : w.Filed cfg) (hstep : w.next cfg e = some w') :
    w'.Backed cfg := by
  have hset : ∀ {i : ℕ} {t t' : Task} {s' : Service}, w.tasks[i]? = some t →
      FilesJob cfg w.service (s', t') → t'.Asked → t'.Sound cfg → t'.request = t.request →
      t.trail <+: t'.trail → World.Backed cfg ⟨s', w.tasks.set i t'⟩ := by
    intro i t t' s' hi hfiles hasked' hsound' hrequest hgrown k job hk
    rcases hfiles.fresh k job hk with hold | ⟨work, r, result, hpc⟩
    · obtain ⟨x, hx, hbacks⟩ := h k job hold
      obtain ⟨n, hn⟩ := List.mem_iff_getElem?.mp hx
      obtain ⟨y, hy, hbacks'⟩ := exists_getElem?_set (P := fun x => x.Backs cfg job) hn hbacks hi
        fun hb => hb.grow hrequest hgrown
      exact ⟨y, List.mem_of_getElem? hy, hbacks'⟩
    · exact ⟨t', List.mem_set (List.getElem?_eq_some_iff.mp hi).1 t',
        hsound'.backs hasked' hfiles.filed hpc hk⟩
  cases moves_of_next hstep with
  | arrived =>
      intro k job hk
      obtain ⟨x, hx, hbacks⟩ := h k job hk
      exact ⟨x, List.mem_append_left _ hx, hbacks⟩
  | @advanced i t t' s' hi hadvance =>
      have hmem := List.mem_of_getElem? hi
      obtain ⟨hsound', hacted⟩ := hsound.of_advance hi hadvance
      obtain ⟨new, htrail, -⟩ := hacted.books
      exact hset hi (Task.advance_files hadvance (hfiled t hmem))
        ((hasked t hmem).advance hadvance) hsound' hacted.request ⟨new, htrail.symm⟩
  | @struck i f t t' s' hi hfault =>
      have hmem := List.mem_of_getElem? hi
      obtain ⟨hsound', hacted⟩ := hsound.of_fault hi hfault
      obtain ⟨new, htrail, -⟩ := hacted.books
      obtain ⟨-, exc, heq⟩ := Task.fault_eq hfault
      exact hset hi (heq ▸ t.raise_files _ exc) ((hasked t hmem).fault hfault) hsound'
        hacted.request ⟨new, htrail.symm⟩
  | @served e i t c c' q' _ hi hc =>
      intro k job hk
      obtain ⟨x, hx, hbacks⟩ := h k job hk
      obtain ⟨n, hn⟩ := List.mem_iff_getElem?.mp hx
      obtain ⟨y, hy, hbacks'⟩ := exists_getElem?_set (P := fun x => x.Backs cfg job)
        (c := { t with call := some c' }) hn hbacks hi fun hb => hb.grow rfl List.prefix_rfl
      exact ⟨y, List.mem_of_getElem? hy, hbacks'⟩
  | woke =>
      intro k job hk
      obtain ⟨x, hx, hbacks⟩ := h k job hk
      exact ⟨_, List.mem_map_of_mem hx, hbacks.grow rfl List.prefix_rfl⟩
  | reset | quiet => exact h

/-- What a store without jobs leads to: every job has its import, and is where it was before. -/
theorem World.backed_of_run {es : List Event} {limiter : InFlightLimiter}
    (hl : InFlightLimiter.make cfg.maxInFlightUpstream = .ok limiter)
    (hjobs : s₀.jobs = Keyed.empty)
    (hrun : Run (Steps (World.next cfg)) (.start cfg s₀ replicas limiter) es w) :
    w.Filed cfg ∧ w.Backed cfg := by
  refine (hrun.invariant (I := fun w => World.Sound cfg s₀ replicas w ∧
    (∀ t ∈ w.tasks, t.Asked) ∧ w.Filed cfg ∧ w.Backed cfg) ?_
    ⟨World.start_sound hl s₀ replicas, ?_, ?_, ?_⟩).2.2
  · rintro a e b ⟨hsound, hasked, hfiled, hbacked⟩ hstep
    exact ⟨hsound.step (moves_of_next hstep), World.asked_step hasked hstep,
      (World.jobs_step hfiled hstep).2, hbacked.step hsound hasked hfiled hstep⟩
  · exact fun t ht => absurd ht List.not_mem_nil
  · exact fun t ht => absurd ht List.not_mem_nil
  · intro j job hjob
    rw [show (World.start cfg s₀ replicas limiter).service.store.jobs = Keyed.empty from hjobs]
      at hjob
    cases hjob

/-- **No job out of nothing.** Whenever `get_job` has shown a job, whatever has gone on, a request of
the tenant it was shown to has inserted it: with as many records as the request has names, for the
price of so many lookups, and that price is settled. -/
theorem shown_was_imported {limiter : InFlightLimiter} {size : ℕ → ℕ} {p : Replicas World}
    {es : List (ReplicaEvent Event)} {k : ℕ} {r : CommonReader} {view : JobView}
    (hl : InFlightLimiter.make cfg.maxInFlightUpstream = .ok limiter)
    (hjobs : s₀.jobs = Keyed.empty)
    (hrun : Run (Steps (pooled cfg size)) (.start (.start cfg s₀ replicas limiter)) es p)
    (hk : p.readers[k]? = some r) (ha : r.point = .ended (.ok (.job view))) :
    r.request.route = .job view.jobId ∧ r.request.principal = some view.tenantId ∧
      ∃ t ∈ p.world.tasks, ∃ names : List String, ∃ reservation : Reservation,
        t.request.principal = some view.tenantId ∧ t.request.payload.names? = some names ∧
        view.recordsAdmitted = names.length ∧
        view.centsCharged = names.length * cfg.providerPriceCents ∧
        .insertedJob view.jobId ∈ t.trail ∧ reservation.tenantId = view.tenantId ∧
        .settled reservation view.recordsAdmitted view.centsCharged ∈ t.trail := by
  obtain ⟨-, htold⟩ := Replicas.run_told (Clients.run_next hrun)
  have hr := htold k r hk (Nat.zero_le _)
  simp only [CommonReader.Told, ha] at hr
  rcases hr with hr | ⟨w, query, ⟨⟨fs, hfs⟩, gs, hgs⟩, henter, hanswer⟩
  · unfold CommonReader.enter at hr
    split at hr
    all_goals cases hr
  · obtain ⟨hfiled, -⟩ := World.backed_of_run hl hjobs hfs
    obtain ⟨-, hbacked⟩ := World.backed_of_run hl hjobs (hfs.append hgs)
    obtain ⟨j, u, rfl, hroute, hu⟩ : ∃ j u, query = .readJob j u ∧ r.request.route = .job j ∧
        r.request.principal = some u := by
      unfold CommonReader.enter at henter
      split at henter
      · cases henter
        cases hanswer
      · cases henter
      · cases henter
        exact ⟨_, _, rfl, ‹_›, ‹_›⟩
      · cases henter
        simp only [CommonReader.execute] at hanswer
        cases hread : (secureVariant cfg).usageSource w _ with
        | none =>
            rw [hread] at hanswer
            cases hanswer
        | some view' =>
            rw [hread] at hanswer
            cases hanswer
    have hread : w.service.store.readJob j u = some view := by
      have helim : CommonAnswer.job view =
          (w.service.store.readJob j u).elim .notFound .job := hanswer
      cases hread : w.service.store.readJob j u with
      | none =>
          rw [hread] at helim
          cases helim
      | some view' =>
          rw [hread] at helim
          cases helim
          rfl
    obtain ⟨job, hjob, rfl⟩ := Option.map_eq_some_iff.mp hread
    obtain ⟨hfound, htenant⟩ := Option.filter_eq_some_iff.mp hjob
    have hu' : job.tenantId = u := by simpa using htenant
    have hid : job.jobId = j := Keyed.find?_key hfound
    subst hu' hid
    have hstays : p.world.service.store.jobs.find? job.jobId = some job :=
      (hgs.invariant (I := fun w => w.Filed cfg ∧ w.service.store.jobs.find? job.jobId = some job)
        (fun _ _ _ h hstep =>
          ⟨(World.jobs_step h.1 hstep).2, (World.jobs_step h.1 hstep).1 _ _ h.2⟩)
        ⟨hfiled, hfound⟩).2
    obtain ⟨t, ht, hinserted, hprincipal, ⟨names, hnames, hrecords, hcents⟩, reservation,
      hreservation, hsettled⟩ := hbacked _ _ hstays
    exact ⟨hroute, hu, t, ht, names, reservation, hprincipal, hnames, hrecords, hcents, hinserted,
      hreservation, hsettled⟩

theorem one_shown_was_imported :
    ∃ p t, Run (Steps (pooled (.demo 1) fun _ => 3)) (.start (.demo 1)) (oneImport ++ thenAsked) p ∧
      t ∈ p.world.tasks ∧ t.request.principal = some Fixtures.attackerTenantId ∧
      .insertedJob 7 ∈ t.trail := by
  have hfigures : (replay (pooled (.demo 1) fun _ => 3) (.start (.demo 1))
      (oneImport ++ thenAsked)).map (·.readers[0]?) =
      some (some ⟨⟨0, some Fixtures.attackerTenantId, .job 7⟩,
        .ended (.ok (.job ⟨7, Fixtures.attackerTenantId, .completed, 1, 4⟩))⟩) := by decide
  obtain ⟨p, hp, hr⟩ := Option.map_eq_some_iff.mp hfigures
  obtain ⟨-, -, t, ht, names, reservation, hprincipal, -, -, -, hinserted, -⟩ :=
    shown_was_imported rfl rfl (run_of_replay hp) hr rfl
  exact ⟨p, t, run_of_replay hp, ht, hprincipal, hinserted⟩

end Limitless
