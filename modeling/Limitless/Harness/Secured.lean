import Limitless.Harness.Burst
import Limitless.Secure.Admitted
import Limitless.Secure.Packaging
import Limitless.Secure.Surface

/-!
# The secure application under the harness

The harness is written against its `Application`, and `Deployment.app` is the real one: replicas of
the secure application that go on in any order, whose requests are answered once their handlers have
ended. What the harness counts as admitted can then be compared with the provider's bill, request by
request: `Tallied.billed` says that the bill shows what the answers have counted, once every request
has been answered and none of them has failed after its reservation. `Idle.total` says that such a
deployment can go on to answer whatever is asked of it.
-/

namespace Limitless.Harness

open Indexed Runs

/-! ## The deployment -/

/-- Replicas of the secure application. -/
structure Deployment where
  config : Config
  replicas : ℕ
  /-- A job's id as `job_id` shows it. -/
  jobText : JobId → String

/-- The replicas while the harness drives them, and the requests that have been answered. -/
structure Driven where
  world : World
  answered : List ℕ

/-- What an input reader can make of a call. Nothing is asked of a body that has no fixed form. -/
def Reads : Call → Payload → Prop
  | .enrich companyNames, .enrich input => ∀ names, input = .ok names → names = companyNames
  | .importBundle bundle, .importBundle input _ =>
    ∀ names, input = .ok names → names.length = bundle.lines.length
  | .enrichRaw _, .enrich _ | .listRecords _, .listRecords _ => True
  | _, _ => False

/-- An error's body has a `detail`, and nothing that the harness reads. -/
def errorResponse (reply : Reply) : Response :=
  ⟨reply.statusCode, reply.detail.map fun _ => ⟨none, none, none⟩⟩

namespace Deployment

/-- What seeding leaves: the rows of the fixtures and an empty bill. The replicas may have served
others before, and serve nobody now. -/
structure Seeded (d : Deployment) (w : World) : Prop where
  idle : w.tasks = []
  store : w.service.store = .resetFixtures
  provider : w.service.provider = .initial d.config.providerPriceCents
  length : w.service.limiters.length = d.replicas
  free : ∀ l ∈ w.service.limiters, l.capacity = d.config.maxInFlightUpstream ∧ l.inFlight = 0

/-- What the harness reads of a success. -/
def body (d : Deployment) : Limitless.Response → ResponseBody
  | .enriched _ recordsAdmitted _ cents _ => ⟨some recordsAdmitted, some cents, none⟩
  | .imported jobId _ _ recordsAdmitted cents =>
    ⟨some recordsAdmitted, some cents, some (d.jobText jobId)⟩
  | .page _ => ⟨none, none, none⟩

/-- The answer to a request whose handler has ended. -/
def response (d : Deployment) (reply : Reply) : Ending → Response
  | .responded response => ⟨reply.statusCode, some (d.body response)⟩
  | .raised _ => errorResponse reply

/-- `read_job`. -/
def readJob (d : Deployment) (w : World) (tenantId : TenantId) (jobId : String) : Option Job :=
  w.service.store.jobs.entries.find? fun job =>
    d.jobText job.jobId = jobId ∧ job.tenantId = tenantId

/-- What may be answered, once anything has gone on in the replicas. -/
inductive Answers (d : Deployment) (v : Driven) (x : Exchange) : Driven → Prop
  /-- A request of the tenant's with this input has ended, and nobody has been answered for it. -/
  | handled {es : List Event} {w : World} {i : ℕ} {t : Task} {ending : Ending} {failure : Failure}
      {exit : Exit} {replica : PyStr} {retryAfterSeconds : ℕ} {state : RequestState} :
      Run (Steps (World.next d.config)) v.world es w → .resetLedger ∉ es → i ∉ v.answered →
      w.tasks[i]? = some t → t.pc = .ended ending → t.request.principal = some x.sent.tenantId →
      Reads x.sent.call t.request.payload → ending.exit failure = some exit →
      x.response = d.response (respond replica retryAfterSeconds state exit).1 ending →
      Answers d v x ⟨w, i :: v.answered⟩
  /-- A job is read, and it is the tenant's. -/
  | read {es : List Event} {w : World} {jobId : String} {job : Job} :
      Run (Steps (World.next d.config)) v.world es w → .resetLedger ∉ es →
      x.sent.call = .job jobId → d.readJob w x.sent.tenantId jobId = some job →
      x.response =
        ⟨200, some ⟨some job.recordsAdmitted, some job.centsCharged, some (d.jobText job.jobId)⟩⟩ →
      Answers d v x ⟨w, v.answered⟩
  /-- It is not, or the store fails. -/
  | unread {es : List Event} {w : World} {jobId : String} {outcome : StoreRead} {replica : PyStr}
      {retryAfterSeconds : ℕ} {state : RequestState} :
      Run (Steps (World.next d.config)) v.world es w → .resetLedger ∉ es →
      x.sent.call = .job jobId →
      outcome = .absent ∧ d.readJob w x.sent.tenantId jobId = none ∨
        (∃ failure, outcome = .failed failure) →
      x.response = errorResponse (respond replica retryAfterSeconds state outcome.exit).1 →
      Answers d v x ⟨w, v.answered⟩

/-- The deployment as the harness sees it. -/
def app (d : Deployment) : Application Driven where
  seeded v := d.Seeded v.world ∧ v.answered = []
  answers := d.Answers
  jobs v tenantId jobId := (d.readJob v.world tenantId jobId).isSome
  usage v tenantId := (v.world.service.store.readUsage tenantId).elim 0 (·.centsCharged)
  ledger v := v.world.service.provider.ledger
  peakInFlight v := v.world.service.provider.peakInFlight

end Deployment

namespace Driven

/-- Every request that has reached the replicas has been answered. -/
def Settled (v : Driven) : Prop := ∀ i < v.world.tasks.length, i ∈ v.answered

/-- No admitted request has failed after its reservation. -/
def Clean (v : Driven) : Prop :=
  ∀ t ∈ v.world.tasks, t.Admitted → ∀ x ∈ t.raised, x.2.isRefusal = true

end Driven

/-! ## Counting request by request -/

/-- What a record counts as admitted for a tenant. -/
def RequestRecord.admittedFor (r : RequestRecord) (u : TenantId) : Int :=
  if r.tenantId = u then r.recordsAdmitted else 0

/-- The answers so far count what the requests that were answered have admitted. -/
structure Tallied (d : Deployment) (exchanges : List Exchange) (v : Driven) : Prop where
  sound : v.world.Sound d.config .resetFixtures d.replicas
  asked : ∀ t ∈ v.world.tasks, t.Asked
  unbilled : ∀ u, v.world.unbilled u = 0
  nodup : v.answered.Nodup
  ended : ∀ i ∈ v.answered, ∃ t ending, v.world.tasks[i]? = some t ∧ t.pc = .ended ending
  counted : ∀ u, total (fun i => v.world.tasks[i]?.elim 0 (·.admitted u)) v.answered =
    total (fun x => x.record.admittedFor u) exchanges
  nonneg : ∀ x ∈ exchanges, 0 ≤ x.record.recordsAdmitted

section
variable {d : Deployment} {v v' : Driven} {x : Exchange} {exchanges : List Exchange} {t : Task}
  {ending : Ending} {reply : Reply} {es : List Event} {w : World}

/-- A seeded deployment has counted nothing. -/
theorem Deployment.Seeded.tallied (h : d.Seeded v.world) (hanswered : v.answered = []) :
    Tallied d [] v := by
  obtain ⟨⟨service, tasks⟩, answered⟩ := v
  obtain ⟨hidle, hstore, hprovider, hlength, hfree⟩ := h
  obtain rfl : tasks = [] := hidle
  obtain rfl : answered = [] := hanswered
  have hsound : World.Sound d.config .resetFixtures d.replicas ⟨service, []⟩ := by
    refine ⟨by simp, by simp, by simp, hlength, fun l hl => (hfree l hl).1, ?_, fun a => ?_, ?_,
      fun ρ => ?_, ?_⟩
    · rw [show service.provider = _ from hprovider]
      rfl
    · rw [show service.store = _ from hstore]
      exact (add_zero _).symm
    · rw [show service.store = _ from hstore]
      exact ⟨fun _ => rfl, rfl⟩
    · show (service.limiters[ρ]?).elim 0 InFlightLimiter.inFlight = 0
      cases hρ : service.limiters[ρ]? with
      | none => rfl
      | some l => exact (hfree l (List.mem_of_getElem? hρ)).2
    · rw [show service.provider = _ from hprovider]
      rfl
  refine ⟨hsound, by simp, fun u => ?_, List.nodup_nil, by simp, fun _ => rfl, by simp⟩
  show 0 - service.provider.ledger.lookupsOf u = 0
  rw [show service.provider = _ from hprovider]
  rfl

/-- Whatever goes on in the replicas, what has been answered stays counted. -/
theorem Tallied.run (h : Tallied d exchanges v)
    (hrun : Run (Steps (World.next d.config)) v.world es w) (hreset : .resetLedger ∉ es) :
    Tallied d exchanges ⟨w, v.answered⟩ := by
  obtain ⟨hsound, hunbilled⟩ := h.sound.run_unbilled hrun hreset
  have hstays : ∀ i ∈ v.answered, ∃ t t' ending, v.world.tasks[i]? = some t ∧
      t.pc = .ended ending ∧ w.tasks[i]? = some t' ∧ t'.pc = .ended ending := by
    intro i hi
    obtain ⟨t, ending, ht, hpc⟩ := h.ended i hi
    obtain ⟨t', ht', hpc', -⟩ := World.ended_stays hrun ht hpc
    exact ⟨t, t', ending, ht, hpc, ht', hpc'⟩
  refine ⟨hsound, World.run_asked h.asked hrun, fun u => (hunbilled u).trans (h.unbilled u),
    h.nodup, fun i hi => ?_, fun u => ?_, h.nonneg⟩
  · obtain ⟨-, t', ending, -, -, ht', hpc'⟩ := hstays i hi
    exact ⟨t', ending, ht', hpc'⟩
  · rw [← h.counted u]
    refine total_congr fun i hi => ?_
    obtain ⟨t, t', ending, ht, hpc, ht', hpc'⟩ := hstays i hi
    simp [ht, ht', Task.admitted, hpc, hpc']

/-- A request that asks for lookups is one of work. -/
theorem Reads.admitsWork {payload : Payload} {names : List String}
    (h : Reads x.sent.call payload) (hnames : payload.names? = some names) :
    x.record.admitsWork = true := by
  have hoperation : x.record.operation = x.sent.call.operation := rfl
  unfold RequestRecord.admitsWork
  rw [hoperation]
  cases hcall : x.sent.call with
  | enrich | enrichRaw | importBundle => rfl
  | listRecords =>
      rw [hcall] at h
      cases payload with
      | listRecords => cases hnames
      | enrich | importBundle => cases h
  | job =>
      rw [hcall] at h
      cases payload <;> cases h

/-- **One request.** What a tenant's response counts is what its request has admitted. -/
theorem recorded_of_response (hsound : t.Sound d.config) (hasked : t.Asked)
    (hpc : t.pc = .ended ending) (hprincipal : t.request.principal = some x.sent.tenantId)
    (hreads : Reads x.sent.call t.request.payload)
    (hresponse : x.response = d.response reply ending) :
    (∀ u, t.admitted u = x.record.admittedFor u) ∧ 0 ≤ x.record.recordsAdmitted ∧
      ∀ bundle, x.sent.call = .importBundle bundle → ending.admission?.isSome →
        x.record.recordsAdmitted = bundle.lines.length := by
  have htenant : x.record.tenantId = x.sent.tenantId := rfl
  have hbody : x.record.body = x.response.body := rfl
  cases hadmission : ending.admission? with
  | none =>
      have hzero : x.record.recordsAdmitted = 0 := by
        unfold RequestRecord.recordsAdmitted
        rw [hbody, hresponse]
        cases ending with
        | raised => cases hdetail : reply.detail <;>
            simp [Deployment.response, errorResponse, hdetail]
        | responded response =>
            cases response with
            | page => simp [Deployment.response, Deployment.body]
            | enriched | imported => cases hadmission
      refine ⟨fun u => ?_, hzero.ge, fun _ _ hsome => by cases hsome⟩
      simp [Task.admitted, hpc, hadmission, RequestRecord.admittedFor, hzero]
  | some a =>
      obtain ⟨u, n⟩ := a
      obtain ⟨hu, ⟨names, hnames, rfl⟩, -⟩ := hasked.admission hsound hpc hadmission
      cases hu.symm.trans hprincipal
      have hcount : x.record.recordsAdmitted = names.length := by
        unfold RequestRecord.recordsAdmitted
        rw [if_pos (hreads.admitsWork hnames), hbody, hresponse]
        cases ending with
        | raised => cases hadmission
        | responded response =>
            cases response with
            | page => cases hadmission
            | enriched | imported =>
                cases hadmission
                rfl
      refine ⟨fun u => ?_, by omega, fun bundle hcall _ => ?_⟩
      · simp only [Task.admitted, hpc, hadmission, Option.elim_some, RequestRecord.admittedFor,
          htenant, hcount, eq_comm (a := u)]
      · rw [hcount]
        rw [hcall] at hreads
        cases hpayload : t.request.payload with
        | importBundle input jobId =>
            rw [hpayload] at hreads hnames
            cases input with
            | error => cases hnames
            | ok read =>
                cases hnames
                rw [hreads _ rfl]
        | enrich | listRecords =>
            rw [hpayload] at hreads
            cases hreads

/-- A read of a job counts nothing. -/
theorem Tallied.uncounted {jobId : String} (h : Tallied d exchanges v)
    (hcall : x.sent.call = .job jobId) : Tallied d (exchanges ++ [x]) v := by
  have hzero : x.record.recordsAdmitted = 0 := by
    have hoperation : x.record.operation = x.sent.call.operation := rfl
    have hread : x.record.admitsWork = false := by
      unfold RequestRecord.admitsWork
      rw [hoperation, hcall]
      rfl
    simp [RequestRecord.recordsAdmitted, hread]
  refine ⟨h.sound, h.asked, h.unbilled, h.nodup, h.ended, fun u => ?_, ?_⟩
  · rw [h.counted u, total_append]
    simp [RequestRecord.admittedFor, hzero]
  · exact List.forall_mem_append.mpr ⟨h.nonneg, List.forall_mem_singleton.mpr hzero.ge⟩

/-- **Step lemma.** An answer counts what its request has admitted. -/
theorem Tallied.step (h : Tallied d exchanges v) (hanswers : d.Answers v x v') :
    Tallied d (exchanges ++ [x]) v' := by
  cases hanswers with
  | handled hrun hreset hfresh hi hpc hprincipal hreads _ hresponse =>
      have hnow := h.run hrun hreset
      have hmem := List.mem_of_getElem? hi
      obtain ⟨hadmitted, hnonneg, -⟩ := recorded_of_response (hnow.sound.task _ hmem)
        (hnow.asked _ hmem) hpc hprincipal hreads hresponse
      refine ⟨hnow.sound, hnow.asked, hnow.unbilled, List.nodup_cons.mpr ⟨hfresh, h.nodup⟩,
        List.forall_mem_cons.mpr ⟨⟨_, _, hi, hpc⟩, hnow.ended⟩, fun u => ?_, ?_⟩
      · rw [total_cons, hnow.counted u, total_append, total_cons, total_nil, hi, Option.elim_some,
          hadmitted u]
        omega
      · exact List.forall_mem_append.mpr ⟨h.nonneg, List.forall_mem_singleton.mpr hnonneg⟩
  | read hrun hreset hcall => exact (h.run hrun hreset).uncounted hcall
  | unread hrun hreset hcall => exact (h.run hrun hreset).uncounted hcall

/-- **Run lemma.** So do all the answers since the seeding. -/
theorem Tallied.of_run {v₀ : Driven} (h : Tallied d [] v₀)
    (hrun : Run d.app.answers v₀ exchanges v) : Tallied d exchanges v :=
  hrun.invariant_trace (fun _ _ _ _ h hanswers => h.step hanswers) h

/-- Once every request has been answered, the bill shows what the answers have counted. -/
theorem Tallied.billed (h : Tallied d exchanges v) (hsettled : v.Settled) (hclean : v.Clean)
    (u : TenantId) : v.world.service.provider.ledger.lookupsOf u =
      total (fun x => x.record.admittedFor u) exchanges := by
  have hlt : ∀ i ∈ v.answered, i < v.world.tasks.length := by
    intro i hi
    obtain ⟨t, -, ht, -⟩ := h.ended i hi
    exact (List.getElem?_eq_some_iff.mp ht).1
  have hended : ∀ t ∈ v.world.tasks, t.pc.isEnded = true := by
    intro t ht
    obtain ⟨i, hi⟩ := List.mem_iff_getElem?.mp ht
    obtain ⟨t', ending, ht', hpc⟩ := h.ended i
      (hsettled i (List.getElem?_eq_some_iff.mp hi).1)
    cases hi.symm.trans ht'
    rw [hpc]
    rfl
  have hall : v.answered.Perm (List.range v.world.tasks.length) := by
    refine (List.perm_ext_iff_of_nodup h.nodup List.nodup_range).mpr fun i => ?_
    rw [List.mem_range]
    exact ⟨hlt i, hsettled i⟩
  calc v.world.service.provider.ledger.lookupsOf u
      = total (fun t => t.billed u) v.world.tasks := by
        have := h.unbilled u
        unfold World.unbilled at this
        omega
    _ = total (fun t => t.admitted u) v.world.tasks := total_congr fun t ht =>
        (admitted_billed (h.sound.task t ht) (h.asked t ht) (hended t ht) (hclean t ht) u).symm
    _ = total (fun i => v.world.tasks[i]?.elim 0 (·.admitted u)) v.answered := by
        rw [total_perm _ hall, total_range]
    _ = total (fun x => x.record.admittedFor u) exchanges := h.counted u

theorem Deployment.statusCode_response (d : Deployment) (reply : Reply) (ending : Ending) :
    (d.response reply ending).statusCode = reply.statusCode := by cases ending <;> rfl

/-- Only what a handler creates is answered with a `201`. -/
theorem exit_of_created {replica : PyStr} {retryAfterSeconds : ℕ} {state : RequestState}
    {exit : Exit} (h : (respond replica retryAfterSeconds state exit).1.statusCode = 201) :
    exit = .plain .created := by
  cases exit with
  | plain answer => cases answer <;> first | rfl | cases h
  | limitReached kind => cases kind <;> cases h
  | operationalError => cases h

/-- And that admits something. -/
theorem ending_of_created {failure : Failure} (h : ending.exit failure = some (.plain .created)) :
    ending.admission?.isSome := by
  cases ending with
  | responded response =>
      cases response with
      | enriched | imported => rfl
      | page => cases h
  | raised exc =>
      cases exc with
      | failed => cases failure <;> cases h
      | _ => cases h

/-- The import of the preparation counts the records of its bundle. -/
theorem Deployment.Answers.imported {bundle : Bundle} (h : Tallied d exchanges v)
    (hanswers : d.Answers v x v') (hcall : x.sent.call = .importBundle bundle)
    (hcreated : x.response.statusCode = 201) :
    x.record.recordsAdmitted = bundle.lines.length := by
  cases hanswers with
  | @handled _ _ _ _ ending _ exit _ _ _ hrun hreset _ hi hpc hprincipal hreads hexit hresponse =>
      have hnow := h.run hrun hreset
      have hmem := List.mem_of_getElem? hi
      refine (recorded_of_response (hnow.sound.task _ hmem) (hnow.asked _ hmem) hpc hprincipal
        hreads hresponse).2.2 bundle hcall ?_
      have hstatus : (d.response _ ending).statusCode = 201 := hresponse ▸ hcreated
      rw [Deployment.statusCode_response] at hstatus
      exact ending_of_created (exit_of_created hstatus ▸ hexit)
  | read _ _ hjob => rw [hcall] at hjob; cases hjob
  | unread _ _ hjob => rw [hcall] at hjob; cases hjob

end

/-! ## A deployment that answers -/

/-- Everything has been answered, nothing has failed after its reservation, and the first replica
can serve the next request. -/
structure Idle (d : Deployment) (v : Driven) : Prop where
  tallied : ∃ exchanges, Tallied d exchanges v
  settled : v.Settled
  clean : v.Clean
  slot : v.world.service.HasSlot 0
  released : v.world.service.provider.released = true

section
variable {d : Deployment} {v : Driven} {q : Sent}

/-- The answer to a request that has ended, where nothing is known of a failure. -/
def Deployment.answerTo (d : Deployment) (exit : Exit) (ending : Ending) : Response :=
  d.response (respond [] 0 ⟨[], none⟩ exit).1 ending

/-- A request that gets to its end by itself is answered. -/
theorem Idle.handled {request : Request} {es : List TaskEvent} {s' : Service} {t : Task}
    {ending : Ending} {exit : Exit} (h : Idle d v) (hreplica : request.replica = 0)
    (hsolo : Run (Steps (Task.next d.config)) (v.world.service, .arrived request) es (s', t))
    (hrequest : t.request = request) (hpc : t.pc = .ended ending)
    (hexit : ending.exit .other = some exit) (hprincipal : request.principal = some q.tenantId)
    (hreads : Reads q.call request.payload)
    (hclean : t.Admitted → ∀ x ∈ t.raised, x.2.isRefusal = true) (hslot : s'.HasSlot 0)
    (hreleased : s'.provider.released = true) :
    ∃ v', d.Answers v ⟨q, d.answerTo exit ending⟩ v' ∧ Idle d v' := by
  obtain ⟨⟨exchanges, htallied⟩, hsettled, hcleans, ⟨l, hl, -⟩, -⟩ := h
  have harrive : v.world.next d.config (.arrive request) =
      some (World.last v.world.tasks (v.world.service, .arrived request)) :=
    if_pos (hreplica ▸ (List.getElem?_eq_some_iff.mp hl).1)
  have hrun := (run_map_iff (World.next_last d.config v.world.tasks)).mpr ⟨_, hsolo, rfl⟩
  have hreset : Event.resetLedger ∉ .arrive request ::
      es.map (TaskEvent.event v.world.tasks.length) := by
    intro hmem
    rcases List.mem_cons.mp hmem with hmem | hmem
    · cases hmem
    · obtain ⟨e, -, he⟩ := List.mem_map.mp hmem
      cases e <;> cases he
  have hfresh : v.world.tasks.length ∉ v.answered := by
    intro hmem
    obtain ⟨t, -, ht, -⟩ := htallied.ended _ hmem
    exact absurd (List.getElem?_eq_some_iff.mp ht).1 (lt_irrefl _)
  have hanswers : d.Answers v ⟨q, d.answerTo exit ending⟩
      ⟨World.last v.world.tasks (s', t), v.world.tasks.length :: v.answered⟩ :=
    .handled (.cons harrive hrun) hreset hfresh (by simp [World.last]) hpc
      (by rw [hrequest]; exact hprincipal) (by rw [hrequest]; exact hreads) hexit rfl
  refine ⟨_, hanswers, ⟨_, htallied.step hanswers⟩, fun i hi => ?_, ?_, hslot, hreleased⟩
  · have hlt : i < v.world.tasks.length + 1 := by simpa [World.last] using hi
    rcases Nat.lt_succ_iff_lt_or_eq.mp hlt with hlt | rfl
    · exact List.mem_cons_of_mem _ (hsettled i hlt)
    · exact List.mem_cons_self
  · exact List.forall_mem_append.mpr ⟨hcleans, List.forall_mem_singleton.mpr hclean⟩

/-- What its input reader refuses is answered. -/
theorem Idle.refused {payload : Payload} {exc : Exception} {exit : Exit} (h : Idle d v)
    (hread : ∀ t : Task, t.request = ⟨0, some q.tenantId, payload⟩ →
      t.read d.config v.world.service q.tenantId = t.raise v.world.service exc)
    (hexit : (Ending.raised exc).exit .other = some exit) (hreads : Reads q.call payload) :
    ∃ r v', d.Answers v ⟨q, r⟩ v' ∧ Idle d v' := by
  have hsolo : Run (Steps (Task.next d.config))
      (v.world.service, .arrived ⟨0, some q.tenantId, payload⟩) [.advance, .advance]
      (v.world.service, ⟨⟨0, some q.tenantId, payload⟩, .ended (.raised exc), none, [],
        [(.reading q.tenantId, exc)]⟩) :=
    .cons rfl (.cons (congrArg some (hread _ rfl)) .nil)
  refine ⟨_, h.handled rfl hsolo rfl rfl hexit rfl hreads ?_ h.slot h.released⟩
  rintro ⟨r, hr⟩
  cases hr

/-- An enrichment is answered. -/
theorem Idle.enriched {companyNames : List String} (h : Idle d v)
    (hprice : d.config.providerPriceCents = d.config.priceCents)
    (hcall : q.call = .enrich companyNames) : ∃ r v', d.Answers v ⟨q, r⟩ v' ∧ Idle d v' := by
  have hreads : Reads q.call (.enrich (.ok companyNames)) := by
    rw [hcall]
    intro names hnames
    exact (Except.ok.inj hnames).symm
  by_cases hbatch : companyNames.length ≤ d.config.maxBatchItems
  · cases hreserve : v.world.service.store.reserve q.tenantId companyNames.length
        d.config.priceCents with
    | error e =>
        have hraise : ∃ exc exit, (Ending.raised exc).exit .other = some exit ∧ ∀ t : Task,
            t.request = .enrichment 0 q.tenantId companyNames →
            t.reserve d.config v.world.service ⟨q.tenantId, companyNames, none⟩ =
              t.raise v.world.service exc := by
          cases he : e with
          | allowanceExhausted =>
              refine ⟨.limitReached .allowanceExhausted .enrich, _, rfl, fun t ht => ?_⟩
              simp only [Task.reserve, hreserve, he, ht]
              rfl
          | valueError | checkViolation | uniqueViolation =>
              refine ⟨.store e, _, rfl, fun t _ => ?_⟩
              simp only [Task.reserve, hreserve, he]
        obtain ⟨exc, exit, hexit, hraise⟩ := hraise
        have hsolo : Run (Steps (Task.next d.config))
            (v.world.service, .arrived (.enrichment 0 q.tenantId companyNames))
            ([.advance, .advance, .advance] ++ [.advance])
            (v.world.service, ⟨.enrichment 0 q.tenantId companyNames, .ended (.raised exc), none,
              [], [(.reserving ⟨q.tenantId, companyNames, none⟩, exc)]⟩) :=
          (run_reserving 0 q.tenantId hbatch).append (.cons (congrArg some (hraise _ rfl)) .nil)
        refine ⟨_, h.handled rfl hsolo rfl rfl hexit rfl hreads ?_ h.slot h.released⟩
        rintro ⟨r, hr⟩
        cases hr
    | ok p =>
        obtain ⟨held, r⟩ := p
        obtain ⟨-, rfl, -⟩ := Store.reserve_ok hreserve
        obtain ⟨exchanges, htallied⟩ := h.tallied
        obtain ⟨es, s', t, response, hsolo, hrequest, hpc, hraised, hslot⟩ := exists_solo_of_held
          h.slot h.released (htallied.sound.price.trans (by rw [hprice])) hbatch hreserve
        obtain ⟨-, -, hreleased, -⟩ := alone_of_run hsolo hpc
        have hexit : ∃ exit, (Ending.responded response).exit .other = some exit := by
          cases response <;> exact ⟨_, rfl⟩
        obtain ⟨exit, hexit⟩ := hexit
        refine ⟨_, h.handled rfl hsolo hrequest hpc hexit rfl hreads (fun _ => ?_) hslot
          (hreleased.trans h.released)⟩
        rw [hraised]
        exact fun x hx => by cases hx
  · have hread : ∀ t : Task, t.request = ⟨0, some q.tenantId, .enrich (.ok companyNames)⟩ →
        t.read d.config v.world.service q.tenantId =
          t.raise v.world.service (.limitReached .inputTooLarge .enrich) := by
      intro t ht
      simp only [Task.read, ht]
      rw [if_pos (not_le.mp hbatch)]
    exact h.refused hread rfl hreads

/-- Whatever is asked of it is answered. -/
theorem Idle.total (hprice : d.config.providerPriceCents = d.config.priceCents) (v : Driven)
    (q : Sent) (h : Idle d v) : ∃ r v', d.app.answers v ⟨q, r⟩ v' ∧ Idle d v' := by
  have hrefused : ∀ payload, Reads q.call payload →
      (∀ t : Task, t.request.payload = payload → t.read d.config v.world.service q.tenantId =
        t.raise v.world.service (.limitReached .inputTooLarge payload.operation)) →
      ∃ r v', d.Answers v ⟨q, r⟩ v' ∧ Idle d v' := by
    intro payload hreads hread
    exact h.refused (fun t ht => hread t (by rw [ht])) rfl hreads
  cases hcall : q.call with
  | enrich companyNames => exact h.enriched hprice hcall
  | enrichRaw bodyBytes =>
      refine hrefused (.enrich (.error .tooLarge)) (by rw [hcall]; trivial) fun t ht => ?_
      simp only [Task.read, ht]
      rfl
  | listRecords pageSize =>
      refine hrefused (.listRecords (.error .tooLarge)) (by rw [hcall]; trivial) fun t ht => ?_
      simp only [Task.read, ht]
      rfl
  | importBundle bundle =>
      have hreads : Reads q.call (.importBundle (.error .tooLarge) 0) := by
        rw [hcall]
        intro names hnames
        cases hnames
      refine hrefused _ hreads fun t ht => ?_
      simp only [Task.read, ht]
      rfl
  | job jobId =>
      obtain ⟨exchanges, htallied⟩ := h.tallied
      cases hfound : d.readJob v.world q.tenantId jobId with
      | some job =>
          have hanswers : d.Answers v ⟨q, ⟨200, some ⟨some job.recordsAdmitted,
              some job.centsCharged, some (d.jobText job.jobId)⟩⟩⟩ ⟨v.world, v.answered⟩ :=
            .read .nil (by simp) hcall hfound rfl
          exact ⟨_, _, hanswers, ⟨_, htallied.step hanswers⟩, h.settled, h.clean, h.slot,
            h.released⟩
      | none =>
          have hanswers : d.Answers v ⟨q, errorResponse (respond [] 0 ⟨[], none⟩
              StoreRead.absent.exit).1⟩ ⟨v.world, v.answered⟩ :=
            .unread .nil (by simp) hcall (.inl ⟨rfl, hfound⟩) rfl
          exact ⟨_, _, hanswers, ⟨_, htallied.step hanswers⟩, h.settled, h.clean, h.slot,
            h.released⟩

end

end Limitless.Harness
