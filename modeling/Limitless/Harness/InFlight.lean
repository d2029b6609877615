import Limitless.Harness.Burst
import Limitless.Vulnerable.Occupancy
import Limitless.Vulnerable.Release

/-!
# Unbounded work in flight

`unbounded_in_flight` of `harness/vulnerable.py` with the provider held: as many enrichments as the
replica has connections, until the fixture's own count says that they are all there, then one
request to an endpoint without a defect, and then the release. What the harness reads off the count
is true: by then every connection is in the hands of a held call (`HeldBurst.jammed`). So the cheap
request is not served, and once released every held call completes
(`unbounded_in_flight_reproduces`).
-/

namespace Limitless.Vulnerable

open Indexed Runs Pools

/-! ## The scenario -/

/-- What `unbounded_in_flight` is set up with. -/
structure UnboundedInFlight where
  /-- The replica behind the one URL that the client addresses. -/
  replica : ℕ
  attackerTenantId : TenantId
  /-- `config.vulnerable_pool_max_size`. -/
  occupying : ℕ
  /-- The job of the import that sets it up. -/
  jobId : JobId

namespace UnboundedInFlight

/-- `client.enrich`, the same for every slot. -/
def enrich (p : UnboundedInFlight) : Request where
  replica := p.replica
  principal := some p.attackerTenantId
  halfFix := none
  clientId := none
  payload := .enrich (some (Harness.companyNames 5 0))

/-- `client.job`. -/
def cheap (p : UnboundedInFlight) : CommonRequest :=
  ⟨p.replica, some p.attackerTenantId, .job p.jobId⟩

/-- An event of the burst: nobody but the harness sends enrichments, nobody releases the provider,
and no request is taken away from its running call. -/
def bursts (p : UnboundedInFlight) (q : Replicas World) : ReplicaEvent Event → Bool
  | .inside (.arrive request) => request = p.enrich
  | .inside .release => false
  | e => spares q e

/-- The scenario: the provider is held and the burst sent, until the harness takes the count that it
reports; then it asks for the cheap endpoint; then it releases the provider, and everybody goes on
to the end. -/
structure Ran (cfg : Config) (size : ℕ → ℕ) (p : UnboundedInFlight)
    (q₀ counted asking held ended : Replicas World) : Prop where
  burst : ∃ es, Run (restrict (fun q e => p.bursts q e = true) (Steps (pooled cfg size))) q₀
    (.inside .hold :: es) counted
  waiting : ∃ es, Run (restrict (fun q e => keepsJam p.replica q e = true)
    (Steps (pooled cfg size))) counted es asking
  asked : ∃ es, Run (restrict (fun q e => keepsJam p.replica q e = true)
    (Steps (pooled cfg size))) asking (.ask p.cheap :: es) held
  released : ∃ q es, pooled cfg size held (.inside .release) = some q ∧
    Run (going cfg size) q es ended ∧ AtRest cfg size ended

/-- `occupied >= occupying`, with the count that was taken. -/
def Occupied (p : UnboundedInFlight) (counted : Replicas World) : Prop :=
  (p.occupying : Int) ≤ counted.world.service.provider.inFlight

/-- `not cheap_failed`: the cheap request was answered with the job. -/
def CheapSucceeded (asking held : Replicas World) : Prop :=
  ∃ r view, held.readers[asking.readers.length]? = some r ∧ r.point = .ended (.ok (.job view))

end UnboundedInFlight

variable {cfg : Config} {size : ℕ → ℕ} {p : UnboundedInFlight} {q q' : Replicas World}
  {w w' : World} {e : Event} {t : Task} {replicas : ℕ}

/-! ## The burst -/

/-- What holds while the burst is under way. -/
structure HeldBurst (p : UnboundedInFlight) (w : World) : Prop where
  released : w.service.provider.released = false
  sent : ∀ t ∈ w.tasks, t.pc.isEnded = true ∨ t.request = p.enrich
  held : ∀ t ∈ w.tasks, t.isCalling = true → t.call.elim false (·.phase.isHeld) = true

/-- **Step lemma.** The burst goes on. -/
theorem HeldBurst.step (h : HeldBurst p w) (hbursts : ∀ request, e = .arrive request →
    request = p.enrich) (hnot : e ≠ .release) (hnext : w.next cfg e = some w') :
    HeldBurst p w' := by
  have hended : ∀ {i : ℕ} {x : Task} (exc : Exception), w.tasks[i]? = some x →
      HeldBurst p { w with tasks := w.tasks.set i (x.raise exc) } := by
    intro i x exc hi
    exact ⟨h.released, forall_mem_set (.inl rfl) h.sent,
      forall_mem_set (h.held x (List.mem_of_getElem? hi)) h.held⟩
  cases e with
  | arrive request =>
      rw [World.next] at hnext
      split at hnext
      · cases hnext
        refine ⟨h.released, forall_mem_concat h.sent (.inr (hbursts _ rfl)),
          forall_mem_concat h.held fun hcalling => ?_⟩
        cases hcalling
      · cases hnext
  | advance i =>
      obtain ⟨x, s', x', hi, hadvance, rfl⟩ := World.act_eq_some hnext
      have hmem := List.mem_of_getElem? hi
      have hstep := step_of_advance hadvance
      obtain ⟨new, -, hwrote⟩ := hstep.wrote
      have hsent := (h.sent x hmem).resolve_left (by rw [hstep.not_ended]; simp)
      refine ⟨(congrArg ProviderState.released hwrote.provider).trans h.released,
        forall_mem_set (.inr (hstep.request.trans hsent)) h.sent,
        forall_mem_set (fun hcalling => ?_) h.held⟩
      unfold Task.isCalling at hcalling
      rcases hstep.call with hcall | hcall | ⟨payload, hcall⟩
      · rw [hcall] at hcalling ⊢
        exact h.held x hmem hcalling
      · rw [hcall] at hcalling
        cases hcalling
      · rw [hcall]
        rfl
  | fault i f =>
      have hact : (w.act i fun s t => t.fault s f) = some w' := hnext
      obtain ⟨x, s', x', hi, hfault, rfl⟩ := World.act_eq_some hact
      unfold Task.fault at hfault
      split at hfault
      · cases hfault
      · cases hfault
        exact hended _ hi
  | timeOut i =>
      have hact : (w.act i fun s t => t.timeOut s) = some w' := hnext
      obtain ⟨x, s', x', hi, hfault, rfl⟩ := World.act_eq_some hact
      unfold Task.timeOut at hfault
      split at hfault
      · cases hfault
        exact hended _ hi
      · cases hfault
  | resume i =>
      obtain ⟨x, c, q', c', hi, hcall, hresume, rfl⟩ := World.serve_eq_some hnext
      have hmem := List.mem_of_getElem? hi
      have hcalling : x.isCalling = true := by
        rw [Task.isCalling, hcall]
        exact (Call.resume_handled hresume).running
      have hphase := h.held x hmem hcalling
      rw [hcall] at hphase
      exact ⟨(Call.resume_released hresume).trans h.released, forall_mem_set (h.sent x hmem) h.sent,
        forall_mem_set (fun _ => Call.resume_isHeld hphase h.released hresume) h.held⟩
  | abort i =>
      obtain ⟨x, c, q', c', hi, hcall, habort, rfl⟩ := World.serve_eq_some hnext
      have hmem := List.mem_of_getElem? hi
      obtain ⟨hsame, -, rfl⟩ := Call.abort_released habort
      refine ⟨hsame.trans h.released, forall_mem_set (h.sent x hmem) h.sent,
        forall_mem_set (fun hcalling => ?_) h.held⟩
      cases hcalling
  | release => exact absurd rfl hnot
  | hold =>
      cases hnext
      exact ⟨rfl, h.sent, h.held⟩
  | slow on | tick =>
      cases hnext
      exact ⟨h.released, h.sent, h.held⟩

/-- Who waits for the provider is under way. -/
theorem Pc.not_ended_of_awaits {pc : Pc} (h : pc.awaits.isSome = true) : pc.isEnded = false := by
  cases pc with
  | ended => cases h
  | _ => rfl

/-- A call of the burst is one of its enrichments', which waits for it with a connection. -/
theorem HeldBurst.stuck (h : HeldBurst p w) (hattended : w.Attended cfg replicas)
    (hcourse : ∀ t ∈ w.tasks, t.OnCourse cfg) (ht : t ∈ w.tasks) (hcalling : t.isCalling = true) :
    t.stuckAt p.replica = true ∧ ∃ b, t.pc = .enriching b .awaitResponse := by
  obtain ⟨-, honTime, hwaits⟩ := hattended.attended t ht
  have hawaits := hwaits hcalling
  have hend : t.pc.isEnded = false := Pc.not_ended_of_awaits hawaits
  have hrequest := (h.sent t ht).resolve_left (by rw [hend]; simp)
  have hholds := Pc.holds_of_awaits hawaits honTime
  refine ⟨Task.stuckAt_iff.mpr ⟨?_, hawaits, h.held t ht hcalling⟩, ?_⟩
  · simp [Task.holdsAt, hrequest, UnboundedInFlight.enrich, hholds]
  · have hcourse := hcourse t ht
    unfold Task.OnCourse at hcourse
    cases hpc : t.pc with
    | enriching b point =>
        rw [hpc] at hawaits honTime
        cases point with
        | awaitResponse => exact ⟨b, rfl⟩
        | awaitEarly => cases honTime
        | _ => cases hawaits
    | importing b point =>
        rw [hpc] at hcourse
        obtain ⟨bytes, hpayload⟩ := hcourse
        rw [hrequest] at hpayload
        cases hpayload
    | _ =>
        rw [hpc] at hawaits
        cases hawaits

/-- The fixture counts calls. -/
theorem World.Attended.inFlight_le_calling (h : w.Attended cfg replicas) :
    w.service.provider.inFlight ≤ w.tasks.countP Task.isCalling := by
  rw [h.inFlight, ← total_countP]
  refine total_le_total fun t _ => ?_
  by_cases hcalling : t.isCalling = true
  · rw [if_pos hcalling]
    unfold Task.occupies
    cases t.call with
    | none => exact Int.one_nonneg
    | some c => exact c.phase.occupies_le_one
  · rw [if_neg hcalling]
    unfold Task.isCalling at hcalling
    unfold Task.occupies
    cases hcall : t.call with
    | none => exact le_rfl
    | some c =>
        rw [hcall] at hcalling
        exact (CallPhase.occupies_of_not_isRunning (Bool.eq_false_iff.mpr hcalling)).le

/-- **What the count says.** As many calls in flight as there are connections jam the pool. -/
theorem HeldBurst.jammed (h : HeldBurst p w) (hattended : w.Attended cfg replicas)
    (hcourse : ∀ t ∈ w.tasks, t.OnCourse cfg) (hsize : size p.replica = p.occupying)
    (hobserved : (p.occupying : Int) ≤ w.service.provider.inFlight) :
    Jammed size p.replica w := by
  refine ⟨h.released, ?_⟩
  have hcalling := hobserved.trans hattended.inFlight_le_calling
  rw [hsize]
  refine (Int.ofNat_le.mp hcalling).trans (List.countP_mono_left fun t ht hcalling => ?_)
  exact (h.stuck hattended hcourse ht hcalling).1

/-! ## The held calls -/

/-- An enrichment that waits at the held provider with a connection of the replica. -/
def Task.HeldAt (t : Task) (ρ : ℕ) : Prop :=
  t.stuckAt ρ = true ∧ ∃ b, t.pc = .enriching b .awaitResponse

/-- **Step lemma.** While nobody lets it go it stays. -/
theorem heldAt_step {ρ i : ℕ} (hreleased : w.service.provider.released = false)
    (hkeeps : w.keepsJam ρ e = true) (hnext : w.next cfg e = some w') (hi : w.tasks[i]? = some t)
    (h : t.HeldAt ρ) : ∃ t', w'.tasks[i]? = some t' ∧ t'.HeldAt ρ := by
  cases e with
  | arrive request =>
      rw [World.next] at hnext
      split at hnext
      · cases hnext
        exact ⟨t, (List.getElem?_append_left (List.getElem?_eq_some_iff.mp hi).1).trans hi, h⟩
      · cases hnext
  | advance j =>
      obtain ⟨x, s', x', hj, hadvance, rfl⟩ := World.act_eq_some hnext
      refine exists_getElem?_set (P := fun t => t.HeldAt ρ) hi h hj fun hx => ?_
      rw [Task.HeldAt, (step_of_advance hadvance).not_stuck] at hx
      cases hx.1
  | fault j f =>
      have hact : (w.act j fun s t => t.fault s f) = some w' := hnext
      obtain ⟨x, s', x', hj, hfault, rfl⟩ := World.act_eq_some hact
      have hnot : x.stuckAt ρ = false := by simpa [World.keepsJam, hj] using hkeeps
      refine exists_getElem?_set (P := fun t => t.HeldAt ρ) hi h hj fun hx => ?_
      rw [Task.HeldAt, hnot] at hx
      cases hx.1
  | timeOut j =>
      have hact : (w.act j fun s t => t.timeOut s) = some w' := hnext
      obtain ⟨x, s', x', hj, hfault, rfl⟩ := World.act_eq_some hact
      refine exists_getElem?_set (P := fun t => t.HeldAt ρ) hi h hj fun hx => ?_
      obtain ⟨-, b, hpc⟩ := hx
      simp [Task.timeOut, hpc] at hfault
  | resume j =>
      obtain ⟨x, c, q', c', hj, hcall, hresume, rfl⟩ := World.serve_eq_some hnext
      have hkeep : x.HeldAt ρ → ({ x with call := some c' } : Task).HeldAt ρ := by
        intro hx
        obtain ⟨hholds, hawaits, hphase⟩ := Task.stuckAt_iff.mp hx.1
        rw [hcall] at hphase
        refine ⟨Task.stuckAt_iff.mpr ⟨hholds, hawaits, ?_⟩, hx.2⟩
        exact Call.resume_isHeld hphase hreleased hresume
      exact exists_getElem?_set (P := fun t => t.HeldAt ρ) hi h hj hkeep
  | abort j =>
      obtain ⟨x, c, q', c', hj, hcall, habort, rfl⟩ := World.serve_eq_some hnext
      have hnot : x.stuckAt ρ = false := by simpa [World.keepsJam, hj] using hkeeps
      have hkeep : x.HeldAt ρ → ({ x with call := some c' } : Task).HeldAt ρ := by
        intro hx
        rw [Task.HeldAt, hnot] at hx
        cases hx.1
      exact exists_getElem?_set (P := fun t => t.HeldAt ρ) hi h hj hkeep
  | release => cases hkeeps
  | hold | slow on | tick =>
      cases hnext
      exact ⟨t, hi, h⟩

/-- **Run lemma.** Through the wait and the asking it stays. -/
theorem heldAt_run {ρ i : ℕ} {es : List (ReplicaEvent Event)} (hjam : Jammed size ρ q.world)
    (hrun : Run (restrict (fun q e => keepsJam ρ q e = true) (Steps (pooled cfg size))) q es q')
    (hi : q.world.tasks[i]? = some t) (h : t.HeldAt ρ) :
    ∃ t', q'.world.tasks[i]? = some t' ∧ t'.HeldAt ρ := by
  have hboth : Jammed size ρ q'.world ∧ ∃ t', q'.world.tasks[i]? = some t' ∧ t'.HeldAt ρ := by
    refine hrun.invariant (I := fun q => Jammed size ρ q.world ∧
      ∃ t', q.world.tasks[i]? = some t' ∧ t'.HeldAt ρ) ?_ ⟨hjam, t, hi, h⟩
    rintro a e b ⟨hjam, x, hx, hheld⟩ ⟨hkeeps, hstep⟩
    cases Replicas.moves_of_next (Clients.guarded_eq_some.mp hstep).2 with
    | inside hw => exact ⟨hjam.step hkeeps hw, heldAt_step hjam.held hkeeps hw hx hheld⟩
    | asked | advanced | struck => exact ⟨hjam, x, hx, hheld⟩
  exact hboth.2

/-- Once released, it waits for an answer that comes. -/
theorem Task.HeldAt.wake {ρ : ℕ} (h : t.HeldAt ρ) :
    ({ t with call := t.call.map Call.wake } : Task).Homeward := by
  obtain ⟨hstuck, b, hpc⟩ := h
  obtain ⟨-, -, hheld⟩ := Task.stuckAt_iff.mp hstuck
  unfold Homeward
  rw [hpc]
  intro c hcall haborted
  obtain ⟨d, hd, rfl⟩ := Option.map_eq_some_iff.mp hcall
  rw [hd] at hheld
  cases hphase : d.phase with
  | aborted =>
      rw [Option.elim_some, hphase] at hheld
      cases hheld
  | _ => simp [Call.wake, hphase] at haborted

/-! ## The outcome -/

/-- What holds of the replicas wherever no request has been taken away from a running call. -/
structure Spared (cfg : Config) (s₀ : Service) (replicas : ℕ) (q : Replicas World) : Prop where
  inOrder : InOrder cfg s₀ q
  attended : q.world.Attended cfg replicas
  onCourse : ∀ t ∈ q.world.tasks, t.OnCourse cfg

variable {s₀ : Service} {d : Database} {allowanceCents : ℕ}

theorem spared_start (cfg : Config) (d : Database) (replicas allowanceCents : ℕ) :
    Spared cfg (World.start cfg d replicas allowanceCents).service replicas
      (.start (.start cfg d replicas allowanceCents)) :=
  ⟨inOrder_start cfg d replicas allowanceCents,
    World.start_attended cfg d replicas allowanceCents,
    fun _ ht => absurd ht List.not_mem_nil⟩

theorem Spared.step {e : ReplicaEvent Event} (h : Spared cfg s₀ replicas q)
    (hspares : spares q e = true) (hstep : pooled cfg size q e = some q') :
    Spared cfg s₀ replicas q' := by
  have hinOrder := h.inOrder.step hstep
  cases Replicas.moves_of_next (Clients.guarded_eq_some.mp hstep).2 with
  | inside hw =>
      exact ⟨hinOrder, (h.attended.step hspares hw).1, onCourse_next h.inOrder.1 h.onCourse hw⟩
  | asked | advanced | struck => exact ⟨hinOrder, h.attended, h.onCourse⟩

/-- The burst takes nobody away from a running call. -/
theorem UnboundedInFlight.spares_of_bursts {e : ReplicaEvent Event} (h : p.bursts q e = true) :
    spares q e = true := by
  cases e with
  | inside e =>
      cases e with
      | arrive request =>
          obtain rfl : request = p.enrich := of_decide_eq_true h
          rfl
      | release => cases h
      | _ => exact h
  | ask | advance | fault => rfl

/-- It begins when nobody is under way. -/
theorem heldBurst_of_hold (h : Spared cfg s₀ replicas q)
    (hquiet : ∀ t ∈ q.world.tasks, t.pc.isEnded = true)
    (hstep : pooled cfg size q (.inside .hold) = some q') : HeldBurst p q'.world := by
  have hnext : q.next (variant cfg) (.inside .hold) = some q' :=
    (Clients.guarded_eq_some.mp hstep).2
  cases Replicas.moves_of_next hnext with
  | inside hw =>
      cases hw
      refine ⟨rfl, fun t ht => .inl (hquiet t ht), fun t ht hcalling => ?_⟩
      have hend := Pc.not_ended_of_awaits ((h.attended.attended t ht).waits hcalling)
      rw [hquiet t ht] at hend
      cases hend

/-- **Run lemma.** All through the burst its calls are held. -/
theorem burst_run {es : List (ReplicaEvent Event)} (h : Spared cfg s₀ replicas q)
    (hburst : HeldBurst p q.world)
    (hrun : Run (restrict (fun q e => p.bursts q e = true) (Steps (pooled cfg size))) q es q') :
    Spared cfg s₀ replicas q' ∧ HeldBurst p q'.world := by
  refine hrun.invariant (I := fun q => Spared cfg s₀ replicas q ∧ HeldBurst p q.world) ?_
    ⟨h, hburst⟩
  rintro a e b ⟨hspared, hburst⟩ ⟨hbursts, hstep⟩
  refine ⟨hspared.step (UnboundedInFlight.spares_of_bursts hbursts) hstep, ?_⟩
  cases Replicas.moves_of_next (Clients.guarded_eq_some.mp hstep).2 with
  | inside hw =>
      refine hburst.step ?_ ?_ hw
      · rintro request rfl
        exact of_decide_eq_true hbursts
      · rintro rfl
        cases hbursts
  | asked | advanced | struck => exact hburst

theorem inOrder_run {P : Replicas World → ReplicaEvent Event → Prop}
    {es : List (ReplicaEvent Event)} (h : InOrder cfg s₀ q)
    (hrun : Run (restrict P (Steps (pooled cfg size))) q es q') : InOrder cfg s₀ q' :=
  hrun.invariant (I := InOrder cfg s₀) (fun _ _ _ h hstep => h.step hstep.2) h

/-- The cheap request comes after all who are there. -/
theorem pooled_ask {request : CommonRequest} (h : pooled cfg size q (.ask request) = some q') :
    q'.readers = q.readers ++ [.arrived request] := by
  have hnext : q.next (variant cfg) (.ask request) = some q' := (Clients.guarded_eq_some.mp h).2
  cases Replicas.moves_of_next hnext with
  | asked => rfl

/-- The release wakes who waits for it. -/
theorem pooled_release (h : pooled cfg size q (.inside .release) = some q') :
    q'.world.service.provider.released = true ∧
      q'.world.tasks = q.world.tasks.map fun t => { t with call := t.call.map Call.wake } := by
  have hnext : q.next (variant cfg) (.inside .release) = some q' :=
    (Clients.guarded_eq_some.mp h).2
  cases Replicas.moves_of_next hnext with
  | inside hw =>
      cases hw
      exact ⟨rfl, rfl⟩

/-- **Unbounded in flight.** Run the scenario on any number of replicas in any state with nobody under
way that the application comes to while no request is taken away from its running call and none uses
the repair that calls first. If the count that it takes is as many calls as the
replica has connections, then in whatever order everything is done the cheap endpoint has not shown
the job, which is what the scenario reports as reproduced: the calls had every connection. Those
were its own enrichments, and each of them completes once the provider is released. -/
theorem unbounded_in_flight_reproduces {es : List (ReplicaEvent Event)}
    {q₀ counted asking held ended : Replicas World} (hsize : ∀ ρ, 0 < size ρ)
    (hpool : size p.replica = p.occupying)
    (hbefore : Run (restrict (fun q e => spares q e = true) (Steps (pooled cfg size)))
      (.start (.start cfg d replicas allowanceCents)) es q₀)
    (hquiet : ∀ t ∈ q₀.world.tasks, t.pc.isEnded = true)
    (hran : p.Ran cfg size q₀ counted asking held ended) (hoccupied : p.Occupied counted) :
    ¬ UnboundedInFlight.CheapSucceeded asking held ∧
    Jammed size p.replica held.world ∧
    p.occupying ≤ counted.world.tasks.countP Task.isCalling ∧
    ∀ (i : ℕ) (t : Task), counted.world.tasks[i]? = some t → t.isCalling = true →
      t.request = p.enrich ∧
        ∃ t' response, ended.world.tasks[i]? = some t' ∧ t'.pc = .ended (.responded response) := by
  obtain ⟨⟨es₁, hburst⟩, ⟨es₂, hwaiting⟩, ⟨es₃, hasked⟩, q, es₄, hrelease, hgoing, hrest⟩ := hran
  -- the burst, from where nobody is under way
  have hspared : Spared cfg (World.start cfg d replicas allowanceCents).service replicas q₀ :=
    hbefore.invariant (I := Spared cfg (World.start cfg d replicas allowanceCents).service replicas)
      (fun _ _ _ h hstep => h.step hstep.1 hstep.2) (spared_start cfg d replicas allowanceCents)
  have hheld : Spared cfg (World.start cfg d replicas allowanceCents).service replicas counted ∧
      HeldBurst p counted.world := by
    cases hburst with
    | cons hhold hburst =>
        exact burst_run (hspared.step rfl hhold.2) (heldBurst_of_hold hspared hquiet hhold.2) hburst
  obtain ⟨hspared₁, hheld⟩ := hheld
  have hjam := hheld.jammed hspared₁.attended hspared₁.onCourse hpool hoccupied
  obtain ⟨hjam₂, -, -⟩ := hjam.run hwaiting
  obtain ⟨hjam₃, -, hreaders⟩ := hjam₂.run hasked
  refine ⟨?_, hjam₃, ?_, fun i t hi hcalling => ?_⟩
  · rintro ⟨r, view, hr, hview⟩
    have hplace : ∃ r, held.readers[asking.readers.length]? = some r ∧ r.request = p.cheap := by
      cases hasked with
      | cons hask hasked =>
          refine hasked.invariant
            (I := fun q => ∃ r, q.readers[asking.readers.length]? = some r ∧ r.request = p.cheap)
            (fun _ _ _ hr hstep =>
              Replicas.reader_stays (Clients.guarded_eq_some.mp hstep.2).2 hr) ?_
          rw [pooled_ask hask.2]
          exact ⟨_, List.getElem?_concat_length, rfl⟩
    obtain ⟨r', hr', hrequest⟩ := hplace
    cases hr.symm.trans hr'
    have hunserved := hreaders asking.readers.length r hr (fun r₀ hr₀ => by simp at hr₀)
      (by rw [hrequest]; rfl)
    simp [CommonReader.Unserved, hview] at hunserved
  · exact Int.ofNat_le.mp (hoccupied.trans hspared₁.attended.inFlight_le_calling)
  · have hmem := List.mem_of_getElem? hi
    have hstuck := hheld.stuck hspared₁.attended hspared₁.onCourse hmem hcalling
    have hend := Pc.not_ended_of_awaits (Task.stuckAt_iff.mp hstuck.1).2.1
    refine ⟨(hheld.sent t hmem).resolve_left (by rw [hend]; simp), ?_⟩
    obtain ⟨t₂, hi₂, hheld₂⟩ := heldAt_run hjam hwaiting hi hstuck
    obtain ⟨t₃, hi₃, hheld₃⟩ := heldAt_run hjam₂ hasked hi₂ hheld₂
    obtain ⟨hreleased, hwoken⟩ := pooled_release hrelease
    have hinOrder : InOrder cfg (World.start cfg d replicas allowanceCents).service q :=
      (inOrder_run (inOrder_run hspared₁.inOrder hwaiting) hasked).step hrelease
    obtain ⟨hinOrder', hreleased', -⟩ := going_run hinOrder hreleased hgoing
    refine homeward_run hgoing ?_ hheld₃.wake fun t ht => ?_
    · rw [hwoken, List.getElem?_map, hi₃]
      rfl
    · exact ((hrest.everyone hinOrder'.2 hreleased' hsize).2.2 t ht).1

/-- One connection, and one enrichment for it. -/
def UnboundedInFlight.demo : UnboundedInFlight := ⟨0, Fixtures.attackerTenantId, 1, 7⟩

/-- The enrichment gets to the provider, which lets it in. -/
def demoBurst : List (ReplicaEvent Event) :=
  .inside (.arrive UnboundedInFlight.demo.enrich) :: List.replicate 7 (.inside (.advance 0)) ++
    [.inside (.resume 0)]

/-- The cheap request finds no connection and is given up. -/
def demoAsked : List (ReplicaEvent Event) :=
  [.ask UnboundedInFlight.demo.cheap, .advance 0, .inside (.resume 0), .fault 0 .failed]

theorem one_held_call :
    ∃ counted held ended, UnboundedInFlight.demo.Ran (.demo 4) (fun _ => 1)
        (.start (.start (.demo 4) .demo 1 40000)) counted counted held ended ∧
      UnboundedInFlight.demo.Occupied counted ∧
      ¬ UnboundedInFlight.CheapSucceeded counted held ∧
      ∃ t response, ended.world.tasks[0]? = some t ∧ t.pc = .ended (.responded response) := by
  have hfigures : (replay (fun q e => if UnboundedInFlight.demo.bursts q e then
        pooled (.demo 4) (fun _ => 1) q e else none) (.start (.start (.demo 4) .demo 1 40000))
        (.inside .hold :: demoBurst)).map (fun q => (q.world.service.provider.inFlight,
      (q.world.tasks[0]?.map Task.isCalling), (replay (fun q e => if keepsJam 0 q e then
        pooled (.demo 4) (fun _ => 1) q e else none) q demoAsked).map fun q' =>
          (pooled (.demo 4) (fun _ => 1) q' (.inside .release)).isSome)) =
      some (1, some true, some true) := by decide
  obtain ⟨counted, hcounted, hfigures⟩ := Option.map_eq_some_iff.mp hfigures
  simp only [Prod.mk.injEq] at hfigures
  obtain ⟨hone, hcalling, hmore⟩ := hfigures
  obtain ⟨t, ht, hcalling⟩ := Option.map_eq_some_iff.mp hcalling
  obtain ⟨held, hheld, hmore⟩ := Option.map_eq_some_iff.mp hmore
  obtain ⟨q, hrelease⟩ := Option.isSome_iff_exists.mp hmore
  have hburst := run_of_replay_checked (p := UnboundedInFlight.demo.bursts) hcounted
  have hasked := run_of_replay_checked (p := keepsJam 0) hheld
  have hinOrder := inOrder_run (inOrder_run (inOrder_start (.demo 4) .demo 1 40000) hburst) hasked
  obtain ⟨es, ended, hgoing, hrest⟩ := exists_rest (fun _ => 1) (hinOrder.step hrelease)
  have hran : UnboundedInFlight.demo.Ran (.demo 4) (fun _ => 1)
      (.start (.start (.demo 4) .demo 1 40000)) counted counted held ended :=
    ⟨⟨_, hburst⟩, ⟨_, .nil⟩, ⟨_, hasked⟩, q, es, hrelease, hgoing, hrest⟩
  have hoccupied : UnboundedInFlight.demo.Occupied counted := hone.ge
  obtain ⟨hcheap, -, -, hcalls⟩ := unbounded_in_flight_reproduces (fun _ => Nat.one_pos) rfl .nil
    (fun t ht => absurd ht List.not_mem_nil) hran hoccupied
  exact ⟨counted, held, ended, hran, hoccupied, hcheap, (hcalls 0 t ht hcalling).2⟩

end Limitless.Vulnerable
