import Limitless.Vulnerable.Bundle
import Limitless.Vulnerable.Connections
import Limitless.Vulnerable.Enrich
import Limitless.Vulnerable.Billing

/-!
# Nothing but the hold keeps the unbounded application

A request that waits for the provider keeps its connection, so a hold can stop a replica
(`reads_starve`). While the provider is not held nothing can: a request goes on by itself, or the
provider goes on with its call, or the call has been lost and the request hears of it
(`World.Ready.goes`). `World.left` bounds how often, whatever loops the requests are in. So once the
hold has been let go, everybody is answered (`answered_once_released`).
-/

namespace Limitless.Vulnerable

open Indexed Runs Pools

/-! ## How far a request is from its end -/

/-- The steps that an enrichment has left at a point, at the most. -/
def EnrichPoint.left : EnrichPoint → ℕ
  | select => 11
  | callEarly => 10
  | awaitEarly => 9
  | takeConnection _ => 8
  | chargePool _ => 7
  | recordWork _ => 6
  | callProvider _ => 5
  | awaitResponse => 3
  | upsertRecords _ => 2
  | leaveConnection _ => 1

/-- The steps that a request has left when it has been authenticated, at the most. -/
def Payload.left : Payload → ℕ
  | enrich _ => 12
  | importBundle _ records _ => 4 * records.toOption.getD 0 + 8

/-- The steps that a request has left at a point, at the most. -/
def Pc.left (payload : Payload) : Pc → ℕ
  | authenticating => payload.left + 1
  | reading _ => payload.left
  | enriching _ p => p.left
  | importing b p => (importing b p).steps b.records
  | ended _ => 0

/-- The steps that a request and the provider have left with it, at the most. -/
def Task.left (t : Task) : ℕ :=
  4 * t.pc.left t.request.payload + t.call.elim 0 (stepsLeft ·.phase)

/-- The steps that all of them have left. -/
def World.left (w : World) : ℕ := (w.tasks.map Task.left).sum

/-- A chunk that is asked for has a record in it, and there was one to perform. -/
def Pc.Chunked : Pc → Prop
  | importing b (.callProvider performed _ chunk)
  | importing b (.awaitResponse performed _ chunk) =>
    1 ≤ chunk ∧ performed < b.records
  | _ => True

variable {cfg : Config} {s s' : Service} {t t' : Task} {w w' : World} {e : Event}

theorem Pc.left_pos {pc : Pc} (payload : Payload) (h : pc.isEnded = false) :
    0 < pc.left payload := by
  cases pc with
  | ended => cases h
  | authenticating => exact Nat.succ_pos _
  | reading => cases payload <;> exact Nat.succ_pos _
  | enriching _ p => cases p <;> exact Nat.succ_pos _
  | importing b p => cases p <;> simp [left, steps]

theorem Onward.left {q : Request} {pc pc' : Pc} (h : Onward cfg q pc pc') :
    pc'.left q.payload < pc.left q.payload := by
  cases h with
  | authenticated => exact Nat.lt_succ_self _
  | readEnrich hpayload =>
      rw [hpayload]
      exact Nat.lt_succ_self 11
  | readImport hpayload =>
      rw [hpayload]
      exact Nat.lt_succ_self _
  | performed => simp [Pc.left, Pc.steps]
  | admitting | admitted | spending =>
      simp only [Pc.left, Pc.steps]
      omega
  | connected | hadEarly | enriched => simp [Pc.left, EnrichPoint.left]
  | imported => exact Nat.one_pos

theorem Sends.left {pc pc' : Pc} (h : Sends pc pc') (payload : Payload) :
    pc'.left payload < pc.left payload := by
  cases h with
  | early | enrich => simp [Pc.left, EnrichPoint.left]
  | chunk => exact Nat.lt_succ_self _

theorem Charges.left {pc pc' : Pc} {n : ℕ} (h : Charges pc n pc') (payload : Payload) :
    pc'.left payload < pc.left payload := by
  cases h with
  | enrich => exact Nat.lt_succ_self _
  | chunk => exact Nat.lt_succ_self _

theorem Records.left {pc pc' : Pc} {u : TenantId} {n : ℕ} (h : Records pc u n pc')
    (payload : Payload) : pc'.left payload < pc.left payload := by
  cases h with
  | enrich => exact Nat.lt_succ_self _
  | flush hpos =>
      simp only [Pc.left, Pc.steps, admitFlushRecords]
      omega

/-- An answer to a chunk performs a record at least. -/
theorem Takes.left {pc pc' : Pc} {result : LookupResponse} (h : Takes result pc pc')
    (hchunked : pc.Chunked) (hlookups : ∀ payload, pc.awaits = some payload →
      result.lookups = payload.items.length) (payload : Payload) :
    pc'.left payload < pc.left payload := by
  cases h with
  | early | enrich => exact Nat.lt_succ_self _
  | @chunk b performed charged chunk =>
      have hchunk := hlookups _ rfl
      rw [length_chunkNames] at hchunk
      obtain ⟨hpos, hless⟩ := hchunked
      simp only [Pc.left, Pc.steps]
      omega

theorem Task.raise_left (exc : Exception) (h : t.pc.isEnded = false) :
    (t.raise exc).left < t.left := by
  have hpos := Pc.left_pos t.request.payload h
  show 4 * 0 + t.call.elim 0 (stepsLeft ·.phase) < 4 * _ + t.call.elim 0 (stepsLeft ·.phase)
  omega

/-- A step to a nearer point, with the call as it was. -/
theorem Task.left_lt (hrequest : t'.request = t.request) (hcall : t'.call = t.call)
    (hpc : t'.pc.left t.request.payload < t.pc.left t.request.payload) : t'.left < t.left := by
  simp only [left, hrequest, hcall]
  omega

/-- **Step lemma.** A request's own step brings it nearer to its end. -/
theorem Step.left (h : Step cfg s t s' t') (hfits : t.Fits cfg.providerPriceCents)
    (hchunked : t.pc.Chunked) : t'.left < t.left := by
  have hend := h.not_ended
  cases h with
  | onward hpc => exact Task.left_lt rfl rfl hpc.left
  | @sends payload pc hpc hpayload =>
      have hlt := hpc.left t.request.payload
      simp only [Task.left, Task.send, Task.did, Option.elim_some, stepsLeft]
      omega
  | @takes payload result pc hpc hcall =>
      have hlt := hpc.left hchunked (fun payload' hawaits => ?_) t.request.payload
      · simp only [Task.left, Task.receive, Task.did, Option.elim_none]
        omega
      · obtain ⟨-, rfl⟩ := hfits.answer hend hawaits hcall
        rfl
  | @selects b halfFix key cents state state' allowed t' hpc _ _ _ _ _ hout =>
      rcases hout with ⟨-, rfl⟩ | ⟨-, rfl⟩
      · refine Task.left_lt rfl rfl ?_
        rw [hpc]
        simp only [Task.did]
        split <;> simp [Pc.left, EnrichPoint.left]
      · exact Task.raise_left _ hend
  | charges hpc => exact Task.left_lt rfl rfl (hpc.left _)
  | records hpc => exact Task.left_lt rfl rfl (hpc.left _)
  | drains hpc =>
      refine Task.left_lt rfl rfl ?_
      rw [hpc]
      simp [Task.did, Pc.left, Pc.steps]
  | upserts hpc | inserts hpc =>
      refine Task.left_lt rfl rfl ?_
      rw [hpc]
      exact Nat.lt_succ_self 1
  | refuses | collides => exact Task.raise_left _ hend

/-- The provider's step brings the call nearer to its end. -/
theorem resume_left {p p' : ProviderState} {c c' : Call} (h : c.resume p = some (p', c')) :
    stepsLeft c'.phase < stepsLeft c.phase := by
  have hfinish : stepsLeft (c.finish p).2.phase = 0 := by
    unfold Call.finish
    split <;> rfl
  have hproceed : stepsLeft (c.proceed p).2.phase ≤ 1 := by
    unfold Call.proceed
    split
    · exact le_rfl
    · exact hfinish.le.trans (Nat.zero_le 1)
  unfold Call.resume at h
  split at h
  · next hphase =>
      cases h
      rw [hphase]
      exact Nat.lt_succ_self 2
  · next hphase =>
      rw [hphase]
      split at h
      · rw [Option.some.inj h] at hproceed
        exact Nat.lt_succ_of_le hproceed
      · cases h
        exact Nat.two_pos
  · next hphase =>
      rw [hphase]
      rw [Option.some.inj h] at hproceed
      exact Nat.lt_succ_of_le hproceed
  · next hphase =>
      rw [hphase]
      rw [Option.some.inj h] at hfinish
      exact hfinish.trans_lt Nat.one_pos
  all_goals cases h

/-! ## Where everybody can go on -/

/-- The call that the request waits for has been lost. -/
def Task.lost (t : Task) : Bool :=
  t.pc.awaits.isSome ∧ t.call.elim false fun c => c.phase = .aborted

/-- A step of a request or of the provider by itself, or the failure of a lost call. -/
def World.goesOn (w : World) : Event → Bool
  | .advance _ | .resume _ => true
  | .fault i .failed => w.tasks[i]?.any Task.lost
  | _ => false

/-- Nobody waits for a release that has been. -/
def World.Woken (w : World) : Prop :=
  w.service.provider.released = true →
    ∀ t ∈ w.tasks, ∀ c, t.call = some c → c.phase ≠ .awaitingRelease

/-- What holds in every run: each request stands where its call, its chunk and its replica let it go
on. -/
structure World.Ready (cfg : Config) (w : World) : Prop where
  fits : ∀ t ∈ w.tasks, t.Fits cfg.providerPriceCents
  replica : ∀ t ∈ w.tasks, t.request.replica < w.service.halfFixes.length
  chunked : ∀ t ∈ w.tasks, t.pc.Chunked
  woken : w.Woken

theorem Step.chunked (h : Step cfg s t s' t') (hchunked : t.pc.Chunked) : t'.pc.Chunked := by
  cases h with
  | onward hpc =>
      simp only [Task.goto]
      generalize t.pc = pc at hpc
      cases hpc <;> trivial
  | sends hpc =>
      simp only [Task.send, Task.did]
      generalize t.pc = pc at hpc hchunked
      cases hpc with
      | chunk => exact hchunked
      | early | enrich => trivial
  | takes hpc =>
      simp only [Task.receive, Task.did]
      generalize t.pc = pc at hpc
      cases hpc <;> trivial
  | selects _ _ _ _ _ _ hout =>
      rcases hout with ⟨-, rfl⟩ | ⟨-, rfl⟩
      · simp only [Task.did]
        split <;> trivial
      · trivial
  | charges hpc =>
      simp only [Task.did]
      generalize t.pc = pc at hpc
      cases hpc with
      | enrich => trivial
      | chunk hless => exact ⟨(Import.nextChunk_pos hless).1, hless⟩
  | records hpc =>
      simp only [Task.did]
      generalize t.pc = pc at hpc
      cases hpc <;> trivial
  | drains | upserts | inserts | refuses | collides => trivial

/-- A call comes to wait only for a provider that is held. -/
theorem resume_woken {p p' : ProviderState} {c c' : Call} (h : c.resume p = some (p', c'))
    (hreleased : p'.released = true) : c'.phase ≠ .awaitingRelease := by
  rw [Call.resume_released h] at hreleased
  have hfinish : (c.finish p).2.phase ≠ .awaitingRelease := by
    unfold Call.finish
    split <;> simp
  have hproceed : (c.proceed p).2.phase ≠ .awaitingRelease := by
    unfold Call.proceed
    split
    · simp
    · exact hfinish
  unfold Call.resume at h
  split at h
  · cases h
    simp
  · rw [if_pos hreleased] at h
    rwa [Option.some.inj h] at hproceed
  · rwa [Option.some.inj h] at hproceed
  · rwa [Option.some.inj h] at hfinish
  all_goals cases h

theorem Call.wake_woken (c : Call) : c.wake.phase ≠ .awaitingRelease := by
  unfold Call.wake
  split
  · simp
  · assumption

theorem World.Woken.step (h : w.Woken) (hnext : w.next cfg e = some w') : w'.Woken := by
  cases e with
  | arrive request =>
      rw [World.next] at hnext
      split at hnext
      · cases hnext
        intro hreleased
        refine forall_mem_concat (h hreleased) fun c hc => ?_
        cases hc
      · cases hnext
  | advance i =>
      obtain ⟨t, s', t', hi, hadvance, rfl⟩ := World.act_eq_some hnext
      have hstep := step_of_advance hadvance
      obtain ⟨new, -, hwrote⟩ := hstep.wrote
      intro hreleased
      have hwoken := h ((congrArg ProviderState.released hwrote.provider).symm.trans hreleased)
      refine forall_mem_set (fun c hc => ?_) hwoken
      rcases hstep.call with hcall | hcall | ⟨payload, hcall⟩
      · exact hwoken t (List.mem_of_getElem? hi) c (hcall.symm.trans hc)
      · rw [hcall] at hc
        cases hc
      · rw [hcall] at hc
        cases hc
        simp
  | fault i f =>
      have hact : (w.act i fun s t => t.fault s f) = some w' := hnext
      obtain ⟨t, s', t', hi, hfault, rfl⟩ := World.act_eq_some hact
      unfold Task.fault at hfault
      split at hfault
      · cases hfault
      · cases hfault
        intro hreleased
        exact forall_mem_set (h hreleased t (List.mem_of_getElem? hi)) (h hreleased)
  | timeOut i =>
      have hact : (w.act i fun s t => t.timeOut s) = some w' := hnext
      obtain ⟨t, s', t', hi, hfault, rfl⟩ := World.act_eq_some hact
      unfold Task.timeOut at hfault
      split at hfault
      · cases hfault
        intro hreleased
        exact forall_mem_set (h hreleased t (List.mem_of_getElem? hi)) (h hreleased)
      · cases hfault
  | resume i =>
      obtain ⟨t, c, q', c', hi, hcall, hresume, rfl⟩ := World.serve_eq_some hnext
      intro hreleased
      refine forall_mem_set (fun d hd => ?_)
        (h ((Call.resume_released hresume).symm.trans hreleased))
      cases hd
      exact resume_woken hresume hreleased
  | abort i =>
      obtain ⟨t, c, q', c', hi, hcall, habort, rfl⟩ := World.serve_eq_some hnext
      obtain ⟨hsame, -, rfl⟩ := Call.abort_released habort
      intro hreleased
      refine forall_mem_set (fun d hd => ?_) (h (hsame.symm.trans hreleased))
      cases hd
      simp
  | release =>
      cases hnext
      intro _
      refine List.forall_mem_map.mpr fun t ht c hc => ?_
      obtain ⟨d, -, rfl⟩ := Option.map_eq_some_iff.mp hc
      exact Call.wake_woken d
  | hold =>
      cases hnext
      intro hreleased
      cases hreleased
  | slow on | tick =>
      cases hnext
      exact h

/-- **Step lemma.** Whatever happens, everybody stays where they can go on. -/
theorem World.Ready.step (h : w.Ready cfg)
    (hprice : w.service.provider.ledger.priceCentsPerLookup = cfg.providerPriceCents)
    (hnext : w.next cfg e = some w') : w'.Ready cfg := by
  have hwoken := h.woken.step hnext
  have hended : ∀ {t : Task} (exc : Exception), (t.raise exc).Fits cfg.providerPriceCents :=
    fun exc hnot => by cases hnot
  cases moves_of_next hnext with
  | arrived hreplica =>
      exact ⟨forall_mem_concat h.fits fun _ => rfl, forall_mem_concat h.replica hreplica,
        forall_mem_concat h.chunked trivial, hwoken⟩
  | @advanced i t t' s' hi hadvance =>
      have hmem := List.mem_of_getElem? hi
      have hstep := step_of_advance hadvance
      obtain ⟨new, -, hwrote⟩ := hstep.wrote
      have hreplica : ∀ x ∈ w.tasks.set i t', x.request.replica < s'.halfFixes.length := by
        rw [hwrote.length]
        refine forall_mem_set ?_ h.replica
        rw [hstep.request]
        exact h.replica t hmem
      exact ⟨forall_mem_set (hstep.fits (h.fits t hmem)) h.fits, hreplica,
        forall_mem_set (hstep.chunked (h.chunked t hmem)) h.chunked, hwoken⟩
  | @struck i f t hi | @timedOut i t b hi =>
      have hreplica := h.replica t (List.mem_of_getElem? hi)
      exact ⟨forall_mem_set (hended _) h.fits, forall_mem_set hreplica h.replica,
        forall_mem_set trivial h.chunked, hwoken⟩
  | @served e i t c c' p' he hi hcall hhandled =>
      have hmem := List.mem_of_getElem? hi
      refine ⟨forall_mem_set ((h.fits t hmem).serve hcall hhandled.payload fun r hr => ?_) h.fits,
        forall_mem_set (h.replica t hmem) h.replica, forall_mem_set (h.chunked t hmem) h.chunked,
        hwoken⟩
      rw [hhandled.answered r hr, hprice]
  | woke =>
      exact ⟨List.forall_mem_map.mpr fun t ht => (h.fits t ht).wake,
        List.forall_mem_map.mpr h.replica, List.forall_mem_map.mpr h.chunked, hwoken⟩
  | quiet => exact ⟨h.fits, h.replica, h.chunked, hwoken⟩

/-- Whoever holds a connection asks for none. -/
theorem Pc.not_takes_of_holds {pc : Pc} (h : pc.holdsConnection = true) :
    pc.takesConnection = false ∧ pc.isEnded = false := by
  cases pc with
  | enriching b p => cases p <;> first | exact ⟨rfl, rfl⟩ | cases h
  | importing b p => cases p <;> first | exact ⟨rfl, rfl⟩ | cases h
  | authenticating | reading | ended => cases h

/-- A request goes on by itself wherever it waits for no call. -/
theorem Task.advance_isSome (hreplica : t.request.replica < s.halfFixes.length)
    (hend : t.pc.isEnded = false) (hawaits : t.pc.awaits = none) : (t.advance cfg s).isSome := by
  unfold advance
  cases hpc : t.pc with
  | ended =>
      rw [hpc] at hend
      cases hend
  | authenticating => cases t.request.principal <;> rfl
  | reading => rfl
  | enriching b p =>
      cases p with
      | select =>
          simp only [enrich, select, List.getElem?_eq_getElem hreplica]
          split
          · rfl
          · split <;> rfl
      | callProvider early => cases early <;> rfl
      | awaitEarly | awaitResponse =>
          rw [hpc] at hawaits
          cases hawaits
      | _ => rfl
  | importing b p =>
      cases p with
      | flush | spend =>
          simp only [importBundle]
          split <;> rfl
      | insertJob =>
          simp only [importBundle]
          split <;> rfl
      | awaitResponse =>
          rw [hpc] at hawaits
          cases hawaits
      | _ => rfl

/-- A request that has been answered takes the answer. -/
theorem Task.advance_of_answered {payload : LookupRequest} {result : LookupResponse}
    (hawaits : t.pc.awaits.isSome = true) (hcall : t.call = some ⟨payload, .answered result⟩) :
    (t.advance cfg s).isSome := by
  unfold advance
  cases hpc : t.pc with
  | enriching b p =>
      cases p with
      | awaitEarly | awaitResponse =>
          simp only [enrich, hcall]
          rfl
      | _ =>
          rw [hpc] at hawaits
          cases hawaits
  | importing b p =>
      cases p with
      | awaitResponse =>
          simp only [importBundle, hcall]
          rfl
      | _ =>
          rw [hpc] at hawaits
          cases hawaits
  | _ =>
      rw [hpc] at hawaits
      cases hawaits

/-- A call that runs and waits for no release goes on. -/
theorem resume_isSome {c : Call} (q : ProviderState) (h : GoesOn c) : (c.resume q).isSome := by
  obtain ⟨hrunning, hwoken⟩ := h
  unfold Call.resume
  cases hphase : c.phase with
  | awaitingRelease => exact absurd hphase hwoken
  | answered | aborted =>
      rw [hphase] at hrunning
      cases hrunning
  | yielding =>
      simp only
      split <;> rfl
  | _ => rfl

/-- **Nobody is stuck.** While the provider is not held, something about a request goes on until the
request has ended, and takes no connection where the request holds one. -/
theorem World.Ready.goes {i : ℕ} (h : w.Ready cfg) (hreleased : w.service.provider.released = true)
    (hi : w.tasks[i]? = some t) (hend : t.pc.isEnded = false) :
    ∃ e, w.goesOn e = true ∧ (w.next cfg e).isSome ∧
      (t.pc.holdsConnection = true → w.takes e = none) := by
  have hmem := List.mem_of_getElem? hi
  have hadvance : (t.advance cfg w.service).isSome → ∃ e, w.goesOn e = true ∧
      (w.next cfg e).isSome ∧ (t.pc.holdsConnection = true → w.takes e = none) := by
    intro hsome
    obtain ⟨⟨s', t'⟩, hstep⟩ := Option.isSome_iff_exists.mp hsome
    refine ⟨.advance i, rfl, by simp [World.next, World.act, hi, hstep], fun hholds => ?_⟩
    simp [World.takes, hi, (Pc.not_takes_of_holds hholds).1]
  cases hawaits : t.pc.awaits with
  | none => exact hadvance (Task.advance_isSome (h.replica t hmem) hend hawaits)
  | some payload =>
      obtain ⟨⟨payload', phase⟩, hcall, -, -⟩ := (Pc.calls_some hawaits).mp (h.fits t hmem hend)
      have hresumes : CallPhase.isRunning phase = true → ∃ e, w.goesOn e = true ∧
          (w.next cfg e).isSome ∧ (t.pc.holdsConnection = true → w.takes e = none) := by
        intro hrunning
        have hgoes : GoesOn ⟨payload', phase⟩ := ⟨hrunning, h.woken hreleased t hmem _ hcall⟩
        obtain ⟨⟨q, c'⟩, hresume⟩ :=
          Option.isSome_iff_exists.mp (resume_isSome w.service.provider hgoes)
        refine ⟨.resume i, rfl, ?_, fun _ => rfl⟩
        simp [World.next, World.serve, World.act, hi, hcall, hresume]
      cases phase with
      | answered result =>
          exact hadvance (Task.advance_of_answered (by rw [hawaits]; rfl) hcall)
      | aborted =>
          refine ⟨.fault i .failed, ?_, ?_, fun _ => rfl⟩
          · simp [World.goesOn, hi, Task.lost, hawaits, hcall]
          · simp [World.next, World.act, hi, Task.fault, hend]
      | sent | yielding | awaitingRelease | woken | delaying => exact hresumes rfl

/-! ## The replicas -/

variable {size : ℕ → ℕ} {p p' : Replicas World} {d : Database} {replicas allowanceCents : ℕ}

/-- So it is with an event of the replicas. -/
def goesOn (p : Replicas World) : ReplicaEvent Event → Bool
  | .inside e => p.world.goesOn e
  | .advance _ => true
  | .ask _ | .fault _ _ => false

/-- Going on, as long as it lasts. -/
def going (cfg : Config) (size : ℕ → ℕ) :
    Replicas World → ReplicaEvent Event → Replicas World → Prop :=
  restrict (fun p e => goesOn p e = true) (Steps (pooled cfg size))

/-- Nothing goes on any more. -/
def AtRest (cfg : Config) (size : ℕ → ℕ) (p : Replicas World) : Prop :=
  ∀ e, goesOn p e = true → pooled cfg size p e = none

/-- The steps that all requests of the replicas have left. -/
def stepsToRest (p : Replicas World) : ℕ := p.remaining p.world.left

/-- What holds of the replicas in every run. -/
def InOrder (cfg : Config) (s₀ : Service) (p : Replicas World) : Prop :=
  Sound cfg s₀ p.world ∧ p.world.Ready cfg

theorem InOrder.step {s₀ : Service} (h : InOrder cfg s₀ p) {e : ReplicaEvent Event}
    (hstep : pooled cfg size p e = some p') : InOrder cfg s₀ p' := by
  cases Replicas.moves_of_next (Clients.guarded_eq_some.mp hstep).2 with
  | inside hw => exact ⟨h.1.step hw, h.2.step h.1.price hw⟩
  | asked | advanced | struck => exact h

theorem inOrder_start (cfg : Config) (d : Database) (replicas allowanceCents : ℕ) :
    InOrder cfg (World.start cfg d replicas allowanceCents).service
      (.start (.start cfg d replicas allowanceCents)) :=
  ⟨.start cfg d replicas allowanceCents, by simp [World.start, Replicas.start],
    by simp [World.start, Replicas.start], by simp [World.start, Replicas.start],
    fun _ => by simp [World.start, Replicas.start]⟩

/-- Whatever goes on brings the rest nearer. -/
theorem stepsToRest_lt {e : ReplicaEvent Event} (h : p.world.Ready cfg)
    (hgoes : goesOn p e = true) (hstep : pooled cfg size p e = some p') :
    stepsToRest p' < stepsToRest p := by
  have hset : ∀ {i : ℕ} {t t' : Task}, p.world.tasks[i]? = some t → t'.left < t.left →
      ((p.world.tasks.set i t').map Task.left).sum < p.world.left := by
    intro i t t' hi hlt
    have hsum := sum_map_set Task.left t' hi
    unfold World.left
    omega
  cases Replicas.moves_of_next (Clients.guarded_eq_some.mp hstep).2 with
  | @inside e w hw =>
      refine Nat.add_lt_add_right ?_ _
      cases e with
      | advance i =>
          obtain ⟨t, s', t', hi, hadvance, rfl⟩ := World.act_eq_some hw
          have hmem := List.mem_of_getElem? hi
          exact hset hi ((step_of_advance hadvance).left (h.fits t hmem) (h.chunked t hmem))
      | resume i =>
          obtain ⟨t, c, q', c', hi, hcall, hresume, rfl⟩ := World.serve_eq_some hw
          refine hset hi ?_
          have hlt := resume_left hresume
          simp only [Task.left, hcall, Option.elim_some]
          omega
      | fault i f =>
          have hact : (p.world.act i fun s t => t.fault s f) = some w := hw
          obtain ⟨t, s', t', hi, hfault, rfl⟩ := World.act_eq_some hact
          unfold Task.fault at hfault
          split at hfault
          · cases hfault
          · next hend =>
              cases hfault
              exact hset hi (Task.raise_left _ (by simpa using hend))
      | _ => cases hgoes
  | asked | struck => cases hgoes
  | advanced hr hadvance => exact Replicas.remaining_advance _ hr hadvance

/-- From everywhere the replicas can come to rest. -/
theorem exists_rest {s₀ : Service} (size : ℕ → ℕ) (h : InOrder cfg s₀ p) :
    ∃ es p', Run (going cfg size) p es p' ∧ AtRest cfg size p' := by
  have hstep : ∀ a, InOrder cfg s₀ a → ¬ AtRest cfg size a → ∃ e b, going cfg size a e b ∧
      InOrder cfg s₀ b ∧ (AtRest cfg size b ∨ stepsToRest b < stepsToRest a) := by
    intro a ha hnot
    unfold AtRest at hnot
    push Not at hnot
    obtain ⟨e, hgoes, hsome⟩ := hnot
    obtain ⟨b, hb⟩ := Option.ne_none_iff_exists'.mp hsome
    exact ⟨e, b, ⟨hgoes, hb⟩, ha.step hb, .inr (stepsToRest_lt ha.2 hgoes hb)⟩
  obtain ⟨es, p', hrun, -, hrest⟩ := exists_run_of_measure (going cfg size) (InOrder cfg s₀)
    (AtRest cfg size) stepsToRest hstep h
  exact ⟨es, p', hrun, hrest⟩

/-- **Where the replicas rest.** If the provider is not held, all connections are free, everybody
has been served or refused, and the provider has no call left to work on. -/
theorem AtRest.everyone (hrest : AtRest cfg size p) (h : p.world.Ready cfg)
    (hreleased : p.world.service.provider.released = true) (hsize : ∀ ρ, 0 < size ρ) :
    (∀ ρ, Replicas.held (variant cfg) p ρ = 0) ∧ (∀ r ∈ p.readers, ∃ a, r.point = .ended a) ∧
      ∀ t ∈ p.world.tasks, t.pc.isEnded = true ∧
        ∀ c, t.call = some c → c.phase.isRunning = false := by
  have hgoes : ∀ {i : ℕ} {t : Task}, p.world.tasks[i]? = some t → t.pc.isEnded = false →
      ∃ e, goesOn p e = true ∧ ((variant cfg).clients.next p e).isSome ∧
        (t.pc.holdsConnection = true → (variant cfg).clients.takes p e = none) := by
    intro i t hi hend
    obtain ⟨e, hgoes, hsome, htakes⟩ := h.goes hreleased hi hend
    refine ⟨.inside e, hgoes, ?_, htakes⟩
    show ((World.next cfg p.world e).map _).isSome
    rwa [Option.isSome_map]
  have hreads : ∀ {j : ℕ} {r : CommonReader}, p.readers[j]? = some r → (∀ a, r.point ≠ .ended a) →
      ((variant cfg).clients.next p (.advance j)).isSome := by
    intro j r hj hend
    obtain ⟨r', hr'⟩ := CommonReader.advance_isSome (variant cfg) p.world hend
    show (p.act j fun r => r.advance (variant cfg) p.world).isSome
    simp [Replicas.act, hj, hr']
  have hholder : ∀ ρ, 0 < (variant cfg).clients.held p ρ →
      ∃ e, goesOn p e = true ∧ (variant cfg).clients.takes p e = none ∧
        ((variant cfg).clients.next p e).isSome := by
    intro ρ hheld
    rcases Nat.add_pos_iff_pos_or_pos.mp hheld with htask | hreader
    · obtain ⟨t, ht, hholds⟩ := List.countP_pos_iff.mp htask
      obtain ⟨i, hi⟩ := List.mem_iff_getElem?.mp ht
      have hheld : t.pc.holdsConnection = true := by
        simp [Task.holdsAt] at hholds
        exact hholds.2
      obtain ⟨e, hgo, hsome, htakes⟩ := hgoes hi (Pc.not_takes_of_holds hheld).2
      exact ⟨e, hgo, htakes hheld, hsome⟩
    · obtain ⟨r, hr, hholds⟩ := List.countP_pos_iff.mp hreader
      obtain ⟨j, hj⟩ := List.mem_iff_getElem?.mp hr
      have hheld : r.point.holdsConnection = true := by
        simp [CommonReader.holdsAt] at hholds
        exact hholds.2
      refine ⟨.advance j, rfl, ?_, hreads hj fun a ha => by rw [ha] at hheld; cases hheld⟩
      show Replicas.takes (variant cfg) p (.advance j) = none
      cases hp : r.point with
      | takingConnection q =>
          rw [hp] at hheld
          cases hheld
      | _ => simp [Replicas.takes, hj, hp, CommonPoint.takesConnection]
  obtain ⟨hfree, hnext⟩ := Clients.stop_of_guarded hsize hholder hrest
  refine ⟨hfree, fun r hr => ?_, fun t ht => ?_⟩
  · obtain ⟨j, hj⟩ := List.mem_iff_getElem?.mp hr
    by_contra hend
    have hsome := hreads hj fun a ha => hend ⟨a, ha⟩
    rw [hnext (.advance j) rfl] at hsome
    cases hsome
  · obtain ⟨i, hi⟩ := List.mem_iff_getElem?.mp ht
    refine ⟨?_, fun c hcall => ?_⟩
    · by_contra hend
      obtain ⟨e, hgo, hsome, -⟩ := hgoes hi (Bool.eq_false_iff.mpr hend)
      rw [hnext e hgo] at hsome
      cases hsome
    · by_contra hrunning
      have hgo : GoesOn c := ⟨Bool.not_eq_false _ ▸ hrunning, h.woken hreleased t ht c hcall⟩
      obtain ⟨⟨q, c'⟩, hresume⟩ :=
        Option.isSome_iff_exists.mp (resume_isSome p.world.service.provider hgo)
      have hstop : (p.world.next cfg (.resume i)).map (fun w => { p with world := w }) = none :=
        hnext (.inside (.resume i)) rfl
      simp [World.next, World.serve, World.act, hi, hcall, hresume] at hstop

/-! ## Once the hold has been let go -/

/-- The provider stays let go. -/
theorem goesOn_released {e : ReplicaEvent Event} (hgoes : goesOn p e = true)
    (hstep : pooled cfg size p e = some p') :
    p'.world.service.provider.released = p.world.service.provider.released := by
  cases Replicas.moves_of_next (Clients.guarded_eq_some.mp hstep).2 with
  | @inside e w hw =>
      cases e with
      | advance i =>
          obtain ⟨t, s', t', hi, hadvance, rfl⟩ := World.act_eq_some hw
          obtain ⟨new, -, hwrote⟩ := (step_of_advance hadvance).wrote
          exact congrArg ProviderState.released hwrote.provider
      | resume i =>
          obtain ⟨t, c, q', c', hi, hcall, hresume, rfl⟩ := World.serve_eq_some hw
          exact Call.resume_released hresume
      | fault i f =>
          have hact : (p.world.act i fun s t => t.fault s f) = some w := hw
          obtain ⟨t, s', t', hi, hfault, rfl⟩ := World.act_eq_some hact
          unfold Task.fault at hfault
          split at hfault
          · cases hfault
          · cases hfault
            rfl
      | _ => cases hgoes
  | asked | advanced | struck => rfl

/-- An enrichment that waits for the answer it has paid for, or is past it, or has been served. -/
def Task.Homeward (t : Task) : Prop :=
  match t.pc with
  | .enriching _ .awaitResponse => ∀ c, t.call = some c → c.phase ≠ .aborted
  | .enriching _ (.upsertRecords _) | .enriching _ (.leaveConnection _) | .ended (.responded _) =>
    True
  | _ => False

theorem Step.homeward (h : Step cfg s t s' t') (hhome : t.Homeward) : t'.Homeward := by
  obtain ⟨q, pc, call, trail, raised⟩ := t
  cases h with
  | onward hpc => cases hpc <;> trivial
  | sends hpc | charges hpc | records hpc => cases hpc <;> exact hhome.elim
  | takes hpc => cases hpc <;> trivial
  | selects hpc | drains hpc | inserts hpc | collides hpc =>
      cases hpc
      exact hhome.elim
  | upserts => trivial
  | refuses hpc => cases hpc <;> exact hhome.elim

/-- Nothing takes it away from its answer while everybody goes on. -/
theorem homeward_step {i : ℕ} {e : ReplicaEvent Event} (hgoes : goesOn p e = true)
    (hstep : pooled cfg size p e = some p') (hi : p.world.tasks[i]? = some t) (h : t.Homeward) :
    ∃ t', p'.world.tasks[i]? = some t' ∧ t'.Homeward := by
  cases Replicas.moves_of_next (Clients.guarded_eq_some.mp hstep).2 with
  | @inside e w hw =>
      cases e with
      | advance j =>
          obtain ⟨x, s', x', hj, hadvance, rfl⟩ := World.act_eq_some hw
          exact exists_getElem?_set (P := Task.Homeward) hi h hj
            (step_of_advance hadvance).homeward
      | resume j =>
          obtain ⟨x, c, q', c', hj, hcall, hresume, rfl⟩ := World.serve_eq_some hw
          refine exists_getElem?_set (P := Task.Homeward) hi h hj fun hx => ?_
          have hnot : c'.phase ≠ .aborted := resume_not_aborted hresume
          unfold Task.Homeward at hx ⊢
          cases hpc : x.pc with
          | enriching b p =>
              rw [hpc] at hx
              cases p with
              | awaitResponse =>
                  intro d hd
                  cases hd
                  exact hnot
              | upsertRecords | leaveConnection => trivial
              | _ => exact hx.elim
          | ended ending =>
              rw [hpc] at hx
              cases ending with
              | responded => trivial
              | raised => exact hx.elim
          | _ =>
              rw [hpc] at hx
              exact hx.elim
      | fault j f =>
          have hact : (p.world.act j fun s t => t.fault s f) = some w := hw
          obtain ⟨x, s', x', hj, hfault, rfl⟩ := World.act_eq_some hact
          refine exists_getElem?_set (P := Task.Homeward) hi h hj fun hx => ?_
          -- the call of such a request has not been lost
          have hlost : x.lost = true := by
            cases f with
            | failed => simpa [goesOn, World.goesOn, hj] using hgoes
            | cancelled => cases hgoes
          exfalso
          unfold Task.Homeward at hx
          unfold Task.lost at hlost
          cases hpc : x.pc with
          | enriching b p =>
              rw [hpc] at hx hlost
              cases p with
              | awaitResponse =>
                  cases hcall : x.call with
                  | none => simp [hcall] at hlost
                  | some c => exact hx c hcall (by simpa [hcall, Pc.awaits] using hlost)
              | upsertRecords | leaveConnection => simp [Pc.awaits] at hlost
              | _ => exact hx.elim
          | ended =>
              rw [hpc] at hlost
              simp [Pc.awaits] at hlost
          | _ =>
              rw [hpc] at hx
              exact hx.elim
      | _ => cases hgoes
  | asked | struck => cases hgoes
  | advanced => exact ⟨t, hi, h⟩

/-- The events that may go on. -/
def Event.mayGoOn : Event → Bool
  | advance _ | resume _ | fault _ _ => true
  | _ => false

theorem goesOn_isOwn {e : ReplicaEvent Event} (h : goesOn p e = true) :
    e.isOwn Event.mayGoOn = true := by
  cases e with
  | inside e =>
      cases e with
      | advance | resume | fault => rfl
      | _ => cases h
  | advance => rfl
  | ask | fault => cases h

/-- **Run lemma.** Once the provider is let go it stays so, all stays in order, and every step
brings the rest nearer. -/
theorem going_run {s₀ : Service} {es : List (ReplicaEvent Event)} (h : InOrder cfg s₀ p)
    (hreleased : p.world.service.provider.released = true) (hgoing : Run (going cfg size) p es p') :
    InOrder cfg s₀ p' ∧ p'.world.service.provider.released = true ∧
      es.length + stepsToRest p' ≤ stepsToRest p := by
  induction hgoing with
  | nil => exact ⟨h, hreleased, by simp⟩
  | cons hstep _ ih =>
      obtain ⟨hgoes, hstep⟩ := hstep
      have hlt := stepsToRest_lt h.2 hgoes hstep
      obtain ⟨h', hreleased', hlength⟩ :=
        ih (h.step hstep) ((goesOn_released hgoes hstep).trans hreleased)
      refine ⟨h', hreleased', ?_⟩
      rw [List.length_cons]
      omega

/-- **Run lemma.** An enrichment that waits for the answer it has paid for is served. -/
theorem homeward_run {i : ℕ} {es : List (ReplicaEvent Event)}
    (hgoing : Run (going cfg size) p es p') (hi : p.world.tasks[i]? = some t) (h : t.Homeward)
    (hended : ∀ t ∈ p'.world.tasks, t.pc.isEnded = true) :
    ∃ t' response, p'.world.tasks[i]? = some t' ∧ t'.pc = .ended (.responded response) := by
  have hhome : ∃ t', p'.world.tasks[i]? = some t' ∧ t'.Homeward := by
    refine hgoing.invariant (I := fun q => ∃ t', q.world.tasks[i]? = some t' ∧ t'.Homeward) ?_
      ⟨t, hi, h⟩
    rintro a e b ⟨x, hx, hhome⟩ ⟨hgoes, hstep⟩
    exact homeward_step hgoes hstep hx hhome
  obtain ⟨t', ht', hhome⟩ := hhome
  have hend := hended t' (List.mem_of_getElem? ht')
  unfold Task.Homeward at hhome
  cases hpc : t'.pc with
  | ended ending =>
      cases ending with
      | responded response => exact ⟨t', response, ht', hpc⟩
      | raised =>
          rw [hpc] at hhome
          exact hhome.elim
  | _ =>
      rw [hpc] at hend
      cases hend

/-- **Answered once released.** From every state of any number of replicas of the unbounded
application in which the provider is not held: the requests and the provider can take only so many
steps by themselves, and they can go on until nothing can. In whatever order they did, by then every
request to a common route has been answered, every metered one has ended, with a `201` if it had
paid and its call has not been lost, the provider works on no call, and no connection is taken. -/
theorem answered_once_released {es es' : List (ReplicaEvent Event)} (hsize : ∀ ρ, 0 < size ρ)
    (hrun : Run (Steps (pooled cfg size)) (.start (.start cfg d replicas allowanceCents)) es p)
    (hreleased : p.world.service.provider.released = true)
    (hgoing : Run (going cfg size) p es' p') :
    es'.length ≤ stepsToRest p ∧
    (∃ es'' p'', Run (going cfg size) p' es'' p'' ∧ AtRest cfg size p'') ∧
    (AtRest cfg size p' →
      (∀ (j : ℕ) (r : CommonReader), p.readers[j]? = some r → (∀ a, r.point ≠ .ended a) →
        ∃ r' a, p'.readers[j]? = some r' ∧ r'.request = r.request ∧ r'.point = .ended (.ok a)) ∧
      (∀ (i : ℕ) (t : Task), p.world.tasks[i]? = some t → t.Homeward →
        ∃ t' response, p'.world.tasks[i]? = some t' ∧ t'.pc = .ended (.responded response)) ∧
      (∀ t ∈ p'.world.tasks, t.pc.isEnded = true ∧
        ∀ c, t.call = some c → c.phase.isRunning = false) ∧
      ∀ ρ, Replicas.held (variant cfg) p' ρ = 0) := by
  have hp := hrun.invariant (I := InOrder cfg (World.start cfg d replicas allowanceCents).service)
    (fun _ _ _ h hstep => h.step hstep) (inOrder_start cfg d replicas allowanceCents)
  obtain ⟨hp', hreleased', hlength⟩ := going_run hp hreleased hgoing
  refine ⟨by omega, exists_rest size hp', fun hrest => ?_⟩
  obtain ⟨hfree, hreaders, htasks⟩ := hrest.everyone hp'.2 hreleased' hsize
  refine ⟨fun j r hj hend => ?_, fun i t hi hhome => ?_, htasks, hfree⟩
  · have hkept : ∃ r', p'.readers[j]? = some r' ∧ r'.request = r.request ∧ r'.Unstruck := by
      refine hgoing.invariant
        (I := fun q => ∃ r', q.readers[j]? = some r' ∧ r'.request = r.request ∧ r'.Unstruck) ?_
        ⟨r, hj, rfl, fun f hf => hend _ hf⟩
      rintro a e b ⟨r', hr', hrequest, hunstruck⟩ ⟨hgoes, hstep⟩
      obtain ⟨r'', hr'', hrequest', hunstruck'⟩ := Replicas.reader_unstruck
        (Clients.guarded_eq_some.mp hstep).2 (goesOn_isOwn hgoes) hr' hunstruck
      exact ⟨r'', hr'', hrequest'.trans hrequest, hunstruck'⟩
    obtain ⟨r', hr', hrequest, hunstruck⟩ := hkept
    obtain ⟨answer, hanswer⟩ := hreaders r' (List.mem_of_getElem? hr')
    cases answer with
    | error f => exact absurd hanswer (hunstruck f)
    | ok a => exact ⟨r', a, hr', hrequest, hanswer⟩
  · exact homeward_run hgoing hi hhome fun t ht => (htasks t ht).1

/-- A read asks for the one connection while a request waits with it at the held provider, and the
provider is let go. -/
def heldThenReleased : List (ReplicaEvent Event) :=
  oneHeldCall ++ [.ask ⟨0, some Fixtures.attackerTenantId, .job 7⟩, .inside (.resume 0),
    .inside (.resume 0), .advance 0, .inside .release]

/-- The provider answers, the request is served, and then the read. -/
def thenServed : List (ReplicaEvent Event) :=
  .inside (.resume 0) :: List.replicate 3 (.inside (.advance 0)) ++ List.replicate 3 (.advance 0)

theorem read_answered_once_released :
    ∃ p p', Run (Steps (pooled (.demo 4) fun _ => 1)) (.start (.start (.demo 4) .demo 1 40000))
        heldThenReleased p ∧ p.world.service.provider.released = true ∧
      Run (going (.demo 4) fun _ => 1) p thenServed p' ∧ thenServed.length ≤ stepsToRest p ∧
      p'.readers.map (·.point) = [.ended (.ok .notFound)] := by
  have hfigures : (replay (pooled (.demo 4) fun _ => 1) (.start (.start (.demo 4) .demo 1 40000))
      heldThenReleased).map (fun p => (p.world.service.provider.released,
        (replay (fun a e => if goesOn a e then pooled (.demo 4) (fun _ => 1) a e else none) p
          thenServed).map fun p' => p'.readers.map (·.point))) =
      some (true, some [.ended (.ok .notFound)]) := by decide
  obtain ⟨p, hp, hfigures⟩ := Option.map_eq_some_iff.mp hfigures
  obtain ⟨hreleased, hmore⟩ := Prod.mk.inj hfigures
  obtain ⟨p', hp', hpoints⟩ := Option.map_eq_some_iff.mp hmore
  have hrun := run_of_replay hp
  have hgoing : Run (going (.demo 4) fun _ => 1) p thenServed p' :=
    run_of_replay_checked (p := goesOn) hp'
  exact ⟨p, p', hrun, hreleased, hgoing,
    (answered_once_released (fun _ => Nat.one_pos) hrun hreleased hgoing).1, hpoints⟩

end Limitless.Vulnerable
