import Limitless.Vulnerable.Steps

/-!
# The shared figures are sums over the requests

`Sound` is the invariant of every run of the unbounded application: each figure is what it was at
the start and what the requests have added to it, and the provider's bill is what the requests have
been answered. It needs of a request no more than where its lookup call is (`Fits`).
-/

namespace Limitless.Vulnerable

open Indexed Runs

variable {cfg : Config} {s s' : Service} {t t' : Task}

/-! ## The call of a request -/

/-- The call of a request that stands at a point: there is none but where it waits for one, and
that one is answered at the provider's price. -/
def Pc.Calls (priceCents : Int) (call : Option Call) (pc : Pc) : Prop :=
  match pc.awaits with
  | none => call = none
  | some payload => ∃ c, call = some c ∧ c.payload = payload ∧
      ∀ r, c.phase = .answered r → r = payload.response priceCents

/-- Where the lookup call of a request is. One that has ended may have left a call behind. -/
def Task.Fits (priceCents : Int) (t : Task) : Prop :=
  t.pc.isEnded = false → t.pc.Calls priceCents t.call

theorem Pc.calls_none {priceCents : Int} {call : Option Call} {pc : Pc} (h : pc.awaits = none) :
    pc.Calls priceCents call ↔ call = none := by
  unfold Calls
  rw [h]

theorem Pc.calls_some {priceCents : Int} {call : Option Call} {pc : Pc} {payload : LookupRequest}
    (h : pc.awaits = some payload) : pc.Calls priceCents call ↔ ∃ c, call = some c ∧
      c.payload = payload ∧ ∀ r, c.phase = .answered r → r = payload.response priceCents := by
  unfold Calls
  rw [h]

/-- A point that a request moves on from or to waits for no call. -/
theorem Onward.free {q : Request} {pc pc' : Pc} (h : Onward cfg q pc pc') :
    pc.isEnded = false ∧ pc.awaits = none ∧ pc'.awaits = none := by
  cases h <;> exact ⟨rfl, rfl, rfl⟩

theorem Sends.free {pc pc' : Pc} (h : Sends pc pc') : pc.isEnded = false ∧ pc.awaits = none := by
  cases h <;> exact ⟨rfl, rfl⟩

theorem Takes.free {pc pc' : Pc} {result : LookupResponse} (h : Takes result pc pc') :
    pc.isEnded = false ∧ (∃ payload, pc.awaits = some payload) ∧ pc'.awaits = none := by
  cases h <;> exact ⟨rfl, ⟨_, rfl⟩, rfl⟩

theorem Charges.free {pc pc' : Pc} {n : ℕ} (h : Charges pc n pc') :
    pc.isEnded = false ∧ pc.awaits = none ∧ pc'.awaits = none := by
  cases h <;> exact ⟨rfl, rfl, rfl⟩

theorem Records.free {pc pc' : Pc} {u : TenantId} {n : ℕ} (h : Records pc u n pc') :
    pc.isEnded = false ∧ pc.awaits = none ∧ pc'.awaits = none := by
  cases h <;> exact ⟨rfl, rfl, rfl⟩

theorem Refuses.not_ended {q : Request} {pc : Pc} {exc : Exception} (h : Refuses cfg s q pc exc) :
    pc.isEnded = false := by
  cases h <;> rfl

/-- A request that steps has not ended. -/
theorem Step.not_ended (h : Step cfg s t s' t') : t.pc.isEnded = false := by
  cases h with
  | onward hpc | sends hpc | takes hpc | charges hpc | records hpc => exact hpc.free.1
  | refuses hpc => exact hpc.not_ended
  | selects hpc | drains hpc | upserts hpc | inserts hpc | collides hpc => rw [hpc]; rfl

theorem Step.request (h : Step cfg s t s' t') : t'.request = t.request := by
  cases h with
  | selects _ _ _ _ _ _ hout =>
      rcases hout with ⟨-, rfl⟩ | ⟨-, rfl⟩
      exacts [rfl, rfl]
  | _ => rfl

/-- Without a call, before and after, there is none to keep track of. -/
theorem Task.Fits.keep {priceCents : Int} (hfits : t.Fits priceCents)
    (hend : t.pc.isEnded = false) (hbefore : t.pc.awaits = none) (hcall : t'.call = t.call)
    (hafter : t'.pc.awaits = none) : t'.Fits priceCents := by
  intro _
  rw [Pc.calls_none hafter, hcall]
  exact (Pc.calls_none hbefore).mp (hfits hend)

/-- A request's call is where its point says. -/
theorem Step.fits {priceCents : Int} (h : Step cfg s t s' t') (hfits : t.Fits priceCents) :
    t'.Fits priceCents := by
  have hend := h.not_ended
  cases h with
  | onward hpc => exact hfits.keep hend hpc.free.2.1 rfl hpc.free.2.2
  | sends hpc hpayload =>
      exact fun _ => (Pc.calls_some hpayload).mpr ⟨_, rfl, rfl, fun r hr => by cases hr⟩
  | takes hpc _ => exact fun _ => (Pc.calls_none hpc.free.2.2).mpr rfl
  | selects hpc _ _ _ _ _ hout =>
      rcases hout with ⟨-, rfl⟩ | ⟨-, rfl⟩
      · refine hfits.keep hend (by rw [hpc]; rfl) rfl ?_
        show Pc.awaits (.enriching _ (if _ then _ else _)) = none
        split <;> rfl
      · exact fun hnot => by cases hnot
  | charges hpc => exact hfits.keep hend hpc.free.2.1 rfl hpc.free.2.2
  | records hpc => exact hfits.keep hend hpc.free.2.1 rfl hpc.free.2.2
  | drains hpc | upserts hpc | inserts hpc => exact hfits.keep hend (by rw [hpc]; rfl) rfl rfl
  | refuses | collides => exact fun hnot => by cases hnot

/-- A step leaves the bill of a request as it is: an answer that is taken was on it already. -/
theorem Step.billed {priceCents : Int} (h : Step cfg s t s' t') (hfits : t.Fits priceCents)
    (u : TenantId) : t'.billed u = t.billed u := by
  have hend := h.not_ended
  have hdid : ∀ {e : Effect} {pc : Pc}, e.billed u = 0 → (t.did e pc).billed u = t.billed u := by
    intro e pc he
    simp [Task.billed, Task.did, he]
  cases h with
  | onward | refuses | collides => rfl
  | sends hpc hpayload =>
      have hcall := (Pc.calls_none hpc.free.2).mp (hfits hend)
      simp [Task.billed, Task.send, Task.did, Effect.billed, hcall, Call.billed,
        CallPhase.isAnswered]
  | takes hpc hcall =>
      obtain ⟨-, ⟨payload, hawaits⟩, -⟩ := hpc.free
      obtain ⟨c, hc, rfl, hanswer⟩ := (Pc.calls_some hawaits).mp (hfits hend)
      rw [hcall] at hc
      cases hc
      have hresult := hanswer _ rfl
      simp [Task.billed, Task.receive, Task.did, Effect.billed, hcall, Call.billed,
        CallPhase.isAnswered, hresult, LookupRequest.response]
  | selects _ _ _ _ _ _ hout =>
      rcases hout with ⟨-, rfl⟩ | ⟨-, rfl⟩
      exacts [hdid rfl, rfl]
  | charges | drains | records | upserts | inserts => exact hdid rfl

/-! ## The effects of a step -/

/-- Counting a request against its key. -/
theorem select_wrote {replica : ℕ} {halfFix : HalfFix} {key : String} {cents : ℕ}
    {state state' : HalfFixState} {allowed : Bool} {moment : Timestamp}
    (hstate : s.halfFixes[replica]? = some state)
    (hconsult : state.consult halfFix key cents moment = (allowed, state')) :
    Wrote s (if allowed then [.granted replica halfFix key cents] else [])
      { s with halfFixes := s.halfFixes.set replica state' } := by
  refine ⟨fun a _ => ?_, fun a ha => ?_, rfl, fun _ _ h => h, fun j u n c hmem => ?_, rfl,
    List.length_set⟩
  · cases a with
    | pool | records u | cents u => cases allowed <;> simp [Service.balance, Effect.amount]
    | counter r h k =>
        have hspent := consult_spentOn state halfFix key cents moment h k
        rw [hconsult] at hspent
        by_cases hr : replica = r
        · subst hr
          have hlt := (List.getElem?_eq_some_iff.mp hstate).1
          simp only [Service.balance, List.getElem?_set_self hlt, hstate, Option.elim_some, hspent]
          cases allowed <;> simp [Effect.amount]
        · simp only [Service.balance, List.getElem?_set_ne hr]
          cases allowed <;> simp [Effect.amount, hr]
  · cases a <;> exact ha
  · cases allowed <;> simp at hmem

/-- **Step lemma.** A step's effects are what it does to the shared figures. -/
theorem Step.wrote (h : Step cfg s t s' t') :
    ∃ new, t'.trail = t.trail ++ new ∧ Wrote s new s' := by
  have hsilent : ∀ e : Effect, (∀ a, e.amount a = 0) → ∀ a, total (Effect.amount a) [e] = 0 :=
    fun e he a => by rw [total_cons, he, total_nil, add_zero]
  cases h with
  | onward | refuses | collides =>
      exact ⟨[], (List.append_nil _).symm, wrote_nothing s (fun _ => rfl) (by simp)⟩
  | sends | takes | drains =>
      exact ⟨_, rfl, wrote_nothing s (hsilent _ fun a => by cases a <;> rfl) (by simp)⟩
  | selects _ _ _ _ hstate hconsult hout =>
      have hwrote := select_wrote hstate hconsult
      rcases hout with ⟨rfl, rfl⟩ | ⟨rfl, rfl⟩
      · exact ⟨_, rfl, hwrote⟩
      · exact ⟨[], (List.append_nil _).symm, hwrote⟩
  | charges _ hwrote | records _ hwrote | upserts _ hwrote | inserts _ hwrote =>
      exact ⟨_, rfl, hwrote⟩

/-- A request that raised the error of a job's identifier found a job under it. -/
def Task.Taken (store : Store) (t : Task) : Prop :=
  ∀ b performed charged, t.raised = some (.importing b (.insertJob performed charged),
    .store .uniqueViolation) → charged < 0 ∨ (store.jobs.find? b.jobId).isSome

theorem Task.Taken.mono {store store' : Store} (h : t.Taken store)
    (hjobs : ∀ j job, store.jobs.find? j = some job → store'.jobs.find? j = some job) :
    t.Taken store' := by
  intro b performed charged hraised
  refine (h b performed charged hraised).imp_right fun hsome => ?_
  obtain ⟨job, hjob⟩ := Option.isSome_iff_exists.mp hsome
  rw [hjobs _ job hjob]
  rfl

theorem Step.taken (h : Step cfg s t s' t') (ht : t.Taken s.database.store) :
    t'.Taken s'.database.store := by
  obtain ⟨new, -, hwrote⟩ := h.wrote
  refine Task.Taken.mono ?_ hwrote.jobs
  have hend := h.not_ended
  cases h with
  | selects hpc _ _ _ _ _ hout =>
      rcases hout with ⟨-, rfl⟩ | ⟨-, rfl⟩
      · exact ht
      · intro b performed charged hraised
        cases (Prod.mk.inj (Option.some.inj hraised)).2
  | refuses hpc =>
      intro b performed charged hraised
      rw [(Prod.mk.inj (Option.some.inj hraised)).1] at hpc
      cases hpc
  | collides hpc htaken =>
      intro b performed charged hraised
      obtain ⟨hpc', -⟩ := Prod.mk.inj (Option.some.inj hraised)
      rw [hpc] at hpc'
      cases hpc'
      exact htaken.imp_right And.right
  | _ => exact ht

/-! ## The invariant -/

/-- Each shared figure is a sum over the requests. -/
structure Sound (cfg : Config) (s₀ : Service) (w : World) : Prop where
  fits : ∀ t ∈ w.tasks, t.Fits cfg.providerPriceCents
  price : w.service.provider.ledger.priceCentsPerLookup = cfg.providerPriceCents
  books : ∀ a, s₀.Keeps a → w.service.balance a = s₀.balance a + total (·.amount a) w.tasks
  bill : ∀ u, w.service.provider.ledger.lookupsOf u =
    s₀.provider.ledger.lookupsOf u + total (·.billed u) w.tasks
  keeps : ∀ a, s₀.Keeps a → w.service.Keeps a
  jobs : ∀ t ∈ w.tasks, ∀ j u n cents, .insertedJob j u n cents ∈ t.trail →
    StoresJob w.service.database.store j u n cents
  taken : ∀ t ∈ w.tasks, t.Taken w.service.database.store
  cap : w.service.database.store.period?.map SpendPeriod.capCents =
    s₀.database.store.period?.map SpendPeriod.capCents
  length : w.service.halfFixes.length = s₀.halfFixes.length

variable {s₀ : Service} {w w' : World} {e : Event}

theorem Sound.start (cfg : Config) (d : Database) (replicas allowanceCents : ℕ) :
    Sound cfg (World.start cfg d replicas allowanceCents).service
      (.start cfg d replicas allowanceCents) where
  fits := by simp [World.start]
  price := rfl
  books a _ := by simp [World.start]
  bill u := by simp [World.start]
  keeps _ h := h
  jobs := by simp [World.start]
  taken := by simp [World.start]
  cap := rfl
  length := rfl

/-- Giving a request another call changes nothing but its bill. -/
theorem Task.Fits.serve {priceCents : Int} {c c' : Call} (hfits : t.Fits priceCents)
    (hcall : t.call = some c) (hpayload : c'.payload = c.payload)
    (hanswered : ∀ r, c'.phase = .answered r → r = c.payload.response priceCents) :
    Task.Fits priceCents { t with call := some c' } := by
  intro hend
  cases hawaits : t.pc.awaits with
  | none =>
      have hnone := (Pc.calls_none hawaits).mp (hfits hend)
      rw [hcall] at hnone
      cases hnone
  | some payload =>
      obtain ⟨d, hd, rfl, -⟩ := (Pc.calls_some hawaits).mp (hfits hend)
      rw [hcall] at hd
      cases hd
      exact (Pc.calls_some hawaits).mpr ⟨c', rfl, hpayload, hanswered⟩

/-- Woken calls are where they were. -/
theorem Task.Fits.wake {priceCents : Int} (hfits : t.Fits priceCents) :
    Task.Fits priceCents { t with call := t.call.map Call.wake } := by
  intro hend
  cases hawaits : t.pc.awaits with
  | none =>
      have hnone := (Pc.calls_none hawaits).mp (hfits hend)
      exact (Pc.calls_none hawaits).mpr (by simp [hnone])
  | some payload =>
      obtain ⟨c, hc, hpayload, hanswered⟩ := (Pc.calls_some hawaits).mp (hfits hend)
      refine (Pc.calls_some hawaits).mpr ⟨c.wake, by simp [hc], by simpa using hpayload,
        fun r hr => hanswered r (Call.wake_answered.mp hr)⟩

/-- **Step lemma.** An event keeps the invariant. -/
theorem Sound.step (h : Sound cfg s₀ w) (hnext : w.next cfg e = some w') : Sound cfg s₀ w' := by
  cases moves_of_next hnext with
  | arrived =>
      refine ⟨forall_mem_concat h.fits fun _ => rfl, h.price, fun a ha => ?_, fun u => ?_, h.keeps,
        forall_mem_concat h.jobs ?_, forall_mem_concat h.taken fun _ _ _ hraised => ?_, h.cap,
        h.length⟩
      · rw [h.books a ha]
        simp [Task.amount, Task.arrived]
      · rw [h.bill u]
        simp [Task.billed, Task.arrived]
      · simp [Task.arrived]
      · cases hraised
  | advanced hi hstep =>
      have hstep := step_of_advance hstep
      have hmem := List.mem_of_getElem? hi
      have hfits := h.fits _ hmem
      obtain ⟨new, htrail, hwrote⟩ := hstep.wrote
      -- a job that was stored still is
      have hstored : ∀ x ∈ w.tasks, ∀ j u n cents, .insertedJob j u n cents ∈ x.trail →
          StoresJob _ j u n cents := fun x hx j u n cents hjob => by
        obtain ⟨job, hfind, hrest⟩ := h.jobs x hx j u n cents hjob
        exact ⟨job, hwrote.jobs j job hfind, hrest⟩
      refine ⟨forall_mem_set (hstep.fits hfits) h.fits, by rw [hwrote.provider]; exact h.price,
        fun a ha => ?_, fun u => ?_, fun a ha => hwrote.keeps a (h.keeps a ha),
        forall_mem_set (fun j u n cents hjob => ?_) hstored,
        forall_mem_set (hstep.taken (h.taken _ hmem)) fun x hx => (h.taken x hx).mono hwrote.jobs,
        hwrote.cap.trans h.cap,
        hwrote.length.trans h.length⟩
      · rw [hwrote.balance a (h.keeps a ha), h.books a ha, total_set _ _ hi]
        simp only [Task.amount, htrail, total_append]
        omega
      · rw [hwrote.provider, h.bill u, total_set _ _ hi, hstep.billed hfits, sub_self, add_zero]
      · rw [htrail] at hjob
        rcases List.mem_append.mp hjob with hjob | hjob
        exacts [hstored _ hmem j u n cents hjob, hwrote.inserted j u n cents hjob]
  | struck hi | timedOut hi =>
      have hmem := List.mem_of_getElem? hi
      refine ⟨forall_mem_set (fun hnot => by cases hnot) h.fits, h.price, fun a ha => ?_,
        fun u => ?_, h.keeps, forall_mem_set (fun j u n c hjob => h.jobs _ hmem j u n c hjob) h.jobs,
        forall_mem_set (fun b p c hraised => ?_) h.taken, h.cap, h.length⟩
      · rw [h.books a ha, total_set _ _ hi]
        simp [Task.amount, Task.raise]
      · rw [h.bill u, total_set _ _ hi]
        simp [Task.billed, Task.raise]
      · have hexc := (Prod.mk.inj (Option.some.inj hraised)).2
        first | cases hexc | (next f _ _ => cases f <;> cases hexc)
  | served he hi hcall hhandled =>
      have hmem := List.mem_of_getElem? hi
      refine ⟨forall_mem_set ((h.fits _ hmem).serve hcall hhandled.payload fun r hr => ?_) h.fits,
        hhandled.price.trans h.price, fun a ha => ?_, fun u => ?_, h.keeps,
        forall_mem_set (fun j u n c hjob => h.jobs _ hmem j u n c hjob) h.jobs,
        forall_mem_set (fun b p c hraised => h.taken _ hmem b p c hraised) h.taken, h.cap, h.length⟩
      · rw [hhandled.answered r hr, h.price]
      · refine (h.books a ha).trans ?_
        rw [total_set _ _ hi]
        simp [Task.amount]
      · rw [hhandled.lookups u, h.bill u, total_set _ _ hi]
        simp only [Task.billed, hcall, Option.elim_some]
        omega
  | woke =>
      refine ⟨List.forall_mem_map.mpr fun t ht => (h.fits t ht).wake, h.price, fun a ha => ?_,
        fun u => ?_, h.keeps, List.forall_mem_map.mpr h.jobs, List.forall_mem_map.mpr h.taken,
        h.cap, h.length⟩
      · refine (h.books a ha).trans ?_
        rw [total_map]
        rfl
      · refine (h.bill u).trans ?_
        rw [total_map]
        congr 1
        refine total_congr fun t _ => ?_
        unfold Task.billed
        cases t.call <;> simp
  | quiet _ hledger =>
      exact ⟨h.fits, by rw [← h.price, ← hledger], h.books, fun u => by rw [← h.bill u, ← hledger],
        h.keeps, h.jobs, h.taken, h.cap, h.length⟩

/-- **Run lemma.** So does a run. -/
theorem Sound.run {es : List Event} (hrun : Run (Steps (World.next cfg)) w es w')
    (h : Sound cfg s₀ w) : Sound cfg s₀ w' :=
  hrun.invariant (fun _ _ _ hs hstep => Sound.step hs hstep) h

end Limitless.Vulnerable
