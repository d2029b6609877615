import Limitless.Vulnerable.Enrich
import Mathlib.Tactic.Linarith

/-!
# The bill and the pool

The unbounded application charges the pool before it calls the provider, so a call is paid for by
the time it is sent: whatever faults strike and however the requests interleave, the provider's
whole bill stays within what the pool was charged, and so within the period's cap
(`billed_was_charged`). The repair that calls first is the exception, and it is a whole one. A
request that it has answered with its `504` has paid nothing and never will, and its call is still
with the provider, which bills every name in it (`answered_and_billed`).
-/

namespace Limitless.Vulnerable

open Indexed Runs

variable {cfg : Config} {s s' : Service} {t t' : Task} {w w' : World} {e : Event}

/-! ## The lines of the bill -/

/-- The line of the bill that an answer is. -/
def Effect.bill : Effect → List (TenantId × Int)
  | .received payload response => [(payload.tenantId, response.lookups)]
  | _ => []

/-- The lines of a request on the bill: its answers, and its call once it has been answered. -/
def Task.bill (t : Task) : List (TenantId × Int) :=
  t.trail.flatMap Effect.bill ++ t.call.elim [] fun c =>
    if c.phase.isAnswered then [(c.payload.tenantId, (c.payload.items.length : Int))] else []

/-- The lines are what the request has on each tenant's bill. -/
theorem Task.billed_eq (t : Task) (u : TenantId) :
    t.billed u = total (fun line => if line.1 = u then line.2 else 0) t.bill := by
  unfold billed bill
  rw [total_append, total_flatMap]
  congr 1
  · refine total_congr fun e _ => ?_
    cases e <;> simp [Effect.billed, Effect.bill]
  · cases t.call with
    | none => rfl
    | some c =>
        cases h : c.phase.isAnswered <;> simp [Call.billed, h]

/-! ## What is paid for -/

/-- The lookups that a request has paid for and not sent yet. -/
def Pc.prepaid : Pc → Int
  | .enriching b (.recordWork none) | .enriching b (.callProvider none) => b.companyNames.length
  | .importing _ (.callProvider _ _ chunk) => chunk
  | _ => 0

/-- A point that is reached without calling the provider before the pool is charged. -/
def Pc.Prompt : Pc → Prop
  | .enriching _ .callEarly | .enriching _ .awaitEarly
  | .enriching _ (.takeConnection (some _)) | .enriching _ (.chargePool (some _))
  | .enriching _ (.recordWork (some _)) | .enriching _ (.callProvider (some _)) => False
  | _ => True

/-- The lookups a request has been answered, has out, and has paid for and not sent. -/
def Task.lookups (t : Task) : Int :=
  total Prod.snd (t.trail.flatMap Effect.bill) + t.call.elim 0 (·.payload.items.length) +
    t.pc.prepaid

/-- The request has paid for its lookups. -/
structure Task.Paid (cfg : Config) (t : Task) : Prop where
  repair : parseHalfFix t.request.halfFix ≠ some .nonCancellingDeadline
  prompt : t.pc.Prompt
  lines : ∀ line ∈ t.trail.flatMap Effect.bill, 0 ≤ line.2
  paid : t.lookups * cfg.priceCents ≤ t.amount .pool

theorem Pc.prepaid_nonneg (pc : Pc) : 0 ≤ pc.prepaid := by
  unfold prepaid
  split
  all_goals omega

/-- What is on the bill is at most what has been paid for. -/
theorem Task.bill_le (t : Task) : total Prod.snd t.bill ≤ t.lookups := by
  unfold bill lookups
  rw [total_append]
  have hprepaid := t.pc.prepaid_nonneg
  cases t.call with
  | none => simpa using hprepaid
  | some c =>
      rw [Option.elim_some, Option.elim_some]
      split
      · simpa using hprepaid
      · rw [total_nil]
        omega

theorem Task.Paid.bill_nonneg (h : t.Paid cfg) : ∀ line ∈ t.bill, 0 ≤ line.2 := by
  intro line hline
  rcases List.mem_append.mp hline with hline | hline
  · exact h.lines line hline
  · cases hcall : t.call with
    | none =>
        rw [hcall] at hline
        cases hline
    | some c =>
        rw [hcall, Option.elim_some] at hline
        split at hline
        · rw [List.mem_singleton.mp hline]
          exact Int.natCast_nonneg _
        · cases hline

/-- A step that puts nothing on the bill. -/
theorem Task.Paid.did {eff : Effect} {pc : Pc} (h : t.Paid cfg) (heff : eff.bill = [])
    (hprompt : pc.Prompt)
    (hpaid : pc.prepaid * cfg.priceCents ≤ t.pc.prepaid * cfg.priceCents + eff.amount .pool) :
    (t.did eff pc).Paid cfg := by
  have htrail : (t.did eff pc).trail.flatMap Effect.bill = t.trail.flatMap Effect.bill := by
    simp [Task.did, heff]
  refine ⟨h.repair, hprompt, by rw [htrail]; exact h.lines, ?_⟩
  have hbefore := h.paid
  simp only [Task.lookups, add_mul] at hbefore ⊢
  rw [htrail]
  simp only [Task.amount, Task.did, total_append, total_cons, total_nil, add_zero] at hbefore ⊢
  linarith

/-- So is one that does nothing. -/
theorem Task.Paid.goto {pc : Pc} (h : t.Paid cfg) (hprompt : pc.Prompt)
    (hprepaid : pc.prepaid ≤ t.pc.prepaid) : (t.goto pc).Paid cfg := by
  refine ⟨h.repair, hprompt, h.lines, le_trans ?_ h.paid⟩
  refine mul_le_mul_of_nonneg_right ?_ (Int.natCast_nonneg _)
  simp only [Task.lookups, Task.goto]
  omega

theorem Task.Paid.raise (h : t.Paid cfg) (exc : Exception) : (t.raise exc).Paid cfg := by
  have hgoto : (t.goto (.ended (.raised exc))).Paid cfg := h.goto trivial t.pc.prepaid_nonneg
  exact ⟨hgoto.repair, hgoto.prompt, hgoto.lines, hgoto.paid⟩

/-- A call goes out for what was paid for. -/
theorem Task.Paid.send {payload : LookupRequest} {pc : Pc} (h : t.Paid cfg) (hcall : t.call = none)
    (hprompt : pc.Prompt) (hbefore : t.pc.prepaid = payload.items.length)
    (hafter : pc.prepaid = 0) : (t.send payload pc).Paid cfg := by
  have hlines : (t.trail ++ [Effect.sent payload]).flatMap Effect.bill =
      t.trail.flatMap Effect.bill := by simp [Effect.bill]
  refine ⟨h.repair, hprompt, ?_, ?_⟩
  · exact hlines ▸ h.lines
  · have hle := h.paid
    simp only [Task.lookups, Task.send, Task.did, Task.amount, hlines, hafter, hbefore, hcall,
      Option.elim_some, Option.elim_none, total_append] at hle ⊢
    simpa [Effect.amount] using hle

/-- Its answer is a line of the bill for what was out. -/
theorem Task.Paid.receive {payload : LookupRequest} {result : LookupResponse} {pc : Pc}
    {priceCents : Int} (h : t.Paid cfg) (hcall : t.call = some ⟨payload, .answered result⟩)
    (hresult : result = payload.response priceCents) (hprompt : pc.Prompt)
    (hbefore : t.pc.prepaid = 0) (hafter : pc.prepaid = 0) :
    (t.receive payload result pc).Paid cfg := by
  have hlookups : result.lookups = payload.items.length := by rw [hresult]; rfl
  refine ⟨h.repair, hprompt, fun line hline => ?_, ?_⟩
  · simp only [Task.receive, Task.did, List.flatMap_append, List.mem_append] at hline
    rcases hline with hline | hline
    · exact h.lines line hline
    · have hline' : line = (payload.tenantId, result.lookups) := by
        simpa [Effect.bill] using hline
      rw [hline', hlookups]
      exact Int.natCast_nonneg _
  · have hle := h.paid
    simp only [Task.lookups, Task.receive, Task.did, Task.amount, hbefore, hafter, hcall,
      Option.elim_some, Option.elim_none, List.flatMap_append, total_append] at hle ⊢
    simpa [Effect.amount, Effect.bill, hlookups] using hle

/-- **Step lemma.** A request pays before it calls. -/
theorem Task.Paid.step {priceCents : Int} (h : t.Paid cfg) (hfits : t.Fits priceCents)
    (hstep : Step cfg s t s' t') : t'.Paid cfg := by
  have hend := hstep.not_ended
  have hprompt := h.prompt
  cases hstep with
  | @onward pc honward =>
      obtain ⟨q, tpc, call, trail, raised⟩ := t
      cases honward with
      | @connected b early =>
          cases early with
          | none => exact h.goto trivial le_rfl
          | some result => exact hprompt.elim
      | hadEarly => exact hprompt.elim
      | _ => exact h.goto trivial le_rfl
  | @sends payload pc hsends hpayload =>
      have hnone := (Pc.calls_none hsends.free.2).mp (hfits hend)
      obtain ⟨q, tpc, call, trail, raised⟩ := t
      cases hsends with
      | early => exact hprompt.elim
      | enrich =>
          cases hpayload
          exact h.send hnone trivial rfl rfl
      | chunk =>
          cases hpayload
          refine h.send hnone trivial ?_ rfl
          simp [Pc.prepaid, Task.chunkNames]
  | @takes payload result pc htakes hcall =>
      obtain ⟨-, ⟨awaited, hawaits⟩, -⟩ := htakes.free
      obtain ⟨c, hc, rfl, hanswer⟩ := (Pc.calls_some hawaits).mp (hfits hend)
      obtain rfl := Option.some.inj (hcall.symm.trans hc)
      obtain ⟨q, tpc, call, trail, raised⟩ := t
      cases htakes with
      | early => exact hprompt.elim
      | enrich | chunk => exact h.receive hcall (hanswer _ rfl) trivial rfl rfl
  | selects hpc hfix _ _ _ _ hout =>
      rcases hout with ⟨-, rfl⟩ | ⟨-, rfl⟩
      · have hne : ¬ _ = HalfFix.nonCancellingDeadline := fun heq => h.repair (heq ▸ hfix)
        rw [if_neg hne]
        refine h.did rfl trivial ?_
        rw [hpc]
        exact le_rfl
      · exact h.raise _
  | @charges lookups pc s' hcharges =>
      obtain ⟨q, tpc, call, trail, raised⟩ := t
      cases hcharges with
      | @enrich b early =>
          cases early with
          | none => exact h.did rfl trivial (by simp [Pc.prepaid, Effect.amount])
          | some result => exact hprompt.elim
      | chunk => exact h.did rfl trivial (by simp [Pc.prepaid, Effect.amount])
  | @records u records pc s' hrecords =>
      obtain ⟨q, tpc, call, trail, raised⟩ := t
      cases hrecords with
      | @enrich b early =>
          cases early with
          | none => exact h.did rfl trivial le_rfl
          | some result => exact hprompt.elim
      | flush => exact h.did rfl trivial le_rfl
  | drains hpc | upserts hpc | inserts hpc =>
      refine h.did rfl trivial ?_
      rw [hpc]
      exact le_rfl
  | refuses | collides => exact h.raise _

/-- Every request has paid for its lookups. -/
def World.Paid (cfg : Config) (w : World) : Prop := ∀ t ∈ w.tasks, t.Paid cfg

theorem World.Paid.step {s₀ : Service} (h : w.Paid cfg) (hsound : Sound cfg s₀ w)
    (harrives : ∀ q, e = .arrive q → parseHalfFix q.halfFix ≠ some .nonCancellingDeadline)
    (hnext : w.next cfg e = some w') : w'.Paid cfg := by
  have hserve : ∀ {t : Task} {call : Option Call}, t.Paid cfg →
      call.elim 0 (·.payload.items.length) = t.call.elim 0 (·.payload.items.length) →
      Task.Paid cfg { t with call := call } := by
    intro t call hpaid hcall
    refine ⟨hpaid.repair, hpaid.prompt, hpaid.lines, ?_⟩
    have hle := hpaid.paid
    simp only [Task.lookups, Task.amount] at hle ⊢
    rwa [hcall]
  cases moves_of_next hnext with
  | @arrived request =>
      refine forall_mem_concat h ⟨harrives request rfl, trivial, ?_, ?_⟩
      · simp [Task.arrived]
      · simp [Task.lookups, Task.arrived, Pc.prepaid, Task.amount]
  | advanced hi hadvance =>
      have hmem := List.mem_of_getElem? hi
      exact forall_mem_set ((h _ hmem).step (hsound.fits _ hmem) (step_of_advance hadvance)) h
  | struck hi | timedOut hi => exact forall_mem_set ((h _ (List.mem_of_getElem? hi)).raise _) h
  | served _ hi hcall hhandled =>
      refine forall_mem_set (hserve (h _ (List.mem_of_getElem? hi)) ?_) h
      rw [hcall, Option.elim_some, Option.elim_some, hhandled.payload]
  | woke =>
      refine List.forall_mem_map.mpr fun t ht => hserve (h t ht) ?_
      cases t.call <;> simp
  | quiet => exact h

/-- **Run lemma.** Where no request asks for the repair that calls first, every request has paid. -/
theorem World.paid_of_run {d : Database} {replicas allowanceCents : ℕ} {es : List Event}
    (hrepair : ∀ q, .arrive q ∈ es → parseHalfFix q.halfFix ≠ some .nonCancellingDeadline)
    (hrun : Run (Steps (World.next cfg)) (.start cfg d replicas allowanceCents) es w) :
    w.Paid cfg := by
  obtain ⟨-, hpaid⟩ := hrun.invariant_mem
    (I := fun a => Sound cfg (World.start cfg d replicas allowanceCents).service a ∧ a.Paid cfg)
    (fun a e he b h hstep => ⟨h.1.step hstep, h.2.step h.1
      (fun q hq => hrepair q (hq ▸ he)) hstep⟩)
    ⟨.start cfg d replicas allowanceCents, fun t ht => absurd ht List.not_mem_nil⟩
  exact hpaid

/-- The bill is the lines of all requests. -/
theorem World.Paid.totalLookups {s₀ : Service} (h : w.Paid cfg) (hsound : Sound cfg s₀ w)
    (hzero : ∀ u, s₀.provider.ledger.lookupsOf u = 0) :
    w.service.provider.ledger.totalLookups = total (fun t => total Prod.snd t.bill) w.tasks := by
  rw [← total_flatMap]
  refine Ledger.totalLookups_eq Prod.fst Prod.snd (fun line hline => ?_) fun u => ?_
  · obtain ⟨t, ht, hline⟩ := List.mem_flatMap.mp hline
    exact (h t ht).bill_nonneg line hline
  · rw [hsound.bill u, total_flatMap, hzero, zero_add]
    exact total_congr fun t _ => t.billed_eq u

/-- **Billed was charged.** In every run in which no request asks for the repair that calls first,
whatever faults strike it: the provider's bill for all tenants together is at most what the pool
has been charged since the start, and so at most what the period had left. -/
theorem billed_was_charged {d : Database} {per : SpendPeriod} {replicas allowanceCents : ℕ}
    {es : List Event} (hper : d.store.period? = some per)
    (hrepair : ∀ q, .arrive q ∈ es → parseHalfFix q.halfFix ≠ some .nonCancellingDeadline)
    (hrun : Run (Steps (World.next cfg)) (.start cfg d replicas allowanceCents) es w) :
    w.service.provider.ledger.totalLookups * cfg.priceCents ≤
        w.service.database.store.balance (.period .committed) - per.committedCents ∧
      w.service.provider.ledger.totalLookups * cfg.priceCents ≤
        per.capCents - per.committedCents := by
  have hsound := Sound.run hrun (.start cfg d replicas allowanceCents)
  have hpaid := World.paid_of_run hrepair hrun
  have hbill := hpaid.totalLookups hsound fun u => rfl
  have hmoney := hsound.books .pool trivial
  have hle : w.service.provider.ledger.totalLookups * cfg.priceCents ≤
      total (·.amount .pool) w.tasks := by
    rw [hbill, total_mul]
    refine total_le_total fun t ht => le_trans ?_ (hpaid t ht).paid
    exact mul_le_mul_of_nonneg_right t.bill_le (Int.natCast_nonneg _)
  have hcommitted : (World.start cfg d replicas allowanceCents).service.balance .pool =
      per.committedCents := Store.balance_period hper _
  rw [hcommitted] at hmoney
  have hbalance : w.service.balance .pool =
      w.service.database.store.balance (.period .committed) := rfl
  rw [hbalance] at hmoney
  refine ⟨by linarith, ?_⟩
  have hcap := hsound.cap
  rw [show (World.start cfg d replicas allowanceCents).service.database.store.period? = some per
    from hper, Option.map_some, Option.map_eq_some_iff] at hcap
  obtain ⟨per', hper', hsame⟩ := hcap
  rw [Store.balance_period hper', SpendPeriod.cents] at hmoney
  have hwithin := per'.within_cap
  have hreserved := per'.reserved_nonneg
  omega

theorem one_billed_was_charged :
    ∃ w, Run (Steps (World.next (.demo 1))) (.start (.demo 1) .demo 1 40) oneServed w ∧
      w.service.provider.ledger.totalLookups = 1 ∧
      w.service.provider.ledger.totalLookups * Fixtures.lookupPriceCents ≤ 100 := by
  have hfigures : (replay (World.next (.demo 1)) (.start (.demo 1) .demo 1 40) oneServed).map
      (·.service.provider.ledger.totalLookups) = some 1 := by decide
  obtain ⟨w, hw, hfigures⟩ := Option.map_eq_some_iff.mp hfigures
  have hper : Database.demo.store.period? = some (.fresh 100 (by decide)) := rfl
  refine ⟨w, run_of_replay hw, hfigures, ?_⟩
  refine (billed_was_charged hper (fun q hq => ?_) (run_of_replay hw)).2
  have hdemo : q = .demo := by simpa [oneServed] using hq
  rw [hdemo]
  exact fun h => HalfFix.noConfusion (Option.some.inj h)

/-! ## Answered before the bill -/

/-- The repair that calls first has let the request go on, and it has done this since. -/
def Task.Promised (t : Task) (since : List Effect) : Prop :=
  ∃ key cents, t.trail = .granted t.request.replica .nonCancellingDeadline key cents :: since

/-- The request waits at the deadline that cancels nothing, or has been answered there. -/
structure Task.AtDeadline (b : Enrichment) (t : Task) : Prop where
  enriches : t.request.Enriches b
  promised : t.Promised [.sent ⟨b.tenantId, b.companyNames, true⟩]
  call : ∃ c, t.call = some c ∧ c.payload = ⟨b.tenantId, b.companyNames, true⟩

/-- What a request has done by a point before its connection. -/
def Task.Early (t : Task) : Prop :=
  match t.pc with
  | .authenticating => t.trail = []
  | .reading u => t.request.principal = some u ∧ t.trail = []
  | .enriching b .select => t.request.Enriches b ∧ t.trail = []
  | .enriching b .callEarly => t.request.Enriches b ∧ t.Promised []
  | .enriching b .awaitEarly => t.AtDeadline b
  | .ended (.raised .gatewayTimeout) => ∃ b, t.AtDeadline b
  | _ => True

/-- **Step lemma.** A step of a request keeps account of that. -/
theorem Task.Early.step (h : t.Early) (hstep : Step cfg s t s' t') : t'.Early := by
  obtain ⟨q, tpc, call, trail, raised⟩ := t
  cases hstep with
  | onward honward =>
      cases honward with
      | authenticated hu => exact ⟨hu, h⟩
      | readEnrich hread => exact ⟨⟨h.1, hread⟩, h.2⟩
      | _ => trivial
  | @sends payload pc hsends hpayload =>
      cases hsends with
      | early =>
          cases hpayload
          obtain ⟨henriches, key, cents, htrail⟩ := h
          refine ⟨henriches, ⟨key, cents, ?_⟩, _, rfl, rfl⟩
          simp only [Task.send, Task.did]
          rw [show trail = _ from htrail]
          rfl
      | enrich | chunk => trivial
  | takes htakes =>
      cases htakes
      all_goals trivial
  | @selects b halfFix key cents _ _ _ _ hpc _ _ _ _ _ hout =>
      cases hpc
      rcases hout with ⟨-, rfl⟩ | ⟨-, rfl⟩
      · by_cases hfix : halfFix = .nonCancellingDeadline
        · subst hfix
          refine ⟨h.1, key, cents, ?_⟩
          simp only [Task.did]
          rw [show trail = [] from h.2]
          rfl
        · rw [if_neg hfix]
          trivial
      · trivial
  | charges hcharges =>
      cases hcharges
      all_goals trivial
  | records hrecords =>
      cases hrecords
      all_goals trivial
  | refuses hrefuses =>
      cases hrefuses with
      | @undecodable u bytes failure jobId => cases failure with
        | malformed | truncated => trivial
      | unauthorized | malformed | tooLarge | unknownRepair | drained => trivial
  | drains | upserts | inserts | collides => trivial

/-- So does an event. -/
theorem World.early_step (h : ∀ t ∈ w.tasks, t.Early) (hnext : w.next cfg e = some w') :
    ∀ t ∈ w'.tasks, t.Early := by
  have hserve : ∀ {t : Task} {call : Option Call}, t.Early →
      (∀ c, t.call = some c → ∃ c', call = some c' ∧ c'.payload = c.payload) →
      Task.Early { t with call := call } := by
    intro t call hearly hcall
    have hat : ∀ {b : Enrichment}, t.AtDeadline b → Task.AtDeadline b { t with call := call } := by
      intro b hb
      obtain ⟨c, hc, hpayload⟩ := hb.call
      obtain ⟨c', hc', hsame⟩ := hcall c hc
      exact ⟨hb.enriches, hb.promised, c', hc', hsame.trans hpayload⟩
    obtain ⟨q, tpc, tcall, trail, raised⟩ := t
    unfold Task.Early at hearly ⊢
    dsimp only at hearly hat ⊢
    split at hearly
    · exact hearly
    · exact hearly
    · exact hearly
    · exact hearly
    · exact hat hearly
    · exact hearly.imp fun _ => hat
    · trivial
  cases moves_of_next hnext with
  | arrived => exact forall_mem_concat h rfl
  | advanced hi hadvance =>
      exact forall_mem_set ((h _ (List.mem_of_getElem? hi)).step (step_of_advance hadvance)) h
  | @struck i f t hi =>
      refine forall_mem_set ?_ h
      cases f
      all_goals trivial
  | @timedOut i t b hi hpc =>
      have hearly := h t (List.mem_of_getElem? hi)
      unfold Task.Early at hearly
      rw [hpc] at hearly
      exact forall_mem_set ⟨b, hearly.enriches, hearly.promised, hearly.call⟩ h
  | served _ hi hcall hhandled =>
      refine forall_mem_set (hserve (h _ (List.mem_of_getElem? hi)) fun c hc => ?_) h
      cases hcall.symm.trans hc
      exact ⟨_, rfl, hhandled.payload⟩
  | woke =>
      refine List.forall_mem_map.mpr fun t ht => hserve (h t ht) fun c hc => ?_
      rw [hc]
      exact ⟨_, rfl, c.wake_payload⟩
  | quiet => exact h

/-! ## The call goes on -/

/-- How many steps a call that nothing holds has left to its answer, at most. -/
def stepsLeft : CallPhase → ℕ
  | .sent => 3
  | .yielding | .woken => 2
  | .delaying => 1
  | .awaitingRelease | .answered _ | .aborted => 0

/-- The call goes on, and nothing holds it. -/
def GoesOn (c : Call) : Prop := c.phase.isRunning = true ∧ c.phase ≠ .awaitingRelease

/-- Such a call has a next step, and is answered by it or comes closer. -/
theorem resume_closer {p : ProviderState} {c : Call} (hreleased : p.released = true)
    (hgoes : GoesOn c) : ∃ p' c', c.resume p = some (p', c') ∧
      (c'.phase.isAnswered = true ∨ GoesOn c' ∧ stepsLeft c'.phase < stepsLeft c.phase) := by
  obtain ⟨ledger, hledger⟩ := p.ledger.charge_isOk c.payload.tenantId
    (Int.natCast_nonneg c.payload.items.length)
  have hfinish : (c.finish p).2.phase.isAnswered = true := by
    simp only [Call.finish, hledger]
    rfl
  have hproceed : ∃ p' c', c.proceed p = (p', c') ∧
      (c'.phase.isAnswered = true ∨ c'.phase = .delaying) := by
    unfold Call.proceed
    split
    · exact ⟨_, _, rfl, .inr rfl⟩
    · exact ⟨_, _, rfl, .inl hfinish⟩
  obtain ⟨p', c', hproceed, hphase'⟩ := hproceed
  have hcloser : stepsLeft c.phase = 2 → c'.phase.isAnswered = true ∨
      GoesOn c' ∧ stepsLeft c'.phase < stepsLeft c.phase := by
    intro htwo
    refine hphase'.imp_right fun h => ⟨⟨by rw [h]; rfl, by simp [h]⟩, ?_⟩
    rw [h, htwo]
    exact Nat.one_lt_two
  cases hphase : c.phase with
  | sent =>
      refine ⟨p.occupy, { c with phase := .yielding }, by simp [Call.resume, hphase], .inr ?_⟩
      exact ⟨⟨rfl, by simp⟩, by simp [stepsLeft]⟩
  | yielding =>
      exact ⟨p', c', by simp [Call.resume, hphase, hreleased, hproceed],
        hphase ▸ hcloser (by rw [hphase]; rfl)⟩
  | woken =>
      exact ⟨p', c', by simp [Call.resume, hphase, hproceed],
        hphase ▸ hcloser (by rw [hphase]; rfl)⟩
  | delaying =>
      have hresume : c.resume p = some (c.finish p) := by simp [Call.resume, hphase]
      exact ⟨_, _, hresume, .inl hfinish⟩
  | awaitingRelease => exact absurd hphase hgoes.2
  | answered | aborted =>
      have hrunning := hgoes.1
      rw [hphase] at hrunning
      cases hrunning

/-- Since `w` nothing has happened but that the provider, which is not held, works on a call. -/
structure Answering (w : World) (payload : LookupRequest) (i : ℕ) (v : World) : Prop where
  released : v.service.provider.released = true
  database : v.service.database = w.service.database
  call : ∃ t c, v.tasks[i]? = some t ∧ t.call = some c ∧ c.payload = payload ∧
    (c.phase.isAnswered = true ∨ GoesOn c) ∧ ∀ u, v.service.provider.ledger.lookupsOf u =
      w.service.provider.ledger.lookupsOf u + c.billed u

/-- The request's call has been answered. -/
def HasAnswer (i : ℕ) (v : World) : Prop :=
  ∃ t c, v.tasks[i]? = some t ∧ t.call = some c ∧ c.phase.isAnswered = true

/-- How many steps its call has left, at most. -/
def stepsLeftAt (i : ℕ) (v : World) : ℕ :=
  (v.tasks[i]?.bind Task.call).elim 0 (stepsLeft ·.phase)

/-- Until the call is answered it goes on. -/
theorem Answering.step {v : World} {payload : LookupRequest} {i : ℕ} (cfg : Config)
    (h : Answering w payload i v) (hnot : ¬ HasAnswer i v) :
    ∃ e v', restrict (fun _ e => e = .resume i) (Steps (World.next cfg)) v e v' ∧
      Answering w payload i v' ∧ (HasAnswer i v' ∨ stepsLeftAt i v' < stepsLeftAt i v) := by
  obtain ⟨t, c, hi, hcall, rfl, hphase, hbill⟩ := h.call
  obtain hanswered | hgoes := hphase
  · exact absurd ⟨t, c, hi, hcall, hanswered⟩ hnot
  obtain ⟨p', c', hresume, hcloser⟩ := resume_closer h.released hgoes
  have hhandled := Call.resume_handled hresume
  have hlt := (List.getElem?_eq_some_iff.mp hi).1
  have hi' : (v.tasks.set i { t with call := some c' })[i]? = some { t with call := some c' } :=
    List.getElem?_set_self hlt
  refine ⟨.resume i, ⟨{ v.service with provider := p' }, v.tasks.set i { t with call := some c' }⟩,
    ⟨rfl, ?_⟩, ⟨?_, h.database, _, c', hi', rfl, hhandled.payload, hcloser.imp_right And.left,
      fun u => ?_⟩, ?_⟩
  · simp only [Steps, World.next, World.serve, World.act, hi, hcall, hresume]
  · exact (Call.resume_released hresume).trans h.released
  · rw [hhandled.lookups u, hbill u]
    omega
  · refine hcloser.imp (fun hanswered => ⟨_, c', hi', rfl, hanswered⟩) fun hcloser => ?_
    simpa only [stepsLeftAt, hi', hi, hcall, Option.bind_some, Option.elim_some] using hcloser.2

/-- **A call that runs can be answered**, by the provider alone once nothing holds it, and is billed
for every name in it. -/
theorem exists_run_billed {i : ℕ} {c : Call} (cfg : Config) (hi : w.tasks[i]? = some t)
    (hcall : t.call = some c) (hrunning : c.phase.isRunning = true) :
    ∃ es w', Run (Steps (World.next cfg)) w es w' ∧
      (∀ e ∈ es, e = .release ∨ e = .resume i) ∧ w'.service.database = w.service.database ∧
      ∀ u, w'.service.provider.ledger.lookupsOf u = w.service.provider.ledger.lookupsOf u +
        if c.payload.tenantId = u then c.payload.items.length else 0 := by
  -- the hold is let go first, which wakes the call if it waited
  have hserved : Answering w c.payload i ⟨{ w.service with provider := w.service.provider.release },
      w.tasks.map fun t => { t with call := t.call.map Call.wake }⟩ := by
    refine ⟨rfl, rfl, { t with call := t.call.map Call.wake }, c.wake, ?_, ?_, c.wake_payload, .inr
      ⟨by rw [Call.wake_isRunning, hrunning], ?_⟩, fun u => ?_⟩
    · rw [List.getElem?_map, hi]
      rfl
    · show t.call.map Call.wake = _
      rw [hcall]
      rfl
    · unfold Call.wake
      split
      · simp
      · next h => exact h
    · rw [Call.wake_billed, Call.billed_of_unanswered (CallPhase.isAnswered_of_isRunning hrunning)]
      exact (add_zero _).symm
  obtain ⟨es, w', hrun, hserved', t', c', hi', hcall', hanswered⟩ := exists_run_of_measure
    (restrict (fun _ e => e = .resume i) (Steps (World.next cfg))) (Answering w c.payload i)
    (HasAnswer i) (stepsLeftAt i) (fun _ hv hnot => hv.step cfg hnot) hserved
  refine ⟨.release :: es, w', .cons rfl (hrun.mono fun _ _ _ h => h.2), ?_, hserved'.database, ?_⟩
  · intro e he
    rcases List.mem_cons.mp he with rfl | he
    · exact .inl rfl
    · exact .inr (hrun.forall_of_restrict e he)
  · intro u
    obtain ⟨t'', c'', hi'', hcall'', hpayload, -, hbill⟩ := hserved'.call
    cases hi'.symm.trans hi''
    cases hcall'.symm.trans hcall''
    rw [hbill u, Call.billed, hpayload]
    simp [hanswered]

/-- **Answered, and billed all the same.** Whatever has gone on, a request that the deadline which
cancels nothing has answered with its `504` has been let through and has sent its lookups, and has
done nothing else: it has charged the pool nothing and written nothing down. But the call
that it sent is out, and while it runs, the provider alone can bring it about that the tenant is
billed for every name, without a change to the database. -/
theorem answered_and_billed {d : Database} {replicas allowanceCents i : ℕ} {es : List Event}
    (hrun : Run (Steps (World.next cfg)) (.start cfg d replicas allowanceCents) es w)
    (hi : w.tasks[i]? = some t) (hend : t.pc = .ended (.raised .gatewayTimeout)) :
    ∃ u names c, t.request.principal = some u ∧ t.request.payload = .enrich (some names) ∧
      (∃ key cents, t.trail = [.granted t.request.replica .nonCancellingDeadline key cents,
        .sent ⟨u, names, true⟩]) ∧
      t.call = some c ∧ c.payload = ⟨u, names, true⟩ ∧
      (c.phase.isRunning = true → ∃ es' w', Run (Steps (World.next cfg)) w es' w' ∧
        (∀ e ∈ es', e = .release ∨ e = .resume i) ∧
        w'.service.database = w.service.database ∧
        ∀ v, w'.service.provider.ledger.lookupsOf v =
          w.service.provider.ledger.lookupsOf v + if u = v then names.length else 0) := by
  have hearly := hrun.invariant (I := fun a => ∀ t ∈ a.tasks, t.Early)
    (fun _ _ _ h hstep => World.early_step h hstep) (fun t ht => absurd ht List.not_mem_nil)
    t (List.mem_of_getElem? hi)
  unfold Task.Early at hearly
  rw [hend] at hearly
  obtain ⟨b, ⟨hprincipal, hpayload⟩, ⟨key, cents, htrail⟩, c, hcall, hcalled⟩ := hearly
  refine ⟨b.tenantId, b.companyNames, c, hprincipal, hpayload, ⟨key, cents, htrail⟩, hcall, hcalled,
    fun hrunning => ?_⟩
  have hbilled := exists_run_billed cfg hi hcall hrunning
  rwa [hcalled] at hbilled

/-- An enrichment of one name under the repair that calls first. -/
def Request.promptlyAnswered : Request :=
  { Request.demo with halfFix := some HalfFix.nonCancellingDeadline.value }

theorem one_answered_and_billed :
    ∃ es w es' w', Run (Steps (World.next (.demo 1))) (.start (.demo 1) .demo 1 40) es w ∧
      Run (Steps (World.next (.demo 1))) w es' w' ∧
      w'.service.database = w.service.database ∧
      w'.service.provider.ledger.lookupsOf Fixtures.attackerTenantId =
        w.service.provider.ledger.lookupsOf Fixtures.attackerTenantId + 1 := by
  have hfix := parseHalfFix_value .nonCancellingDeadline
  -- it is answered at the deadline while its call is on its way
  have hwaits : ∃ v u w t c, replay (World.next (.demo 1)) (.start (.demo 1) .demo 1 40)
        [.arrive .promptlyAnswered, .advance 0, .advance 0] = some v ∧
      v.next (.demo 1) (.advance 0) = some u ∧
      replay (World.next (.demo 1)) u [.advance 0, .timeOut 0] = some w ∧
      w.tasks[0]? = some t ∧ t.pc = .ended (.raised .gatewayTimeout) ∧
      t.request = .promptlyAnswered ∧ t.call = some c ∧ c.phase.isRunning = true :=
    ⟨_, _, _, _, _, rfl, World.next_select rfl rfl hfix rfl rfl, rfl, rfl, rfl, rfl, rfl, rfl⟩
  obtain ⟨v, u, w, t, c, hask, hselect, hwait, ht, hpc, hrequest, hcall, hrunning⟩ := hwaits
  have hrun := (run_of_replay hask).append (.cons hselect (run_of_replay hwait))
  obtain ⟨_, names, c', hprincipal, hpayload, -, hcall', -, hbilled⟩ :=
    answered_and_billed hrun ht hpc
  rw [hrequest] at hprincipal hpayload
  cases hprincipal
  cases hpayload
  cases hcall.symm.trans hcall'
  obtain ⟨es', w', hrun', -, hdatabase, hbill⟩ := hbilled hrunning
  exact ⟨_, w, es', w', hrun, hrun', hdatabase, hbill _⟩

end Limitless.Vulnerable
