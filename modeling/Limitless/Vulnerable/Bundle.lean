import Limitless.Secure.World
import Limitless.Vulnerable.Import

/-!
# A bundle, from its arrival to its answer

What `Step.books` says of one step, along any run: other requests come and go, drain the pool and
wait for the provider, and the request that makes the import keeps its accounts (`Follows`). It
takes at most `4 n + 9` steps of its own for a bundle of `n` records and always has one to take,
unless it waits for the provider; and when it has ended, `Accounts` says where every cent went.
-/

namespace Limitless.Vulnerable

open Indexed Runs

/-- The import with all its figures: what it wrote down, charged, and was billed for. -/
structure Accounts (cfg : Config) (b : Import) (performed : ℕ) (t : Task) : Prop where
  /-- Each flush is of between one record and the flush size, at the price. -/
  flushes : ∀ u records cents, .recordedWork u records cents ∈ t.trail →
    1 ≤ records ∧ records ≤ admitFlushRecords ∧ cents = records * cfg.priceCents
  /-- What the flushes add to `admitted_work`. -/
  admitted : t.amount (.records b.tenantId) = b.records ∧
    t.amount (.cents b.tenantId) = b.records * cfg.priceCents
  performed_le : performed ≤ b.records
  /-- What the request adds to `spend_periods.committed_cents`. -/
  charged : t.amount .pool = cfg.priceCents * performed
  /-- The provider's bill for it. -/
  billed : t.billed b.tenantId * cfg.providerPriceCents = cfg.priceCents * performed
  /-- All of the bundle was paid for, or the next chunk would have passed the cap. -/
  stopped : performed = b.records ∨ ∃ per : SpendPeriod,
    .drained (min enrichChunkRecords (b.records - performed)) (some per) ∈ t.trail ∧
      per.capCents < per.committedCents + per.reservedCents +
        (min enrichChunkRecords (b.records - performed) : ℕ) * cfg.priceCents

/-- What is known of the request at a position, after these events, if it makes the import. -/
structure Follows (cfg : Config) (b : Import) (i : ℕ) (es : List Event) (w : World) : Prop where
  before : w.tasks[i]? = none → es.count (.advance i) = 0
  steps : ∀ t, w.tasks[i]? = some t → t.request.Imports b →
    es.count (.advance i) + t.pc.steps b.records ≤ 4 * b.records + 9
  books : ∀ t, w.tasks[i]? = some t → t.request.Imports b →
    t.pc.Books cfg b t.trail ∨ Finished cfg b t
  live : ∀ t, w.tasks[i]? = some t → t.request.Imports b → ∀ c, t.call = some c →
    c.phase ≠ .aborted

variable {cfg : Config} {b : Import} {i : ℕ} {es : List Event} {e : Event} {w w' : World}
  {s₀ : Service} {t t' : Task}

theorem Finished.ended (h : Finished cfg b t) : t.pc.isEnded = true := by
  obtain ⟨_, _, -, -, -, ⟨hpc, -⟩ | ⟨hpc, -⟩⟩ := h
  all_goals
    rw [hpc]
    rfl

theorem Pc.steps_of_ended {pc : Pc} (h : pc.isEnded = true) (n : ℕ) : pc.steps n = 0 := by
  cases pc <;> first | rfl | cases h

/-- An import that has not gone through has a step to take. -/
theorem Pc.Books.steps_pos {pc : Pc} {trail : List Effect} (h : pc.Books cfg b trail) :
    0 < pc.steps b.records := by
  cases pc with
  | authenticating | reading => simp [Pc.steps]
  | enriching | ended => cases h
  | importing b' p => cases p <;> simp [Pc.steps]

/-- The call a step leaves behind is the one there was, or has just been sent. -/
theorem Step.call {s s' : Service} (h : Step cfg s t s' t') :
    t'.call = t.call ∨ t'.call = none ∨ ∃ payload, t'.call = some ⟨payload, .sent⟩ := by
  cases h with
  | sends => exact .inr (.inr ⟨_, rfl⟩)
  | takes => exact .inr (.inl rfl)
  | selects _ _ _ _ _ _ hout =>
      rcases hout with ⟨-, rfl⟩ | ⟨-, rfl⟩
      exacts [.inl rfl, .inl rfl]
  | _ => exact .inl rfl

/-- An event that leaves the points of requests as they are, and is no step of the import's own,
keeps what is known of it. -/
theorem Follows.keep (h : Follows cfg b i es w) (hown : e ≠ .advance i)
    (hbefore : w'.tasks[i]? = none → w.tasks[i]? = none)
    (hsame : ∀ t', w'.tasks[i]? = some t' → t'.request.Imports b → ∃ t, w.tasks[i]? = some t ∧
      t'.request = t.request ∧ t'.pc = t.pc ∧ t'.trail = t.trail ∧ t'.raised = t.raised ∧
      (t.call = none → t'.call = none) ∧
      ((∀ c, t.call = some c → c.phase ≠ .aborted) → ∀ c, t'.call = some c → c.phase ≠ .aborted)) :
    Follows cfg b i (es ++ [e]) w' := by
  have hcount : (es ++ [e]).count (.advance i) = es.count (.advance i) := by
    rw [List.count_append, List.count_singleton]
    simp [hown]
  refine ⟨fun hnone => hcount.trans (h.before (hbefore hnone)), fun t' ht' hq => ?_,
    fun t' ht' hq => ?_, fun t' ht' hq => ?_⟩
  all_goals
    obtain ⟨t, ht, hrequest, hpc, htrail, hraised, hnocall, hcall⟩ := hsame t' ht' hq
    rw [hrequest] at hq
  · rw [hcount, hpc]
    exact h.steps t ht hq
  · unfold Finished
    rw [hpc, htrail, hraised]
    refine (h.books t ht hq).imp_right ?_
    rintro ⟨performed, charged, hbooked, hstopped, hnone, hend⟩
    exact ⟨performed, charged, hbooked, hstopped, hnocall hnone, hend⟩
  · exact hcall (h.live t ht hq)

/-- An event about another request leaves this one as it is. -/
theorem Follows.other {j : ℕ} {s' : Service} {x : Task} (h : Follows cfg b i es w) (hj : j ≠ i)
    (hown : e ≠ .advance i) : Follows cfg b i (es ++ [e]) ⟨s', w.tasks.set j x⟩ := by
  have hat : (w.tasks.set j x)[i]? = w.tasks[i]? := List.getElem?_set_ne hj
  exact h.keep hown (fun hnone => hat.symm.trans hnone) fun t' ht' _ =>
    ⟨t', hat.symm.trans ht', rfl, rfl, rfl, rfl, id, id⟩

/-- A request that arrives has all of its steps before it. -/
theorem Follows.arrived (h : Follows cfg b i es w) (request : Request) :
    Follows cfg b i (es ++ [.arrive request])
      { w with tasks := w.tasks ++ [.arrived request] } := by
  by_cases hi : i = w.tasks.length
  · subst hi
    have hcount := h.before (List.getElem?_eq_none le_rfl)
    refine ⟨fun hout => by simp at hout, fun t' ht' hq => ?_, fun t' ht' hq => ?_,
      fun t' ht' hq c hc => ?_⟩
    all_goals
      have hnew : t' = .arrived request := by simpa using ht'.symm
      subst hnew
    · rw [List.count_append, hcount]
      simp [Pc.steps, Task.arrived]
    · exact .inl rfl
    · cases hc
  · have hsame : (w.tasks ++ [Task.arrived request])[i]? = w.tasks[i]? := by
      rcases Nat.lt_or_ge i w.tasks.length with hlt | hge
      · exact List.getElem?_append_left hlt
      · rw [List.getElem?_eq_none (by simp; omega), List.getElem?_eq_none hge]
    exact h.keep (by simp) (fun hnone => hsame.symm.trans hnone)
      fun t' ht' _ => ⟨t', hsame.symm.trans ht', rfl, rfl, rfl, rfl, id, id⟩

/-- A request that has a step to take has not gone through. -/
theorem Follows.books_of_step {s' : Service} (h : Follows cfg b i es w) (hi : w.tasks[i]? = some t)
    (hstep : Step cfg w.service t s' t') (hq : t.request.Imports b) :
    t.pc.Books cfg b t.trail := by
  refine (h.books t hi hq).resolve_right fun hfinished => ?_
  have hend := hstep.not_ended
  rw [hfinished.ended] at hend
  cases hend

/-- A step of the import's own keeps its accounts, and uses up one of its steps. -/
theorem Follows.advanced {s' : Service} (hs : Sound cfg s₀ w)
    (hperiod : s₀.database.store.period?.isSome) (h : Follows cfg b i es w)
    (hi : w.tasks[i]? = some t) (hstep : Step cfg w.service t s' t') :
    Follows cfg b i (es ++ [.advance i]) ⟨s', w.tasks.set i t'⟩ := by
  have hself : (w.tasks.set i t')[i]? = some t' :=
    List.getElem?_set_self (List.getElem?_eq_some_iff.mp hi).1
  have hrow : w.service.database.store.period?.isSome := by
    have := congrArg Option.isSome hs.cap
    simpa [hperiod] using this
  have hkey := fun hq : t.request.Imports b =>
    hstep.books hq (hs.fits t (List.mem_of_getElem? hi)) hrow (h.books_of_step hi hstep hq)
  refine ⟨fun hnone => ?_, fun x hx hq => ?_, fun x hx hq => ?_, fun x hx hq c hc => ?_⟩
  · rw [hself] at hnone
    cases hnone
  all_goals
    obtain rfl : t' = x := Option.some.inj (hself.symm.trans hx)
    rw [hstep.request] at hq
  · have hsteps := h.steps t hi hq
    rw [List.count_append, List.count_singleton_self]
    rcases hkey hq with ⟨-, hless⟩ | hfinished
    · omega
    · have hpos := (h.books_of_step hi hstep hq).steps_pos
      rw [Pc.steps_of_ended hfinished.ended]
      omega
  · exact (hkey hq).imp_left And.left
  · rcases hstep.call with hcall | hcall | ⟨payload, hcall⟩
    · exact h.live t hi hq c (hcall.symm.trans hc)
    · rw [hcall] at hc
      cases hc
    · rw [hcall] at hc
      cases hc
      simp

/-- An import never waits with the deadline of an enrichment. -/
theorem Follows.not_imports {enrichment : Enrichment} (h : Follows cfg b i es w)
    (hi : w.tasks[i]? = some t) (hpc : t.pc = .enriching enrichment .awaitEarly) :
    ¬ t.request.Imports b := by
  intro hq
  rcases h.books t hi hq with hbooks | hfinished
  · rw [hpc] at hbooks
    cases hbooks
  · have hend := hfinished.ended
    rw [hpc] at hend
    cases hend

/-- The deadline of an enrichment passes. -/
theorem Follows.timedOut {enrichment : Enrichment} (h : Follows cfg b i es w)
    (hi : w.tasks[i]? = some t) (hpc : t.pc = .enriching enrichment .awaitEarly) :
    Follows cfg b i (es ++ [.timeOut i])
      { w with tasks := w.tasks.set i (t.raise .gatewayTimeout) } := by
  have hself : (w.tasks.set i (t.raise .gatewayTimeout))[i]? = some (t.raise .gatewayTimeout) :=
    List.getElem?_set_self (List.getElem?_eq_some_iff.mp hi).1
  refine h.keep (by simp) (fun hnone => ?_) fun x hx hq => ?_
  · rw [hself] at hnone
    cases hnone
  · obtain rfl := Option.some.inj (hself.symm.trans hx)
    exact (h.not_imports hi hpc hq).elim

/-- The provider goes on with the import's call. -/
theorem Follows.served {c c' : Call} {s' : Service} (h : Follows cfg b i es w)
    (hi : w.tasks[i]? = some t) (hcall : t.call = some c) (hphase : c'.phase ≠ .aborted) :
    Follows cfg b i (es ++ [.resume i]) ⟨s', w.tasks.set i { t with call := some c' }⟩ := by
  have hself : (w.tasks.set i { t with call := some c' })[i]? = some { t with call := some c' } :=
    List.getElem?_set_self (List.getElem?_eq_some_iff.mp hi).1
  refine h.keep (by simp) (fun hnone => ?_) fun x hx hq => ?_
  · rw [hself] at hnone
    cases hnone
  · obtain rfl := Option.some.inj (hself.symm.trans hx)
    refine ⟨t, hi, rfl, rfl, rfl, rfl, fun hnone => ?_, fun _ d hd => ?_⟩
    · rw [hcall] at hnone
      cases hnone
    · cases hd
      exact hphase

/-- The hold is released, and every call that waited goes on. -/
theorem Follows.woke {s' : Service} (h : Follows cfg b i es w) :
    Follows cfg b i (es ++ [.release])
      ⟨s', w.tasks.map fun t => { t with call := t.call.map Call.wake }⟩ := by
  refine h.keep (by simp) (fun hnone => by simpa using hnone) fun x hx hq => ?_
  rw [List.getElem?_map, Option.map_eq_some_iff] at hx
  obtain ⟨t, ht, rfl⟩ := hx
  refine ⟨t, ht, rfl, rfl, rfl, rfl, fun hnone => by simp [hnone], fun hlive c hc => ?_⟩
  obtain ⟨d, hd, rfl⟩ := Option.map_eq_some_iff.mp hc
  have := hlive d hd
  unfold Call.wake
  split <;> simp_all

/-- **Step lemma.** An event that does not strike the import, nor lose its call, keeps what is known
of it. -/
theorem Follows.step (hs : Sound cfg s₀ w) (hperiod : s₀.database.store.period?.isSome)
    (h : Follows cfg b i es w) (hfault : ∀ f, e ≠ .fault i f) (habort : e ≠ .abort i)
    (hnext : w.next cfg e = some w') : Follows cfg b i (es ++ [e]) w' := by
  cases moves_of_next hnext with
  | arrived => exact h.arrived _
  | @advanced j t t' s' hj hadvance =>
      by_cases hij : j = i
      · subst hij
        exact h.advanced hs hperiod hj (step_of_advance hadvance)
      · exact h.other hij (by simp [hij])
  | @struck j f t hj hend => exact h.other (fun hij => hfault f (by rw [hij])) (by simp)
  | @timedOut j t enrichment hj hpc =>
      by_cases hij : j = i
      · subst hij
        exact h.timedOut hj hpc
      · exact h.other hij (by simp)
  | @served e j t c c' p' he hj hcall hhandled =>
      by_cases hij : j = i
      · subst hij
        obtain ⟨rfl, hphase⟩ := he.resolve_right habort
        exact h.served hj hcall hphase
      · refine h.other hij ?_
        rcases he with ⟨rfl, -⟩ | rfl <;> simp
  | woke => exact h.woke
  | quiet he hledger =>
      refine h.keep ?_ id fun t' ht' _ => ⟨t', ht', rfl, rfl, rfl, rfl, id, id⟩
      rcases he with rfl | ⟨on, rfl⟩ | rfl <;> simp

/-- **Run lemma.** So does a run. -/
theorem Follows.run {d : Database} {replicas allowanceCents : ℕ} (hperiod : d.store.period?.isSome)
    (hrun : Run (Steps (World.next cfg)) (.start cfg d replicas allowanceCents) es w)
    (hfault : ∀ f, .fault i f ∉ es) (habort : .abort i ∉ es) : Follows cfg b i es w := by
  have hrestricted := hrun.restrict (P := fun _ e => (∀ f, e ≠ .fault i f) ∧ e ≠ .abort i)
    fun _ e he => ⟨fun f heq => hfault f (heq ▸ he), fun heq => habort (heq ▸ he)⟩
  have hboth := hrestricted.invariant_trace
    (I := fun gs w => Sound cfg (World.start cfg d replicas allowanceCents).service w ∧
      Follows cfg b i gs w)
    (fun gs a e a' ⟨hs, hf⟩ ⟨⟨hfault, habort⟩, hnext⟩ =>
      ⟨hs.step hnext, hf.step hs hperiod hfault habort hnext⟩)
    ⟨.start cfg d replicas allowanceCents, fun _ => rfl, by simp [World.start],
      by simp [World.start], by simp [World.start]⟩
  exact hboth.2

/-- An import that has not gone through has a step to take, or waits for an answer. -/
theorem Pc.Books.advances {s : Service} (h : t.pc.Books cfg b t.trail) (hq : t.request.Imports b)
    (hfits : t.Fits cfg.providerPriceCents) :
    (t.advance cfg s).isSome ∨
      ∃ c, t.call = some c ∧ ∀ r, c.phase ≠ .answered r := by
  unfold Task.advance
  split
  · rw [hq.1]
    exact .inl rfl
  · exact .inl rfl
  · next hpc =>
      rw [hpc] at h
      cases h
  · next b' p hpc =>
      rw [hpc] at h
      obtain ⟨rfl, -⟩ := h
      cases p with
      | takeConnection | takeSpending | callProvider | leaveConnection => exact .inl rfl
      | flush | spend =>
          simp only [Task.importBundle]
          split <;> exact .inl rfl
      | insertJob =>
          simp only [Task.importBundle]
          split <;> exact .inl rfl
      | awaitResponse performed charged chunk =>
          obtain ⟨c, hc, -, -⟩ :=
            (Pc.calls_some (by rw [hpc]; rfl)).mp (hfits (by rw [hpc]; rfl))
          by_cases hanswered : ∃ r, c.phase = .answered r
          · obtain ⟨r, hr⟩ := hanswered
            obtain ⟨payload, phase⟩ := c
            subst hr
            simp only [Task.importBundle, hc]
            exact .inl rfl
          · exact .inr ⟨c, hc, fun r hr => hanswered ⟨r, hr⟩⟩
  · next hpc =>
      rw [hpc] at h
      cases h

/-- The figures of an import that has gone through, in the source's words. -/
theorem Booked.accounts {performed : ℕ} {charged : Int}
    (h : Booked cfg b 0 performed charged 0 t.trail) (hstopped : Stopped cfg b performed t.trail)
    (hcall : t.call = none) (hprice : cfg.priceCents = cfg.providerPriceCents) :
    Accounts cfg b performed t where
  flushes := h.flushes
  admitted := by
    have hrecords := h.records
    have hcents := h.cents
    rw [Nat.cast_zero, sub_zero] at hrecords hcents
    exact ⟨hrecords, hcents⟩
  performed_le := by
    have := h.performed_le
    omega
  charged := by
    rw [Task.amount, h.pool, add_zero, mul_comm]
  billed := by
    rw [Task.billed, h.billed, hcall, Option.elim_none, add_zero, ← hprice, mul_comm]
  stopped := by
    have hchunk : b.nextChunk performed = min enrichChunkRecords (b.records - performed) := by
      have := h.performed_le
      unfold Import.nextChunk
      omega
    rw [Stopped, hchunk] at hstopped
    exact hstopped.imp_left fun hall => by omega

/-- **Bundle accounting.** In any run of the unbounded application in which no call of the import
fails: it goes through its loops in a bounded number of steps, and always has one to take unless
the provider still owes it an answer. Once it has ended, it took on every record once and whole, and
what it added to the pool, its job, its answer and the provider's bill agree to the cent. Each
shared figure is the sum of what the requests have added to it. -/
theorem bundle_accounting {d : Database} {replicas allowanceCents : ℕ}
    (hprice : cfg.priceCents = cfg.providerPriceCents) (hperiod : d.store.period?.isSome)
    (hrow : (d.admittedWork.find? b.tenantId).isSome)
    (hrun : Run (Steps (World.next cfg)) (.start cfg d replicas allowanceCents) es w)
    (hi : w.tasks[i]? = some t) (hq : t.request.Imports b) (hfault : ∀ f, .fault i f ∉ es)
    (habort : .abort i ∉ es) :
    (es.count (.advance i) ≤ 4 * b.records + 9 ∧
      (t.pc.isEnded = false → (w.next cfg (.advance i)).isSome ∨
        ∃ c, t.call = some c ∧ c.phase.isRunning = true)) ∧
    (t.pc.isEnded = true → ∃ performed, Accounts cfg b performed t ∧
      (t.pc = .ended (.responded (.imported b.jobId b.tenantId .completed b.records
          (cfg.priceCents * performed))) ∧
        StoresJob w.service.database.store b.jobId b.tenantId b.records
          (cfg.priceCents * performed) ∨
      -- the identifier of its job was not its own
      t.pc = .ended (.raised (.store .uniqueViolation)) ∧
        (w.service.database.store.jobs.find? b.jobId).isSome)) ∧
    w.service.database.store.balance (.period .committed) =
      d.store.balance (.period .committed) + total (·.amount .pool) w.tasks ∧
    w.service.database.recordsAdmitted b.tenantId =
      d.recordsAdmitted b.tenantId + total (·.amount (.records b.tenantId)) w.tasks ∧
    w.service.database.centsAdmitted b.tenantId =
      d.centsAdmitted b.tenantId + total (·.amount (.cents b.tenantId)) w.tasks ∧
    ∀ u, w.service.provider.ledger.lookupsOf u = total (·.billed u) w.tasks := by
  have hs := (Sound.start cfg d replicas allowanceCents).run hrun
  have hfollows := Follows.run (b := b) hperiod hrun hfault habort
  have hmem := List.mem_of_getElem? hi
  refine ⟨⟨?_, fun hend => ?_⟩, fun hend => ?_, hs.books .pool trivial,
    hs.books (.records b.tenantId) hrow, hs.books (.cents b.tenantId) hrow, fun u => ?_⟩
  · have := hfollows.steps t hi hq
    omega
  · have hbooks := (hfollows.books t hi hq).resolve_right fun hfinished => by
      rw [hfinished.ended] at hend
      cases hend
    rcases hbooks.advances (s := w.service) hq (hs.fits t hmem) with hstep | ⟨c, hc, hwaits⟩
    · obtain ⟨next, hnext⟩ := Option.isSome_iff_exists.mp hstep
      refine .inl ?_
      simp [World.next, World.act, hi, hnext]
    · have halive := hfollows.live t hi hq c hc
      refine .inr ⟨c, hc, ?_⟩
      cases hphase : c.phase with
      | answered r => exact absurd hphase (hwaits r)
      | aborted => exact absurd hphase halive
      | _ => rfl
  · obtain ⟨performed, charged, hbooked, hstopped, hcall, hlast⟩ :=
      (hfollows.books t hi hq).resolve_left fun hbooks => by
        have := hbooks.steps_pos
        rw [Pc.steps_of_ended hend] at this
        omega
    obtain ⟨performed, rfl⟩ := Int.eq_ofNat_of_zero_le hbooked.performed_nonneg
    have hcharged : charged = cfg.priceCents * performed := by
      rw [hbooked.charged_eq, hprice, mul_comm]
    refine ⟨performed, hbooked.accounts hstopped hcall hprice, ?_⟩
    rcases hlast with ⟨hpc, hjob⟩ | ⟨hpc, hraised⟩
    · rw [hcharged] at hpc hjob
      exact .inl ⟨hpc, hs.jobs t hmem _ _ _ _ hjob⟩
    · refine .inr ⟨hpc, (hs.taken t hmem b _ _ hraised).resolve_left ?_⟩
      rw [hcharged]
      exact not_lt.mpr (mul_nonneg (Int.natCast_nonneg _) (Int.natCast_nonneg _))
  · have hstart : (World.start cfg d replicas allowanceCents).service.provider.ledger.lookupsOf u =
        0 := rfl
    rw [hs.bill u, hstart, zero_add]

theorem bundle_accounting_of_three_records : ∃ es w t,
    Run (Steps (World.next (.demo 4))) (.start (.demo 4) .demo 1 40000) es w ∧
    w.tasks[0]? = some t ∧ ∃ performed,
      Accounts (.demo 4) ⟨Fixtures.attackerTenantId, 3, 7⟩ performed t := by
  let es : List Event := .arrive (.demoImport 3) ::
    (List.replicate 8 (.advance 0) ++ List.replicate 2 (.resume 0) ++
      List.replicate 4 (.advance 0))
  have hrun : ∃ w t, replay (World.next (.demo 4)) (.start (.demo 4) .demo 1 40000) es = some w ∧
      w.tasks[0]? = some t ∧ t.request = .demoImport 3 ∧ t.pc.isEnded = true :=
    ⟨_, _, rfl, rfl, rfl, rfl⟩
  obtain ⟨w, t, hreplay, ht, hrequest, hend⟩ := hrun
  have haccounts := bundle_accounting (b := ⟨Fixtures.attackerTenantId, 3, 7⟩) rfl rfl rfl
    (run_of_replay hreplay) ht (by rw [hrequest]; exact ⟨rfl, 60, by decide, rfl⟩)
    (fun f => by simp [es]) (by simp [es])
  obtain ⟨performed, hperformed, -⟩ := haccounts.2.1 hend
  exact ⟨es, w, t, run_of_replay hreplay, ht, performed, hperformed⟩

end Limitless.Vulnerable
