import Limitless.Harness.Burst
import Limitless.Vulnerable.Bundle
import Limitless.Vulnerable.Counters

/-!
# Spending until a repair refuses

`_spend_until_refused` of `harness/controls.py`, against the unbounded application: ordinary
requests one after another, routed by `HalyardHTTP.target_for`, until one of them is not answered
with a `201`. `Served` is one request from its arrival to its end, among whatever else happens, and
`UntilRefused` the loop. `served_spec` says what a request does to the counters of its key; the
routing arithmetic is `turns`, how often each replica has had its turn.
-/

namespace Limitless

/-- `HalyardHTTP`, by the replicas it addresses. -/
structure HalyardHTTP where
  replicaUrls : List String
  /-- At least one replica URL is required. -/
  addressed : replicaUrls ≠ []

/-- `target_for`: round robin on the caller's sequence. -/
def HalyardHTTP.targetFor (client : HalyardHTTP) (sequence : ℕ) : String :=
  client.replicaUrls.get ⟨(sequence - 1) % client.replicaUrls.length,
    Nat.mod_lt _ (List.length_pos_iff.mpr client.addressed)⟩

namespace Vulnerable

open Indexed Runs

/-! ## Requests one after another -/

/-- What a spending loop sends: to whom, for whom, how many records in each request (`DRAIN_BATCH`),
with which repair and which client identifier, or a fresh one each time. `serves` is the replica
that answers at a URL. -/
structure Spending where
  client : HalyardHTTP
  serves : String → ℕ
  tenantId : TenantId
  records : ℕ
  halfFix : HalfFix
  clientId : Option String
  rotate : Bool

namespace Spending

/-- The names of a request. -/
def names (p : Spending) (sequence : ℕ) : List String :=
  Harness.companyNames p.records (sequence * p.records)

/-- `_enrich`, with the offset of `_spend_until_refused`. -/
def request (p : Spending) (sequence : ℕ) : Request where
  replica := p.serves (p.client.targetFor sequence)
  principal := some p.tenantId
  halfFix := some p.halfFix.value
  clientId := if p.rotate then some ("rotated-" ++ toString sequence) else p.clientId
  payload := .enrich (some (p.names sequence))

/-- How many replicas the client addresses. -/
def replicas (p : Spending) : ℕ := p.client.replicaUrls.length

theorem replicas_pos (p : Spending) : 0 < p.replicas :=
  List.length_pos_iff.mpr p.client.addressed

/-- The key its requests are counted under, where that is one. -/
def key (p : Spending) : String := HalfFixState.keyFor p.halfFix p.tenantId p.clientId

/-- It is: the repair is an allowance by tenant, or by an identifier that is not rotated. -/
def Steady (p : Spending) : Prop :=
  p.halfFix = .inProcessAllowance ∨ p.halfFix = .callerKeyedAllowance ∧ p.rotate = false

theorem Steady.keepsAllowance {p : Spending} (h : p.Steady) :
    p.halfFix.keepsAllowance = true := by
  rcases h with h | ⟨h, -⟩ <;> rw [h] <;> rfl

theorem Steady.keyFor {p : Spending} (h : p.Steady) (sequence : ℕ) :
    HalfFixState.keyFor p.halfFix p.tenantId (p.request sequence).clientId = p.key := by
  unfold key
  rcases h with h | ⟨h, hrotate⟩
  · rw [h]
    rfl
  · simp [request, hrotate]

end Spending

/-- The answer has status `201`. -/
def Task.created (t : Task) : Bool :=
  match t.pc with
  | .ended (.responded _) => true
  | _ => false

/-- A request arrives and ends; whatever else arrives meanwhile is one of the others. -/
def Served (cfg : Config) (others : Request → Prop) (w : World) (q : Request) (t : Task)
    (w' : World) : Prop :=
  ∃ es, Run (Steps (World.next cfg)) w (.arrive q :: es) w' ∧
    w'.tasks[w.tasks.length]? = some t ∧ t.pc.isEnded = true ∧ ∀ r, .arrive r ∈ es → others r

/-- `_spend_until_refused` from a sequence number on, with so many requests to go: the cents it
reports as admitted, the bytes of its bodies, and the requests it has made. -/
inductive UntilRefused (cfg : Config) (others : Request → Prop) (p : Spending) :
    ℕ → ℕ → World → ℕ → ℕ → List Task → World → Prop
  | limit {sequence : ℕ} {w : World} : UntilRefused cfg others p sequence 0 w 0 0 [] w
  | refused {sequence n : ℕ} {w w' : World} {t : Task} :
      Served cfg others w (p.request sequence) t w' → t.created = false →
      UntilRefused cfg others p sequence (n + 1) w 0
        (Harness.enrichBodyBytes (p.names sequence)) [t] w'
  | admitted {sequence n admittedCents inputBytes : ℕ} {w w' w'' : World} {t : Task}
      {tasks : List Task} :
      Served cfg others w (p.request sequence) t w' → t.created = true →
      UntilRefused cfg others p (sequence + 1) n w' admittedCents inputBytes tasks w'' →
      UntilRefused cfg others p sequence (n + 1) w (p.records * cfg.priceCents + admittedCents)
        (Harness.enrichBodyBytes (p.names sequence) + inputBytes) (t :: tasks) w''

/-- The refusal of a repair. -/
def refusedByRepair (e : Enrichment) : Pc × Exception :=
  (.enriching e .select, .limitReached .allowanceExhausted .enrich)

/-- Nothing but a repair has refused the request. -/
def Task.Undisturbed (t : Task) : Prop :=
  t.raised = none ∨ ∃ e, t.raised = some (refusedByRepair e)

/-! ## One request and the counters of its key -/

/-- A request that does not move the counters of a key any more, or never does. -/
def Task.Quiet (halfFix : HalfFix) (key : String) (t : Task) : Prop :=
  t.pc.isEnded = true ∨ t.Owned ∧ ¬ t.request.Names halfFix key

/-- Where the loop's own request stands with its repair: it has not been asked yet, has let the
request through, has refused it, or something else has ended the request. -/
inductive Own (p : Spending) (sequence spent allowanceCents cents : ℕ)
    (before now : ℕ → Option (ℕ × ℕ)) (t : Task) : Prop
  | unasked : t.request = p.request sequence → t.Owned →
      (t.pc = .authenticating ∨ (∃ u, t.pc = .reading u) ∨
        ∃ e, t.pc = .enriching e .select ∧ e.companyNames.length = p.records) →
      t.raised = none → now = before → Own p sequence spent allowanceCents cents before now t
  | passed : t.raised = none →
      ((∃ e point, point ≠ .select ∧ t.pc = .enriching e point) ∨
        ∃ response, t.pc = .ended (.responded response)) →
      spent + cents ≤ allowanceCents →
      now = Function.update before (p.request sequence).replica
        (some (spent + cents, allowanceCents)) →
      Own p sequence spent allowanceCents cents before now t
  | refused {e : Enrichment} : t.raised = some (refusedByRepair e) → t.pc.isEnded = true →
      t.created = false → allowanceCents < spent + cents → now = before →
      Own p sequence spent allowanceCents cents before now t
  | failed {pc : Pc} {exc : Exception} : t.raised = some (pc, exc) → t.pc.isEnded = true →
      (∀ e, (pc, exc) ≠ refusedByRepair e) →
      Own p sequence spent allowanceCents cents before now t

variable {cfg : Config} {s s' : Service} {t t' : Task} {p : Spending}
  {sequence spent allowanceCents cents : ℕ} {before now : ℕ → Option (ℕ × ℕ)}

/-- The repair is asked. -/
theorem Own.asked {e : Enrichment} (hsteady : p.Steady)
    (hcents : cents = p.records * cfg.priceCents)
    (hcounter : s.counters p.halfFix p.key (p.request sequence).replica =
      some (spent, allowanceCents))
    (hq : t.request = p.request sequence) (ht : t.Owned) (hraised : t.raised = none)
    (hpc : t.pc = .enriching e .select) (hlength : e.companyNames.length = p.records)
    (h : Step cfg s t s' t') :
    Own p sequence spent allowanceCents cents (s.counters p.halfFix p.key)
      (s'.counters p.halfFix p.key) t' := by
  obtain ⟨q, pc, call, trail, raised⟩ := t
  obtain rfl : q = p.request sequence := hq
  obtain rfl : pc = _ := hpc
  cases h with
  | onward hpc | sends hpc | takes hpc | charges hpc | records hpc => cases hpc
  | drains hpc | upserts hpc | inserts hpc | collides hpc => cases hpc
  | refuses hrefuses =>
      cases hrefuses with
      | unknownRepair hnone =>
          rw [show (p.request sequence).halfFix = some p.halfFix.value from rfl,
            parseHalfFix_value] at hnone
          cases hnone
  | @selects _ _ key _ _ _ _ _ hpc hfix hkey hprice hstate hconsult hout =>
      cases hpc
      -- the repair and the key it counts under are those of the loop
      cases (parseHalfFix_value p.halfFix).symm.trans hfix
      have howner : some p.tenantId = some e.tenantId := ht _ rfl
      obtain rfl : key = p.key := by
        rw [hkey, ← Option.some.inj howner, ← hsteady.keyFor sequence]
      rw [hlength, ← hcents] at hprice
      subst hprice
      have hspent := hcounter
      rw [Service.counters, hstate] at hspent
      cases hspent
      have hiff := HalfFixState.consult_iff hsteady.keepsAllowance hconsult
      rw [counters_set hstate, HalfFixState.consult_spentOn_self hsteady.keepsAllowance hconsult,
        HalfFixState.consult_allowanceCents hconsult]
      rcases hout with ⟨rfl, rfl⟩ | ⟨rfl, rfl⟩
      · refine .passed hraised (.inl ⟨_, _, ?_, rfl⟩) (hiff.mp rfl) rfl
        split <;> simp
      · refine .refused rfl rfl rfl (not_le.mp fun hle => ?_) ?_
        · cases hiff.mpr hle
        · exact Function.update_eq_self_iff.mpr (by simpa using hcounter.symm)

/-- A request that has not been read goes on, or is refused. -/
theorem Step.begins (hpc : t.pc = .authenticating ∨ ∃ u, t.pc = .reading u)
    (h : Step cfg s t s' t') :
    s' = s ∧ ((∃ pc, Onward cfg t.request t.pc pc ∧ t' = t.goto pc) ∨ ∃ exc, t' = t.raise exc) := by
  obtain ⟨q, pc, call, trail, raised⟩ := t
  cases h with
  | onward hon => exact ⟨rfl, .inl ⟨_, hon, rfl⟩⟩
  | refuses => exact ⟨rfl, .inr ⟨_, rfl⟩⟩
  | sends hon | takes hon | charges hon | records hon =>
      rcases hpc with rfl | ⟨u, rfl⟩ <;> cases hon
  | selects hat | drains hat | upserts hat | inserts hat | collides hat =>
      rcases hpc with rfl | ⟨u, rfl⟩ <;> cases hat

/-- A request that its repair has let through goes on, is created, or is refused by something
else. -/
theorem Step.passes {e : Enrichment} {point : EnrichPoint} (hpoint : point ≠ .select)
    (hpc : t.pc = .enriching e point) (h : Step cfg s t s' t') :
    t'.raised = t.raised ∧ ((∃ point', point' ≠ .select ∧ t'.pc = .enriching e point') ∨
        ∃ response, t'.pc = .ended (.responded response)) ∨
      ∃ exc, t' = t.raise exc := by
  obtain ⟨q, pc, call, trail, raised⟩ := t
  obtain rfl : pc = _ := hpc
  cases h with
  | onward hon =>
      cases hon with
      | connected | hadEarly => exact .inl ⟨rfl, .inl ⟨_, by simp, rfl⟩⟩
      | enriched => exact .inl ⟨rfl, .inr ⟨_, rfl⟩⟩
  | sends hon | takes hon | charges hon | records hon =>
      cases hon <;> exact .inl ⟨rfl, .inl ⟨_, by simp, rfl⟩⟩
  | selects hpc =>
      cases hpc
      exact absurd rfl hpoint
  | upserts hpc =>
      cases hpc
      exact .inl ⟨rfl, .inl ⟨_, by simp, rfl⟩⟩
  | drains hpc | inserts hpc | collides hpc => cases hpc
  | refuses => exact .inr ⟨_, rfl⟩

/-- A step of the loop's own request. -/
theorem Own.step (hsteady : p.Steady)
    (hcents : cents = p.records * cfg.priceCents)
    (hcounter : before (p.request sequence).replica = some (spent, allowanceCents))
    (h : Step cfg s t s' t')
    (hown : Own p sequence spent allowanceCents cents before (s.counters p.halfFix p.key) t) :
    Own p sequence spent allowanceCents cents before (s'.counters p.halfFix p.key) t' := by
  have hend := h.not_ended
  cases hown with
  | refused _ hended | failed _ hended =>
      rw [hended] at hend
      cases hend
  | passed hraised hpc hfits hnow =>
      rcases hpc with ⟨e, point, hpoint, hpc⟩ | ⟨response, hpc⟩
      · have hfixes := h.halfFixes fun e' hselect => by
          rw [hpc] at hselect
          cases hselect
          exact hpoint rfl
        rcases h.passes hpoint hpc with ⟨hraised', hpc'⟩ | ⟨exc, rfl⟩
        · refine .passed (hraised'.trans hraised)
            (hpc'.imp_left fun ⟨point', hp⟩ => ⟨e, point', hp⟩) hfits ?_
          rw [← hnow]
          unfold Service.counters
          rw [hfixes]
        · refine .failed rfl rfl fun e' he => ?_
          rw [refusedByRepair, hpc] at he
          cases he
          exact hpoint rfl
      · rw [hpc] at hend
        cases hend
  | unasked hq ht hpc hraised hnow =>
      have hasked : (t.pc = .authenticating ∨ ∃ u, t.pc = .reading u) ∨
          ∃ e, t.pc = .enriching e .select ∧ e.companyNames.length = p.records := by tauto
      rcases hasked with hreads | ⟨e, hpc, hlength⟩
      · obtain ⟨rfl, ⟨pc, hon, rfl⟩ | ⟨exc, rfl⟩⟩ := h.begins hreads
        · refine .unasked hq (h.owned ht) ?_ hraised hnow
          rw [hq] at hon
          generalize t.pc = pc₀ at hon hreads
          rcases hreads with rfl | ⟨u, rfl⟩
          · cases hon
            exact .inr (.inl ⟨_, rfl⟩)
          · cases hon with
            | readEnrich hpayload =>
                cases hpayload
                exact .inr (.inr ⟨_, rfl, by simp [Spending.names, Harness.companyNames]⟩)
            | readImport hpayload => cases hpayload
        · refine .failed rfl rfl fun e he => ?_
          have hpc' : t.pc = .enriching e .select := (Prod.mk.inj he).1
          rcases hreads with hreads | ⟨u, hreads⟩ <;> rw [hreads] at hpc' <;> cases hpc'
      · subst hnow
        exact Own.asked hsteady hcents hcounter hq ht hraised hpc hlength h

/-! ## Serving a request -/

theorem Task.Quiet.call {halfFix : HalfFix} {key : String} (h : t.Quiet halfFix key)
    (call : Option Call) : Task.Quiet halfFix key { t with call := call } := h

theorem Own.call (h : Own p sequence spent allowanceCents cents before now t)
    (call : Option Call) :
    Own p sequence spent allowanceCents cents before now { t with call := call } := by
  cases h with
  | unasked hq ht hpc hraised hnow => exact .unasked hq ht hpc hraised hnow
  | passed hraised hpc hfits hnow => exact .passed hraised hpc hfits hnow
  | refused hraised hended hcreated hover hnow => exact .refused hraised hended hcreated hover hnow
  | failed hraised hended hne => exact .failed hraised hended hne

/-- Something from outside ends the loop's own request. -/
theorem Own.raise {exc : Exception} (hexc : ∀ kind operation, exc ≠ .limitReached kind operation) :
    Own p sequence spent allowanceCents cents before now (t.raise exc) :=
  .failed rfl rfl fun _ he => hexc .allowanceExhausted .enrich (Prod.mk.inj he).2

theorem Task.Quiet.raise {halfFix : HalfFix} {key : String} (t : Task) (exc : Exception) :
    (t.raise exc).Quiet halfFix key := .inl rfl

/-- A request that does not move the counters of a key goes on not doing so. -/
theorem Step.quiet {halfFix : HalfFix} {key : String} (h : Step cfg s t s' t')
    (hquiet : t.Quiet halfFix key) :
    t'.Quiet halfFix key ∧ s'.counters halfFix key = s.counters halfFix key := by
  rcases hquiet with hended | ⟨ht, hnames⟩
  · rw [h.not_ended] at hended
    cases hended
  · refine ⟨.inr ⟨h.owned ht, ?_⟩, h.counters ht hnames⟩
    rwa [h.request]

/-- While a request of the loop is served: it is the one at a position, and no other moves the
counters of its key. -/
structure Serving (p : Spending) (sequence spent allowanceCents cents i : ℕ)
    (before : ℕ → Option (ℕ × ℕ)) (w : World) : Prop where
  own : ∀ t, w.tasks[i]? = some t → Own p sequence spent allowanceCents cents before
    (w.service.counters p.halfFix p.key) t
  others : ∀ j t, j ≠ i → w.tasks[j]? = some t → t.Quiet p.halfFix p.key
  within : i < w.tasks.length

variable {w w' : World} {e : Event} {i : ℕ}

/-- **Step lemma.** An event while a request of the loop is served. -/
theorem Serving.step (hsteady : p.Steady)
    (hcents : cents = p.records * cfg.priceCents)
    (hcounter : before (p.request sequence).replica = some (spent, allowanceCents))
    (hothers : ∀ q, e = .arrive q → ¬ q.Names p.halfFix p.key)
    (h : Serving p sequence spent allowanceCents cents i before w)
    (hnext : w.next cfg e = some w') :
    Serving p sequence spent allowanceCents cents i before w' := by
  -- the request at one position becomes another, and the counters stay as they are
  have hset : ∀ {k : ℕ} {t t' : Task} {s' : Service}, w.tasks[k]? = some t →
      s'.counters p.halfFix p.key = w.service.counters p.halfFix p.key →
      (Own p sequence spent allowanceCents cents before
        (w.service.counters p.halfFix p.key) t → Own p sequence spent allowanceCents cents before
        (w.service.counters p.halfFix p.key) t') →
      (t.Quiet p.halfFix p.key → t'.Quiet p.halfFix p.key) →
      Serving p sequence spent allowanceCents cents i before ⟨s', w.tasks.set k t'⟩ := by
    intro k t t' s' hk hcounters hown hquiet
    refine ⟨fun x hx => ?_, fun j x hj hx => ?_, by simpa using h.within⟩
    · rw [hcounters]
      rcases getElem?_set_cases hx with ⟨rfl, rfl⟩ | ⟨-, hx⟩
      exacts [hown (h.own t hk), h.own x hx]
    · rcases getElem?_set_cases hx with ⟨rfl, rfl⟩ | ⟨-, hx⟩
      exacts [hquiet (h.others j t hj hk), h.others j x hj hx]
  cases moves_of_next hnext with
  | @arrived q hreplica =>
      refine ⟨fun x hx => ?_, fun j x hj hx => ?_, ?_⟩
      · rw [List.getElem?_append_left h.within] at hx
        exact h.own x hx
      · rcases getElem?_concat_cases hx with hx | ⟨-, rfl⟩
        · exact h.others j x hj hx
        · refine .inr ⟨fun u hu => ?_, hothers q rfl⟩
          cases hu
      · simpa using h.within.trans (Nat.lt_succ_self _)
  | @advanced k t t' s' hk hadvance =>
      have hstep := step_of_advance hadvance
      by_cases hki : k = i
      · subst hki
        refine ⟨fun x hx => ?_, fun j x hj hx => ?_, by simpa using h.within⟩
        · rcases getElem?_set_cases hx with ⟨-, rfl⟩ | ⟨hne, -⟩
          · exact (h.own t hk).step hsteady hcents hcounter hstep
          · exact absurd rfl hne
        · rcases getElem?_set_cases hx with ⟨rfl, -⟩ | ⟨-, hx⟩
          exacts [absurd rfl hj, h.others j x hj hx]
      · obtain ⟨hquiet, hcounters⟩ := hstep.quiet (h.others k t hki hk)
        refine ⟨fun x hx => ?_, fun j x hj hx => ?_, by simpa using h.within⟩
        · rw [hcounters]
          rcases getElem?_set_cases hx with ⟨rfl, -⟩ | ⟨-, hx⟩
          exacts [absurd rfl hki, h.own x hx]
        · rcases getElem?_set_cases hx with ⟨-, rfl⟩ | ⟨-, hx⟩
          exacts [hquiet, h.others j x hj hx]
  | struck hk =>
      refine hset hk rfl (fun _ => Own.raise fun kind operation => ?_) fun _ => .raise _ _
      cases ‹Fault› <;> simp [Fault.exception]
  | timedOut hk => exact hset hk rfl (fun _ => Own.raise (by simp)) fun _ => .raise _ _
  | served _ hk => exact hset hk rfl (Own.call · _) (Task.Quiet.call · _)
  | woke =>
      refine ⟨fun x hx => ?_, fun j x hj hx => ?_, by simpa using h.within⟩
      · rw [List.getElem?_map] at hx
        obtain ⟨t, ht, rfl⟩ := Option.map_eq_some_iff.mp hx
        exact (h.own t ht).call _
      · rw [List.getElem?_map] at hx
        obtain ⟨t, ht, rfl⟩ := Option.map_eq_some_iff.mp hx
        exact (h.others j t hj ht).call _
  | quiet => exact ⟨h.own, h.others, h.within⟩

/-- What a request of the loop comes to, where nothing but its repair refuses it: it is created
exactly if it fits its replica's counter, and only that counter counts it. -/
theorem Served.spec {others : Request → Prop} (hsteady : p.Steady)
    (hquiet : ∀ t ∈ w.tasks, t.Quiet p.halfFix p.key)
    (hothers : ∀ q, others q → ¬ q.Names p.halfFix p.key)
    (hcounter : w.service.counters p.halfFix p.key (p.request sequence).replica =
      some (spent, allowanceCents))
    (h : Served cfg others w (p.request sequence) t w') (hundisturbed : t.Undisturbed) :
    (∀ x ∈ w'.tasks, x.Quiet p.halfFix p.key) ∧
      (t.created = true ∧ spent + p.records * cfg.priceCents ≤ allowanceCents ∧
        w'.service.counters p.halfFix p.key =
          Function.update (w.service.counters p.halfFix p.key) (p.request sequence).replica
            (some (spent + p.records * cfg.priceCents, allowanceCents)) ∨
      t.created = false ∧ allowanceCents < spent + p.records * cfg.priceCents ∧
        w'.service.counters p.halfFix p.key = w.service.counters p.halfFix p.key) := by
  obtain ⟨es, hrun, ht, hended, hes⟩ := h
  cases hrun with
  | @cons _ w₁ _ _ _ harrive hrun =>
      have hstart : Serving p sequence spent allowanceCents (p.records * cfg.priceCents)
          w.tasks.length (w.service.counters p.halfFix p.key) w₁ := by
        cases moves_of_next harrive with
        | arrived =>
            refine ⟨fun x hx => ?_, fun j x hj hx => ?_, by simp⟩
            · rw [List.getElem?_concat_length] at hx
              cases hx
              exact .unasked rfl (fun u hu => by cases hu) (.inl rfl) rfl rfl
            · rcases getElem?_concat_cases hx with hx | ⟨rfl, -⟩
              exacts [hquiet x (List.mem_of_getElem? hx), absurd rfl hj]
        | served he => rcases he with ⟨he, -⟩ | he <;> cases he
        | quiet he => rcases he with he | ⟨_, he⟩ | he <;> cases he
      have hserving := hrun.invariant_mem (fun _ e he _ hserving hnext => hserving.step hsteady rfl
        hcounter (fun q hq => hothers q (hes q (hq ▸ he))) hnext) hstart
      refine ⟨fun x hx => ?_, ?_⟩
      · obtain ⟨j, hj⟩ := List.mem_iff_getElem?.mp hx
        by_cases hne : j = w.tasks.length
        · subst hne
          cases ht.symm.trans hj
          exact .inl hended
        · exact hserving.others j x hne hj
      cases hserving.own t ht with
      | unasked _ _ hpc =>
          exfalso
          rcases hpc with hpc | ⟨u, hpc⟩ | ⟨e, hpc, -⟩ <;> rw [hpc] at hended <;> cases hended
      | passed hraised hpc hfits hnow =>
          rcases hpc with ⟨e, point, -, hpc⟩ | ⟨response, hpc⟩
          · rw [hpc] at hended
            cases hended
          · exact .inl ⟨by unfold Task.created; rw [hpc], hfits, hnow⟩
      | refused _ _ hcreated hover hnow => exact .inr ⟨hcreated, hover, hnow⟩
      | failed hraised _ hne =>
          rcases hundisturbed with hnone | ⟨e, hsome⟩
          · rw [hraised] at hnone
            cases hnone
          · rw [hraised] at hsome
            exact absurd (Option.some.inj hsome) (hne e)

/-! ## The turns of a round robin -/

section

/-- How often a replica has had its turn, after so many turns of so many replicas. -/
def turns (replicas turn replica : ℕ) : ℕ := (turn + replicas - 1 - replica) / replicas

variable {replicas turn replica : ℕ}

theorem turns_zero (h : replica < replicas) : turns replicas 0 replica = 0 :=
  Nat.div_eq_of_lt (by omega)

/-- The one whose turn it is has had one for each full round. -/
theorem turns_current (h : 0 < replicas) :
    turns replicas turn (turn % replicas) = turn / replicas := by
  have hlt := Nat.mod_lt turn h
  have hturn := Nat.div_add_mod turn replicas
  unfold turns
  rw [show turn + replicas - 1 - turn % replicas = replicas - 1 + replicas * (turn / replicas) by
    omega, Nat.add_mul_div_left _ _ h, Nat.div_eq_of_lt (by omega), zero_add]

/-- A turn is one of the replica whose turn it is. -/
theorem turns_succ (h : replica < replicas) : turns replicas (turn + 1) replica =
    turns replicas turn replica + if replica = turn % replicas then 1 else 0 := by
  have hlt := Nat.mod_lt turn (show 0 < replicas by omega)
  have hturn := Nat.div_add_mod turn replicas
  have hiff : replicas ∣ turn + replicas - 1 - replica + 1 ↔ replica = turn % replicas := by
    rw [show turn + replicas - 1 - replica + 1 =
      replicas * (turn / replicas) + (turn % replicas + replicas - replica) by omega,
      Nat.dvd_add_right (Nat.dvd_mul_right ..)]
    constructor
    · rintro ⟨rounds, hrounds⟩
      -- it is a positive multiple below twice the number of replicas
      have hone : rounds = 1 := by
        rcases rounds with _ | _ | rounds
        · omega
        · rfl
        · have := Nat.mul_le_mul_left replicas (show 2 ≤ rounds + 1 + 1 by omega)
          omega
      subst hone
      omega
    · intro heq
      exact ⟨1, by omega⟩
  unfold turns
  rw [show turn + 1 + replicas - 1 - replica = turn + replicas - 1 - replica + 1 by omega,
    Nat.succ_div, if_congr hiff rfl rfl]

end

/-! ## The loop -/

namespace Spending

theorem request_replica (p : Spending) (turn : ℕ) :
    (p.request (turn + 1)).replica = (p.request (turn % p.replicas + 1)).replica := by
  simp [request, HalyardHTTP.targetFor, replicas]

/-- Another place in the round is another replica. -/
theorem request_replica_inj (hnodup : (p.client.replicaUrls.map p.serves).Nodup) {k turn : ℕ}
    (hk : k < p.replicas) :
    (p.request (k + 1)).replica = (p.request (turn + 1)).replica ↔ k = turn % p.replicas := by
  rw [p.request_replica turn]
  have hturn : turn % p.replicas < p.replicas := Nat.mod_lt _ p.replicas_pos
  have hget : ∀ j, (hj : j < p.replicas) → (p.request (j + 1)).replica =
      (p.client.replicaUrls.map p.serves).get ⟨j, (List.length_map p.serves).symm ▸ hj⟩ := by
    intro j hj
    have hmod : j % p.client.replicaUrls.length = j := Nat.mod_eq_of_lt hj
    simp [request, HalyardHTTP.targetFor, hmod]
  rw [hget k hk, hget _ hturn, hnodup.get_inj_iff]
  simp

end Spending

/-- The loop, from a turn on at which every replica has counted the requests it has had, and a
replica's counter holds so many requests. -/
theorem UntilRefused.admits {others : Request → Prop} {n admittedCents inputBytes : ℕ}
    {tasks : List Task} (hsteady : p.Steady)
    (hcents : cents = p.records * cfg.priceCents) (hpos : 0 < cents)
    (hnodup : (p.client.replicaUrls.map p.serves).Nodup)
    (hothers : ∀ q, others q → ¬ q.Names p.halfFix p.key)
    (hrun : UntilRefused cfg others p sequence n w admittedCents inputBytes tasks w') :
    ∀ turn, sequence = turn + 1 → turn ≤ p.replicas * (allowanceCents / cents) →
      p.replicas * (allowanceCents / cents) ≤ turn + n →
      (∀ k < p.replicas, w.service.counters p.halfFix p.key (p.request (k + 1)).replica =
        some (turns p.replicas turn k * cents, allowanceCents)) →
      (∀ t ∈ w.tasks, t.Quiet p.halfFix p.key) → (∀ t ∈ tasks, t.Undisturbed) →
      admittedCents = (p.replicas * (allowanceCents / cents) - turn) * cents := by
  have hcurrent : ∀ {w : World} {turn : ℕ}, (∀ k < p.replicas,
      w.service.counters p.halfFix p.key (p.request (k + 1)).replica =
        some (turns p.replicas turn k * cents, allowanceCents)) →
      w.service.counters p.halfFix p.key (p.request (turn + 1)).replica =
        some (turn / p.replicas * cents, allowanceCents) := by
    intro w turn hcounters
    rw [p.request_replica turn, hcounters _ (Nat.mod_lt _ p.replicas_pos),
      turns_current p.replicas_pos]
  have hfits : ∀ {turn : ℕ}, turn / p.replicas * cents + cents ≤ allowanceCents ↔
      turn < p.replicas * (allowanceCents / cents) := by
    intro turn
    rw [← Nat.succ_mul, ← Nat.le_div_iff_mul_le hpos, Nat.succ_le_iff,
      Nat.div_lt_iff_lt_mul p.replicas_pos, mul_comm]
  induction hrun with
  | limit =>
      intro turn _ hle hlimit _ _ _
      rw [show p.replicas * (allowanceCents / cents) - turn = 0 by omega, zero_mul]
  | refused hserved hcreated =>
      rintro turn rfl hle - hcounters hquiet hundisturbed
      have hspec := hserved.spec hsteady hquiet hothers (hcurrent hcounters)
        (hundisturbed _ List.mem_cons_self)
      rw [← hcents] at hspec
      rcases hspec.2 with ⟨htrue, -⟩ | ⟨-, hover, -⟩
      · rw [hcreated] at htrue
        cases htrue
      · have hnot := hfits.not.mp (not_le.mpr hover)
        rw [show p.replicas * (allowanceCents / cents) - turn = 0 by omega, zero_mul]
  | admitted hserved hcreated _ ih =>
      rintro turn rfl hle hlimit hcounters hquiet hundisturbed
      have hspec := hserved.spec hsteady hquiet hothers (hcurrent hcounters)
        (hundisturbed _ List.mem_cons_self)
      rw [← hcents] at hspec
      obtain ⟨hquiet', ⟨-, hle', hupdate⟩ | ⟨hfalse, -⟩⟩ := hspec
      · have hlt := hfits.mp hle'
        have hrest := ih (turn + 1) rfl (by omega) (by omega) (fun k hk => ?_) hquiet'
          fun x hx => hundisturbed x (List.mem_cons_of_mem _ hx)
        · rw [hrest, ← hcents, add_comm, ← Nat.succ_mul]
          congr 1
          omega
        · rw [hupdate, turns_succ hk]
          by_cases hcurrent' : k = turn % p.replicas
          · subst hcurrent'
            rw [← p.request_replica turn, Function.update_self, if_pos rfl,
              turns_current p.replicas_pos, Nat.succ_mul]
          · rw [Function.update_of_ne, hcounters k hk, if_neg hcurrent', add_zero]
            exact fun heq => hcurrent' ((Spending.request_replica_inj hnodup hk).mp heq)
      · rw [hcreated] at hfalse
        cases hfalse

/-- **An in-process allowance is multiplied by the number of processes.** Spent in requests of one
price, round robin, it admits what fits into it at every replica, before the first refusal; and
however the requests are sent, no process admits more than the allowance to a key, and all of them
together no more than it times their number. -/
theorem allowance_multiplied (cfg : Config) :
    (∀ (p : Spending) (others : Request → Prop) (w w' : World) (allowanceCents limit admittedCents
        inputBytes : ℕ) (tasks : List Task),
      p.Steady →
      -- the replicas are as many processes, none of which has counted anything under the key
      (p.client.replicaUrls.map p.serves).Nodup →
      (∀ url ∈ p.client.replicaUrls,
        w.service.counters p.halfFix p.key (p.serves url) = some (0, allowanceCents)) →
      -- nothing else is counted under it
      (∀ t ∈ w.tasks, t.Quiet p.halfFix p.key) →
      (∀ q, others q → ¬ q.Names p.halfFix p.key) →
      0 < p.records * cfg.priceCents →
      p.replicas * (allowanceCents / (p.records * cfg.priceCents)) ≤ limit →
      UntilRefused cfg others p 1 limit w admittedCents inputBytes tasks w' →
      (∀ t ∈ tasks, t.Undisturbed) →
      admittedCents = p.replicas * (allowanceCents / (p.records * cfg.priceCents)) *
        (p.records * cfg.priceCents)) ∧
    ∀ (d : Database) (replicas allowanceCents : ℕ) (es : List Event) (w : World), 1 ≤ replicas →
      Run (Steps (World.next cfg)) (.start cfg d replicas allowanceCents) es w →
      ∀ halfFix : HalfFix, halfFix.keepsAllowance = true → ∀ key,
        total (Task.granted halfFix key) w.tasks ≤ replicas * allowanceCents ∧
          ∀ state ∈ w.service.halfFixes, state.spentOn halfFix key ≤ allowanceCents := by
  constructor
  · intro p others w w' allowanceCents limit admittedCents inputBytes tasks hsteady hnodup hfresh
      hquiet hothers hpos hlimit hrun hundisturbed
    have hadmits := hrun.admits hsteady rfl hpos hnodup hothers 0 rfl (Nat.zero_le _)
      (by rwa [zero_add]) (fun k hk => ?_) hquiet hundisturbed
    · rw [hadmits, Nat.sub_zero]
    · rw [turns_zero hk, zero_mul]
      exact hfresh _ (List.get_mem _ _)
  · intro d replicas allowanceCents es w hreplicas hrun halfFix hkeeps key
    refine ⟨granted_le hreplicas hrun hkeeps key, fun state hmem => ?_⟩
    exact (((Held.run hreplicas hrun).spent state hmem) halfFix hkeeps).2 key

/-- Two records in each request, sent to two replicas in turn. -/
def Spending.demo : Spending where
  client := ⟨["http://vuln-a:8000", "http://vuln-b:8000"], by decide⟩
  serves url := if url = "http://vuln-a:8000" then 0 else 1
  tenantId := Fixtures.attackerTenantId
  records := 2
  halfFix := .inProcessAllowance
  clientId := none
  rotate := false

/-- A request at a position, from its arrival until the repair is asked. -/
def askEvents (q : Request) (i : ℕ) : List Event := [.arrive q, .advance i, .advance i]

/-- From then on, where it goes through. -/
def spendEvents (i : ℕ) : List Event :=
  List.replicate 4 (.advance i) ++ List.replicate 2 (.resume i) ++ List.replicate 3 (.advance i)

/-- A request that arrives and ends, alone. -/
theorem served_of_replay {w w₁ w₂ w' : World} {q : Request} {t : Task} {es : List Event}
    (hask : replay (World.next cfg) w (askEvents q w.tasks.length) = some w₁)
    (hselect : w₁.next cfg (.advance w.tasks.length) = some w₂)
    (hspend : replay (World.next cfg) w₂ es = some w')
    (ht : w'.tasks[w.tasks.length]? = some t) (hended : t.pc.isEnded = true)
    (hes : ∀ r, .arrive r ∉ es) : Served cfg (fun _ => False) w q t w' := by
  have hrun := (run_of_replay hask).append (.cons hselect (run_of_replay hspend))
  refine ⟨_, hrun, ht, hended, fun r hr => hes r ?_⟩
  simpa using hr

/-- Of an allowance of twelve cents, eight are admitted at each replica. -/
theorem allowance_multiplied_of_two_replicas : ∃ inputBytes tasks w,
    UntilRefused (.demo 4) (fun _ => False) .demo 1 40 (.start (.demo 4) .demo 2 12) 16 inputBytes
      tasks w ∧
      16 = 2 * (12 / 8) * 8 := by
  have hfix := parseHalfFix_value .inProcessAllowance
  have hrun : ∃ v₁ u₁ w₁ t₁ v₂ u₂ w₂ t₂ v₃ w₃ t₃,
      (replay (World.next (.demo 4)) (.start (.demo 4) .demo 2 12)
          (askEvents (Spending.demo.request 1) 0) = some v₁ ∧
        v₁.next (.demo 4) (.advance 0) = some u₁ ∧
        replay (World.next (.demo 4)) u₁ (spendEvents 0) = some w₁ ∧
        w₁.tasks[0]? = some t₁ ∧ t₁.pc.isEnded = true ∧ t₁.created = true ∧ t₁.raised = none) ∧
      (replay (World.next (.demo 4)) w₁
          (askEvents (Spending.demo.request 2) w₁.tasks.length) = some v₂ ∧
        v₂.next (.demo 4) (.advance w₁.tasks.length) = some u₂ ∧
        replay (World.next (.demo 4)) u₂ (spendEvents 1) = some w₂ ∧
        w₂.tasks[w₁.tasks.length]? = some t₂ ∧ t₂.pc.isEnded = true ∧ t₂.created = true ∧
        t₂.raised = none) ∧
      (replay (World.next (.demo 4)) w₂
          (askEvents (Spending.demo.request 3) w₂.tasks.length) = some v₃ ∧
        v₃.next (.demo 4) (.advance w₂.tasks.length) = some w₃ ∧
        w₃.tasks[w₂.tasks.length]? = some t₃ ∧ t₃.pc.isEnded = true ∧ t₃.created = false ∧
        t₃.raised = some (refusedByRepair
          ⟨Fixtures.attackerTenantId, Harness.companyNames 2 6⟩)) :=
    ⟨_, _, _, _, _, _, _, _, _, _, _,
      ⟨rfl, World.next_select rfl rfl hfix rfl rfl, rfl, rfl, rfl, rfl, rfl⟩,
      ⟨rfl, World.next_select rfl rfl hfix rfl rfl, rfl, rfl, rfl, rfl, rfl⟩,
      rfl, World.next_select rfl rfl hfix rfl rfl, rfl, rfl, rfl, rfl⟩
  obtain ⟨v₁, u₁, w₁, t₁, v₂, u₂, w₂, t₂, v₃, w₃, t₃,
    ⟨hask₁, hselect₁, hspend₁, ht₁, hended₁, hcreated₁, hraised₁⟩,
    ⟨hask₂, hselect₂, hspend₂, ht₂, hended₂, hcreated₂, hraised₂⟩,
    hask₃, hselect₃, ht₃, hended₃, hcreated₃, hraised₃⟩ := hrun
  have hevents : ∀ i r, Event.arrive r ∉ spendEvents i := by
    intro i r
    simp [spendEvents]
  have hdone : replay (World.next (.demo 4)) w₃ [] = some w₃ := rfl
  have hloop : UntilRefused (.demo 4) (fun _ => False) .demo 1 40
      (.start (.demo 4) .demo 2 12) 16 _ [t₁, t₂, t₃] w₃ :=
    .admitted (served_of_replay hask₁ hselect₁ hspend₁ ht₁ hended₁ (hevents 0)) hcreated₁
      (.admitted (served_of_replay hask₂ hselect₂ hspend₂ ht₂ hended₂ (hevents 1)) hcreated₂
        (.refused (served_of_replay hask₃ hselect₃ hdone ht₃ hended₃ (by simp)) hcreated₃))
  refine ⟨_, _, w₃, hloop, ?_⟩
  refine (allowance_multiplied (.demo 4)).1 .demo _ _ w₃ 12 40 16 _ _ (.inl rfl) (by decide) ?_
    ?_ ?_ (by decide) (by decide) hloop ?_
  · intro url hurl
    rcases List.mem_pair.mp hurl with rfl | rfl <;> rfl
  · simp [World.start]
  · simp
  · intro t ht
    simp only [List.mem_cons, List.not_mem_nil, or_false] at ht
    rcases ht with rfl | rfl | rfl
    exacts [.inl hraised₁, .inl hraised₂, .inr ⟨_, hraised₃⟩]

end Vulnerable

end Limitless
