import Limitless.Harness.Controls
import Limitless.Vulnerable.Billing
import Limitless.Vulnerable.Drain

/-!
# The undivided budget

`undivided_budget` of `harness/vulnerable.py`, against the unbounded application: ordinary requests
of one tenant until the first `429`, one more for what the provider's bill says is left, and then a
small request of everybody else. Its requests come one after the other (`ServedInTurn`). `Idle` is
what holds of the world between them, and `Served.spent` what one of them spends. Whatever the
budget, the price and the sizes are, the scenario reproduces: the bill says truly what is left of
the pool, so the pool is emptied to the last lookup (`undivided_budget_reproduces`).
-/

namespace Limitless.Vulnerable

open Indexed Runs

/-! ## The scenario -/

/-- What `undivided_budget` is set up with. -/
structure UndividedBudget where
  /-- The replica behind the one URL that the client addresses. -/
  replica : ℕ
  attackerTenantId : TenantId
  bystanderTenantIds : List TenantId
  drainBatchRecords : ℕ
  drainMaxRequests : ℕ
  globalSpendCapCents : Int
  lookupPriceCents : ℕ

/-- The answer has status `429`. -/
def Task.refused (t : Task) : Bool :=
  match t.pc with
  | .ended (.raised (.limitReached .allowanceExhausted _)) => true
  | _ => false

/-- Requests one after the other, whatever they are answered. -/
inductive ServedInTurn (cfg : Config) : List Request → World → List Task → World → Prop
  | nil {w : World} : ServedInTurn cfg [] w [] w
  | cons {q : Request} {qs : List Request} {w w' w'' : World} {t : Task} {tasks : List Task} :
      Served cfg (fun _ => False) w q t w' → ServedInTurn cfg qs w' tasks w'' →
      ServedInTurn cfg (q :: qs) w (t :: tasks) w''

namespace UndividedBudget

/-- `client.enrich`. -/
def enrich (p : UndividedBudget) (tenantId : TenantId) (names : List String) : Request where
  replica := p.replica
  principal := some tenantId
  halfFix := none
  clientId := none
  payload := .enrich (some names)

/-- The loop that drains the pool, from a sequence number on, with so many requests to go. -/
inductive Drains (cfg : Config) (p : UndividedBudget) :
    ℕ → ℕ → World → List Task → World → Prop
  | limit {sequence : ℕ} {w : World} : Drains cfg p sequence 0 w [] w
  | refused {sequence n : ℕ} {w w' : World} {t : Task} :
      Served cfg (fun _ => False) w (p.enrich p.attackerTenantId
        (Harness.companyNames p.drainBatchRecords (sequence * p.drainBatchRecords))) t w' →
      t.refused = true → Drains cfg p sequence (n + 1) w [t] w'
  | admitted {sequence n : ℕ} {w w' w'' : World} {t : Task} {tasks : List Task} :
      Served cfg (fun _ => False) w (p.enrich p.attackerTenantId
        (Harness.companyNames p.drainBatchRecords (sequence * p.drainBatchRecords))) t w' →
      t.refused = false → Drains cfg p (sequence + 1) n w' tasks w'' →
      Drains cfg p sequence (n + 1) w (t :: tasks) w''

/-- The lookups that are left, by the provider's bill. -/
def leftover (p : UndividedBudget) (w : World) : Int :=
  (p.globalSpendCapCents - w.service.provider.ledger.totalCents) / p.lookupPriceCents

/-- The request that takes exactly what is left, if anything is. -/
def takeLeftover (p : UndividedBudget) (w : World) : List Request :=
  if p.leftover w > 0 then
    [p.enrich p.attackerTenantId (Harness.companyNames (p.leftover w).toNat 900000)]
  else []

/-- The requests of the tenants that have spent nothing. -/
def probes (p : UndividedBudget) : List Request :=
  p.bystanderTenantIds.map fun u => p.enrich u (Harness.companyNames 10 0)

/-- The scenario: the requests of its three parts, and the worlds between them. -/
structure Ran (cfg : Config) (p : UndividedBudget) (w : World) (drained : List Task) (w₁ : World)
    (left : List Task) (w₂ : World) (probed : List Task) (w₃ : World) : Prop where
  drained : p.Drains cfg 1 p.drainMaxRequests w drained w₁
  left : ServedInTurn cfg (p.takeLeftover w₁) w₁ left w₂
  probed : ServedInTurn cfg p.probes w₂ probed w₃

/-- `reproduced`: every bystander was refused. -/
def Reproduced (p : UndividedBudget) (probed : List Task) : Prop :=
  (probed.filter fun t => !t.created).length = p.bystanderTenantIds.length

theorem enrich_ordinary (p : UndividedBudget) (u : TenantId) (names : List String) :
    (p.enrich u names).Ordinary u names := ⟨rfl, rfl, rfl⟩

end UndividedBudget

variable {cfg : Config} {s s' : Service} {t t' : Task} {w w' : World} {e : Event}

/-! ## One request after the others -/

/-- What a request that has ended keeps. -/
def Task.past (t : Task) : Request × Pc × List Effect := (t.request, t.pc, t.trail)

/-- An event while one request is under way and the others have ended moves that one alone. -/
theorem moves_last {olds : List Task} (hended : ∀ t ∈ olds, t.pc.isEnded = true)
    (harrive : ∀ q, e ≠ .arrive q) (hw : w.tasks = olds ++ [t]) (hnext : w.next cfg e = some w') :
    ∃ olds' t', w'.tasks = olds' ++ [t'] ∧ olds'.map Task.past = olds.map Task.past ∧
      t'.request = t.request := by
  have hset : ∀ {i : ℕ} {x x' : Task}, w.tasks[i]? = some x →
      (x.pc.isEnded = true → x'.past = x.past) → x'.request = x.request →
      ∃ olds' t', w.tasks.set i x' = olds' ++ [t'] ∧ olds'.map Task.past = olds.map Task.past ∧
        t'.request = t.request := by
    intro i x x' hi hpast hrequest
    rw [hw] at hi ⊢
    rcases lt_or_ge i olds.length with hlt | hge
    · rw [List.getElem?_append_left hlt] at hi
      refine ⟨olds.set i x', t, ?_, ?_, rfl⟩
      · rw [List.set_append_left _ _ hlt]
      · have hsame := hpast (hended x (List.mem_of_getElem? hi))
        rw [List.map_set, hsame]
        refine List.ext_getElem? fun k => ?_
        by_cases hk : i = k
        · subst hk
          rw [List.getElem?_set_self (by simpa using hlt), List.getElem?_map, hi]
          rfl
        · rw [List.getElem?_set_ne hk]
    · obtain rfl : i = olds.length := by
        have hlt := (List.getElem?_eq_some_iff.mp hi).1
        rw [List.length_append, List.length_singleton] at hlt
        omega
      rw [List.getElem?_concat_length] at hi
      cases hi
      refine ⟨olds, x', ?_, rfl, hrequest⟩
      rw [List.set_append_right _ _ le_rfl, Nat.sub_self]
      rfl
  have hlive : ∀ {x : Task}, x.pc.isEnded = false → x.pc.isEnded = true → ∀ {p : Prop}, p := by
    intro x hfalse htrue
    rw [hfalse] at htrue
    cases htrue
  cases moves_of_next hnext with
  | arrived => exact absurd rfl (harrive _)
  | advanced hi hadvance =>
      have hstep := step_of_advance hadvance
      exact hset hi (fun hend => hlive hstep.not_ended hend) hstep.request
  | struck hi hend => exact hset hi (fun hend' => hlive hend hend') rfl
  | timedOut hi hpc =>
      refine hset hi (fun hend => ?_) rfl
      rw [hpc] at hend
      cases hend
  | served _ hi => exact hset hi (fun _ => rfl) rfl
  | woke =>
      refine ⟨olds.map fun t => { t with call := t.call.map Call.wake },
        { t with call := t.call.map Call.wake }, by rw [hw]; simp, ?_, rfl⟩
      rw [List.map_map]
      rfl
  | quiet => exact ⟨olds, t, hw, rfl, rfl⟩

/-- A request that is served alone after others that have ended comes after them. -/
theorem Served.tasks {q : Request} (h : Served cfg (fun _ => False) w q t w')
    (hended : ∀ t ∈ w.tasks, t.pc.isEnded = true) :
    ∃ olds, w'.tasks = olds ++ [t] ∧ olds.map Task.past = w.tasks.map Task.past ∧
      t.request = q := by
  obtain ⟨es, hrun, ht, -, halone⟩ := h
  have hmoved : ∃ olds t', w'.tasks = olds ++ [t'] ∧ olds.map Task.past = w.tasks.map Task.past ∧
      t'.request = q := by
    cases hrun with
    | @cons _ w₁ _ _ _ harrive hrest =>
        refine hrest.invariant_mem (I := fun a => ∃ olds t', a.tasks = olds ++ [t'] ∧
          olds.map Task.past = w.tasks.map Task.past ∧ t'.request = q) ?_ ?_
        · rintro a e he b ⟨olds, t', ha, hpast, rfl⟩ hnext
          have holds : ∀ x ∈ olds, x.pc.isEnded = true := by
            intro x hx
            have hmem : x.past ∈ w.tasks.map Task.past := hpast ▸ List.mem_map_of_mem hx
            obtain ⟨y, hy, hxy⟩ := List.mem_map.mp hmem
            have hpc : y.pc = x.pc := congrArg (·.2.1) hxy
            rw [← hpc]
            exact hended y hy
          obtain ⟨olds', t'', hb, hpast', hrequest⟩ :=
            moves_last holds (fun r hr => halone r (hr ▸ he)) ha hnext
          exact ⟨olds', t'', hb, hpast'.trans hpast, hrequest⟩
        · cases moves_of_next harrive with
          | arrived => exact ⟨w.tasks, .arrived q, rfl, rfl, rfl⟩
          | served he => rcases he with ⟨he, -⟩ | he <;> cases he
          | quiet he => rcases he with he | ⟨_, he⟩ | he <;> cases he
  obtain ⟨olds, t', htasks, hpast, hrequest⟩ := hmoved
  have hlength : olds.length = w.tasks.length := by
    have := congrArg List.length hpast
    simpa using this
  rw [htasks, ← hlength, List.getElem?_concat_length] at ht
  cases ht
  exact ⟨olds, htasks, hpast, hrequest⟩

/-! ## Between the requests -/

/-- The requests so far have been ordinary ones, and have ended. -/
structure Idle (cfg : Config) (d : Database) (replicas allowanceCents : ℕ) (w : World) : Prop where
  run : ∃ es, Run (Steps (World.next cfg)) (.start cfg d replicas allowanceCents) es w ∧
    ∀ q, .arrive q ∈ es → ∃ u names, q.Ordinary u names
  ended : ∀ t ∈ w.tasks, t.pc.isEnded = true

/-- What the requests have spent. -/
def World.spent (w : World) : Int := total (·.amount .pool) w.tasks

/-- The answer has status `201` or `429`. -/
def Task.Answered (t : Task) : Prop := t.created = true ∨ t.refused = true

variable {d : Database} {replicas allowanceCents : ℕ} {per : SpendPeriod}

theorem Task.amount_pool_nonneg (t : Task) : 0 ≤ t.amount .pool := by
  refine total_nonneg fun e _ => ?_
  cases e <;> simp [Effect.amount]

/-- What an answered request has paid, and when it is refused. -/
theorem Task.Answered.paid {n : ℕ} {store : Store} (h : t.Answered)
    (hburst : t.InBurst cfg n store ∨ True ∧ t.Struck) :
    t.created = true ∧ t.amount .pool = n * cfg.priceCents ∨
      t.created = false ∧ t.amount .pool = 0 ∧ ¬ HasRoom store (n * cfg.priceCents) := by
  unfold Answered created refused at h
  unfold created
  cases hpc : t.pc with
  | ended ending =>
      rw [hpc] at h
      rcases hburst with hburst | ⟨-, exc, hpc', hexc⟩
      · unfold InBurst at hburst
        rw [hpc] at hburst
        cases ending with
        | responded response => exact .inl ⟨rfl, hburst⟩
        | raised exc => exact .inr ⟨rfl, hburst⟩
      · cases hpc.symm.trans hpc'
        cases exc with
        | limitReached kind operation => exact absurd rfl (hexc kind operation)
        | _ => rcases h with h | h <;> cases h
  | _ =>
      rw [hpc] at h
      rcases h with h | h <;> cases h

namespace Idle

theorem burst (h : Idle cfg d replicas allowanceCents w) :
    w.InBurst cfg (fun _ => True) True d := by
  obtain ⟨es, hrun, harrivals⟩ := h.run
  refine World.inBurst_of_run (fun q hq => ?_) (fun _ _ _ => trivial) hrun
  obtain ⟨u, names, hordinary⟩ := harrivals q hq
  exact ⟨u, names, hordinary, trivial⟩

/-- The room that is left. -/
theorem room_iff (h : Idle cfg d replicas allowanceCents w) (hper : d.store.period? = some per)
    (c : Int) : HasRoom w.service.database.store c ↔
      per.committedCents + per.reservedCents + (w.spent + c) ≤ per.capCents := by
  rw [h.burst.room]
  constructor
  · rintro ⟨per', hper', hle⟩
    cases hper.symm.trans hper'
    exact hle
  · exact fun hle => ⟨per, hper, hle⟩

/-- No more is spent than there is. -/
theorem spent_le (h : Idle cfg d replicas allowanceCents w) (hper : d.store.period? = some per) :
    per.committedCents + per.reservedCents + w.spent ≤ per.capCents := by
  obtain ⟨es, hrun, -⟩ := h.run
  have hcap := (Sound.run hrun (.start cfg d replicas allowanceCents)).cap
  rw [show (World.start cfg d replicas allowanceCents).service.database.store.period? = some per
    from hper] at hcap
  have hzero := (h.room_iff hper 0).mp
    (hasRoom_zero (Option.isSome_map.symm.trans (congrArg Option.isSome hcap)))
  omega

/-- One more request: the past is what it was, with one more. -/
theorem served {q : Request} {u : TenantId} {names : List String}
    (h : Idle cfg d replicas allowanceCents w) (hq : q.Ordinary u names)
    (hserved : Served cfg (fun _ => False) w q t w') :
    Idle cfg d replicas allowanceCents w' ∧ w'.spent = w.spent + t.amount .pool ∧
      ((∀ x ∈ w.tasks, x.Answered) → t.Answered → ∀ x ∈ w'.tasks, x.Answered) := by
  obtain ⟨olds, htasks, hpast, -⟩ := hserved.tasks h.ended
  obtain ⟨es', hrun', -, hended, halone⟩ := hserved
  obtain ⟨es, hrun, harrivals⟩ := h.run
  have hold : ∀ x ∈ olds, ∃ y ∈ w.tasks, y.pc = x.pc := by
    intro x hx
    have hmem : x.past ∈ w.tasks.map Task.past := hpast ▸ List.mem_map_of_mem hx
    obtain ⟨y, hy, hxy⟩ := List.mem_map.mp hmem
    exact ⟨y, hy, congrArg (·.2.1) hxy⟩
  refine ⟨⟨⟨_, hrun.append hrun', fun r hr => ?_⟩, ?_⟩, ?_, fun hall ht => ?_⟩
  · rcases List.mem_append.mp hr with hr | hr
    · exact harrivals r hr
    · rcases List.mem_cons.mp hr with hr | hr
      · cases hr
        exact ⟨u, names, hq⟩
      · exact (halone r hr).elim
  · rw [htasks]
    refine forall_mem_concat (fun x hx => ?_) hended
    obtain ⟨y, hy, hpc⟩ := hold x hx
    rw [← hpc]
    exact h.ended y hy
  · have hsame : total (·.amount .pool) olds = total (·.amount .pool) w.tasks := by
      have htrails := congrArg (List.map fun x => total (Effect.amount .pool) x.2.2) hpast
      rw [List.map_map, List.map_map] at htrails
      exact congrArg List.sum htrails
    rw [World.spent, htasks, total_append, total_cons, total_nil, add_zero, hsame]
    rfl
  · rw [htasks]
    refine forall_mem_concat (fun x hx => ?_) ht
    obtain ⟨y, hy, hpc⟩ := hold x hx
    have hanswered := hall y hy
    unfold Task.Answered Task.created Task.refused at hanswered ⊢
    rwa [← hpc]

/-- **One request.** If it is answered, it has paid for its names, or they do not fit. -/
theorem outcome {q : Request} {u : TenantId} {names : List String}
    (h : Idle cfg d replicas allowanceCents w) (hq : q.Ordinary u names)
    (hserved : Served cfg (fun _ => False) w q t w') (hanswered : t.Answered) :
    t.created = true ∧ t.amount .pool = names.length * cfg.priceCents ∨
      t.created = false ∧ t.amount .pool = 0 ∧
        ¬ HasRoom w'.service.database.store (names.length * cfg.priceCents) := by
  obtain ⟨hidle, -⟩ := h.served hq hserved
  obtain ⟨olds, htasks, -, hrequest⟩ := hserved.tasks h.ended
  obtain ⟨v, names', hordinary, -, hburst⟩ := hidle.burst.tasks t (by rw [htasks]; simp)
  have hnames : names = names' := by
    have hpayload := hordinary.payload
    rw [hrequest, hq.payload] at hpayload
    cases hpayload
    rfl
  rw [hnames]
  exact hanswered.paid hburst

/-- **The bill says what is spent**, where every request has been answered. -/
theorem totalCents (h : Idle cfg d replicas allowanceCents w)
    (hprice : cfg.providerPriceCents = cfg.priceCents) (hanswered : ∀ t ∈ w.tasks, t.Answered) :
    w.service.provider.ledger.totalCents = w.spent := by
  obtain ⟨es, hrun, harrivals⟩ := h.run
  have hsound := Sound.run hrun (.start cfg d replicas allowanceCents)
  have hpaid : w.Paid cfg := by
    refine World.paid_of_run (fun q hq hfix => ?_) hrun
    obtain ⟨u, names, hordinary⟩ := harrivals q hq
    cases hordinary.repair.symm.trans hfix
  have hprice' : w.service.provider.ledger.priceCentsPerLookup = cfg.priceCents := by
    rw [hsound.price, hprice]
  rw [Ledger.totalCents, hprice', hpaid.totalLookups hsound fun u => rfl, total_mul]
  refine total_congr fun t ht => ?_
  -- a request is billed no more than it has paid, and if it is created, no less
  have hle := (mul_le_mul_of_nonneg_right t.bill_le (Int.natCast_nonneg cfg.priceCents)).trans
    (hpaid t ht).paid
  have hnonneg : 0 ≤ total Prod.snd t.bill :=
    total_nonneg fun line hline => (hpaid t ht).bill_nonneg line hline
  obtain ⟨u, names, hq, -, hburst⟩ := h.burst.tasks t ht
  rcases (hanswered t ht).paid hburst with ⟨hcreated, hamount⟩ | ⟨-, hamount, -⟩
  · refine le_antisymm hle ?_
    rw [hamount]
    refine mul_le_mul_of_nonneg_right ?_ (Int.natCast_nonneg _)
    obtain ⟨response, hpc⟩ : ∃ response, t.pc = .ended (.responded response) := by
      unfold Task.created at hcreated
      split at hcreated
      · exact ⟨_, ‹_›⟩
      · cases hcreated
    obtain ⟨_, _, _, _, -, -, hperm⟩ := (onCourse_of_run hrun t ht).answered hq.payload hpc
    have hanswer : total Prod.snd (t.trail.flatMap Effect.bill) = names.length := by
      rw [total_flatMap, total_perm _ hperm]
      simp [Effect.bill, Enrichment.result, Enrichment.lookupRequest, LookupRequest.response]
    have hlater := total_nonneg (f := Prod.snd) fun line hline =>
      (hpaid t ht).bill_nonneg line (List.mem_append_right (t.trail.flatMap Effect.bill) hline)
    rw [Task.bill, total_append, hanswer]
    omega
  · rw [hamount] at hle ⊢
    refine le_antisymm hle (mul_nonneg hnonneg (Int.natCast_nonneg _))

end Idle

/-! ## The pool is emptied -/

/-- The drain leaves the requests answered, if each of its own is. -/
theorem UndividedBudget.Drains.idle {p : UndividedBudget} {sequence n : ℕ} {tasks : List Task}
    (hdrains : p.Drains cfg sequence n w tasks w') (h : Idle cfg d replicas allowanceCents w)
    (hbefore : ∀ t ∈ w.tasks, t.Answered) (hanswered : ∀ t ∈ tasks, t.Answered) :
    Idle cfg d replicas allowanceCents w' ∧ ∀ t ∈ w'.tasks, t.Answered := by
  induction hdrains with
  | limit => exact ⟨h, hbefore⟩
  | refused hserved =>
      obtain ⟨hidle, -, hall⟩ := h.served (p.enrich_ordinary _ _) hserved
      exact ⟨hidle, hall hbefore (hanswered _ List.mem_cons_self)⟩
  | admitted hserved _ _ ih =>
      obtain ⟨hidle, -, hall⟩ := h.served (p.enrich_ordinary _ _) hserved
      exact ih hidle (hall hbefore (hanswered _ List.mem_cons_self))
        fun t ht => hanswered t (List.mem_cons_of_mem _ ht)

/-- Once less than a lookup is left, nobody is served any more. -/
theorem ServedInTurn.all_refused {qs : List Request} {tasks : List Task}
    (hturn : ServedInTurn cfg qs w tasks w') (h : Idle cfg d replicas allowanceCents w)
    (hper : d.store.period? = some per)
    (hqs : ∀ q ∈ qs, ∃ u names, q.Ordinary u names ∧ 0 < names.length)
    (hempty : per.capCents < per.committedCents + per.reservedCents + (w.spent + cfg.priceCents)) :
    tasks.length = qs.length ∧ ∀ t ∈ tasks, t.created = false := by
  induction hturn with
  | nil => exact ⟨rfl, fun t ht => absurd ht List.not_mem_nil⟩
  | @cons q qs w w₁ w₂ t tasks hserved _ ih =>
      obtain ⟨u, names, hq, hnames⟩ := hqs q List.mem_cons_self
      obtain ⟨hidle, hspent, -⟩ := h.served hq hserved
      have hcreated : t.created = false := by
        cases hcreated : t.created with
        | false => rfl
        | true =>
            -- it would have paid for a lookup
            rcases h.outcome hq hserved (.inl hcreated) with ⟨-, hamount⟩ | ⟨hfalse, -⟩
            · have hle := hidle.spent_le hper
              have hone : (cfg.priceCents : Int) ≤ names.length * cfg.priceCents := by
                exact_mod_cast Nat.le_mul_of_pos_left _ hnames
              omega
            · cases hcreated.symm.trans hfalse
      have hnonneg := t.amount_pool_nonneg
      obtain ⟨hlength, hrest⟩ := ih hidle (fun q hq => hqs q (List.mem_cons_of_mem _ hq))
        (by omega)
      exact ⟨by simp [hlength], List.forall_mem_cons.mpr ⟨hcreated, hrest⟩⟩

/-- **The undivided budget reproduces.** Against the unbounded application with a fresh pool, where
the provider and the application ask one price: whatever the budget and the price are, however many
requests of whatever size drain the pool and however they are cut short, and whatever happens in
the application while one of them is on its way, if each of them is answered with a `201` or a
`429`, then less than one lookup is left by the provider's bill, and every tenant that has spent
nothing is refused. -/
theorem undivided_budget_reproduces {p : UndividedBudget} {w₁ w₂ w₃ : World}
    {drained left probed : List Task} (hper : d.store.period? = some per)
    (hcap : per.capCents = p.globalSpendCapCents)
    (hfresh : per.committedCents = 0 ∧ per.reservedCents = 0)
    (hprice : cfg.priceCents = p.lookupPriceCents)
    (hprovider : cfg.providerPriceCents = cfg.priceCents) (hpos : 0 < p.lookupPriceCents)
    (hran : p.Ran cfg (.start cfg d replicas allowanceCents) drained w₁ left w₂ probed w₃)
    (hanswered : ∀ t ∈ drained ++ left, t.Answered) :
    p.Reproduced probed ∧ 0 ≤ p.globalSpendCapCents - w₂.service.provider.ledger.totalCents ∧
      p.globalSpendCapCents - w₂.service.provider.ledger.totalCents < p.lookupPriceCents := by
  have hstart : Idle cfg d replicas allowanceCents (.start cfg d replicas allowanceCents) :=
    ⟨⟨[], .nil, fun q hq => absurd hq List.not_mem_nil⟩, fun t ht => absurd ht List.not_mem_nil⟩
  obtain ⟨hidle₁, hall₁⟩ := hran.drained.idle hstart (fun t ht => absurd ht List.not_mem_nil)
    fun t ht => hanswered t (List.mem_append_left _ ht)
  have hbill₁ := hidle₁.totalCents hprovider hall₁
  have hle₁ := hidle₁.spent_le hper
  obtain ⟨hcommitted, hreserved⟩ := hfresh
  rw [hcommitted, hreserved, hcap] at hle₁
  -- what is left is so many lookups, and less than one more
  have hdivmod := Int.mul_ediv_add_emod (p.globalSpendCapCents - w₁.spent) p.lookupPriceCents
  have hmodnonneg := Int.emod_nonneg (p.globalSpendCapCents - w₁.spent)
    (show (p.lookupPriceCents : Int) ≠ 0 by omega)
  have hmodlt := Int.emod_lt_of_pos (p.globalSpendCapCents - w₁.spent)
    (show (0 : Int) < p.lookupPriceCents by omega)
  have hleft : p.leftover w₁ = (p.globalSpendCapCents - w₁.spent) / p.lookupPriceCents := by
    rw [UndividedBudget.leftover, hbill₁]
  have htaken : Idle cfg d replicas allowanceCents w₂ ∧ (∀ t ∈ w₂.tasks, t.Answered) ∧
      p.globalSpendCapCents - w₂.spent < p.lookupPriceCents := by
    have htaking := hran.left
    unfold UndividedBudget.takeLeftover at htaking
    rw [hleft] at htaking
    split at htaking
    · next hsome =>
        cases htaking with
        | cons hserved hrest =>
            cases hrest
            have hordinary := p.enrich_ordinary p.attackerTenantId (Harness.companyNames
              ((p.globalSpendCapCents - w₁.spent) / p.lookupPriceCents).toNat 900000)
            have hanswer := hanswered _ (List.mem_append_right _ List.mem_cons_self)
            obtain ⟨hidle, hspent, hall⟩ := hidle₁.served hordinary hserved
            refine ⟨hidle, hall hall₁ hanswer, ?_⟩
            have hlength : ((Harness.companyNames ((p.globalSpendCapCents - w₁.spent) /
                p.lookupPriceCents).toNat 900000).length : Int) =
                  (p.globalSpendCapCents - w₁.spent) / p.lookupPriceCents := by
              simp only [Harness.companyNames, List.length_map, List.length_range']
              omega
            rcases hidle₁.outcome hordinary hserved hanswer with ⟨-, hamount⟩ | ⟨-, hamount, hfull⟩
            · rw [hlength, hprice, mul_comm] at hamount
              omega
            · -- what is left by the bill is left in the pool
              rw [hidle.room_iff hper, hlength, hprice, mul_comm] at hfull
              omega
    · next hnone =>
        cases htaking
        refine ⟨hidle₁, hall₁, ?_⟩
        have hzero : (p.globalSpendCapCents - w₁.spent) / p.lookupPriceCents = 0 :=
          le_antisymm (not_lt.mp hnone) (Int.ediv_nonneg (by omega) (Int.natCast_nonneg _))
        rw [hzero, mul_zero] at hdivmod
        omega
  obtain ⟨hidle₂, hall₂, hempty⟩ := htaken
  have hbill₂ := hidle₂.totalCents hprovider hall₂
  have hle₂ := hidle₂.spent_le hper
  rw [hcommitted, hreserved, hcap] at hle₂
  rw [hbill₂]
  refine ⟨?_, by omega, hempty⟩
  have hprobes : ∀ q ∈ p.probes, ∃ u names, q.Ordinary u names ∧ 0 < names.length := by
    intro q hq
    obtain ⟨u, -, rfl⟩ := List.mem_map.mp hq
    exact ⟨u, _, p.enrich_ordinary _ _, by simp [Harness.companyNames]⟩
  obtain ⟨hlength, hrefused⟩ := hran.probed.all_refused hidle₂ hper hprobes
    (by rw [hcommitted, hreserved, hcap, hprice]; omega)
  rw [UndividedBudget.Reproduced, List.filter_eq_self.mpr fun t ht => by simp [hrefused t ht],
    hlength, UndividedBudget.probes, List.length_map]

/-- A pool of two lookups, one request of one name to drain it, and one bystander. -/
def UndividedBudget.demo : UndividedBudget :=
  ⟨0, Fixtures.attackerTenantId, ["TEN-WREN"], 1, 1, 100, 50⟩

/-- What happens to a request that is served alone. -/
def aloneEvents (i : ℕ) : List Event :=
  List.replicate 7 (.advance i) ++ List.replicate 2 (.resume i) ++ List.replicate 3 (.advance i)

/-- A request that is replayed from its arrival to its end, alone. -/
theorem served_of_replay_alone {q : Request} {es : List Event}
    (hreplay : replay (World.next cfg) w (.arrive q :: es) = some w')
    (ht : w'.tasks[w.tasks.length]? = some t) (hended : t.pc.isEnded = true)
    (hes : ∀ r, .arrive r ∉ es) : Served cfg (fun _ => False) w q t w' :=
  ⟨es, run_of_replay hreplay, ht, hended, fun r hr => hes r hr⟩

theorem two_lookups_drained : ∃ w₁ w₂ w₃ drained left probed,
    UndividedBudget.demo.Ran dearLookups (.start dearLookups .demo 1 40000) drained w₁ left w₂
      probed w₃ ∧ left.length = 1 ∧ UndividedBudget.demo.Reproduced probed := by
  have hrun : ∃ w₁ t₁ w₂ t₂ w₃ t₃,
      (replay (World.next dearLookups) (.start dearLookups .demo 1 40000)
          (.arrive (UndividedBudget.demo.enrich Fixtures.attackerTenantId
            (Harness.companyNames 1 1)) :: aloneEvents 0) = some w₁ ∧
        w₁.tasks = [t₁] ∧ t₁.pc.isEnded = true ∧ t₁.created = true ∧ t₁.refused = false ∧
        UndividedBudget.demo.leftover w₁ = 1) ∧
      (replay (World.next dearLookups) w₁
          (.arrive (UndividedBudget.demo.enrich Fixtures.attackerTenantId
            (Harness.companyNames 1 900000)) :: aloneEvents 1) = some w₂ ∧
        w₂.tasks.length = 2 ∧ w₂.tasks[1]? = some t₂ ∧ t₂.pc.isEnded = true ∧ t₂.created = true) ∧
      replay (World.next dearLookups) w₂
          (.arrive (UndividedBudget.demo.enrich "TEN-WREN" (Harness.companyNames 10 0)) ::
            List.replicate 5 (.advance 2)) = some w₃ ∧
        w₃.tasks[2]? = some t₃ ∧ t₃.pc.isEnded = true :=
    ⟨_, _, _, _, _, _, ⟨rfl, rfl, rfl, rfl, rfl, rfl⟩, ⟨rfl, rfl, rfl, rfl, rfl⟩, rfl, rfl, rfl⟩
  obtain ⟨w₁, t₁, w₂, t₂, w₃, t₃, ⟨hw₁, htasks₁, hended₁, hcreated₁, hrefused₁, hleft⟩,
    ⟨hw₂, hlength₂, ht₂, hended₂, hcreated₂⟩, hw₃, ht₃, hended₃⟩ := hrun
  have hran : UndividedBudget.demo.Ran dearLookups (.start dearLookups .demo 1 40000) [t₁] w₁ [t₂]
      w₂ [t₃] w₃ := by
    refine ⟨.admitted (served_of_replay_alone hw₁ (by simp [htasks₁, World.start]) hended₁
      (by simp [aloneEvents])) hrefused₁ .limit, ?_, ?_⟩
    · rw [UndividedBudget.takeLeftover, hleft]
      exact .cons (served_of_replay_alone hw₂ (by simpa [htasks₁] using ht₂) hended₂
        (by simp [aloneEvents])) .nil
    · exact .cons (served_of_replay_alone hw₃ (by rwa [hlength₂]) hended₃ (by simp)) .nil
  have hper : Database.demo.store.period? = some (.fresh 100 (by decide)) := rfl
  refine ⟨w₁, w₂, w₃, _, _, _, hran, rfl, ?_⟩
  refine (undivided_budget_reproduces hper rfl ⟨rfl, rfl⟩ rfl rfl (by decide) hran ?_).1
  intro t ht
  rcases List.mem_pair.mp ht with rfl | rfl
  exacts [.inl hcreated₁, .inl hcreated₂]

end Limitless.Vulnerable
