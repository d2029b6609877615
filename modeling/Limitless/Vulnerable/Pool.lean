import Limitless.Vulnerable.Invariant
import Mathlib.Tactic.Positivity

/-!
# One pool for everybody

Every tenant of the unbounded application spends from the period's row, and from nothing else.
`PoolStep` is what a step of a request does to what is left of it: it takes the price of its
lookups, or is refused because they do not fit, or leaves the pool alone. Nothing ever puts money
back, so a refusal is a fact about everybody and for good: whatever else goes on, no request that
names as much work is paid for from then on, whoever asks (`refused_for_everybody`).
-/

namespace Limitless.Vulnerable

open Indexed Runs

/-! ## What is left -/

/-- The pool has this much left. -/
def HasRoom (store : Store) (cents : Int) : Prop :=
  ∃ per, store.period? = some per ∧ per.committedCents + per.reservedCents + cents ≤ per.capCents

variable {cfg : Config} {s s' : Service} {t t' : Task} {w w' : World} {e : Event}

theorem HasRoom.mono {store : Store} {a b : Int} (h : HasRoom store b) (hle : a ≤ b) :
    HasRoom store a := by
  obtain ⟨per, hper, hroom⟩ := h
  exact ⟨per, hper, by omega⟩

theorem hasRoom_congr {store store' : Store} (h : store'.period? = store.period?) (c : Int) :
    HasRoom store' c ↔ HasRoom store c := by
  unfold HasRoom
  rw [h]

/-- A row is within its cap. -/
theorem hasRoom_zero {store : Store} (h : store.period?.isSome) : HasRoom store 0 := by
  obtain ⟨per, hper⟩ := Option.isSome_iff_exists.mp h
  exact ⟨per, hper, by have := per.within_cap; omega⟩

/-- A charge that the pool has room for goes through, and takes that room. -/
theorem chargePool_of_hasRoom (cfg : Config) (s : Service) (t : Task) {lookups : ℕ}
    (onward drained : Task) (hroom : HasRoom s.database.store (lookups * cfg.priceCents)) :
    ∃ store, t.chargePool cfg s lookups onward drained =
        ({ s with database := { s.database with store := store } }, onward) ∧
      ∀ c, HasRoom store c ↔ HasRoom s.database.store (lookups * cfg.priceCents + c) := by
  obtain ⟨per, hper, hle⟩ := hroom
  have hguard : (sqlChargeUndividedPool (lookups * cfg.priceCents)).guard per = true := by
    simp only [sqlChargeUndividedPool, decide_eq_true_eq]
    omega
  have hcents : (0 : Int) ≤ lookups * cfg.priceCents := by positivity
  obtain ⟨per', hset⟩ := SpendPeriod.withFigures_isOk per per.reserved_nonneg
    (add_nonneg per.committed_nonneg hcents) (by omega)
  obtain ⟨hid, hcap, hres, hcom⟩ := SpendPeriod.withFigures_ok hset
  have htouch : (sqlChargeUndividedPool (lookups * cfg.priceCents)).touch (some per) =
      .ok (some per') := by
    rw [Update.touch_some, if_pos hguard]
    show (per.withFigures _ _).map some = _
    rw [hset]
    rfl
  refine ⟨{ s.database.store with spendPeriods := s.database.store.spendPeriods.put per' }, ?_,
    fun c => ?_⟩
  · simp only [Task.chargePool, Store.chargeUndividedPool_eq, hper, htouch]
  · have hper' : (s.database.store.spendPeriods.put per').find? Fixtures.spendPeriodId =
        some per' := by
      have hkey : SpendPeriod.periodId per' = Fixtures.spendPeriodId := by
        rw [hid]
        exact Keyed.find?_key hper
      rw [← hkey]
      exact Keyed.find?_put_self _ _
    constructor
    · rintro ⟨per'', hper'', hroom⟩
      cases hper'.symm.trans hper''
      exact ⟨per, hper, by omega⟩
    · rintro ⟨per'', hper'', hroom⟩
      cases hper.symm.trans hper''
      exact ⟨per', hper', by omega⟩

/-- One that it has no room for is refused, and leaves everything as it was. -/
theorem chargePool_of_not_hasRoom {lookups : ℕ} (onward drained : Task)
    (hfull : ¬ HasRoom s.database.store (lookups * cfg.priceCents)) :
    t.chargePool cfg s lookups onward drained = (s, drained) := by
  have hguard : ∀ per, s.database.store.period? = some per →
      (sqlChargeUndividedPool (lookups * cfg.priceCents)).guard per = true → False := by
    intro per hper hle
    simp only [sqlChargeUndividedPool, decide_eq_true_eq] at hle
    exact hfull ⟨per, hper, by omega⟩
  simp only [Task.chargePool, Store.chargeUndividedPool_eq]
  rcases Update.touch_cases (sqlChargeUndividedPool (lookups * cfg.priceCents))
    s.database.store.period? with ⟨htouch, -⟩ | ⟨per, _, hper, hle, -⟩ | ⟨per, _, hper, hle, -⟩
  · rw [htouch]
  · exact (hguard per hper hle).elim
  · exact (hguard per hper hle).elim

/-! ## What a step does to it -/

/-- What a step of a request does to the pool. -/
inductive PoolStep (cfg : Config) (s : Service) (t : Task) : Service → Task → Prop
  /-- It charges the pool, which has room for that. -/
  | pays {lookups : ℕ} {pc : Pc} {s' : Service} : Charges t.pc lookups pc →
      HasRoom s.database.store (lookups * cfg.priceCents) →
      (∀ c, HasRoom s'.database.store c ↔
        HasRoom s.database.store (lookups * cfg.priceCents + c)) →
      PoolStep cfg s t s' (t.did (.charged (lookups * cfg.priceCents)) pc)
  | refused {b : Enrichment} {early : Option LookupResponse} :
      t.pc = .enriching b (.chargePool early) →
      ¬ HasRoom s.database.store (b.companyNames.length * cfg.priceCents) →
      PoolStep cfg s t s (t.raise (.limitReached .allowanceExhausted .enrich))
  | drained {b : Import} {performed charged : Int} :
      t.pc = .importing b (.spend performed charged) →
      ¬ HasRoom s.database.store (b.nextChunk performed * cfg.priceCents) →
      PoolStep cfg s t s (t.did (.drained (b.nextChunk performed) s.database.store.period?)
        (.importing b (.insertJob performed charged)))
  /-- It stands at no point that charges the pool. -/
  | free {s' : Service} {t' : Task} : Step cfg s t s' t' → (∀ n pc, ¬ Charges t.pc n pc) →
      s'.database.store.period? = s.database.store.period? → PoolStep cfg s t s' t'

/-- Writing work down leaves the pool alone. -/
theorem recordWork_period {u : TenantId} {records : ℕ} {pc : Pc}
    (h : t.recordWork cfg s u records pc = (s', t')) :
    s'.database.store.period? = s.database.store.period? := by
  obtain ⟨d, hd⟩ := s.database.recordAdmittedWork_isOk u (Int.natCast_nonneg records)
    (Int.natCast_nonneg (records * cfg.priceCents))
  simp only [Task.recordWork, hd] at h
  cases h
  exact congrArg Store.period? (Database.recordAdmittedWork_ok hd).1

/-- So does everything that `enrich` does but charging it. -/
theorem enrich_period {b : Enrichment} {p : EnrichPoint} (hp : ∀ early, p ≠ .chargePool early)
    (h : t.enrich cfg s b p = some (s', t')) :
    s'.database.store.period? = s.database.store.period? := by
  cases p with
  | chargePool early => exact absurd rfl (hp early)
  | select =>
      simp only [Task.enrich, Task.select] at h
      split at h
      · cases h
        rfl
      · split at h
        · cases h
        · split at h
          all_goals
            cases h
            rfl
  | awaitEarly | awaitResponse | callProvider =>
      simp only [Task.enrich] at h
      split at h
      all_goals cases h
      all_goals rfl
  | recordWork early => exact recordWork_period (Option.some.inj h)
  | upsertRecords result =>
      cases h
      show (s.database.store.upsertRecords _ _ _).period? = _
      unfold Store.upsertRecords
      split <;> rfl
  | callEarly | takeConnection | leaveConnection =>
      cases h
      rfl

/-- And everything that `import_bundle` does. -/
theorem importBundle_period {b : Import} {p : ImportPoint} (hp : ∀ n c, p ≠ .spend n c)
    (h : t.importBundle cfg s b p = some (s', t')) :
    s'.database.store.period? = s.database.store.period? := by
  cases p with
  | spend performed charged => exact absurd rfl (hp performed charged)
  | flush remaining =>
      simp only [Task.importBundle] at h
      split at h
      · exact recordWork_period (Option.some.inj h)
      · cases h
        rfl
  | awaitResponse =>
      simp only [Task.importBundle] at h
      split at h
      all_goals cases h
      all_goals rfl
  | insertJob performed charged =>
      simp only [Task.importBundle] at h
      split at h
      · cases h
        rfl
      · next store hstore =>
          cases h
          unfold Store.insertJob at hstore
          split at hstore
          · split at hstore
            · split at hstore
              · cases hstore
              · cases hstore
                rfl
            · cases hstore
          · cases hstore
  | takeConnection | takeSpending | callProvider | leaveConnection =>
      cases h
      rfl

/-- **Step lemma.** A step of a request does nothing else to the pool. -/
theorem poolStep_of_advance (h : t.advance cfg s = some (s', t')) : PoolStep cfg s t s' t' := by
  have hstep := step_of_advance h
  have hfree : (∀ n pc, ¬ Charges t.pc n pc) →
      s'.database.store.period? = s.database.store.period? → PoolStep cfg s t s' t' :=
    fun hpc hperiod => .free hstep hpc hperiod
  unfold Task.advance at h
  split at h
  · next hpc =>
      refine hfree (fun n pc hcharges => ?_) ?_
      · rw [hpc] at hcharges
        cases hcharges
      · split at h
        all_goals
          cases h
          rfl
  · next hpc =>
      refine hfree (fun n pc hcharges => ?_) ?_
      · rw [hpc] at hcharges
        cases hcharges
      · cases h
        rfl
  · next b p hpc =>
      cases p with
      | chargePool early =>
          by_cases hroom : HasRoom s.database.store (b.companyNames.length * cfg.priceCents)
          · obtain ⟨store, hcharge, hleft⟩ := chargePool_of_hasRoom cfg s t
              (t.did (.charged (b.companyNames.length * cfg.priceCents))
                (.enriching b (.recordWork early)))
              (t.raise (.limitReached .allowanceExhausted .enrich)) hroom
            simp only [Task.enrich, hcharge] at h
            cases h
            exact .pays (hpc ▸ .enrich) hroom hleft
          · simp only [Task.enrich, chargePool_of_not_hasRoom _ _ hroom] at h
            cases h
            exact .refused hpc hroom
      | _ =>
          refine hfree (fun n pc hcharges => ?_) (enrich_period (fun early => by simp) h)
          rw [hpc] at hcharges
          cases hcharges
  · next b p hpc =>
      cases p with
      | spend performed charged =>
          by_cases hless : performed < b.records
          · by_cases hroom : HasRoom s.database.store (b.nextChunk performed * cfg.priceCents)
            · obtain ⟨store, hcharge, hleft⟩ := chargePool_of_hasRoom cfg s t
                (t.did (.charged (b.nextChunk performed * cfg.priceCents))
                  (.importing b (.callProvider performed charged (b.nextChunk performed))))
                (t.did (.drained (b.nextChunk performed) s.database.store.period?)
                  (.importing b (.insertJob performed charged))) hroom
              simp only [Task.importBundle, if_pos hless] at h
              cases hcharge.symm.trans (Option.some.inj h)
              exact .pays (hpc ▸ .chunk hless) hroom hleft
            · simp only [Task.importBundle, if_pos hless] at h
              cases (chargePool_of_not_hasRoom _ _ hroom).symm.trans (Option.some.inj h)
              exact .drained hpc hroom
          · simp only [Task.importBundle, if_neg hless] at h
            cases h
            refine hfree (fun n pc hcharges => ?_) rfl
            rw [hpc] at hcharges
            cases hcharges
            exact hless ‹_›
      | _ =>
          refine hfree (fun n pc hcharges => ?_) (importBundle_period (fun _ _ => by simp) h)
          rw [hpc] at hcharges
          cases hcharges
  · cases h

/-- What is left never grows. -/
theorem PoolStep.room (h : PoolStep cfg s t s' t') {c : Int} (hroom : HasRoom s'.database.store c) :
    HasRoom s.database.store c := by
  cases h with
  | pays _ _ hleft => exact ((hleft c).mp hroom).mono (le_add_of_nonneg_left (by positivity))
  | refused | drained => exact hroom
  | free _ _ hperiod => exact (hasRoom_congr hperiod c).mp hroom

/-- Nor does it whatever happens. -/
theorem World.room (hnext : w.next cfg e = some w') {c : Int}
    (hroom : HasRoom w'.service.database.store c) : HasRoom w.service.database.store c := by
  cases moves_of_next hnext with
  | advanced _ hadvance => exact (poolStep_of_advance hadvance).room hroom
  | arrived | struck | timedOut | served | woke | quiet => exact hroom

/-- An enrichment that nothing refuses but the pool: it is authenticated, it is
well formed, and it asks for no repair. -/
structure Request.Ordinary (q : Request) (u : TenantId) (names : List String) : Prop where
  principal : q.principal = some u
  payload : q.payload = .enrich (some names)
  repair : parseHalfFix q.halfFix = some .none

/-! ## Requests that have not paid -/

/-- The point of an enrichment of these names before it pays for them, or its end without. -/
def Pc.Unpaid (names : List String) : Pc → Prop
  | .authenticating | .reading _ | .ended (.raised _) => True
  | .enriching b .select | .enriching b .callEarly | .enriching b .awaitEarly
  | .enriching b (.takeConnection _) | .enriching b (.chargePool _) => b.companyNames = names
  | _ => False

/-- The request enriches these names and has not paid for them. -/
structure Task.Unpaid (names : List String) (t : Task) : Prop where
  payload : t.request.payload = .enrich (some names)
  pc : t.pc.Unpaid names
  trail : ∀ cents, .charged cents ∉ t.trail

theorem Task.Unpaid.raise {names : List String} (h : t.Unpaid names) (exc : Exception) :
    (t.raise exc).Unpaid names := ⟨h.payload, trivial, h.trail⟩

theorem Task.Unpaid.goto {names : List String} {pc : Pc} (h : t.Unpaid names)
    (hpc : pc.Unpaid names) : (t.goto pc).Unpaid names := ⟨h.payload, hpc, h.trail⟩

theorem Task.Unpaid.did {names : List String} {pc : Pc} {eff : Effect} (h : t.Unpaid names)
    (hpc : pc.Unpaid names) (heff : ∀ cents, eff ≠ .charged cents) :
    (t.did eff pc).Unpaid names := by
  refine ⟨h.payload, hpc, fun cents hmem => ?_⟩
  rcases List.mem_append.mp hmem with hmem | hmem
  · exact h.trail cents hmem
  · exact heff cents (List.mem_singleton.mp hmem).symm

/-- **Step lemma.** It stays so, or it finds room in the pool and pays. -/
theorem Task.Unpaid.step {names : List String} (h : t.Unpaid names)
    (hstep : PoolStep cfg s t s' t') : t'.Unpaid names ∨
      HasRoom s.database.store (names.length * cfg.priceCents) ∧
        t'.request = t.request ∧ ∃ cents, .charged cents ∈ t'.trail := by
  have hpayload := h.payload
  have hpc := h.pc
  cases hstep with
  | @pays lookups pc s' hcharges hroom =>
      obtain ⟨q, tpc, call, trail, raised⟩ := t
      cases hcharges with
      | enrich =>
          obtain rfl : _ = names := hpc
          exact .inr ⟨hroom, rfl, _, List.mem_append_right _ List.mem_cons_self⟩
      | chunk => exact hpc.elim
  | refused => exact .inl (h.raise _)
  | drained hdrained =>
      rw [hdrained] at hpc
      exact hpc.elim
  | free hstep hfree =>
      refine .inl ?_
      cases hstep with
      | @onward pc honward =>
          refine h.goto ?_
          obtain ⟨q, tpc, call, trail, raised⟩ := t
          cases honward with
          | authenticated => trivial
          | readEnrich hread =>
              cases hpayload.symm.trans hread
              rfl
          | readImport hread => cases hpayload.symm.trans hread
          | connected => exact hpc
          | hadEarly | enriched | admitting | admitted | spending | performed | imported =>
              exact hpc.elim
      | sends hsends =>
          have hdid : ∀ {pc : Pc} {payload : LookupRequest}, pc.Unpaid names →
              (t.send payload pc).Unpaid names := by
            intro pc payload hpc
            have hsent : (t.did (.sent payload) pc).Unpaid names := h.did hpc (by simp)
            exact ⟨hpayload, hpc, hsent.trail⟩
          refine hdid ?_
          obtain ⟨q, tpc, call, trail, raised⟩ := t
          cases hsends with
          | early => exact hpc
          | enrich | chunk => exact hpc.elim
      | @takes payload result pc htakes =>
          have hdid : ∀ {pc : Pc}, pc.Unpaid names →
              (t.receive payload result pc).Unpaid names := by
            intro pc hpc
            have hreceived : (t.did (.received payload result) pc).Unpaid names :=
              h.did hpc (by simp)
            exact ⟨hpayload, hpc, hreceived.trail⟩
          refine hdid ?_
          obtain ⟨q, tpc, call, trail, raised⟩ := t
          cases htakes with
          | early => exact hpc
          | enrich | chunk => exact hpc.elim
      | selects hselect _ _ _ _ _ hout =>
          rw [hselect] at hpc
          rcases hout with ⟨-, rfl⟩ | ⟨-, rfl⟩
          · refine h.did ?_ (by simp)
            split
            all_goals exact hpc
          · exact h.raise _
      | charges hcharges => exact absurd hcharges (hfree _ _)
      | records hrecords =>
          obtain ⟨q, tpc, call, trail, raised⟩ := t
          cases hrecords with
          | enrich | flush => exact hpc.elim
      | drains hdrains | upserts hdrains | inserts hdrains =>
          rw [hdrains] at hpc
          exact hpc.elim
      | refuses => exact h.raise _
      | collides => exact h.raise _

/-- The pool had no room for the enrichment, and its `429` ended the request. -/
def Task.Refused (b : Enrichment) (t : Task) : Prop :=
  ∃ early, t.raised = some (.enriching b (.chargePool early),
    .limitReached .allowanceExhausted .enrich)

/-- A refusal says that there is no room. -/
theorem PoolStep.refusal {b : Enrichment} (hstep : PoolStep cfg s t s' t')
    (h : t.Refused b → ¬ HasRoom s.database.store (b.companyNames.length * cfg.priceCents))
    (hrefused : t'.Refused b) :
    ¬ HasRoom s'.database.store (b.companyNames.length * cfg.priceCents) := by
  intro hroom
  have hbefore := hstep.room hroom
  have hold : ¬ t.Refused b := fun hold => h hold hbefore
  obtain ⟨early, hraised⟩ := hrefused
  cases hstep with
  | pays => exact hold ⟨early, hraised⟩
  | refused hpc hfull =>
      obtain ⟨hpc', -⟩ := Prod.mk.inj (Option.some.inj hraised)
      cases hpc.symm.trans hpc'
      exact hfull hbefore
  | drained => exact hold ⟨early, hraised⟩
  | free hstep hfree =>
      cases hstep with
      | selects hselect _ _ _ _ _ hout =>
          rcases hout with ⟨-, rfl⟩ | ⟨-, rfl⟩
          · exact hold ⟨early, hraised⟩
          · obtain ⟨hpc', -⟩ := Prod.mk.inj (Option.some.inj hraised)
            cases hselect.symm.trans hpc'
      | refuses =>
          obtain ⟨hpc', -⟩ := Prod.mk.inj (Option.some.inj hraised)
          have hcharges : Charges t.pc _ _ := hpc' ▸ Charges.enrich
          exact hfree _ _ hcharges
      | collides =>
          obtain ⟨-, hexc⟩ := Prod.mk.inj (Option.some.inj hraised)
          cases hexc
      | _ => exact hold ⟨early, hraised⟩

/-- Who has been refused was refused for want of room, and an enrichment has paid, or stands where
it has not. -/
structure World.Accounted (cfg : Config) (w : World) : Prop where
  refused : ∀ t ∈ w.tasks, ∀ b, t.Refused b →
    ¬ HasRoom w.service.database.store (b.companyNames.length * cfg.priceCents)
  paid : ∀ t ∈ w.tasks, ∀ names, t.request.payload = .enrich (some names) →
    t.Unpaid names ∨ ∃ cents, .charged cents ∈ t.trail

theorem World.Accounted.step (h : w.Accounted cfg) (hnext : w.next cfg e = some w') :
    w'.Accounted cfg := by
  have hstill : ∀ c, ¬ HasRoom w.service.database.store c → ¬ HasRoom w'.service.database.store c :=
    fun c hfull hroom => hfull (World.room hnext hroom)
  have hraise : ∀ (t : Task) (exc : Exception), t ∈ w.tasks →
      (∀ kind operation, exc ≠ .limitReached kind operation) →
      (∀ b, (t.raise exc).Refused b →
        ¬ HasRoom w.service.database.store (b.companyNames.length * cfg.priceCents)) ∧
      ∀ names, t.request.payload = .enrich (some names) →
        (t.raise exc).Unpaid names ∨ ∃ cents, .charged cents ∈ t.trail := by
    intro t exc hmem hexc
    refine ⟨fun b hrefused => ?_, fun names hpayload => ?_⟩
    · obtain ⟨early, hraised⟩ := hrefused
      obtain ⟨-, heq⟩ := Prod.mk.inj (Option.some.inj hraised)
      exact absurd heq (hexc _ _)
    · exact (h.paid t hmem names hpayload).imp_left fun hunpaid => hunpaid.raise exc
  cases moves_of_next hnext with
  | @arrived request =>
      refine ⟨forall_mem_concat h.refused fun b hrefused => ?_,
        forall_mem_concat h.paid fun names hpayload => .inl ⟨hpayload, trivial, fun _ hmem => ?_⟩⟩
      · obtain ⟨early, hraised⟩ := hrefused
        cases hraised
      · cases hmem
  | @advanced i t t' s' hi hadvance =>
      have hmem := List.mem_of_getElem? hi
      have hpool := poolStep_of_advance hadvance
      refine ⟨forall_mem_set (fun b => hpool.refusal (h.refused t hmem b)) fun x hx b hrefused =>
        hstill _ (h.refused x hx b hrefused), forall_mem_set (fun names hpayload => ?_) h.paid⟩
      rw [(step_of_advance hadvance).request] at hpayload
      rcases h.paid t hmem names hpayload with hunpaid | ⟨cents, hpaid⟩
      · exact (hunpaid.step hpool).imp_right fun hpaid => hpaid.2.2
      · obtain ⟨new, htrail, -⟩ := (step_of_advance hadvance).wrote
        rw [htrail]
        exact .inr ⟨cents, List.mem_append_left _ hpaid⟩
  | @struck i f t hi hend =>
      obtain ⟨hrefused, hpaid⟩ := hraise t f.exception (List.mem_of_getElem? hi)
        (by cases f <;> simp [Fault.exception])
      exact ⟨forall_mem_set hrefused h.refused, forall_mem_set hpaid h.paid⟩
  | @timedOut i t b hi hpc =>
      obtain ⟨hrefused, hpaid⟩ := hraise t .gatewayTimeout (List.mem_of_getElem? hi)
        (by simp)
      exact ⟨forall_mem_set hrefused h.refused, forall_mem_set hpaid h.paid⟩
  | @served e i t c c' p' _ hi =>
      have hmem := List.mem_of_getElem? hi
      refine ⟨forall_mem_set (h.refused t hmem) h.refused, forall_mem_set ?_ h.paid⟩
      intro names hpayload
      exact (h.paid t hmem names hpayload).imp_left fun hunpaid =>
        ⟨hunpaid.payload, hunpaid.pc, hunpaid.trail⟩
  | woke =>
      refine ⟨List.forall_mem_map.mpr h.refused, List.forall_mem_map.mpr ?_⟩
      intro t hmem names hpayload
      exact (h.paid t hmem names hpayload).imp_left fun hunpaid =>
        ⟨hunpaid.payload, hunpaid.pc, hunpaid.trail⟩
  | quiet => exact ⟨h.refused, h.paid⟩

/-- While there is no room for so much, who names as much and has not paid does not pay. -/
theorem unpaid_step {l₀ : List Task} {names : List String}
    (hfull : ¬ HasRoom w.service.database.store (names.length * cfg.priceCents))
    (hcarries : Carries (fun t => t.request.payload = .enrich (some names) → t.Unpaid names) l₀
      w.tasks) (hnext : w.next cfg e = some w') :
    Carries (fun t => t.request.payload = .enrich (some names) → t.Unpaid names) l₀ w'.tasks := by
  cases moves_of_next hnext with
  | arrived =>
      exact hcarries.concat fun hpayload => ⟨hpayload, trivial, fun _ hmem => by cases hmem⟩
  | advanced hi hadvance =>
      refine hcarries.set hi fun hunpaid hpayload => ?_
      rw [(step_of_advance hadvance).request] at hpayload
      rcases (hunpaid hpayload).step (poolStep_of_advance hadvance) with h | ⟨hroom, -⟩
      · exact h
      · exact absurd hroom hfull
  | struck hi | timedOut hi =>
      exact hcarries.set hi fun hunpaid hpayload => (hunpaid hpayload).raise _
  | served _ hi =>
      exact hcarries.set hi fun hunpaid hpayload =>
        ⟨hpayload, (hunpaid hpayload).pc, (hunpaid hpayload).trail⟩
  | woke =>
      exact hcarries.map fun _ hunpaid hpayload =>
        ⟨hpayload, (hunpaid hpayload).pc, (hunpaid hpayload).trail⟩
  | quiet => exact hcarries

/-- **Refused for everybody.** Once the pool has refused one enrichment, no enrichment of as many
names that had not been paid for by then ever is, whichever tenant asks at whichever replica and
whatever else goes on: it charges nothing and is not served. -/
theorem refused_for_everybody {d : Database} {replicas allowanceCents i j : ℕ}
    {es es' : List Event} {b : Enrichment} {names : List String}
    (hrun : Run (Steps (World.next cfg)) (.start cfg d replicas allowanceCents) es w)
    (hi : w.tasks[i]? = some t) (hrefused : t.Refused b)
    (hafter : Run (Steps (World.next cfg)) w es' w') (hj : w'.tasks[j]? = some t')
    (hpayload : t'.request.payload = .enrich (some names))
    (hmore : b.companyNames.length ≤ names.length)
    (hunpaid : ∀ u, w.tasks[j]? = some u → ∀ cents, .charged cents ∉ u.trail) :
    (∀ cents, .charged cents ∉ t'.trail) ∧ ∀ response, t'.pc ≠ .ended (.responded response) := by
  have haccounted : w.Accounted cfg := by
    refine hrun.invariant (I := fun w => w.Accounted cfg) (fun _ _ _ h hstep => h.step hstep) ?_
    exact ⟨fun t ht => absurd ht List.not_mem_nil, fun t ht => absurd ht List.not_mem_nil⟩
  have hfull : ¬ HasRoom w.service.database.store (names.length * cfg.priceCents) := by
    intro hroom
    refine haccounted.refused t (List.mem_of_getElem? hi) b hrefused (hroom.mono ?_)
    exact mul_le_mul_of_nonneg_right (by omega) (by positivity)
  obtain ⟨-, hcarries⟩ := hafter.invariant (I := fun a =>
      ¬ HasRoom a.service.database.store (names.length * cfg.priceCents) ∧
      Carries (fun t => t.request.payload = .enrich (some names) → t.Unpaid names) w.tasks a.tasks)
    (fun _ _ _ h hstep => ⟨fun hroom => h.1 (World.room hstep hroom), unpaid_step h.1 h.2 hstep⟩)
    ⟨hfull, .refl _ _⟩
  have h := hcarries j t' hj (fun u hu hu' => by
    rcases haccounted.paid u (List.mem_of_getElem? hu) names hu' with h | ⟨cents, hpaid⟩
    · exact h
    · exact absurd hpaid (hunpaid u hu cents)) hpayload
  refine ⟨h.trail, fun response hend => ?_⟩
  have hpc := h.pc
  rw [hend] at hpc
  exact hpc

/-- Lookups at fifty cents each. -/
def dearLookups : Config := { Config.demo 1 with priceCents := 50, providerPriceCents := 50 }

/-- An enrichment is served, and another finds the pool empty. -/
def twoServed : List Event :=
  (List.range 2).flatMap fun i => .arrive .demo :: List.replicate 7 (.advance i) ++
    List.replicate 2 (.resume i) ++ List.replicate 3 (.advance i)

/-- The next one is not. -/
def thenRefused : List Event := .arrive .demo :: List.replicate 5 (.advance 2)

/-- A tenant that has spent nothing asks for one name. -/
def bystander : Request :=
  ⟨0, some "TEN-WREN", none, none, .enrich (some [Fixtures.companyName 2])⟩

theorem refused_for_a_bystander :
    ∃ w w' t t', Run (Steps (World.next dearLookups)) (.start dearLookups .demo 1 40000)
        (twoServed ++ thenRefused) w ∧
      w.tasks[2]? = some t ∧ t.Refused ⟨Fixtures.attackerTenantId, [Fixtures.companyName 1]⟩ ∧
      Run (Steps (World.next dearLookups)) w (.arrive bystander :: List.replicate 5 (.advance 3))
        w' ∧
      w'.tasks[3]? = some t' ∧ t'.request = bystander ∧ ∀ cents, .charged cents ∉ t'.trail := by
  have hfigures : (replay (World.next dearLookups) (.start dearLookups .demo 1 40000)
      (twoServed ++ thenRefused)).map (fun w => (w.tasks.length, w.tasks[2]?.map (·.raised),
        (replay (World.next dearLookups) w (.arrive bystander ::
          List.replicate 5 (.advance 3))).map fun w' => w'.tasks[3]?.map (·.request))) =
      some (3, some (some (.enriching ⟨Fixtures.attackerTenantId, [Fixtures.companyName 1]⟩
        (.chargePool none), .limitReached .allowanceExhausted .enrich)),
        some (some bystander)) := by decide
  obtain ⟨w, hw, hfigures⟩ := Option.map_eq_some_iff.mp hfigures
  obtain ⟨hlength, hfigures⟩ := Prod.mk.inj hfigures
  obtain ⟨hraised, hfigures⟩ := Prod.mk.inj hfigures
  obtain ⟨w', hw', hrequest⟩ := Option.map_eq_some_iff.mp hfigures
  obtain ⟨t, ht, hraised⟩ := Option.map_eq_some_iff.mp hraised
  obtain ⟨t', ht', hrequest⟩ := Option.map_eq_some_iff.mp hrequest
  refine ⟨w, w', t, t', run_of_replay hw, ht, ⟨none, hraised⟩, run_of_replay hw', ht', hrequest, ?_⟩
  refine (refused_for_everybody (run_of_replay hw) ht ⟨none, hraised⟩ (run_of_replay hw') ht'
    (congrArg Request.payload hrequest) le_rfl fun u hu => ?_).1
  exact absurd (List.getElem?_eq_some_iff.mp hu).1 (by omega)

end Limitless.Vulnerable
