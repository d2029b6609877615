import Limitless.Harness.Engine
import Limitless.Lib.Indexed

/-!
# Applications that honour every bound

`Honours` is what the harness may be run against: an application that serves each request inside
its bounds that still fits the tenant's partition and bills exactly what it serves, refuses what
does not fit with 429 and what is over a limit with 413, answers the reads that need nothing, and
spends past no partition. It is a specification of the application and not a model of one.

What such an application does to one tenant's money is decided by what the tenant asks for
(`served_iff`): a run of requests in any order refuses none of a tenant's work exactly when all of
it together fits, and the books it leaves pass every check (`Books`).
-/

namespace Limitless.Harness

open Indexed Runs

/-! ## What a request asks for -/

/-- The lookups a request names, where it names any. -/
def Call.lookups? : Call → Option Nat
  | .enrich companyNames => some companyNames.length
  | .importBundle bundle => some bundle.lines.length
  | .enrichRaw _ | .listRecords _ | .job _ => none

/-- What they cost. -/
def Call.cents (c : Call) : Int := (c.lookups?.getD 0 : Nat) * Fixtures.lookupPriceCents

/-- An enrichment inside every bound. -/
def Call.inBound : Call → Bool
  | .enrich companyNames =>
    1 ≤ companyNames.length ∧ companyNames.length ≤ SecureBounds.shipped.maxBatchItems ∧
      enrichBodyBytes companyNames ≤ SecureBounds.shipped.maxBodyBytes ∧
      companyNames.all fun name => 1 ≤ name.length ∧ name.length ≤ 200
  | .enrichRaw _ | .listRecords _ | .importBundle _ | .job _ => false

/-- A request that names more than a bound allows. -/
def Call.overLimit : Call → Bool
  | .enrich companyNames => SecureBounds.shipped.maxBatchItems < companyNames.length
  | .enrichRaw bodyBytes => SecureBounds.shipped.maxBodyBytes < bodyBytes
  | .listRecords pageSize => SecureBounds.shipped.maxPageSize < pageSize
  | .importBundle bundle => SecureBounds.shipped.maxDecompressedBytes < bundle.decompressedBytes
  | .job _ => false

/-- The answer is a success. -/
def Response.succeeded (r : Response) : Bool := 200 ≤ r.statusCode ∧ r.statusCode < 300

/-! ## The specification -/

/-- The application honours every bound, and has at most `capacity` calls in flight. -/
structure Honours {σ : Type} (app : Application σ) (capacity : Int) : Prop where
  /-- A seeding leaves no spending and an empty bill. -/
  seeded : ∀ s, app.seeded s → (∀ u, app.usage s u = 0) ∧ (app.ledger s).lookups.entries = [] ∧
    (app.ledger s).priceCentsPerLookup = Fixtures.lookupPriceCents
  /-- What still fits the tenant's partition is served. -/
  served : ∀ s x s', app.answers s x s' → x.sent.tenantId ∈ Fixtures.billableTenantIds →
    x.sent.call.inBound → app.usage s x.sent.tenantId + x.sent.call.cents ≤
      Fixtures.tenantAllowanceCents → x.response.succeeded
  /-- What does not is refused. -/
  exhausted : ∀ s x s', app.answers s x s' → x.sent.tenantId ∈ Fixtures.billableTenantIds →
    x.sent.call.inBound → Fixtures.tenantAllowanceCents <
      app.usage s x.sent.tenantId + x.sent.call.cents → x.response.statusCode = 429
  overLimit : ∀ s x s', app.answers s x s' → x.sent.call.overLimit → x.response.statusCode = 413
  /-- A job that was created can be read from then on. -/
  cheap : ∀ s x s' jobId, app.answers s x s' → x.sent.call = .job jobId →
    app.jobs s x.sent.tenantId jobId → x.response.statusCode = 200
  created : ∀ s x s' bundle body jobId, app.answers s x s' → x.sent.call = .importBundle bundle →
    x.response.succeeded → x.response.body = some body → body.jobId = some jobId →
      app.jobs s' x.sent.tenantId jobId
  kept : ∀ s x s' t jobId, app.answers s x s' → app.jobs s t jobId → app.jobs s' t jobId
  /-- The provider's bill and the usage go up by what was served, and by nothing else. -/
  billed : ∀ s x s' n, app.answers s x s' → x.sent.call.lookups? = some n → x.response.succeeded →
    ∃ cents, (app.ledger s).charge x.sent.tenantId n = .ok (app.ledger s', cents) ∧
      ∀ u, app.usage s' u = app.usage s u + if x.sent.tenantId = u then cents else 0
  free : ∀ s x s', app.answers s x s' → x.sent.call.lookups? = none ∨ x.response.succeeded = false →
    app.ledger s' = app.ledger s ∧ ∀ u, app.usage s' u = app.usage s u
  /-- No partition is overspent. -/
  within : ∀ s x s' u, app.answers s x s' → u ∈ Fixtures.billableTenantIds →
    app.usage s u ≤ Fixtures.tenantAllowanceCents → app.usage s' u ≤ Fixtures.tenantAllowanceCents
  peak : ∀ s, app.peakInFlight s ≤ capacity

variable {σ : Type} {app : Application σ} {capacity : Int} {s s' : σ} {x : Exchange}
  {u : TenantId}

/-- What an exchange spends for a tenant. -/
def Exchange.spent (x : Exchange) (u : TenantId) : Int :=
  if x.sent.tenantId = u ∧ x.response.succeeded then x.sent.call.cents else 0

theorem Call.cents_nonneg (c : Call) : 0 ≤ c.cents := by
  unfold Call.cents Fixtures.lookupPriceCents
  omega

theorem Exchange.spent_nonneg (x : Exchange) (u : TenantId) : 0 ≤ x.spent u := by
  unfold Exchange.spent
  split
  exacts [x.sent.call.cents_nonneg, le_rfl]

/-! ## The books -/

/-- The bill and the usage agree, no partition is overspent, and nobody else is billed. -/
structure Books (app : Application σ) (s : σ) : Prop where
  price : (app.ledger s).priceCentsPerLookup = Fixtures.lookupPriceCents
  usage : ∀ u, app.usage s u = (app.ledger s).lookupsOf u * Fixtures.lookupPriceCents
  within : ∀ u ∈ Fixtures.billableTenantIds, app.usage s u ≤ Fixtures.tenantAllowanceCents
  tenants : ∀ e ∈ (app.ledger s).lookups.entries, e.tenantId ∈ Fixtures.billableTenantIds

namespace Honours

variable (hon : Honours app capacity)
include hon

theorem books_of_seeded (h : app.seeded s) : Books app s := by
  obtain ⟨husage, hentries, hprice⟩ := hon.seeded s h
  refine ⟨hprice, fun u => ?_, fun u _ => ?_, ?_⟩
  · have hnone : (app.ledger s).lookups.find? u = none := by
      unfold Keyed.find?
      rw [hentries]
      rfl
    simp [husage, Ledger.lookupsOf, hnone]
  · rw [husage]
    decide
  · rw [hentries]
    rintro e ⟨⟩

/-- **Step lemma.** An exchange moves a tenant's usage by what it spends for it. -/
theorem usage_step (hs : Books app s) (h : app.answers s x s') (u : TenantId) :
    app.usage s' u = app.usage s u + x.spent u := by
  unfold Exchange.spent
  cases hn : x.sent.call.lookups? with
  | none =>
      rw [(hon.free s x s' h (.inl hn)).2]
      simp [Call.cents, hn]
  | some n =>
      cases hok : x.response.succeeded with
      | false =>
          rw [(hon.free s x s' h (.inr hok)).2]
          simp
      | true =>
          obtain ⟨cents, hcharge, husage⟩ := hon.billed s x s' n h hn hok
          obtain ⟨-, rfl, -, -⟩ := Ledger.charge_ok hcharge
          rw [husage, hs.price]
          simp [Call.cents, hn]

theorem books_step (hs : Books app s) (h : app.answers s x s')
    (ht : x.sent.tenantId ∈ Fixtures.billableTenantIds) : Books app s' := by
  have hwithin := fun u hu => hon.within s x s' u h hu (hs.within u hu)
  have hfree : app.ledger s' = app.ledger s ∧ (∀ u, app.usage s' u = app.usage s u) →
      Books app s' := by
    rintro ⟨hledger, husage⟩
    exact ⟨hledger ▸ hs.price, fun u => by rw [husage, hledger, hs.usage], hwithin,
      hledger ▸ hs.tenants⟩
  cases hn : x.sent.call.lookups? with
  | none => exact hfree (hon.free s x s' h (.inl hn))
  | some n =>
      cases hok : x.response.succeeded with
      | false => exact hfree (hon.free s x s' h (.inr hok))
      | true =>
          obtain ⟨cents, hcharge, husage⟩ := hon.billed s x s' n h hn hok
          obtain ⟨-, rfl, hprice, hlookups⟩ := Ledger.charge_ok hcharge
          refine ⟨hprice.trans hs.price, fun u => ?_, hwithin, fun e he => ?_⟩
          · rw [husage, hlookups, hs.usage, hs.price, add_mul]
            split <;> simp
          · rcases Ledger.charge_tenants hcharge he with heq | he
            exacts [heq ▸ ht, hs.tenants e he]

end Honours

/-- What a table made from a list of keys holds under one of them. -/
theorem lookup_map_pair {β : Type} (f : TenantId → β) {t : TenantId} :
    ∀ {l : List TenantId}, t ∈ l → (l.map fun t => (t, f t)).lookup t = some (f t)
  | a :: l, h => by
      rw [List.map_cons, List.lookup_cons]
      by_cases ha : t = a
      · simp [ha]
      · have hne : (t == a) = false := by simpa using ha
        rw [hne]
        exact lookup_map_pair f ((List.mem_cons.mp h).resolve_left ha)

namespace Books

/-- A line of the bill is a tenant's usage. -/
theorem usage_of_mem (hs : Books app s) {e : TenantLookups}
    (he : e ∈ (app.ledger s).lookups.entries) :
    e.lookups * Fixtures.lookupPriceCents = app.usage s e.tenantId := by
  rw [hs.usage, Ledger.lookupsOf, Keyed.find?_of_mem he, Option.elim_some]

/-- The bill stays under the cap: it has a line for each tenant at most, and none is longer than a
partition. -/
theorem totalCents_le (hs : Books app s) :
    (app.ledger s).view.totalCents ≤ Fixtures.globalSpendCapCents := by
  have hline : ∀ e ∈ (app.ledger s).lookups.entries, e.lookups ≤ 10000 := by
    intro e he
    have husage := hs.usage_of_mem he
    have hle := hs.within _ (hs.tenants e he)
    simp only [Fixtures.lookupPriceCents, Fixtures.tenantAllowanceCents] at husage hle
    omega
  have hlines : (app.ledger s).lookups.entries.length ≤ 3 := by
    have hsub : (app.ledger s).lookups.entries.map TenantLookups.tenantId ⊆
        Fixtures.billableTenantIds := by
      intro t ht
      obtain ⟨e, he, rfl⟩ := List.mem_map.mp ht
      exact hs.tenants e he
    have := (List.subperm_of_subset (app.ledger s).lookups.nodup hsub).length_le
    rwa [List.length_map] at this
  have htotal := List.sum_le_card_nsmul
    ((app.ledger s).lookups.entries.map TenantLookups.lookups) 10000 (by simpa using hline)
  have hcents : (app.ledger s).view.totalCents =
      ((app.ledger s).lookups.entries.map TenantLookups.lookups).sum * 4 := by
    show (app.ledger s).totalCents = _
    rw [Ledger.totalCents, hs.price]
    rfl
  rw [List.length_map, nsmul_eq_mul] at htotal
  rw [hcents]
  unfold Fixtures.globalSpendCapCents
  omega

/-- The two money checks find nothing. -/
theorem budgetViolations_eq_nil (hs : Books app s) (k : Nat) :
    budgetViolations k (accountedCents app s Fixtures.billableTenantIds)
      (billedCents (app.ledger s).view) Fixtures.tenantAllowanceCents = [] := by
  unfold budgetViolations
  refine List.append_eq_nil_iff.mpr ⟨List.map_eq_nil_iff.mpr ?_, List.map_eq_nil_iff.mpr ?_⟩
  · refine List.filter_eq_nil_iff.mpr fun a ha => ?_
    obtain ⟨t, ht, rfl⟩ := List.mem_map.mp ha
    simpa using hs.within t ht
  · refine List.filter_eq_nil_iff.mpr fun b hb => ?_
    obtain ⟨e, he, rfl⟩ := List.mem_map.mp hb
    obtain ⟨hlookups, hcents⟩ := Ledger.mem_perTenant he
    have ht : e.tenantId ∈ Fixtures.billableTenantIds := by
      obtain ⟨l, hl, rfl⟩ := List.mem_map.mp he
      exact hs.tenants l (List.mem_mergeSort.mp hl)
    have haccounted : (accountedCents app s Fixtures.billableTenantIds).lookup e.tenantId =
        some (app.usage s e.tenantId) := lookup_map_pair _ ht
    have hbill : e.cents = app.usage s e.tenantId := by
      rw [hcents, hlookups, hs.price, hs.usage]
    simp [haccounted, hbill]

end Books

/-! ## Demand decides -/

/-- The cents of a tenant's work that a request asks for. -/
def Sent.demand (q : Sent) (u : TenantId) : Int :=
  if q.tenantId = u ∧ q.call.inBound then q.call.cents else 0

theorem Sent.demand_nonneg (q : Sent) (u : TenantId) : 0 ≤ q.demand u := by
  unfold Sent.demand
  split
  exacts [q.call.cents_nonneg, le_rfl]

/-- The requests a round may hold: work inside every bound, over-limit probes, and reads of the
job that the scenario created. -/
def Planned (probeTenant : TenantId) (jobId : String) (q : Sent) : Prop :=
  q.tenantId ∈ Fixtures.billableTenantIds ∧ (q.call.inBound ∨ q.call.overLimit ∨
    (q.tenantId = probeTenant ∧ q.call = .job jobId))

/-- A state a scenario is in between two requests. -/
structure Ready (app : Application σ) (probeTenant : TenantId) (jobId : String) (s : σ) : Prop
    extends Books app s where
  job : app.jobs s probeTenant jobId

/-- No enrichment is both inside every bound and over one. -/
theorem Call.not_overLimit {c : Call} (h : c.inBound) : c.overLimit = false := by
  cases c with
  | enrich companyNames =>
      simp only [Call.inBound, decide_eq_true_eq] at h
      simp only [Call.overLimit, decide_eq_false_iff_not]
      omega
  | _ => cases h

theorem Call.not_inBound {c : Call} (h : c.overLimit) : c.inBound = false := by
  cases hin : c.inBound with
  | false => rfl
  | true => exact absurd h (by rw [Call.not_overLimit hin]; decide)

/-- The answers to the requests of a round, whatever the state. -/
structure Answered (x : Exchange) : Prop where
  work : x.sent.call.inBound → x.response.succeeded ∨ x.response.statusCode = 429
  overLimit : x.sent.call.overLimit → x.response.statusCode = 413
  cheap : ∀ jobId, x.sent.call = .job jobId → x.response.statusCode = 200

section
variable {probeTenant : TenantId} {jobId : String} {order : List Exchange}

/-- What is refused with 429 is not served. -/
theorem Response.not_succeeded {r : Response} {code : Nat} (h : r.statusCode = code)
    (hcode : 300 ≤ code) : r.succeeded = false := by
  simp only [Response.succeeded, h, decide_eq_false_iff_not]
  omega

/-- An exchange spends for a tenant only what is work of that tenant and was served. -/
theorem Exchange.spent_eq (hx : Planned probeTenant jobId x.sent) (ha : Answered x) (u : TenantId) :
    x.spent u = if x.response.succeeded then x.sent.demand u else 0 := by
  unfold Exchange.spent Sent.demand
  obtain ⟨-, hin | hover | ⟨-, hjob⟩⟩ := hx
  · simp only [hin, and_true]
    split <;> split <;> simp_all
  · have hrefused := Response.not_succeeded (ha.overLimit hover) (by decide)
    simp [hrefused]
  · simp [hjob, Call.cents, Call.lookups?]

namespace Honours

variable (hon : Honours app capacity)
include hon

theorem ready_step (hs : Ready app probeTenant jobId s) (hx : Planned probeTenant jobId x.sent)
    (h : app.answers s x s') : Ready app probeTenant jobId s' :=
  ⟨hon.books_step hs.toBooks h hx.1, hon.kept s x s' _ _ h hs.job⟩

theorem answered (hs : Ready app probeTenant jobId s) (hx : Planned probeTenant jobId x.sent)
    (h : app.answers s x s') : Answered x := by
  refine ⟨fun hin => ?_, fun hover => hon.overLimit s x s' h hover, fun job hjob => ?_⟩
  · by_cases hfits : app.usage s x.sent.tenantId + x.sent.call.cents ≤
        Fixtures.tenantAllowanceCents
    · exact .inl (hon.served s x s' h hx.1 hin hfits)
    · exact .inr (hon.exhausted s x s' h hx.1 hin (by omega))
  · obtain ⟨-, hin | hover | ⟨hprobe, hjob'⟩⟩ := hx
    · rw [hjob] at hin
      cases hin
    · rw [hjob] at hover
      cases hover
    · exact hon.cheap s x s' _ h hjob' (hprobe ▸ hs.job)

/-- What holds of a run of a round's requests. -/
theorem ready_run (hs : Ready app probeTenant jobId s)
    (hplanned : ∀ x ∈ order, Planned probeTenant jobId x.sent) (hrun : Run app.answers s order s') :
    Ready app probeTenant jobId s' ∧ (∀ x ∈ order, Answered x) ∧
      ∀ u, app.usage s' u = app.usage s u + total (fun x => x.spent u) order := by
  induction hrun with
  | nil => exact ⟨hs, by simp, by simp⟩
  | @cons s t s' x order hstep _ ih =>
      have hx := hplanned x List.mem_cons_self
      obtain ⟨hready, hanswered, husage⟩ :=
        ih (hon.ready_step hs hx hstep) fun y hy => hplanned y (List.mem_cons_of_mem _ hy)
      refine ⟨hready, List.forall_mem_cons.mpr ⟨hon.answered hs hx hstep, hanswered⟩, fun u => ?_⟩
      rw [husage, hon.usage_step hs.toBooks hstep, total_cons, add_assoc]

/-- **Demand decides.** In a run of requests in any order, none of a tenant's work is refused
exactly when all of it together fits what is left of its partition. -/
theorem served_iff (hs : Ready app probeTenant jobId s)
    (hplanned : ∀ x ∈ order, Planned probeTenant jobId x.sent) (hrun : Run app.answers s order s')
    (hu : u ∈ Fixtures.billableTenantIds) :
    (∀ x ∈ order, x.sent.tenantId = u → x.sent.call.inBound → x.response.succeeded) ↔
      app.usage s u + total (fun x => x.sent.demand u) order ≤ Fixtures.tenantAllowanceCents := by
  induction hrun with
  | nil => simpa using hs.within u hu
  | @cons s t s' x order hstep hrest ih =>
      have hx := hplanned x List.mem_cons_self
      have hmore : ∀ y ∈ order, Planned probeTenant jobId y.sent :=
        fun y hy => hplanned y (List.mem_cons_of_mem _ hy)
      have hih := ih (hon.ready_step hs hx hstep) hmore
      have husage := hon.usage_step hs.toBooks hstep u
      rw [Exchange.spent_eq hx (hon.answered hs hx hstep)] at husage
      have hnonneg : 0 ≤ total (fun x => x.sent.demand u) order :=
        total_nonneg fun y _ => y.sent.demand_nonneg u
      rw [List.forall_mem_cons, hih, total_cons, husage]
      by_cases hwork : x.sent.tenantId = u ∧ x.sent.call.inBound
      · -- the head is this tenant's work: it is served when it fits, and then it is paid for
        obtain ⟨rfl, hin⟩ := hwork
        have hdemand : x.sent.demand x.sent.tenantId = x.sent.call.cents := by
          simp [Sent.demand, hin]
        by_cases hfits : app.usage s x.sent.tenantId + x.sent.call.cents ≤
            Fixtures.tenantAllowanceCents
        · have hok := hon.served s x t hstep hx.1 hin hfits
          simp only [hok, hin, if_true, forall_const, true_and]
          rw [add_assoc]
        · have hrefused := Response.not_succeeded
            (hon.exhausted s x t hstep hx.1 hin (by omega)) (by decide)
          simp only [hrefused, hin, hdemand, forall_const, Bool.false_eq_true, false_and,
            false_iff]
          omega
      · -- the head asks for nothing of this tenant
        have hdemand : x.sent.demand u = 0 := if_neg hwork
        simp only [hdemand, ite_self, add_zero, zero_add, and_iff_right_iff_imp]
        exact fun _ ht hin => absurd ⟨ht, hin⟩ hwork

/-- Where a tenant's work was refused, the tenant ends with less left than the work asked for. -/
theorem lt_of_refused (hs : Ready app probeTenant jobId s)
    (hplanned : ∀ x ∈ order, Planned probeTenant jobId x.sent) (hrun : Run app.answers s order s')
    (hx : x ∈ order) (hin : x.sent.call.inBound) (hrefused : x.response.succeeded = false) :
    Fixtures.tenantAllowanceCents < app.usage s' x.sent.tenantId + x.sent.call.cents := by
  induction hrun with
  | nil => cases hx
  | @cons s t s' y order hstep hrest ih =>
      have hy := hplanned y List.mem_cons_self
      have hready := hon.ready_step hs hy hstep
      have hmore : ∀ z ∈ order, Planned probeTenant jobId z.sent :=
        fun z hz => hplanned z (List.mem_cons_of_mem _ hz)
      rcases List.mem_cons.mp hx with rfl | hx
      · have hover : Fixtures.tenantAllowanceCents <
            app.usage s x.sent.tenantId + x.sent.call.cents := by
          by_contra hfits
          have := hon.served s x t hstep hy.1 hin (by omega)
          rw [hrefused] at this
          cases this
        have hgrows := (hon.ready_run hready hmore hrest).2.2 x.sent.tenantId
        have hspent : 0 ≤ total (fun z => z.spent x.sent.tenantId) order :=
          total_nonneg fun z _ => z.spent_nonneg _
        have hfirst := hon.usage_step hs.toBooks hstep x.sent.tenantId
        have := x.spent_nonneg x.sent.tenantId
        omega
      · exact ih hready hmore hx

end Honours

end

end Limitless.Harness
