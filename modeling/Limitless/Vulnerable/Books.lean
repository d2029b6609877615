import Limitless.Vulnerable.World

/-!
# What a request does to the shared figures

Four kinds of figures are shared: the pool, the two columns of `admitted_work`, and the counters
that the repairs keep in each process. `Effect.amount` is what an effect adds to one, and `Wrote`
says that a step's effects are all that a step did to them. Every step of a request is `Wrote` with
the effects it puts on its trail (`advance_wrote`), so each figure is a sum over the requests.
-/

namespace Limitless.Vulnerable

open Indexed

/-! ## The figures -/

/-- The figures the requests share. -/
inductive Account
  | pool
  | records (tenantId : TenantId)
  | cents (tenantId : TenantId)
  | counter (replica : ℕ) (halfFix : HalfFix) (key : String)

namespace HalfFixState

/-- What a key has spent with the allowance that a repair keeps. -/
def spentOn (state : HalfFixState) (halfFix : HalfFix) (key : String) : ℕ :=
  match halfFix with
  | .inProcessAllowance => state.inProcess.spent key
  | .callerKeyedAllowance => state.callerKeyed.spent key
  | .none | .requestRateLimit | .nonCancellingDeadline => 0

end HalfFixState

/-- The repair keeps an allowance. -/
def HalfFix.keepsAllowance : HalfFix → Bool
  | inProcessAllowance | callerKeyedAllowance => true
  | none | requestRateLimit | nonCancellingDeadline => false

/-- The figure of an account. -/
def Service.balance (s : Service) : Account → Int
  | .pool => s.database.store.balance (.period .committed)
  | .records u => s.database.recordsAdmitted u
  | .cents u => s.database.centsAdmitted u
  | .counter replica halfFix key => s.halfFixes[replica]?.elim 0 fun h => h.spentOn halfFix key

/-- The account is kept: a tenant without a row has nothing written down. -/
def Service.Keeps (s : Service) : Account → Prop
  | .pool | .counter _ _ _ => True
  | .records u | .cents u => (s.database.admittedWork.find? u).isSome

/-- What an effect adds to an account. -/
def Effect.amount : Account → Effect → Int
  | .pool, .charged cents => cents
  | .records u, .recordedWork t records _ => if t = u then records else 0
  | .cents u, .recordedWork t _ cents => if t = u then cents else 0
  | .counter replica halfFix key, .granted r h k cents =>
    if r = replica ∧ h = halfFix ∧ k = key ∧ h.keepsAllowance then cents else 0
  | _, _ => 0

/-- What a request has added to an account. -/
def Task.amount (t : Task) (a : Account) : Int := total (Effect.amount a) t.trail

/-- The lookups an effect has on a tenant's bill. -/
def Effect.billed (u : TenantId) : Effect → Int
  | .received payload response => if payload.tenantId = u then response.lookups else 0
  | _ => 0

/-- The lookups of a request on a tenant's bill: those it has been answered, and those of the call
it has out. -/
def Task.billed (t : Task) (u : TenantId) : Int :=
  total (Effect.billed u) t.trail + t.call.elim 0 (·.billed u)

/-! ## What a step writes -/

/-- The store holds a job with these figures. -/
def StoresJob (store : Store) (jobId : JobId) (tenantId : TenantId) (records : ℕ) (cents : Int) :
    Prop :=
  ∃ job, store.jobs.find? jobId = some job ∧ job.tenantId = tenantId ∧
    job.recordsAdmitted = records ∧ job.centsCharged = cents

/-- The effects are what was done to the shared figures; no row disappears, and no job. -/
structure Wrote (s : Service) (new : List Effect) (s' : Service) : Prop where
  balance : ∀ a, s.Keeps a → s'.balance a = s.balance a + total (Effect.amount a) new
  keeps : ∀ a, s.Keeps a → s'.Keeps a
  cap : s'.database.store.period?.map SpendPeriod.capCents =
    s.database.store.period?.map SpendPeriod.capCents
  jobs : ∀ j job, s.database.store.jobs.find? j = some job →
    s'.database.store.jobs.find? j = some job
  inserted : ∀ j u n cents, .insertedJob j u n cents ∈ new →
    StoresJob s'.database.store j u n cents
  provider : s'.provider = s.provider
  length : s'.halfFixes.length = s.halfFixes.length

variable {cfg : Config} {s s' : Service} {t t' : Task} {new : List Effect}

/-- Effects that write nothing leave everything as it is. -/
theorem wrote_nothing (s : Service) (h : ∀ a, total (Effect.amount a) new = 0)
    (hjobs : ∀ j u n cents, .insertedJob j u n cents ∉ new) : Wrote s new s :=
  ⟨fun a _ => by rw [h, add_zero], fun _ h => h, rfl, fun _ _ h => h,
    fun j u n cents hmem => absurd hmem (hjobs j u n cents), rfl, rfl⟩

/-- A write to the tables that both variants share. -/
theorem wrote_store {store : Store} {e : Effect}
    (hpool : store.balance (.period .committed) =
      s.database.store.balance (.period .committed) + e.amount .pool)
    (helse : ∀ a, a ≠ .pool → e.amount a = 0)
    (hcap : store.period?.map SpendPeriod.capCents =
      s.database.store.period?.map SpendPeriod.capCents)
    (hjobs : ∀ j job, s.database.store.jobs.find? j = some job → store.jobs.find? j = some job)
    (hinserted : ∀ j u n cents, e = .insertedJob j u n cents → StoresJob store j u n cents) :
    Wrote s [e] { s with database := { s.database with store := store } } := by
  refine ⟨fun a _ => ?_, fun a ha => ?_, hcap, hjobs, fun j u n cents hmem =>
    hinserted j u n cents (List.mem_singleton.mp hmem).symm, rfl, rfl⟩
  · cases a with
    | pool =>
        rw [total_cons, total_nil, add_zero]
        exact hpool
    | records u | cents u | counter r h k =>
        rw [total_cons, helse _ (by simp), total_nil, add_zero, add_zero]
        rfl
  · cases a <;> exact ha

/-- `charge_undivided_pool`: either the pool is charged, or it is as it was, and would have passed
the cap. -/
theorem chargePool_cases {lookups : ℕ} {onward drained : Task} {r : Service × Task}
    (h : t.chargePool cfg s lookups onward drained = r) :
    (∃ store, r = ({ s with database := { s.database with store := store } }, onward) ∧
      Wrote s [.charged (lookups * cfg.priceCents)] r.1) ∨
    (r = (s, drained) ∧ ∀ per, s.database.store.period? = some per →
      per.capCents < per.committedCents + per.reservedCents + lookups * cfg.priceCents) := by
  unfold Task.chargePool at h
  cases hcharge : s.database.store.chargeUndividedPool lookups cfg.priceCents with
  | error e =>
      -- the only errors are of a `CHECK`, and the statement's `WHERE` says what that would
      exfalso
      rw [Store.chargeUndividedPool_eq] at hcharge
      have hcheck := Store.chargeUndividedPool_ne_checkViolation (s := s.database.store)
        (Int.natCast_nonneg lookups) (Int.natCast_nonneg cfg.priceCents)
      rw [Store.chargeUndividedPool_eq] at hcheck
      split at hcharge
      · next c hc => exact hcheck c (by rw [hc])
      · cases hcharge
      · cases hcharge
  | ok charged =>
      obtain ⟨store, ok⟩ := charged
      rw [hcharge] at h
      have hwrote := Store.chargeUndividedPool_ok hcharge
      cases ok with
      | true =>
          obtain ⟨-, hmoved⟩ | ⟨hfalse, -⟩ := hwrote
          · subst h
            refine .inl ⟨store, rfl, wrote_store ?_ ?_ hmoved.cap ?_ (by simp)⟩
            · rw [hmoved.balance]
              simp [poolCharge, Effect.amount]
            · intro a ha
              cases a <;> first | rfl | exact absurd rfl ha
            · intro j job hjob
              rwa [hmoved.jobs]
          · cases hfalse
      | false =>
          obtain ⟨htrue, -⟩ | ⟨-, hsame⟩ := hwrote
          · cases htrue
          · refine .inr ⟨by rw [← h, hsame], fun per hper => ?_⟩
            rw [Store.chargeUndividedPool_eq, hper] at hcharge
            rcases Update.touch_cases (sqlChargeUndividedPool (lookups * cfg.priceCents))
              (some per) with ⟨_, hguard⟩ | ⟨_, per', _, _, _, htouch⟩ | ⟨_, c, _, _, _, htouch⟩
            · have := hguard per rfl
              simpa [sqlChargeUndividedPool] using this
            · rw [htouch] at hcharge
              cases hcharge
            · rw [htouch] at hcharge
              cases hcharge

/-- `record_admitted_work`: the work is written down, and the request goes on. -/
theorem recordWork_eq {u : TenantId} {records : ℕ} {pc : Pc} {r : Service × Task}
    (h : t.recordWork cfg s u records pc = r) :
    r.2 = t.did (.recordedWork u records (records * cfg.priceCents)) pc ∧
      Wrote s [.recordedWork u records (records * cfg.priceCents)] r.1 ∧
      r.1.halfFixes = s.halfFixes := by
  unfold Task.recordWork at h
  obtain ⟨d, hd⟩ := s.database.recordAdmittedWork_isOk u (Int.natCast_nonneg records)
    (Int.natCast_nonneg (records * cfg.priceCents))
  obtain ⟨hstore, hkeeps, hrows⟩ := Database.recordAdmittedWork_ok hd
  simp only [hd] at h
  subst h
  refine ⟨rfl, ⟨fun a ha => ?_, fun a ha => ?_, by rw [hstore], ?_, by simp, rfl, rfl⟩, rfl⟩
  · cases a with
    | pool => simp [Service.balance, hstore, Effect.amount]
    | records v => simpa [Service.balance, Effect.amount] using (hrows v ha).1
    | cents v => simpa [Service.balance, Effect.amount] using (hrows v ha).2
    | counter r h k => simp [Service.balance, Effect.amount]
  · cases a with
    | pool | counter => trivial
    | records v | cents v => exact (hkeeps v).trans ha
  · intro j job hjob
    rwa [hstore]

/-- `upsert_records` touches none of the figures. -/
theorem upsert_wrote (s : Service) (u : TenantId) (entries : List RecordEntry) (at' : Timestamp) :
    Wrote s [.upserted entries] { s with
      database := { s.database with store := s.database.store.upsertRecords u entries at' } } := by
  have hposted := s.database.store.upsertRecords_posted u entries at'
  refine wrote_store ((hposted.balance _).trans rfl) ?_ hposted.cap ?_ (by simp)
  · intro a _
    cases a <;> rfl
  · intro j job hjob
    rwa [Store.upsertRecords_jobs]

/-- `insert_job` stores a job, and touches none of the figures. -/
theorem insert_wrote {j : JobId} {u : TenantId} {n : ℕ} {cents : Int} {by' : String}
    {store : Store} (h : s.database.store.insertJob j u n cents by' = .ok store) :
    Wrote s [.insertedJob j u n cents]
      { s with database := { s.database with store := store } } := by
  have hposted := (Store.insertJob_posted h).1
  obtain ⟨⟨job, hjob, htenant, hrecords, hcents, -⟩, hjobs⟩ := Store.insertJob_jobs h
  refine wrote_store ((hposted.balance _).trans rfl) ?_ hposted.cap hjobs ?_
  · intro a _
    cases a <;> rfl
  · rintro _ _ _ _ ⟨⟩
    exact ⟨job, hjob, htenant, hrecords, hcents⟩

/-- A repair that lets a request go on counts it against its key, and no repair that does not. -/
theorem consult_spentOn (state : HalfFixState) (halfFix : HalfFix) (key : String) (cents : ℕ)
    (moment : Timestamp) (halfFix' : HalfFix) (key' : String) :
    ((state.consult halfFix key cents moment).2.spentOn halfFix' key' : Int) =
      state.spentOn halfFix' key' + if (state.consult halfFix key cents moment).1 = true ∧
        halfFix = halfFix' ∧ key = key' ∧ halfFix.keepsAllowance then cents else 0 := by
  have hcharge : ∀ (a : InProcessAllowance) (k : String), ((a.charge key cents).2.spent k : Int) =
      a.spent k + if (a.charge key cents).1 = true ∧ key = k then cents else 0 := by
    intro a k
    unfold InProcessAllowance.charge
    split
    · simp
    · by_cases hk : key = k
      · subst hk
        simp
      · simp [hk, Function.update_of_ne (Ne.symm hk)]
  cases halfFix with
  | inProcessAllowance =>
      have := hcharge state.inProcess key'
      cases halfFix' <;>
        simp_all [HalfFixState.consult, HalfFixState.spentOn, HalfFix.keepsAllowance]
  | callerKeyedAllowance =>
      have := hcharge state.callerKeyed key'
      cases halfFix' <;>
        simp_all [HalfFixState.consult, HalfFixState.spentOn, HalfFix.keepsAllowance]
  | none | requestRateLimit | nonCancellingDeadline =>
      cases halfFix' <;> simp [HalfFixState.consult, HalfFixState.spentOn, HalfFix.keepsAllowance]

end Limitless.Vulnerable
