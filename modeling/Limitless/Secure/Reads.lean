import Limitless.Secure.Connections
import Limitless.Secure.Reconciliation

/-!
# A tenant reads what it was answered

What the common routes of the secure application show of the past, to readers that ask at any
replica while anything goes on. An import that has been answered is shown by `get_job`, from then
on, with the figures it was answered with, to its tenant and to nobody else
(`imported_then_shown`). `get_usage` covers everything the tenant has been answered so far
(`answered_then_counted`).
-/

namespace Limitless

open Indexed Runs Pools

/-! ## Jobs stay -/

namespace Store

variable {s s' : Store}

/-- The job of an import, with its figures. -/
def HasJob (s : Store) (jobId : JobId) (tenantId : TenantId) (recordsAdmitted centsCharged : Int) :
    Prop :=
  ∃ job, s.jobs.find? jobId = some job ∧ job.tenantId = tenantId ∧
    job.recordsAdmitted = recordsAdmitted ∧ job.centsCharged = centsCharged

/-- Nothing takes a job away or changes it. -/
def KeepsJobs (s s' : Store) : Prop :=
  ∀ j job, s.jobs.find? j = some job → s'.jobs.find? j = some job

theorem keepsJobs_of_eq (h : s'.jobs = s.jobs) : s.KeepsJobs s' := by
  intro j job hjob
  rwa [h]

theorem HasJob.keep {j : JobId} {u : TenantId} {n c : Int} (h : s.HasJob j u n c)
    (hkeeps : s.KeepsJobs s') : s'.HasJob j u n c := by
  obtain ⟨job, hjob, hfigures⟩ := h
  exact ⟨job, hkeeps j job hjob, hfigures⟩

/-- What `read_job` shows of it, and to whom. -/
theorem HasJob.readJob {j : JobId} {u : TenantId} {n c : Int} (h : s.HasJob j u n c)
    (v : TenantId) : s.readJob j v = if v = u then some ⟨j, u, .completed, n, c⟩ else none := by
  obtain ⟨job, hjob, rfl, rfl, rfl⟩ := h
  have hid : job.jobId = j := Keyed.find?_key hjob
  subst hid
  simp only [Store.readJob, hjob, Option.filter_some, eq_comm (a := job.tenantId)]
  by_cases hv : v = job.tenantId
  · subst hv
    simp
  · simp [hv]

theorem settle_jobs {r : Reservation} {l c : Int} (h : s.settle r l c = .ok s') :
    s'.jobs = s.jobs := by
  rw [settle_eq] at h
  split at h
  · cases h
  · split at h
    · cases h
    · cases h
      rfl

/-- A committed `insert_job` adds one job, under an identifier that had none. -/
theorem insertJob_ok {j : JobId} {u : TenantId} {n c : Int} {by' : String}
    (h : s.insertJob j u n c by' = .ok s') : s.KeepsJobs s' ∧ s'.HasJob j u n c ∧
      ∀ k job, s'.jobs.find? k = some job → s.jobs.find? k = some job ∨ k = j := by
  unfold insertJob at h
  split at h
  · split at h
    · split at h
      · cases h
      · next hfree =>
          cases h
          refine ⟨fun k job hjob => ?_, ⟨_, Keyed.find?_put_self _ _, rfl, rfl, rfl⟩,
            fun k job hjob => ?_⟩
          · show (s.jobs.put _).find? k = _
            rw [Keyed.find?_put_of_ne, hjob]
            rintro rfl
            rw [hfree] at hjob
            cases hjob
          · by_cases hk : j = k
            · exact .inr hk.symm
            · exact .inl ((Keyed.find?_put_of_ne s.jobs hk).symm.trans hjob)
    · cases h
  · cases h

end Store

/-! ## One request -/

/-- The job of an import that has inserted it, with the figures of its answer. -/
def Pc.filed? (cfg : Config) : Pc → Option (JobId × TenantId × Int × Int)
  | recording w _ result jobId .leaveConnection =>
    some (jobId, w.tenantId, (enrichedRecords cfg w.tenantId result).length, result.centsCharged)
  | ended (.responded (.imported jobId tenantId _ recordsAdmitted centsCharged)) =>
    some (jobId, tenantId, recordsAdmitted, centsCharged)
  | _ => none

/-- The job of the request is in the store. -/
def Task.Filed (cfg : Config) (s : Store) (t : Task) : Prop :=
  ∀ j u n c, t.pc.filed? cfg = some (j, u, n, c) → s.HasJob j u n c

section
variable {cfg : Config} {s s' : Service} {t t' : Task}

theorem Task.filed_of_none {st : Store} (h : t.pc.filed? cfg = none) : t.Filed cfg st := by
  intro j u n c hfiled
  rw [h] at hfiled
  cases hfiled

theorem Task.Filed.keep {st st' : Store} (h : t.Filed cfg st) (hkeeps : st.KeepsJobs st') :
    t.Filed cfg st' := fun j u n c hfiled => (h j u n c hfiled).keep hkeeps

/-- The jobs are kept, the request's own is there once it has inserted it, and there is no other
new one. -/
structure FilesJob (cfg : Config) (s : Service) (x : Service × Task) : Prop where
  keeps : s.store.KeepsJobs x.1.store
  filed : x.2.Filed cfg x.1.store
  fresh : ∀ k job, x.1.store.jobs.find? k = some job → s.store.jobs.find? k = some job ∨
    ∃ w r result, x.2.pc = .recording w r result k .leaveConnection

theorem filesJob_of_eq {x : Service × Task} (hjobs : x.1.store.jobs = s.store.jobs)
    (hfiled : x.2.pc.filed? cfg = none) : FilesJob cfg s x := by
  refine ⟨Store.keepsJobs_of_eq hjobs, Task.filed_of_none hfiled, fun k job hjob => .inl ?_⟩
  rwa [hjobs] at hjob

theorem Task.raise_files (s : Service) (t : Task) (exc : Exception) :
    FilesJob cfg s (t.raise s exc) := by
  refine filesJob_of_eq ?_ ?_
  · show (if t.pc.holdsSlot then s.leaveSlot t.request.replica else s).store.jobs = s.store.jobs
    split
    · rw [Service.leaveSlot_store]
    · rfl
  · unfold raise
    dsimp only
    split <;> rfl

/-- **Step lemma.** A request's own step. -/
theorem Task.advance_files (hstep : t.advance cfg s = some (s', t')) (h : t.Filed cfg s.store) :
    FilesJob cfg s (s', t') := by
  have hfiles : ∀ {x : Service × Task}, FilesJob cfg s x → some x = some (s', t') →
      FilesJob cfg s (s', t') := by
    rintro _ hx ⟨⟩
    exact hx
  unfold advance at hstep
  split at hstep
  · split at hstep
    · exact hfiles (raise_files s t _) hstep
    · exact hfiles (filesJob_of_eq rfl rfl) hstep
  · refine hfiles ?_ hstep
    unfold read
    split
    · split
      · exact raise_files s t _
      · exact filesJob_of_eq rfl rfl
    · exact filesJob_of_eq rfl rfl
    · exact filesJob_of_eq rfl rfl
    all_goals exact raise_files s t _
  · exact hfiles (filesJob_of_eq rfl rfl) hstep
  · refine hfiles ?_ hstep
    unfold reserve
    split
    · next hreserve => exact filesJob_of_eq (Store.reserve_ok hreserve).2.2.1.jobs rfl
    · exact raise_files s t _
    · exact raise_files s t _
  · exact hfiles (filesJob_of_eq rfl rfl) hstep
  · next w r p hpc =>
      cases p with
      | enterSlot =>
          simp only [lookUp] at hstep
          split at hstep
          · cases hstep
          · split at hstep
            · exact hfiles (raise_files s t _) hstep
            · exact hfiles (filesJob_of_eq rfl rfl) hstep
      | awaitResponse =>
          simp only [lookUp] at hstep
          split at hstep
          · exact hfiles (filesJob_of_eq rfl rfl) hstep
          · cases hstep
      | _ => exact hfiles (filesJob_of_eq rfl rfl) hstep
  · next w r result p hpc =>
      refine hfiles ?_ hstep
      cases p with
      | leaveSlot => exact filesJob_of_eq (by simp [finish]) rfl
      | upsertRecords =>
          refine filesJob_of_eq ?_ rfl
          simp only [finish, Store.upsertRecords]
          split <;> rfl
      | settle =>
          simp only [finish]
          split
          · exact raise_files s t _
          · next hsettle => exact filesJob_of_eq (Store.settle_jobs hsettle) rfl
      | leaveConnection =>
          simp only [finish]
          split
          · exact filesJob_of_eq rfl rfl
          · exact filesJob_of_eq rfl rfl
      | _ => exact filesJob_of_eq rfl rfl
  · next w r attempted exc p hpc =>
      refine hfiles ?_ hstep
      cases p with
      | close =>
          simp only [handle, Store.release]
          split <;> split
          all_goals first
            | exact raise_files s t _
            | next hsettle => exact filesJob_of_eq (Store.settle_jobs hsettle) rfl
      | _ => exact filesJob_of_eq rfl rfl
  · next w r result jobId p hpc =>
      refine hfiles ?_ hstep
      cases p with
      | takeConnection => exact filesJob_of_eq rfl rfl
      | insertJob =>
          simp only [record]
          split
          · exact raise_files s t _
          · next hinsert =>
              obtain ⟨hkeeps, hjob, hfresh⟩ := Store.insertJob_ok hinsert
              refine ⟨hkeeps, fun j u n c hfiled => ?_, fun k job hk => ?_⟩
              · cases hfiled
                exact hjob
              · rcases hfresh k job hk with hold | rfl
                exacts [.inl hold, .inr ⟨w, r, result, rfl⟩]
      | leaveConnection =>
          refine ⟨Store.keepsJobs_of_eq rfl, fun j u n c hfiled => ?_, fun _ _ hk => .inl hk⟩
          cases hfiled
          exact h _ _ _ _ (by rw [hpc]; rfl)
  · next u n p hpc =>
      refine hfiles ?_ hstep
      cases p
      all_goals exact filesJob_of_eq rfl rfl
  · cases hstep

end

/-! ## Settled money stays -/

/-- The figures of `get_usage`. -/
def usageAccounts (u : TenantId) : List Account := [.tenant u .committed, .lookups u]

/-- A posting that commits and performs no less than nothing lowers neither of them. -/
theorem Posting.amount_nonneg {x : Posting} {u : TenantId} {a : Account} (ha : a ∈ usageAccounts u)
    (hcommitted : 0 ≤ x.committed) (hlookups : 0 ≤ x.lookups) : 0 ≤ x.amount a := by
  simp only [usageAccounts, List.mem_cons, List.not_mem_nil, or_false] at ha
  by_cases hu : u = x.tenantId
  · rcases ha with rfl | rfl
    · exact hcommitted.trans_eq (if_pos hu).symm
    · exact hlookups.trans_eq (if_pos hu).symm
  · rcases ha with rfl | rfl
    · exact (if_neg hu).ge
    · exact (if_neg hu).ge

/-- A settlement charges no less than nothing. -/
def Effect.Charges : Effect → Prop
  | settled _ lookups cents => 0 ≤ lookups ∧ 0 ≤ cents
  | _ => True

theorem Effect.Charges.amount_nonneg {e : Effect} {u : TenantId} {a : Account}
    (ha : a ∈ usageAccounts u) (h : e.Charges) : 0 ≤ e.amount a := by
  cases e with
  | settled r lookups cents => exact Posting.amount_nonneg ha h.2 h.1
  | reserved r => exact Posting.amount_nonneg ha le_rfl le_rfl
  | _ => exact le_rfl

section
variable {cfg : Config} {t : Task}

theorem Pc.trail_charges {pc : Pc} {call : Option Call} (h : pc.Fits cfg call) :
    ∀ e ∈ pc.trail cfg, e.Charges := by
  have hanswer : ∀ w : Work, 0 ≤ (w.lookupRequest.response cfg.providerPriceCents).lookups ∧
      0 ≤ (w.lookupRequest.response cfg.providerPriceCents).centsCharged := by
    intro w
    exact ⟨Int.natCast_nonneg _, mul_nonneg (Int.natCast_nonneg _) (Int.natCast_nonneg _)⟩
  cases pc with
  | calling w r p => cases p <;> simp [trail, CallPoint.trail, Effect.Charges]
  | finishing w r result p =>
      obtain ⟨-, rfl⟩ := h
      cases p <;> simp [trail, FinishPoint.trail, Effect.Charges, hanswer]
  | recording w r result j p =>
      obtain ⟨-, rfl⟩ := h
      cases p <;> simp [trail, FinishPoint.trail, JobPoint.trail, Effect.Charges, hanswer]
  | leavingConnection => simp [trail, Effect.Charges]
  | authenticating | reading | takingConnection | reserving | handling | listing | ended =>
      simp [trail]

theorem Live.charges {pc : Pc} {call : Option Call} {trail : List Effect}
    {raised : List (Pc × Exception)} (h : Live cfg pc call trail raised) :
    ∀ e ∈ trail, e.Charges := by
  obtain ⟨hpriced, h⟩ := h
  cases pc with
  | ended e => exact h.elim
  | handling w r attempted exc p =>
      obtain ⟨struck, -, -, -, hfits, -, rfl⟩ := h
      intro e he
      rcases List.mem_append.mp he with he | he
      · rcases List.mem_append.mp he with he | he
        · exact Pc.trail_charges hfits e he
        · unfold Pc.unwound at he
          split at he
          · rw [List.mem_singleton.mp he]
            trivial
          · cases he
      · cases p with
        | leaveConnection =>
            obtain rfl := List.mem_singleton.mp he
            have hpriced : r = w.reservation cfg.priceCents := hpriced
            subst hpriced
            unfold Reservation.closing
            split
            · exact ⟨Int.natCast_nonneg _,
                mul_nonneg (Int.natCast_nonneg _) (Int.natCast_nonneg _)⟩
            · exact ⟨le_rfl, le_rfl⟩
        | takeConnection | close => cases he
  | _ =>
      obtain ⟨hfits, -, rfl⟩ := h
      exact Pc.trail_charges hfits

theorem Task.Sound.charges (h : t.Sound cfg) : ∀ e ∈ t.trail, e.Charges := by
  rcases h with h | ⟨_, _, _, _, hlast, _⟩
  · exact h.charges
  · exact hlast.charges

theorem amounts_nonneg {l : List Effect} (h : ∀ e ∈ l, e.Charges) {u : TenantId} {a : Account}
    (ha : a ∈ usageAccounts u) : 0 ≤ amounts l a :=
  total_nonneg fun e he => (h e he).amount_nonneg ha

/-- What a `201` says it has charged and performed, and for whom. -/
def Pc.receipt? : Pc → Option Posting
  | ended (.responded (.enriched tenantId _ lookups cents _)) => some ⟨tenantId, 0, cents, lookups⟩
  | ended (.responded (.imported _ tenantId _ recordsAdmitted cents)) =>
    some ⟨tenantId, 0, cents, recordsAdmitted⟩
  | _ => none

/-- What the response of a request says it has added to an account. -/
def Task.answered (t : Task) (a : Account) : Int := t.pc.receipt?.elim 0 (·.amount a)

/-- What all responses so far say they have. -/
def World.answered (w : World) (a : Account) : Int := total (fun t => t.answered a) w.tasks

/-- In these figures a closed reservation is its receipt. -/
theorem closed_amount {u : TenantId} {a : Account} (ha : a ∈ usageAccounts u) (r : Reservation)
    (lookups cents : Int) : r.held.amount a + (r.closed lookups cents).amount a =
      Posting.amount ⟨r.tenantId, 0, cents, lookups⟩ a := by
  simp only [usageAccounts, List.mem_cons, List.not_mem_nil, or_false] at ha
  rcases ha with rfl | rfl
  · exact r.committed_of_closed lookups cents u
  · exact r.lookups_of_closed lookups cents u

/-- A request has settled at least what it has been answered. -/
theorem Task.Sound.answered_le (h : t.Sound cfg) {u : TenantId} {a : Account}
    (ha : a ∈ usageAccounts u) : t.answered a ≤ amounts t.trail a := by
  cases hreceipt : t.pc.receipt? with
  | none =>
      rw [Task.answered, hreceipt]
      exact amounts_nonneg h.charges ha
  | some x =>
      rw [Task.answered, hreceipt, Option.elim_some]
      have hend : t.pc.isEnded = true := by
        cases hpc : t.pc with
        | ended e => rfl
        | _ =>
            rw [hpc] at hreceipt
            cases hreceipt
      obtain ⟨e, hpc, last, before, hlive, hexit⟩ := h.left hend
      rw [hpc] at hreceipt
      rcases hexit with ⟨hexit, -⟩ | ⟨exc, rfl, -⟩
      · cases hexit with
        | @enriched w r result hjob =>
            obtain ⟨rfl, -, -, htrail⟩ := hlive
            cases hreceipt
            have hframe : (Pc.finishing w (w.reservation cfg.priceCents) result
              .leaveConnection).frame? = some (w, w.reservation cfg.priceCents) := rfl
            rw [htrail]
            exact (closed_amount ha (w.reservation cfg.priceCents) _ _).ge.trans
              (amounts_framed hframe a).ge
        | @imported w r result jobId =>
            obtain ⟨rfl, ⟨-, rfl⟩, -, htrail⟩ := hlive
            cases hreceipt
            rw [htrail, (recording_trail a).2.1, closed_amount ha]
            simp [enrichedRecords, recordEntries, LookupRequest.response, LookupRequest.results,
              Work.lookupRequest, Work.reservation]
        | page | raised => cases hreceipt
      · cases hreceipt

end

/-! ## In a run -/

variable {cfg : Config} {w w' : World} {e : Event} {s₀ : Store} {replicas : ℕ}
  {limiter : InFlightLimiter} {size : ℕ → ℕ} {p q : Replicas World}

/-- Every job that a request has inserted is there. -/
def World.Filed (cfg : Config) (w : World) : Prop := ∀ t ∈ w.tasks, t.Filed cfg w.service.store

/-- No event takes a job away, and each insertion stays. -/
theorem World.jobs_step (h : w.Filed cfg) (hstep : w.next cfg e = some w') :
    w.service.store.KeepsJobs w'.service.store ∧ w'.Filed cfg := by
  have hsame : ∀ {st : Store}, st = w.service.store → w.service.store.KeepsJobs st := by
    rintro _ rfl
    exact Store.keepsJobs_of_eq rfl
  cases moves_of_next hstep with
  | arrived => exact ⟨hsame rfl, forall_mem_concat h (Task.filed_of_none rfl)⟩
  | advanced hi hadvance =>
      obtain ⟨hkeeps, hfiled, -⟩ := Task.advance_files hadvance (h _ (List.mem_of_getElem? hi))
      exact ⟨hkeeps, forall_mem_set hfiled fun t ht => (h t ht).keep hkeeps⟩
  | @struck i f t t' s' hi hfault =>
      obtain ⟨-, exc, heq⟩ := Task.fault_eq hfault
      obtain ⟨hkeeps, hfiled, -⟩ : FilesJob cfg w.service (s', t') := heq ▸ t.raise_files _ exc
      exact ⟨hkeeps, forall_mem_set hfiled fun t ht => (h t ht).keep hkeeps⟩
  | @served e i t c c' q' _ hi hc =>
      exact ⟨hsame rfl, forall_mem_set (h t (List.mem_of_getElem? hi)) h⟩
  | woke => exact ⟨hsame rfl, List.forall_mem_map.mpr h⟩
  | reset | quiet => exact ⟨hsame rfl, h⟩

/-- No event lowers what a tenant has been charged and has had performed. -/
theorem World.Sound.balance_le (h : World.Sound cfg s₀ replicas w) (hstep : w.next cfg e = some w')
    {u : TenantId} {a : Account} (ha : a ∈ usageAccounts u) :
    w.service.store.balance a ≤ w'.service.store.balance a := by
  have hacted : ∀ {i : ℕ} {t t' : Task} {s' : Service}, w.tasks[i]? = some t →
      t'.Sound cfg ∧ Acted w.service t s' t' →
      w.service.store.balance a ≤ s'.store.balance a := by
    intro i t t' s' _ ⟨hsound, hacted⟩
    obtain ⟨new, htrail, hwrote, -⟩ := hacted.books
    have hnonneg : 0 ≤ amounts new a := by
      refine amounts_nonneg (fun e he => hsound.charges e ?_) ha
      rw [htrail]
      exact List.mem_append_right _ he
    rw [hwrote.posted.balance]
    omega
  cases moves_of_next hstep with
  | advanced hi hadvance => exact hacted hi (h.of_advance hi hadvance)
  | struck hi hfault => exact hacted hi (h.of_fault hi hfault)
  | arrived | served | woke | reset | quiet => exact le_rfl

/-- **Read your import.** Once an import has been answered, every `get_job` for its job that anybody
asks for afterwards, at whatever replica and whatever else goes on, is answered with the figures of
the import's own answer to its tenant, and with a `404` to every other tenant. -/
theorem imported_then_shown {es es' : List (ReplicaEvent Event)} {i k : ℕ} {t : Task}
    {r : CommonReader} {j : JobId} {u v : TenantId} {status : JobStatus} {n : ℕ} {c : Int}
    {a : CommonAnswer}
    (hrun : Run (Steps (pooled cfg size)) (.start (.start cfg s₀ replicas limiter)) es p)
    (hi : p.world.tasks[i]? = some t)
    (hpc : t.pc = .ended (.responded (.imported j u status n c)))
    (hafter : Run (Steps (pooled cfg size)) p es' q) (hk : q.readers[k]? = some r)
    (hlater : p.readers.length ≤ k) (hroute : r.request.route = .job j)
    (hv : r.request.principal = some v) (ha : r.point = .ended (.ok a)) :
    a = if v = u then .job ⟨j, u, .completed, n, c⟩ else .notFound := by
  have hfiled : p.world.Filed cfg := by
    refine (Clients.run_next hrun).invariant (I := fun p => p.world.Filed cfg) ?_ ?_
    · intro a e b h hstep
      cases Replicas.moves_of_next hstep with
      | inside hw => exact (World.jobs_step h hw).2
      | asked | advanced | struck => exact h
    · exact fun t ht => absurd ht (List.not_mem_nil)
  have hjob : p.world.service.store.HasJob j u n c :=
    hfiled t (List.mem_of_getElem? hi) j u n c (by rw [hpc]; rfl)
  obtain ⟨-, htold⟩ := Replicas.run_told (Clients.run_next hafter)
  have hr := htold k r hk hlater
  have henter : r.enter = .takingConnection (.readJob j v) := by
    simp only [CommonReader.enter, hroute, hv]
  simp only [CommonReader.Told, ha, henter] at hr
  rcases hr with hr | ⟨w, query, ⟨⟨fs, hfs⟩, -⟩, hquery, rfl⟩
  · cases hr
  · cases hquery
    obtain ⟨-, hw⟩ := hfs.invariant
      (I := fun w => w.Filed cfg ∧ w.service.store.HasJob j u n c) (fun _ _ _ h hstep =>
        ⟨(World.jobs_step h.1 hstep).2, h.2.keep (World.jobs_step h.1 hstep).1⟩) ⟨hfiled, hjob⟩
    show ((secureVariant cfg).readJob w j v).elim CommonAnswer.notFound CommonAnswer.job = _
    have hread : (secureVariant cfg).readJob w j v =
        if v = u then some ⟨j, u, .completed, n, c⟩ else none := hw.readJob v
    rw [hread]
    split <;> rfl

/-- An import of one name. -/
def oneImport : List (ReplicaEvent Event) :=
  [.inside (.arrive ⟨0, some Fixtures.attackerTenantId,
      .importBundle (.ok [Fixtures.companyName 1]) 7⟩)] ++
    List.replicate 9 (.inside (.advance 0)) ++ List.replicate 2 (.inside (.resume 0)) ++
    List.replicate 12 (.inside (.advance 0))

/-- Its tenant and another one ask for its job, and its tenant for its usage. -/
def thenAsked : List (ReplicaEvent Event) :=
  [.ask ⟨0, some Fixtures.attackerTenantId, .job 7⟩, .ask ⟨0, some "TEN-WREN", .job 7⟩,
      .ask ⟨0, some Fixtures.attackerTenantId, .usage⟩] ++
    (List.replicate 4 [.advance 0, .advance 1, .advance 2]).flatten

theorem one_import_shown :
    ∃ p q t r r' a a', Run (Steps (pooled (.demo 1) fun _ => 3)) (.start (.demo 1)) oneImport p ∧
      p.world.tasks[0]? = some t ∧
      t.pc = .ended (.responded (.imported 7 Fixtures.attackerTenantId .completed 1 4)) ∧
      Run (Steps (pooled (.demo 1) fun _ => 3)) p thenAsked q ∧
      q.readers[0]? = some r ∧ r.point = .ended (.ok a) ∧
      a = .job ⟨7, Fixtures.attackerTenantId, .completed, 1, 4⟩ ∧
      q.readers[1]? = some r' ∧ r'.point = .ended (.ok a') ∧ a' = .notFound := by
  have hfigures : (replay (pooled (.demo 1) fun _ => 3) (.start (.demo 1)) oneImport).map
      (fun p => (p.readers.length, p.world.tasks.map (·.pc),
        (replay (pooled (.demo 1) fun _ => 3) p thenAsked).map
          fun q => (q.readers[0]?, q.readers[1]?))) =
      some (0, [.ended (.responded (.imported 7 Fixtures.attackerTenantId .completed 1 4))],
        some (some ⟨⟨0, some Fixtures.attackerTenantId, .job 7⟩,
            .ended (.ok (.job ⟨7, Fixtures.attackerTenantId, .completed, 1, 4⟩))⟩,
          some ⟨⟨0, some "TEN-WREN", .job 7⟩, .ended (.ok .notFound)⟩)) := by decide
  obtain ⟨p, hp, hfigures⟩ := Option.map_eq_some_iff.mp hfigures
  obtain ⟨hlength, hfigures⟩ := Prod.mk.inj hfigures
  obtain ⟨htasks, hreaders⟩ := Prod.mk.inj hfigures
  obtain ⟨q, hq, hreaders⟩ := Option.map_eq_some_iff.mp hreaders
  obtain ⟨hr, hr'⟩ := Prod.mk.inj hreaders
  obtain ⟨t, ht, hpc⟩ : ∃ t, p.world.tasks[0]? = some t ∧
      t.pc = .ended (.responded (.imported 7 Fixtures.attackerTenantId .completed 1 4)) := by
    have h0 := congrArg (·[0]?) htasks
    simpa using h0
  exact ⟨p, q, t, _, _, _, _, run_of_replay hp, ht, hpc, run_of_replay hq, hr, rfl,
    imported_then_shown (run_of_replay hp) ht hpc (run_of_replay hq) hr (by omega) rfl rfl rfl,
    hr', rfl,
    imported_then_shown (run_of_replay hp) ht hpc (run_of_replay hq) hr' (by omega) rfl rfl rfl⟩

/-- **Read your spending.** Every `get_usage` that a tenant asks for counts at least what the
tenant had been answered by then, in cents and in lookups, whatever goes on. -/
theorem answered_then_counted {es es' : List (ReplicaEvent Event)} {k : ℕ} {r : CommonReader}
    {u : TenantId} {view : UsageView}
    (hl : InFlightLimiter.make cfg.maxInFlightUpstream = .ok limiter)
    (hrun : Run (Steps (pooled cfg size)) (.start (.start cfg s₀ replicas limiter)) es p)
    (hafter : Run (Steps (pooled cfg size)) p es' q) (hk : q.readers[k]? = some r)
    (hlater : p.readers.length ≤ k) (hroute : r.request.route = .usage)
    (hu : r.request.principal = some u) (hview : r.point = .ended (.ok (.usage view))) :
    s₀.balance (.tenant u .committed) + p.world.answered (.tenant u .committed) ≤
        view.centsCharged ∧
      s₀.balance (.lookups u) + p.world.answered (.lookups u) ≤ view.lookupsPerformed := by
  have hsound := pooled_sound hl hrun
  have hanswered : ∀ a ∈ usageAccounts u,
      s₀.balance a + p.world.answered a ≤ p.world.service.store.balance a := by
    intro a ha
    rw [hsound.books]
    refine Int.add_le_add_left (total_le_total fun t ht => ?_) _
    exact (hsound.task t ht).answered_le ha
  obtain ⟨-, htold⟩ := Replicas.run_told (Clients.run_next hafter)
  have hr := htold k r hk hlater
  have henter : r.enter = .takingConnection (.usageSource u) := by
    simp only [CommonReader.enter, hroute, hu]
  simp only [CommonReader.Told, hview, henter] at hr
  rcases hr with hr | ⟨w, query, ⟨⟨fs, hfs⟩, -⟩, hquery, hanswer⟩
  · cases hr
  · cases hquery
    obtain ⟨-, hw⟩ := hfs.invariant (I := fun w => World.Sound cfg s₀ replicas w ∧
      ∀ a ∈ usageAccounts u,
        s₀.balance a + p.world.answered a ≤ w.service.store.balance a)
      (fun _ _ _ h hstep => ⟨h.1.step (moves_of_next hstep), fun a ha =>
        (h.2 a ha).trans (h.1.balance_le hstep ha)⟩) ⟨hsound, hanswered⟩
    have hread : w.service.store.readUsage u = some view := by
      have helim : CommonAnswer.usage view =
          (w.service.store.readUsage u).elim .notFound .usage := hanswer
      cases hread : w.service.store.readUsage u with
      | none =>
          rw [hread] at helim
          cases helim
      | some view' =>
          rw [hread] at helim
          cases helim
          rfl
    obtain ⟨hcents, hlookups⟩ := Store.readUsage_eq_some hread
    rw [hcents, hlookups]
    exact ⟨hw _ (by simp [usageAccounts]), hw _ (by simp [usageAccounts])⟩

theorem one_import_counted :
    ∃ p q r view, Run (Steps (pooled (.demo 1) fun _ => 3)) (.start (.demo 1)) oneImport p ∧
      Run (Steps (pooled (.demo 1) fun _ => 3)) p thenAsked q ∧
      q.readers[2]? = some r ∧ r.point = .ended (.ok (.usage view)) ∧
      p.world.answered (.tenant Fixtures.attackerTenantId .committed) = 4 ∧
      4 ≤ view.centsCharged := by
  have hfigures : (replay (pooled (.demo 1) fun _ => 3) (.start (.demo 1)) oneImport).map
      (fun p => (p.readers.length,
        p.world.answered (.tenant Fixtures.attackerTenantId .committed),
        (replay (pooled (.demo 1) fun _ => 3) p thenAsked).map (·.readers[2]?))) =
      some (0, 4, some (some ⟨⟨0, some Fixtures.attackerTenantId, .usage⟩, .ended (.ok (.usage
        ⟨Fixtures.attackerTenantId, Fixtures.spendPeriodId, 1, 4, Fixtures.currencyLabel⟩))⟩)) := by
    decide
  obtain ⟨p, hp, hfigures⟩ := Option.map_eq_some_iff.mp hfigures
  obtain ⟨hlength, hfigures⟩ := Prod.mk.inj hfigures
  obtain ⟨hanswered, hreader⟩ := Prod.mk.inj hfigures
  obtain ⟨q, hq, hr⟩ := Option.map_eq_some_iff.mp hreader
  have hcounted := (answered_then_counted rfl (run_of_replay hp) (run_of_replay hq) hr (by omega)
    rfl rfl rfl).1
  have hzero : Store.demo.balance (.tenant Fixtures.attackerTenantId .committed) = 0 :=
    Store.demo_freshlySeeded.balance _
  rw [hanswered, hzero] at hcounted
  exact ⟨p, q, _, _, run_of_replay hp, run_of_replay hq, hr, rfl, hanswered, hcounted⟩

end Limitless
