import Limitless.Accounts.Basic
import Limitless.Secure.Admitted
import Limitless.Secure.Settlement

/-!
# The budget transactions of a request

Of all a request does, two points touch the two budget tables: the one that reserves, and the ones
that close what was reserved. `Pc.transaction?` is the transaction that a request issues at a point,
and `Transacts` what becomes of it: it commits, and the request notes it on its trail, or it fails,
and the request raises. Anywhere else the tables are as they were. Whose money it is follows: a
request transacts for the tenant it comes from, and for no other (`Task.Own`).
-/

namespace Limitless

open Indexed Runs

/-! ## At a point -/

/-- The reservation that an effect makes or closes. -/
def Effect.reservation? : Effect → Option Reservation
  | reserved r | settled r _ _ => some r
  | tookSlot | leftSlot | sent _ | upserted _ | insertedJob _ => none

/-- The reservation that a request closes at a point, and with what. -/
def Pc.closing? : Pc → Option (Reservation × Int × Int)
  | finishing _ r result .settle => some (r, result.lookups, result.centsCharged)
  | handling _ r attempted _ .close =>
    some (if attempted then (r, r.lookups, r.cents) else (r, 0, 0))
  | _ => none

/-- The budget transaction that a request issues at a point. -/
def Pc.transaction? (cfg : Config) : Pc → Option Operation
  | reserving w => some (.reserve w.tenantId w.companyNames.length cfg.priceCents)
  | finishing _ r result .settle => some (.settle r result.lookups result.centsCharged)
  | handling _ r attempted _ .close =>
    some (if attempted then .settle r r.lookups r.cents else .release r)
  | _ => none

/-- The two budget tables are the same. -/
structure Store.SameBudgets (s s' : Store) : Prop where
  tenants : s'.tenantAllowances = s.tenantAllowances
  periods : s'.spendPeriods = s.spendPeriods

/-- A step that issues no transaction. -/
structure Aside (s : Service) (t : Task) (s' : Service) (t' : Task) : Prop where
  request : t'.request = t.request
  budgets : s.store.SameBudgets s'.store
  trail : ∃ new, t'.trail = t.trail ++ new ∧ ∀ e ∈ new, e.reservation? = none
  raised : t'.raised = t.raised ∨ ∃ exc, t'.raised = t.raised ++ [(t.pc, exc)]

/-- What becomes of the transaction that a request issues. -/
inductive Transacts (cfg : Config) (s : Service) (t : Task) : Service → Task → Prop
  | reserves {w : Work} {store : Store} {r : Reservation} : t.pc = .reserving w →
      s.store.reserve w.tenantId w.companyNames.length cfg.priceCents = .ok (store, r) →
      Transacts cfg s t { s with store := store } (t.did (.reserved r) (.leavingConnection w r))
  | refused {w : Work} {e : StoreError} {exc : Exception} : t.pc = .reserving w →
      s.store.reserve w.tenantId w.companyNames.length cfg.priceCents = .error e →
      (e = .allowanceExhausted →
        exc = .limitReached .allowanceExhausted t.request.payload.operation) →
      Transacts cfg s t (t.raise s exc).1 (t.raise s exc).2
  | closes {r : Reservation} {l c : Int} {store : Store} {pc : Pc} :
      t.pc.closing? = some (r, l, c) → s.store.settle r l c = .ok store →
      Transacts cfg s t { s with store := store } (t.did (.settled r l c) pc)
  | jams {r : Reservation} {l c : Int} {e : StoreError} : t.pc.closing? = some (r, l, c) →
      s.store.settle r l c = .error e →
      Transacts cfg s t (t.raise s (.store e)).1 (t.raise s (.store e)).2
  | aside {s' : Service} {t' : Task} : t.pc.transaction? cfg = none → Aside s t s' t' →
      Transacts cfg s t s' t'

variable {cfg : Config} {s s' : Service} {t t' : Task}

theorem aside_goto (s : Service) (t : Task) (pc : Pc) : Aside s t s (t.goto pc) :=
  ⟨rfl, ⟨rfl, rfl⟩, ⟨[], (List.append_nil _).symm, fun _ he => absurd he List.not_mem_nil⟩, .inl rfl⟩

theorem aside_did {e : Effect} {pc : Pc} (hbudgets : s.store.SameBudgets s'.store)
    (he : e.reservation? = none) : Aside s t s' (t.did e pc) :=
  ⟨rfl, hbudgets, ⟨[e], rfl, fun _ hmem => List.mem_singleton.mp hmem ▸ he⟩, .inl rfl⟩

/-- An exception issues no transaction. -/
theorem aside_raise (s : Service) (t : Task) (exc : Exception) :
    Aside s t (t.raise s exc).1 (t.raise s exc).2 := by
  cases hslot : t.pc.holdsSlot with
  | true =>
      refine ⟨rfl, ⟨?_, ?_⟩, ⟨[.leftSlot], ?_, fun _ he => List.mem_singleton.mp he ▸ rfl⟩,
        .inr ⟨exc, rfl⟩⟩
      all_goals simp [Task.raise, hslot]
  | false =>
      refine ⟨rfl, ⟨?_, ?_⟩, ⟨[], ?_, fun _ he => absurd he List.not_mem_nil⟩, .inr ⟨exc, rfl⟩⟩
      all_goals simp [Task.raise, hslot]

/-- Nor does one from outside. -/
theorem aside_of_fault {f : Fault} (h : t.fault s f = some (s', t')) : Aside s t s' t' := by
  unfold Task.fault at h
  split at h
  · cases h
  · split at h
    · cases h
      exact aside_raise s t _
    · cases h
      exact aside_raise s t _
    · split at h
      · cases h
        exact aside_raise s t _
      · cases h

/-! ## The step lemma -/

theorem Task.reserve_transacts {w : Work} (hpc : t.pc = .reserving w) :
    Transacts cfg s t (t.reserve cfg s w).1 (t.reserve cfg s w).2 := by
  unfold Task.reserve
  split
  · next store r hreserve => exact .reserves hpc hreserve
  · next herror => exact .refused hpc herror fun _ => rfl
  · next e hother herror => exact .refused hpc herror fun he => absurd he hother

theorem Task.lookUp_aside {w : Work} {r : Reservation} {p : CallPoint}
    (h : t.lookUp s w r p = some (s', t')) : Aside s t s' t' := by
  cases p with
  | enterRequestDeadline | enterUpstreamDeadline =>
      cases h
      exact aside_goto s t _
  | enterSlot =>
      simp only [Task.lookUp] at h
      split at h
      · cases h
      · split at h
        · cases h
          exact aside_raise s t _
        · cases h
          exact aside_did ⟨rfl, rfl⟩ rfl
  | send =>
      cases h
      exact ⟨rfl, ⟨rfl, rfl⟩, ⟨[.sent w.lookupRequest], rfl,
        fun _ he => List.mem_singleton.mp he ▸ rfl⟩, .inl rfl⟩
  | awaitResponse =>
      simp only [Task.lookUp] at h
      split at h
      · cases h
        exact aside_goto s t _
      · cases h

theorem Task.finish_transacts {w : Work} {r : Reservation} {result : LookupResponse}
    {p : FinishPoint} (hpc : t.pc = .finishing w r result p) :
    Transacts cfg s t (t.finish cfg s w r result p).1 (t.finish cfg s w r result p).2 := by
  cases p with
  | leaveUpstreamDeadline | leaveRequestDeadline | buildRecords | takeConnection =>
      exact .aside (by rw [hpc]; rfl) (aside_goto s t _)
  | leaveSlot =>
      refine .aside (by rw [hpc]; rfl) (aside_did ?_ rfl)
      show s.store.SameBudgets (s.leaveSlot t.request.replica).store
      rw [Service.leaveSlot_store]
      exact ⟨rfl, rfl⟩
  | upsertRecords =>
      refine .aside (by rw [hpc]; rfl) (aside_did ?_ rfl)
      show s.store.SameBudgets (s.store.upsertRecords _ _ _)
      unfold Store.upsertRecords
      split
      all_goals exact ⟨rfl, rfl⟩
  | settle =>
      simp only [Task.finish]
      split
      · next herror => exact .jams (by rw [hpc]; rfl) herror
      · next hsettle => exact .closes (by rw [hpc]; rfl) hsettle
  | leaveConnection =>
      simp only [Task.finish]
      split
      all_goals exact .aside (by rw [hpc]; rfl) (aside_goto s t _)

theorem Task.handle_transacts {w : Work} {r : Reservation} {attempted : Bool} {exc : Exception}
    {p : HandlerPoint} (hpc : t.pc = .handling w r attempted exc p) :
    Transacts cfg s t (t.handle s w r attempted exc p).1 (t.handle s w r attempted exc p).2 := by
  cases p with
  | takeConnection | leaveConnection => exact .aside (by rw [hpc]; rfl) (aside_goto s t _)
  | close =>
      simp only [Task.handle, Store.release]
      split
      · next hattempted =>
          have hclosing : t.pc.closing? = some (r, r.lookups, r.cents) := by
            rw [hpc, Pc.closing?, if_pos hattempted]
          split
          · next herror => exact .jams hclosing herror
          · next hsettle => exact .closes hclosing hsettle
      · next hattempted =>
          have hclosing : t.pc.closing? = some (r, 0, 0) := by
            rw [hpc, Pc.closing?, if_neg hattempted]
          split
          · next herror => exact .jams hclosing herror
          · next hsettle => exact .closes hclosing hsettle

theorem Task.record_aside {w : Work} {r : Reservation} {result : LookupResponse} {jobId : JobId}
    (p : JobPoint) : Aside s t (t.record cfg s w r result jobId p).1
      (t.record cfg s w r result jobId p).2 := by
  cases p with
  | takeConnection | leaveConnection => exact aside_goto s t _
  | insertJob =>
      simp only [Task.record]
      split
      · exact aside_raise s t _
      · next store hstore =>
          refine aside_did ?_ rfl
          unfold Store.insertJob at hstore
          split at hstore
          · split at hstore
            · split at hstore
              · cases hstore
              · cases hstore
                exact ⟨rfl, rfl⟩
            · cases hstore
          · cases hstore

/-- **Step lemma.** A step of a request does nothing else to the budget tables. -/
theorem transacts_of_advance (h : t.advance cfg s = some (s', t')) : Transacts cfg s t s' t' := by
  have hsome : ∀ {x : Service × Task}, Transacts cfg s t x.1 x.2 → some x = some (s', t') →
      Transacts cfg s t s' t' := by
    rintro _ hx ⟨⟩
    exact hx
  unfold Task.advance at h
  split at h
  · next hpc =>
      split at h
      · cases h
        exact .aside (by rw [hpc]; rfl) (aside_raise s t _)
      · cases h
        exact .aside (by rw [hpc]; rfl) (aside_goto s t _)
  · next u hpc =>
      have hread : Aside s t (t.read cfg s u).1 (t.read cfg s u).2 := by
        unfold Task.read
        split
        · split
          · exact aside_raise s t _
          · exact aside_goto s t _
        · exact aside_goto s t _
        · exact aside_goto s t _
        all_goals exact aside_raise s t _
      exact hsome (.aside (by rw [hpc]; rfl) hread) h
  · next hpc =>
      cases h
      exact .aside (by rw [hpc]; rfl) (aside_goto s t _)
  · next hpc => exact hsome (Task.reserve_transacts hpc) h
  · next hpc =>
      cases h
      exact .aside (by rw [hpc]; rfl) (aside_goto s t _)
  · next hpc => exact .aside (by rw [hpc]; rfl) (Task.lookUp_aside h)
  · next hpc => exact hsome (Task.finish_transacts hpc) h
  · next hpc => exact hsome (Task.handle_transacts hpc) h
  · next p hpc => exact hsome (.aside (by rw [hpc]; rfl) (Task.record_aside p)) h
  · next p hpc =>
      refine hsome (.aside (by rw [hpc]; rfl) ?_) h
      cases p
      all_goals exact aside_goto s t _
  · cases h

/-! ## Whose money it is -/

/-- A request makes and closes reservations of its own tenant. -/
def Task.Own (t : Task) : Prop :=
  ∀ e ∈ t.trail, ∀ r, e.reservation? = some r → t.request.principal = some r.tenantId

/-- What a request closes is what it reserved for its work. -/
theorem Pc.work_of_closing {pc : Pc} {r : Reservation} {l c : Int}
    (h : pc.closing? = some (r, l, c)) (hpriced : pc.Priced cfg) :
    ∃ w, pc.work? = some w ∧ r = w.reservation cfg.priceCents := by
  cases pc with
  | finishing w r result p =>
      cases p with
      | settle =>
          cases h
          exact ⟨w, rfl, hpriced⟩
      | _ => cases h
  | handling w r attempted exc p =>
      cases p with
      | close =>
          cases attempted
          all_goals
            cases h
            exact ⟨w, rfl, hpriced⟩
      | _ => cases h
  | _ => cases h

theorem Aside.own (h : Aside s t s' t') (hown : t.Own) : t'.Own := by
  obtain ⟨new, htrail, hnew⟩ := h.trail
  intro e he r hr
  rw [h.request]
  rw [htrail] at he
  rcases List.mem_append.mp he with he | he
  · exact hown e he r hr
  · rw [hnew e he] at hr
    cases hr

theorem Task.Own.did {e : Effect} {pc : Pc} (hown : t.Own)
    (he : ∀ r, e.reservation? = some r → t.request.principal = some r.tenantId) :
    (t.did e pc).Own := by
  intro e' he' r hr
  rcases List.mem_append.mp he' with he' | he'
  · exact hown e' he' r hr
  · rw [List.mem_singleton.mp he'] at hr
    exact he r hr

/-- **Step lemma.** It transacts for the tenant it comes from. -/
theorem Transacts.own (h : Transacts cfg s t s' t') (hasked : t.Asked) (hpriced : t.pc.Priced cfg)
    (hown : t.Own) : t'.Own := by
  cases h with
  | reserves hpc hreserve =>
      refine hown.did fun r' hr' => ?_
      obtain ⟨-, rfl, -⟩ := Store.reserve_ok hreserve
      cases hr'
      exact (hasked.works _ (by rw [hpc]; rfl)).principal
  | closes hclosing =>
      refine hown.did fun r' hr' => ?_
      obtain ⟨w, hwork, rfl⟩ := Pc.work_of_closing hclosing hpriced
      cases hr'
      exact (hasked.works w hwork).principal
  | refused | jams => exact (aside_raise s t _).own hown
  | aside _ haside => exact haside.own hown

/-- It puts nothing on the account of another tenant. -/
theorem Task.Own.amounts_eq_zero {u : TenantId} (h : t.Own) (hne : t.request.principal ≠ some u)
    (m : Money) : amounts t.trail (.tenant u m) = 0 := by
  refine total_eq_zero fun e he => ?_
  have hother : ∀ r, e.reservation? = some r → u ≠ r.tenantId := by
    intro r hr hu
    exact hne (hu ▸ h e he r hr)
  cases e with
  | reserved r => exact if_neg (hother r rfl)
  | settled r l c => exact if_neg (hother r rfl)
  | _ => rfl

/-! ## In a run -/

variable {w w' : World} {e : Event} {s₀ : Store} {replicas : Nat}

/-- What the transactions of a run leave in place. -/
structure World.Transacted (cfg : Config) (s₀ : Store) (replicas : Nat) (w : World) : Prop where
  sound : World.Sound cfg s₀ replicas w
  asked : ∀ t ∈ w.tasks, t.Asked
  own : ∀ t ∈ w.tasks, t.Own
  allowances : w.service.store.allowanceTotal = s₀.allowanceTotal

theorem Transacts.allowanceTotal (h : Transacts cfg s t s' t')
    (hrows : ∀ r, t.pc.reservation? = some r → s.store.HasRows r) :
    s'.store.allowanceTotal = s.store.allowanceTotal := by
  have haside : ∀ {s' : Service} {t' : Task}, Aside s t s' t' →
      s'.store.allowanceTotal = s.store.allowanceTotal := by
    intro s' t' h
    rw [Store.allowanceTotal, h.budgets.tenants]
    rfl
  cases h with
  | reserves _ hreserve =>
      obtain ⟨-, -, hmoved, -⟩ := Store.reserve_ok hreserve
      exact hmoved.allowanceTotal
  | @closes r l c store pc hclosing hsettle =>
      have hreservation : t.pc.reservation? = some r := by
        generalize t.pc = pc at hclosing ⊢
        cases pc with
        | finishing w r result p =>
            cases p with
            | settle =>
                cases hclosing
                rfl
            | _ => cases hclosing
        | handling w r attempted exc p =>
            cases p with
            | close =>
                cases attempted
                all_goals
                  cases hclosing
                  rfl
            | _ => cases hclosing
        | _ => cases hclosing
      obtain ⟨hrow, hper⟩ := hrows r hreservation
      obtain ⟨row, hrow⟩ := Option.isSome_iff_exists.mp hrow
      obtain ⟨per, hper⟩ := Option.isSome_iff_exists.mp hper
      exact (Store.settle_ok hsettle hrow hper).allowanceTotal
  | refused | jams => exact haside (aside_raise s t _)
  | aside _ h => exact haside h

/-- **Step lemma.** Every event leaves it in place. -/
theorem World.Transacted.step (h : w.Transacted cfg s₀ replicas) (hnext : w.next cfg e = some w') :
    w'.Transacted cfg s₀ replicas := by
  have hsound := h.sound.step (moves_of_next hnext)
  have hasked := World.asked_step h.asked hnext
  cases moves_of_next hnext with
  | arrived =>
      refine ⟨hsound, hasked, forall_mem_concat h.own fun e he => ?_, h.allowances⟩
      cases he
  | @advanced i t t' s' hi hadvance =>
      have hmem := List.mem_of_getElem? hi
      have htransacts := transacts_of_advance hadvance
      have hpriced : t.pc.Priced cfg := by
        rcases h.sound.task t hmem with hlive | ⟨e, hended, -⟩
        · exact hlive.1
        · rw [hended]
          trivial
      exact ⟨hsound, hasked,
        forall_mem_set (htransacts.own (h.asked t hmem) hpriced (h.own t hmem)) h.own,
        (htransacts.allowanceTotal (h.sound.rows t hmem)).trans h.allowances⟩
  | @struck i f t t' s' hi hfault =>
      have haside := aside_of_fault hfault
      refine ⟨hsound, hasked,
        forall_mem_set (haside.own (h.own t (List.mem_of_getElem? hi))) h.own, ?_⟩
      rw [← h.allowances]
      exact congrArg (Keyed.sum · TenantAllowance.allowanceCents) haside.budgets.tenants
  | @served e i t c c' p' _ hi =>
      have hown := h.own t (List.mem_of_getElem? hi)
      exact ⟨hsound, hasked, forall_mem_set hown h.own, h.allowances⟩
  | woke => exact ⟨hsound, hasked, List.forall_mem_map.mpr h.own, h.allowances⟩
  | reset | quiet => exact ⟨hsound, hasked, h.own, h.allowances⟩

/-- **Run lemma.** So it is in every run. -/
theorem World.transacted_of_run {limiter : InFlightLimiter} {es : List Event}
    (hl : InFlightLimiter.make cfg.maxInFlightUpstream = .ok limiter)
    (hrun : Run (Steps (World.next cfg)) (.start cfg s₀ replicas limiter) es w) :
    w.Transacted cfg s₀ replicas := by
  refine hrun.invariant (I := fun w => w.Transacted cfg s₀ replicas)
    (fun _ _ _ h hstep => h.step hstep) ⟨World.start_sound hl s₀ replicas, ?_, ?_, rfl⟩
  all_goals exact fun t ht => absurd ht List.not_mem_nil

end Limitless
