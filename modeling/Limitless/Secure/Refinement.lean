import Limitless.Accounts.Isolation
import Limitless.Secure.Transactions

/-!
# The application refines its books

`Accounts` is the store's side of the application: clients issue transactions, and may close only
what they hold, within what they hold. Here the clients are the requests. `World.transactions` reads
the transactions that a run issues off its events, in order, and `refines_accounts` says that they
are a run of the books' secure steps which ends in the same two tables, with exactly the reservations
outstanding that the requests have made and not closed. The one thing that can break the contract is
an exception between a settle and the exit of its connection, after which the handler closes once
more; the events of the run are to spare that point.
-/

namespace Limitless

open Indexed Runs

/-! ## What is open -/

/-- What an effect adds to the open reservations that are like this one. -/
def Effect.opens (r : Reservation) : Effect → Int
  | reserved r' => if r' = r then 1 else 0
  | settled r' _ _ => if r' = r then -1 else 0
  | tookSlot | leftSlot | sent _ | upserted _ | insertedJob _ => 0

/-- The open reservations of a request that are like this one. -/
def Task.opens (t : Task) (r : Reservation) : Int := total (Effect.opens r) t.trail

/-- The reservation that is open at a point. -/
def Pc.open? : Pc → Option Reservation
  | finishing _ _ _ .leaveConnection | handling _ _ _ _ .leaveConnection => none
  | leavingConnection _ r | calling _ r _ | finishing _ r _ _ | handling _ r _ _ _ => some r
  | _ => none

/-- No exception has struck a request between its settle and the exit of its connection. -/
def Task.SparedAfterSettle (t : Task) : Prop := ∀ x ∈ t.raised, x.1.isSettledInTry = false

variable {cfg : Config} {s s' : Service} {t t' : Task}

/-- The open reservation of a point that no exception has struck. -/
theorem Pc.opens_trail {pc : Pc} (hpc : ∀ w r attempted exc p, pc ≠ .handling w r attempted exc p)
    (r : Reservation) :
    total (Effect.opens r) (pc.trail cfg) = if pc.open? = some r then 1 else 0 := by
  cases pc with
  | handling w r attempted exc p => exact absurd rfl (hpc _ _ _ _ _)
  | calling w r' p => cases p <;> simp [trail, CallPoint.trail, Effect.opens, open?]
  | finishing w r' result p =>
      by_cases hr : r' = r
      all_goals cases p <;> simp [trail, FinishPoint.trail, Effect.opens, open?, hr]
  | recording w r' result jobId p =>
      by_cases hr : r' = r
      all_goals cases p <;> simp [trail, FinishPoint.trail, JobPoint.trail, Effect.opens, open?, hr]
  | _ => simp [trail, Effect.opens, open?]

/-- The point of the `try` block that was struck had its reservation open. -/
theorem Pc.open_of_frame {pc : Pc} {w : Work} {r : Reservation} (h : pc.frame? = some (w, r))
    (hspared : pc.isSettledInTry = false) : pc.open? = some r := by
  cases pc with
  | calling w' r' p =>
      cases h
      rfl
  | finishing w' r' result p =>
      cases h
      cases p with
      | leaveConnection => cases hspared
      | _ => rfl
  | _ => cases h

/-- What a live request has open is what its point says. -/
theorem Live.opens {pc : Pc} {call : Option Call} {trail : List Effect}
    {raised : List (Pc × Exception)} (h : Live cfg pc call trail raised)
    (hspared : ∀ x ∈ raised, x.1.isSettledInTry = false) (r : Reservation) :
    total (Effect.opens r) trail = if pc.open? = some r then 1 else 0 := by
  obtain ⟨-, h⟩ := h
  cases pc with
  | ended e => exact h.elim
  | handling w r' attempted exc p =>
      obtain ⟨struck, hframe, hattempted, -, -, rfl, rfl⟩ := h
      have hopen := Pc.open_of_frame hframe (hspared _ (List.mem_singleton_self _))
      have hstruck : total (Effect.opens r) (struck.trail cfg) =
          if struck.open? = some r then 1 else 0 := by
        refine Pc.opens_trail (fun w₁ r₁ a₁ e₁ p₁ heq => ?_) r
        rw [heq] at hframe
        cases hframe
      have hunwound : total (Effect.opens r) struck.unwound = 0 := by
        unfold Pc.unwound
        split
        all_goals rfl
      rw [total_append, total_append, hstruck, hunwound, hopen]
      cases p with
      | takeConnection | close => simp [HandlerPoint.trail, Pc.open?]
      | leaveConnection =>
          cases attempted
          all_goals
            by_cases hr : r' = r
            all_goals simp [HandlerPoint.trail, Reservation.closing, Effect.opens, Pc.open?, hr]
  | _ =>
      obtain ⟨-, -, rfl⟩ := h
      exact Pc.opens_trail (by simp) r

/-- What a request has open is not negative. -/
theorem Task.Sound.opens_nonneg (h : t.Sound cfg) (hspared : t.SparedAfterSettle)
    (r : Reservation) : 0 ≤ t.opens r := by
  have hlive : ∀ {pc : Pc} {raised : List (Pc × Exception)}, Live cfg pc t.call t.trail raised →
      (∀ x ∈ raised, x ∈ t.raised) → 0 ≤ t.opens r := by
    intro pc raised hlive hraised
    rw [Task.opens, hlive.opens (fun x hx => hspared x (hraised x hx)) r]
    split
    all_goals decide
  rcases h with h | ⟨_, -, last, before, hlast, hexit⟩
  · exact hlive h fun _ hx => hx
  · refine hlive hlast fun x hx => ?_
    rcases hexit with ⟨-, heq⟩ | ⟨exc, -, -, -, heq⟩
    · rwa [heq]
    · rw [heq]
      exact List.mem_append_left _ hx

/-- What a request closes is open, and is closed within what it holds. -/
theorem Live.closing {pc : Pc} {call : Option Call} {trail : List Effect}
    {raised : List (Pc × Exception)} {r : Reservation} {l c : Int}
    (h : Live cfg pc call trail raised) (hprice : cfg.providerPriceCents ≤ cfg.priceCents)
    (hclosing : pc.closing? = some (r, l, c)) :
    pc.open? = some r ∧ 0 ≤ c ∧ c ≤ r.cents := by
  obtain ⟨hpriced, h⟩ := h
  cases pc with
  | finishing w r' result p =>
      cases p with
      | settle =>
          cases hclosing
          obtain ⟨⟨-, rfl⟩, -⟩ := h
          obtain rfl : r = w.reservation cfg.priceCents := hpriced
          refine ⟨rfl, mul_nonneg (Int.natCast_nonneg _) (Int.natCast_nonneg _), ?_⟩
          exact mul_le_mul_of_nonneg_left (Int.ofNat_le.mpr hprice) (Int.natCast_nonneg _)
      | _ => cases hclosing
  | handling w r' attempted exc p =>
      obtain rfl : r' = w.reservation cfg.priceCents := hpriced
      have hcents : (0 : Int) ≤ (w.reservation cfg.priceCents).cents :=
        mul_nonneg (Int.natCast_nonneg _) (Int.natCast_nonneg _)
      cases p with
      | close =>
          cases attempted with
          | true =>
              cases hclosing
              exact ⟨rfl, hcents, le_rfl⟩
          | false =>
              cases hclosing
              exact ⟨rfl, le_rfl, hcents⟩
      | _ => cases hclosing
  | _ => cases hclosing

/-- The transaction of a point that closes. -/
theorem Pc.transaction_of_closing (cfg : Config) {pc : Pc} {r : Reservation} {l c : Int}
    (h : pc.closing? = some (r, l, c)) : pc.transaction? cfg = some (.settle r l c) ∨
      pc.transaction? cfg = some (.release r) ∧ l = 0 ∧ c = 0 := by
  cases pc with
  | finishing w r' result p =>
      cases p with
      | settle =>
          cases h
          exact .inl rfl
      | _ => cases h
  | handling w r' attempted exc p =>
      cases p with
      | close =>
          cases attempted with
          | true =>
              cases h
              exact .inl rfl
          | false =>
              cases h
              exact .inr ⟨rfl, rfl, rfl⟩
      | _ => cases h
  | _ => cases h

/-! ## The same tables -/

namespace Store.SameBudgets

variable {st st' : Store}

theorem rows (h : st.SameBudgets st') (u : TenantId) :
    st'.allowance? u = st.allowance? u ∧ st'.period? = st.period? := by
  simp only [allowance?, period?, h.tenants, h.periods, and_self]

/-- The transactions of the books read and write nothing but the budget tables. -/
theorem reserve (h : st.SameBudgets st') (u : TenantId) (l price : Int) :
    st'.reserve u l price = (st.reserve u l price).map fun x =>
      ({ x.1 with records := st'.records, jobs := st'.jobs }, x.2) := by
  obtain ⟨hrow, hper⟩ := h.rows u
  rw [reserve_eq, reserve_eq, hrow, hper]
  split_ifs
  · rfl
  rcases (sqlReserveTenantAllowance (l * price)).touch (st.allowance? u) with c | (_ | row)
  · rfl
  · rfl
  rcases (sqlReserveSpendPeriod (l * price)).touch st.period? with c | (_ | per)
  · rfl
  · rfl
  · simp only [Except.map, write, h.tenants, h.periods]

theorem settle (h : st.SameBudgets st') (r : Reservation) (l charged : Int) :
    st'.settle r l charged = (st.settle r l charged).map fun x =>
      { x with records := st'.records, jobs := st'.jobs } := by
  obtain ⟨hrow, hper⟩ := h.rows r.tenantId
  rw [settle_eq, settle_eq, hrow, hper]
  rcases (sqlSettleTenantAllowance r.cents charged l).touch (st.allowance? r.tenantId) with c | row
  · rfl
  rcases (sqlSettleSpendPeriod r.cents charged).touch st.period? with c | per
  · rfl
  · simp only [Except.map, h.tenants, h.periods]

end Store.SameBudgets

/-! ## The refinement -/

/-- The books of the application: the same two tables, no charge to the undivided pool, and what the
requests have open outstanding. -/
structure World.Mirrors (w : World) (a : Accounts) : Prop where
  budgets : w.service.store.SameBudgets a.store
  pooled : a.pooled = 0
  outstanding : ∀ r, (a.outstanding.count r : Int) = total (·.opens r) w.tasks

/-- What is asked of a world for that: its histories are sound, and no exception has struck after a
settle. -/
structure World.Spared (cfg : Config) (s₀ : Store) (replicas : Nat) (w : World) : Prop where
  sound : World.Sound cfg s₀ replicas w
  spared : ∀ t ∈ w.tasks, t.SparedAfterSettle

/-- The event strikes no request between its settle and the exit of its connection. -/
def World.sparesSettled (w : World) : Event → Bool
  | .fault i _ => w.tasks[i]?.all fun t => !t.pc.isSettledInTry
  | _ => true

/-- The transaction that an event issues. -/
def World.transaction? (cfg : Config) (w : World) : Event → Option Operation
  | .advance i => w.tasks[i]?.bind (·.pc.transaction? cfg)
  | _ => none

/-- The transactions that a run issues, in order. -/
def World.transactions (cfg : Config) : World → List Event → List Operation
  | _, [] => []
  | w, e :: es =>
    (w.transaction? cfg e).toList ++ (w.next cfg e).elim [] fun w' => w'.transactions cfg es

/-- A request that gives its connection back after the settle goes on. -/
theorem Task.raised_of_settled (hsettled : t.pc.isSettledInTry = true)
    (h : t.advance cfg s = some (s', t')) : t'.raised = t.raised := by
  cases hpc : t.pc with
  | finishing w r result p =>
      rw [hpc] at hsettled
      cases p with
      | leaveConnection =>
          simp only [Task.advance, hpc, Task.finish] at h
          split at h
          all_goals
            cases h
            rfl
      | _ => cases hsettled
  | _ =>
      rw [hpc] at hsettled
      cases hsettled

/-- **Step lemma.** No exception of its own strikes a request there. -/
theorem Transacts.spared (h : Transacts cfg s t s' t') (hspared : t.SparedAfterSettle)
    (hsettled : t.pc.isSettledInTry = true → t'.raised = t.raised) : t'.SparedAfterSettle := by
  have hraise : ∀ exc, t.pc.isSettledInTry = false → (t.raise s exc).2.SparedAfterSettle := by
    intro exc hpc x hx
    rcases List.mem_append.mp hx with hx | hx
    · exact hspared x hx
    · rw [List.mem_singleton.mp hx]
      exact hpc
  cases h with
  | reserves | closes => exact hspared
  | refused hpc =>
      refine hraise _ ?_
      rw [hpc]
      rfl
  | jams hclosing =>
      refine hraise _ ?_
      by_contra hnot
      have hsame := hsettled (Bool.eq_true_of_not_eq_false hnot)
      simp [Task.raise] at hsame
  | aside _ haside =>
      intro x hx
      cases hpc : t.pc.isSettledInTry with
      | true =>
          rw [hsettled hpc] at hx
          exact hspared x hx
      | false =>
          rcases haside.raised with hraised | ⟨exc, hraised⟩
          · rw [hraised] at hx
            exact hspared x hx
          · rw [hraised] at hx
            rcases List.mem_append.mp hx with hx | hx
            · exact hspared x hx
            · rw [List.mem_singleton.mp hx]
              exact hpc

variable {w w' : World} {e : Event} {s₀ : Store} {replicas : Nat} {a : Accounts}

/-- **Step lemma.** So it stays, where events spare the requests there. -/
theorem World.Spared.step (h : w.Spared cfg s₀ replicas) (hspares : w.sparesSettled e = true)
    (hnext : w.next cfg e = some w') : w'.Spared cfg s₀ replicas := by
  refine ⟨h.sound.step (moves_of_next hnext), ?_⟩
  cases moves_of_next hnext with
  | arrived => exact forall_mem_concat h.spared fun x hx => absurd hx List.not_mem_nil
  | advanced hi hadvance =>
      exact forall_mem_set ((transacts_of_advance hadvance).spared
        (h.spared _ (List.mem_of_getElem? hi))
        fun hsettled => Task.raised_of_settled hsettled hadvance) h.spared
  | @struck i f t t' s' hi hfault =>
      have hpc : t.pc.isSettledInTry = false := by
        simpa [World.sparesSettled, hi] using hspares
      have hspared := h.spared t (List.mem_of_getElem? hi)
      refine forall_mem_set (fun x hx => ?_) h.spared
      rcases (aside_of_fault hfault).raised with hraised | ⟨exc, hraised⟩
      · rw [hraised] at hx
        exact hspared x hx
      · rw [hraised] at hx
        rcases List.mem_append.mp hx with hx | hx
        · exact hspared x hx
        · rw [List.mem_singleton.mp hx]
          exact hpc
  | @served e i t c c' p' _ hi =>
      have hspared := h.spared t (List.mem_of_getElem? hi)
      exact forall_mem_set hspared h.spared
  | woke => exact List.forall_mem_map.mpr h.spared
  | reset | quiet => exact h.spared

/-- Without a transaction the books are what they were. -/
theorem World.Mirrors.aside (h : w.Mirrors a) {i : Nat} (hi : w.tasks[i]? = some t)
    (haside : Aside w.service t s' t') : World.Mirrors ⟨s', w.tasks.set i t'⟩ a := by
  refine ⟨⟨h.budgets.tenants.trans haside.budgets.tenants.symm,
    h.budgets.periods.trans haside.budgets.periods.symm⟩, h.pooled, fun r => ?_⟩
  obtain ⟨new, htrail, hnew⟩ := haside.trail
  have hzero : total (Effect.opens r) new = 0 := by
    refine total_eq_zero fun e he => ?_
    have hnone := hnew e he
    cases e with
    | reserved | settled => cases hnone
    | _ => rfl
  rw [total_set _ _ hi, h.outstanding r, Task.opens, Task.opens, htrail, total_append, hzero]
  omega

/-- A request that notes something down. -/
theorem Task.opens_did (t : Task) (e : Effect) (pc : Pc) (r : Reservation) :
    (t.did e pc).opens r = t.opens r + e.opens r := by
  simp [Task.opens, Task.did]

/-- A reservation is granted by the books too, and is outstanding there. -/
theorem World.Mirrors.reserves (h : w.Mirrors a) {i : Nat} {work : Work} {store : Store}
    {r : Reservation} (hi : w.tasks[i]? = some t)
    (hreserve : w.service.store.reserve work.tenantId work.companyNames.length cfg.priceCents =
      .ok (store, r)) (pc : Pc) :
    ∃ b, Accounts.SecureStep a
        (.reserve work.tenantId work.companyNames.length cfg.priceCents) b ∧
      World.Mirrors ⟨{ w.service with store := store }, w.tasks.set i (t.did (.reserved r) pc)⟩ b := by
  have hbooks := h.budgets.reserve work.tenantId work.companyNames.length cfg.priceCents
  rw [hreserve] at hbooks
  refine ⟨{ a with
      store := { store with records := a.store.records, jobs := a.store.jobs }
      outstanding := r :: a.outstanding },
    ⟨rfl, ⟨Int.natCast_nonneg _, Int.natCast_nonneg _⟩, ?_⟩, ⟨rfl, rfl⟩, h.pooled, fun r' => ?_⟩
  · simp only [Accounts.perform, hbooks, Except.map]
  · rw [total_set _ _ hi, ← h.outstanding r', Task.opens_did, List.count_cons]
    simp only [Effect.opens, beq_iff_eq]
    split
    all_goals
      push_cast
      omega

/-- What a request closes it has outstanding, and the books close it too. -/
theorem World.Mirrors.closes (h : w.Mirrors a) (hw : w.Spared cfg s₀ replicas)
    (hprice : cfg.providerPriceCents ≤ cfg.priceCents) {i : Nat} {r : Reservation} {l c : Int}
    (hi : w.tasks[i]? = some t) (hclosing : t.pc.closing? = some (r, l, c)) :
    ∃ op, t.pc.transaction? cfg = some op ∧ op.tenantId?.isSome = true ∧ a.Permits op ∧
      r ∈ a.outstanding ∧ (∀ store, w.service.store.settle r l c = .ok store → (a.perform op).1 =
        { a with
          store := { store with records := a.store.records, jobs := a.store.jobs }
          outstanding := a.outstanding.erase r }) ∧
      ∀ e, w.service.store.settle r l c = .error e → (a.perform op).1 = a := by
  have hmem := List.mem_of_getElem? hi
  have hend : t.pc.isEnded = false := by
    generalize t.pc = pc at hclosing ⊢
    cases pc
    all_goals first | rfl | cases hclosing
  have hlive := (hw.sound.task t hmem).live hend
  obtain ⟨hopen, hnonneg, hle⟩ := hlive.closing hprice hclosing
  have hheld : r ∈ a.outstanding := by
    have hone : t.opens r = 1 := by
      rw [Task.opens, hlive.opens (hw.spared t hmem) r, if_pos hopen]
    have htotal := le_total_of_mem (f := (·.opens r))
      (fun x hx => (hw.sound.task x hx).opens_nonneg (hw.spared x hx) r) hmem
    rw [← h.outstanding r, hone] at htotal
    exact List.count_pos_iff.mp (by omega)
  have hbooks := h.budgets.settle r l c
  rcases Pc.transaction_of_closing cfg hclosing with hop | ⟨hop, rfl, rfl⟩
  · refine ⟨_, hop, rfl, ⟨hheld, hnonneg, hle⟩, hheld, fun store hsettle => ?_,
      fun e hsettle => ?_⟩
    all_goals
      rw [hsettle] at hbooks
      simp only [Accounts.perform, hbooks, Except.map]
  · refine ⟨_, hop, rfl, hheld, hheld, fun store hsettle => ?_, fun e hsettle => ?_⟩
    all_goals
      rw [hsettle] at hbooks
      simp only [Accounts.perform, Store.release, hbooks, Except.map]

/-- **One event.** It leaves the books as they are, or issues one permitted transaction that does
to them what it does to the application's tables. -/
theorem World.Mirrors.step (h : w.Mirrors a) (hw : w.Spared cfg s₀ replicas)
    (hprice : cfg.providerPriceCents ≤ cfg.priceCents) (hnext : w.next cfg e = some w') :
    w.transaction? cfg e = none ∧ w'.Mirrors a ∨ ∃ op b, w.transaction? cfg e = some op ∧
      Accounts.SecureStep a op b ∧ w'.Mirrors b := by
  have hidle : w'.service.store = w.service.store →
      (∀ r, total (·.opens r) w'.tasks = total (·.opens r) w.tasks) → w'.Mirrors a := by
    intro hstore htotal
    refine ⟨hstore ▸ h.budgets, h.pooled, fun r => ?_⟩
    rw [h.outstanding, htotal]
  cases moves_of_next hnext with
  | @advanced i t t' s' hi hadvance =>
      have htransaction : w.transaction? cfg (.advance i) = t.pc.transaction? cfg := by
        rw [World.transaction?, hi, Option.bind_some]
      rw [htransaction]
      cases transacts_of_advance hadvance with
      | reserves hpc hreserve =>
          obtain ⟨b, hstep, hmirrors⟩ := h.reserves hi hreserve _
          exact .inr ⟨_, b, by rw [hpc]; rfl, hstep, hmirrors⟩
      | @refused work e exc hpc hreserve =>
          have hbooks := h.budgets.reserve work.tenantId work.companyNames.length cfg.priceCents
          rw [hreserve] at hbooks
          refine .inr ⟨.reserve work.tenantId work.companyNames.length cfg.priceCents, a,
            by rw [hpc]; rfl, ⟨rfl, ⟨Int.natCast_nonneg _, Int.natCast_nonneg _⟩, ?_⟩,
            h.aside hi (aside_raise _ _ _)⟩
          simp only [Accounts.perform, hbooks, Except.map]
      | @closes r l c store pc hclosing hsettle =>
          obtain ⟨op, hop, hsecure, hpermits, hheld, hok, -⟩ := h.closes hw hprice hi hclosing
          refine .inr ⟨op, _, hop, ⟨hsecure, hpermits, hok store hsettle⟩, ⟨rfl, rfl⟩, h.pooled,
            fun r' => ?_⟩
          rw [total_set _ _ hi, ← h.outstanding r', Task.opens_did]
          simp only [Effect.opens]
          split
          · next hr =>
              have hpos : 0 < a.outstanding.count r := List.count_pos_iff.mpr hheld
              rw [← hr, List.count_erase_self]
              omega
          · next hr =>
              rw [List.count_erase_of_ne (Ne.symm hr)]
              omega
      | jams hclosing hsettle =>
          obtain ⟨op, hop, hsecure, hpermits, -, -, herror⟩ := h.closes hw hprice hi hclosing
          exact .inr ⟨op, a, hop, ⟨hsecure, hpermits, herror _ hsettle⟩,
            h.aside hi (aside_raise _ _ _)⟩
      | aside hnone haside => exact .inl ⟨hnone, h.aside hi haside⟩
  | arrived => exact .inl ⟨rfl, hidle rfl fun r => by simp [Task.opens, Task.arrived]⟩
  | struck hi hfault => exact .inl ⟨rfl, h.aside hi (aside_of_fault hfault)⟩
  | @served e i t c c' p' he hi =>
      have hnone : w.transaction? cfg e = none := by
        rcases he with rfl | rfl
        all_goals rfl
      refine .inl ⟨hnone, hidle rfl fun r => ?_⟩
      rw [total_set _ _ hi]
      simp [Task.opens]
  | woke => exact .inl ⟨rfl, hidle rfl fun r => total_map _ _ _⟩
  | reset => exact .inl ⟨rfl, hidle rfl fun r => rfl⟩
  | quiet _ _ hadvance =>
      refine .inl ⟨?_, hidle rfl fun r => rfl⟩
      cases e with
      | advance i => exact absurd rfl (hadvance i)
      | _ => rfl

/-- **The application refines its books.** From any rows, where the provider asks no more than the
application charges: the budget transactions of every run that strikes no request between a settle
and the exit of its connection are a run of the books' permitted secure transactions, in the same
order. It ends in the application's own two tables, with what the requests have open outstanding. -/
theorem refines_accounts {limiter : InFlightLimiter} {es : List Event}
    (hl : InFlightLimiter.make cfg.maxInFlightUpstream = .ok limiter)
    (hprice : cfg.providerPriceCents ≤ cfg.priceCents)
    (hrun : Run (restrict (fun w e => w.sparesSettled e = true) (Steps (World.next cfg)))
      (.start cfg s₀ replicas limiter) es w) :
    ∃ a, Run Accounts.SecureStep (.start s₀)
        (World.transactions cfg (.start cfg s₀ replicas limiter) es) a ∧ w.Mirrors a := by
  have hstart : (World.start cfg s₀ replicas limiter).Spared cfg s₀ replicas :=
    ⟨World.start_sound hl s₀ replicas, fun t ht => absurd ht List.not_mem_nil⟩
  have hbooks : (World.start cfg s₀ replicas limiter).Mirrors (.start s₀) :=
    ⟨⟨rfl, rfl⟩, rfl, fun r => rfl⟩
  generalize World.start cfg s₀ replicas limiter = w₀ at hrun hstart hbooks ⊢
  generalize Accounts.start s₀ = a at hbooks ⊢
  induction hrun generalizing a with
  | nil => exact ⟨a, .nil, hbooks⟩
  | @cons w₀ w₁ w e es hstep _ ih =>
      obtain ⟨hspares, hnext⟩ := hstep
      have hnext' : w₀.next cfg e = some w₁ := hnext
      rw [World.transactions, hnext', Option.elim_some]
      rcases hbooks.step hstart hprice hnext with ⟨hnone, hmirrors⟩ | ⟨op, b, hop, hstep, hmirrors⟩
      · rw [hnone]
        exact ih (hstart.step hspares hnext) a hmirrors
      · obtain ⟨a', hrun, hmirrors'⟩ := ih (hstart.step hspares hnext) b hmirrors
        rw [hop]
        exact ⟨a', .cons hstep hrun, hmirrors'⟩

/-- Of two requests for the one slot the second is shed, and then the first is served. -/
def shedAndServed : List Event :=
  [.arrive (.demo 0), .arrive (.demo 0)] ++ List.replicate 9 (.advance 0) ++
    List.replicate 10 (.advance 1) ++ [.resume 0, .resume 0] ++ List.replicate 9 (.advance 0)

theorem books_of_a_shed_request :
    ∃ w a, Run Accounts.SecureStep (.start .demo)
        [.reserve Fixtures.attackerTenantId 1 4, .reserve Fixtures.attackerTenantId 1 4,
          .release .demo, .settle .demo 1 4] a ∧
      replay (fun w e => if w.sparesSettled e then World.next (.demo 1) w e else none) (.demo 1)
        shedAndServed = some w ∧
      w.Mirrors a ∧ a.outstanding.count .demo = 0 := by
  have hopen : (replay (fun w e => if w.sparesSettled e then World.next (.demo 1) w e else none)
      (.demo 1) shedAndServed).map (fun w => total (·.opens .demo) w.tasks) = some 0 := by
    decide
  obtain ⟨w, hw, hopen⟩ := Option.map_eq_some_iff.mp hopen
  have hissued : World.transactions (.demo 1) (.demo 1) shedAndServed =
      [.reserve Fixtures.attackerTenantId 1 4, .reserve Fixtures.attackerTenantId 1 4,
        .release .demo, .settle .demo 1 4] := by
    decide
  obtain ⟨a, hrun, hmirrors⟩ :=
    refines_accounts rfl (by decide) (run_of_replay_checked hw)
  refine ⟨w, a, ?_, hw, hmirrors, ?_⟩
  · rw [← hissued]
    exact hrun
  · have hcount := hmirrors.outstanding .demo
    rw [hopen] at hcount
    exact Int.natCast_eq_zero.mp hcount

end Limitless
