import Limitless.Secure.Accounting

/-!
# The invariant of the world

`Moves` lists what one event does, once: a request arrives, a request acts, the provider serves a
call, the event of the hold is set, the ledger is reset, or something changes that no figure
depends on. `World.Sound` is the invariant of every run: each request's history is sound, and each
shared figure is its start plus what the requests count for. `Sound.step` proves it kept. The bill
is apart, in `Sound.bill`, because a reset of the ledger forgets it.
-/

namespace Limitless

open Indexed Runs

/-- What one event does to the world. -/
inductive Moves (cfg : Config) (w : World) : Event → World → Prop
  | arrived {request : Request} : request.replica < w.service.limiters.length →
      Moves cfg w (.arrive request) { w with tasks := w.tasks ++ [.arrived request] }
  | advanced {i : Nat} {t t' : Task} {s' : Service} : w.tasks[i]? = some t →
      t.advance cfg w.service = some (s', t') →
      Moves cfg w (.advance i) ⟨s', w.tasks.set i t'⟩
  | struck {i : Nat} {f : Fault} {t t' : Task} {s' : Service} : w.tasks[i]? = some t →
      t.fault w.service f = some (s', t') →
      Moves cfg w (.fault i f) ⟨s', w.tasks.set i t'⟩
  | served {e : Event} {i : Nat} {t : Task} {c c' : Call} {p' : ProviderState} :
      e = .resume i ∨ e = .abort i → w.tasks[i]? = some t → t.call = some c →
      Call.Handled w.service.provider c p' c' →
      Moves cfg w e ⟨{ w.service with provider := p' }, w.tasks.set i { t with call := some c' }⟩
  | woke : Moves cfg w .release
      ⟨{ w.service with provider := w.service.provider.release },
        w.tasks.map fun t => { t with call := t.call.map Call.wake }⟩
  | reset : Moves cfg w .resetLedger (w.withProvider w.service.provider.resetLedger)
  | quiet {e : Event} {p : ProviderState} {clock : Timestamp} : e ≠ .resetLedger →
      (∀ i f, e ≠ .fault i f) → (∀ i, e ≠ .advance i) →
      p.ledger = w.service.provider.ledger → p.inFlight = w.service.provider.inFlight →
      p.peakInFlight = w.service.provider.peakInFlight →
      Moves cfg w e { w with service := { w.service with provider := p, clock := clock } }

variable {cfg : Config} {w w' : World} {e : Event}

theorem World.act_eq_some {i : Nat} {f : Service → Task → Option (Service × Task)}
    (h : w.act i f = some w') :
    ∃ t s' t', w.tasks[i]? = some t ∧ f w.service t = some (s', t') ∧
      w' = ⟨s', w.tasks.set i t'⟩ := by
  unfold act at h
  split at h
  · cases h
  · next t ht =>
      split at h
      · cases h
      · next s' t' hf =>
          cases h
          exact ⟨t, s', t', ht, hf, rfl⟩

theorem World.serve_eq_some {i : Nat} {f : ProviderState → Call → Option (ProviderState × Call)}
    (h : w.serve i f = some w') :
    ∃ t c p' c', w.tasks[i]? = some t ∧ t.call = some c ∧ f w.service.provider c = some (p', c') ∧
      w' = ⟨{ w.service with provider := p' }, w.tasks.set i { t with call := some c' }⟩ := by
  obtain ⟨t, s', t', ht, hf, rfl⟩ := World.act_eq_some h
  split at hf
  · cases hf
  · next c hc =>
      split at hf
      · cases hf
      · next p' c' hp =>
          cases hf
          exact ⟨t, c, p', c', ht, hc, hp, rfl⟩

/-- The step function does nothing else. -/
theorem moves_of_next (h : w.next cfg e = some w') : Moves cfg w e w' := by
  cases e with
  | arrive request =>
      simp only [World.next] at h
      split at h
      · next hr => cases h; exact .arrived hr
      · cases h
  | advance i =>
      obtain ⟨t, s', t', ht, hf, rfl⟩ := World.act_eq_some h
      exact .advanced ht hf
  | fault i f =>
      have hact : (w.act i fun s t => t.fault s f) = some w' := h
      obtain ⟨t, s', t', ht, hf, rfl⟩ := World.act_eq_some hact
      exact .struck ht hf
  | resume i =>
      obtain ⟨t, c, p', c', ht, hc, hf, rfl⟩ := World.serve_eq_some h
      exact .served (.inl rfl) ht hc (Call.resume_handled hf)
  | abort i =>
      obtain ⟨t, c, p', c', ht, hc, hf, rfl⟩ := World.serve_eq_some h
      exact .served (.inr rfl) ht hc (Call.abort_handled hf)
  | release => cases h; exact .woke
  | resetLedger => cases h; exact .reset
  | hold | slow | tick =>
      cases h
      exact .quiet (by simp) (by simp) (by simp) rfl rfl rfl

/-! ## The invariant -/

/-- Each request's history is sound, and each shared figure is a sum over the requests. -/
structure World.Sound (cfg : Config) (s₀ : Store) (replicas : Nat) (w : World) : Prop where
  task : ∀ t ∈ w.tasks, t.Sound cfg
  replica : ∀ t ∈ w.tasks, t.request.replica < replicas
  rows : ∀ t ∈ w.tasks, ∀ r, t.pc.reservation? = some r → w.service.store.HasRows r
  length : w.service.limiters.length = replicas
  capacity : ∀ l ∈ w.service.limiters, l.capacity = cfg.maxInFlightUpstream
  price : w.service.provider.ledger.priceCentsPerLookup = cfg.providerPriceCents
  books : ∀ a, w.service.store.balance a = s₀.balance a + total (fun t => amounts t.trail a) w.tasks
  budgets : (∀ u, (w.service.store.allowance? u).map TenantAllowance.allowanceCents =
    (s₀.allowance? u).map TenantAllowance.allowanceCents) ∧
    w.service.store.period?.map SpendPeriod.capCents = s₀.period?.map SpendPeriod.capCents
  slots : ∀ ρ, w.service.occupancy ρ = total (fun t => t.slots ρ) w.tasks
  inFlight : w.service.provider.inFlight = total Task.occupies w.tasks

variable {s₀ : Store} {replicas : Nat}

theorem World.start_sound {limiter : InFlightLimiter}
    (hl : InFlightLimiter.make cfg.maxInFlightUpstream = .ok limiter) (s₀ : Store) (replicas : Nat) :
    World.Sound cfg s₀ replicas (.start cfg s₀ replicas limiter) := by
  obtain ⟨hcap, hin⟩ := InFlightLimiter.make_ok hl
  refine ⟨by simp [start], by simp [start], by simp [start], List.length_replicate, ?_, rfl, ?_,
    ⟨fun _ => rfl, rfl⟩, ?_, rfl⟩
  · intro l hmem
    rw [List.eq_of_mem_replicate hmem, hcap]
  · intro a
    exact (add_zero _).symm
  · intro ρ
    show ((List.replicate replicas limiter)[ρ]?).elim 0 InFlightLimiter.inFlight = 0
    cases hρ : (List.replicate replicas limiter)[ρ]? with
    | none => rfl
    | some l => rw [List.eq_of_mem_replicate (List.mem_of_getElem? hρ)]; exact hin

/-- A request that goes on does so by its own step. -/
theorem World.Sound.of_advance (h : World.Sound cfg s₀ replicas w) {i : Nat} {t t' : Task}
    {s' : Service} (hi : w.tasks[i]? = some t) (hstep : t.advance cfg w.service = some (s', t')) :
    t'.Sound cfg ∧ Acted w.service t s' t' := by
  have hmem := List.mem_of_getElem? hi
  have hsound := h.task t hmem
  exact ⟨Task.advance_sound hsound hstep,
    Task.advance_acted ((h.replica t hmem).trans_eq h.length.symm) (h.rows t hmem) hsound hstep⟩

/-- So does one that an exception strikes. -/
theorem World.Sound.of_fault (h : World.Sound cfg s₀ replicas w) {i : Nat} {f : Fault}
    {t t' : Task} {s' : Service} (hi : w.tasks[i]? = some t)
    (hstep : t.fault w.service f = some (s', t')) : t'.Sound cfg ∧ Acted w.service t s' t' := by
  have hmem := List.mem_of_getElem? hi
  exact ⟨Task.fault_sound (h.task t hmem) hstep,
    Task.fault_acted ((h.replica t hmem).trans_eq h.length.symm) (h.rows t hmem) hstep⟩

/-- A request that acts. -/
theorem World.Sound.acted (h : World.Sound cfg s₀ replicas w) {i : Nat} {t t' : Task}
    {s' : Service} (hi : w.tasks[i]? = some t) (hsound : t'.Sound cfg)
    (hacted : Acted w.service t s' t') :
    World.Sound cfg s₀ replicas ⟨s', w.tasks.set i t'⟩ := by
  obtain ⟨new, htrail, ⟨hposted, _⟩, _⟩ := hacted.books
  refine ⟨forall_mem_set hsound h.task, forall_mem_set ?_ h.replica,
    forall_mem_set hacted.rows fun u hu r hr => hposted.hasRows (h.rows u hu r hr),
    hacted.length.trans h.length, ?_, ?_, fun a => ?_, ⟨fun u => ?_, ?_⟩, fun ρ => ?_, ?_⟩
  · rw [hacted.request]
    exact h.replica t (List.mem_of_getElem? hi)
  · intro l hl
    obtain ⟨l₀, hl₀, hcap⟩ := hacted.capacity l hl
    rw [hcap, h.capacity l₀ hl₀]
  · exact (congrArg (·.ledger.priceCentsPerLookup) hacted.provider).trans h.price
  · rw [total_set _ t' hi, hposted.balance, h.books]
    simp only [amounts, htrail, total_append]
    omega
  · rw [hposted.allowance, h.budgets.1]
  · rw [hposted.cap, h.budgets.2]
  · rw [total_set _ t' hi, hacted.slots, h.slots]
  · rw [total_set _ t' hi, hacted.occupies]
    show s'.provider.inFlight = _
    rw [hacted.provider, h.inFlight]
    omega

/-- A call that is served. -/
theorem World.Sound.served (h : World.Sound cfg s₀ replicas w) {i : Nat} {t : Task} {c c' : Call}
    {p' : ProviderState} (hi : w.tasks[i]? = some t) (hc : t.call = some c)
    (hserved : Call.Handled w.service.provider c p' c') :
    World.Sound cfg s₀ replicas
      ⟨{ w.service with provider := p' }, w.tasks.set i { t with call := some c' }⟩ := by
  have hmem := List.mem_of_getElem? hi
  refine ⟨forall_mem_set ((h.task t hmem).serve hc hserved h.price) h.task,
    forall_mem_set (h.replica t hmem) h.replica, forall_mem_set (h.rows t hmem) h.rows, h.length,
    h.capacity, hserved.price.trans h.price, fun a => ?_, h.budgets, fun ρ => ?_, ?_⟩
  · rw [total_set _ _ hi]
    exact (h.books a).trans (by simp)
  · rw [total_set _ _ hi]
    exact (h.slots ρ).trans (by simp [Task.slots])
  · rw [total_set _ _ hi]
    refine hserved.inFlight.trans ?_
    rw [h.inFlight]
    simp [Task.occupies, hc]

/-- **One event keeps the invariant.** -/
theorem World.Sound.step (h : World.Sound cfg s₀ replicas w) (hmoves : Moves cfg w e w') :
    World.Sound cfg s₀ replicas w' := by
  cases hmoves with
  | arrived hr =>
      refine ⟨forall_mem_concat h.task (Task.arrived_sound _),
        forall_mem_concat h.replica (hr.trans_eq h.length),
        forall_mem_concat h.rows fun r hres => ?_, h.length, h.capacity, h.price, fun a => ?_,
        h.budgets, fun ρ => ?_, ?_⟩
      · cases hres
      · rw [total_append]
        exact (h.books a).trans (by simp [Task.arrived, amounts])
      · rw [total_append]
        exact (h.slots ρ).trans (by simp [Task.arrived, Task.slots, Pc.holdsSlot])
      · rw [total_append]
        exact h.inFlight.trans (by simp [Task.arrived, Task.occupies])
  | advanced hi hstep =>
      obtain ⟨hsound, hacted⟩ := h.of_advance hi hstep
      exact h.acted hi hsound hacted
  | struck hi hstep =>
      obtain ⟨hsound, hacted⟩ := h.of_fault hi hstep
      exact h.acted hi hsound hacted
  | served _ hi hc hserved => exact h.served hi hc hserved
  | woke =>
      have htotal : ∀ f : Task → Int, (∀ t, f { t with call := t.call.map Call.wake } = f t) →
          total f (w.tasks.map fun t => { t with call := t.call.map Call.wake }) =
            total f w.tasks := by
        intro f hf
        simp only [total, List.map_map]
        exact congrArg List.sum (List.map_congr_left fun t _ => hf t)
      refine ⟨List.forall_mem_map.mpr fun t ht => (h.task t ht).wake,
        List.forall_mem_map.mpr h.replica, List.forall_mem_map.mpr h.rows, h.length, h.capacity,
        h.price, fun a => ?_, h.budgets, fun ρ => ?_, ?_⟩
      · rw [htotal _ fun _ => rfl]
        exact h.books a
      · rw [htotal _ fun _ => rfl]
        exact h.slots ρ
      · rw [htotal _ fun t => by cases hc : t.call <;> simp [Task.occupies, hc]]
        exact h.inFlight
  | reset =>
      exact ⟨h.task, h.replica, h.rows, h.length, h.capacity, h.price, h.books, h.budgets, h.slots,
        h.inFlight⟩
  | quiet _ _ _ hledger hin _ =>
      refine ⟨h.task, h.replica, h.rows, h.length, h.capacity, ?_, h.books, h.budgets, h.slots,
        hin.trans h.inFlight⟩
      exact (congrArg Ledger.priceCentsPerLookup hledger).trans h.price

/-! ## The bill -/

/-- What the requests' calls have put on a tenant's bill, less what the bill shows. -/
def World.unbilled (w : World) (u : TenantId) : Int :=
  total (fun t => t.billed u) w.tasks - w.service.provider.ledger.lookupsOf u

theorem World.Sound.bill_acted (hacted : ∃ i t t' s', w.tasks[i]? = some t ∧
    Acted w.service t s' t' ∧ w' = ⟨s', w.tasks.set i t'⟩) (u : TenantId) :
    w'.unbilled u = w.unbilled u := by
  obtain ⟨i, t, t', s', hi, hacted, rfl⟩ := hacted
  simp only [unbilled, total_set _ t' hi, hacted.billed, hacted.provider]
  omega

/-- The bill follows the calls, and a reset of the ledger only forgets. -/
theorem World.Sound.bill (h : World.Sound cfg s₀ replicas w) (hmoves : Moves cfg w e w')
    (u : TenantId) :
    (e ≠ .resetLedger → w'.unbilled u = w.unbilled u) ∧ (0 ≤ w.unbilled u → 0 ≤ w'.unbilled u) := by
  have hkeep : w'.unbilled u = w.unbilled u → (e ≠ .resetLedger → w'.unbilled u = w.unbilled u) ∧
      (0 ≤ w.unbilled u → 0 ≤ w'.unbilled u) := fun heq => ⟨fun _ => heq, fun hw => heq ▸ hw⟩
  cases hmoves with
  | arrived => exact hkeep (by simp [unbilled, Task.arrived, Task.billed])
  | advanced hi hstep => exact hkeep (bill_acted ⟨_, _, _, _, hi, (h.of_advance hi hstep).2, rfl⟩ u)
  | struck hi hstep => exact hkeep (bill_acted ⟨_, _, _, _, hi, (h.of_fault hi hstep).2, rfl⟩ u)
  | served _ hi hc hserved =>
      refine hkeep ?_
      simp only [unbilled, total_set _ _ hi, hserved.lookups, Task.billed, hc, Option.elim_some]
      omega
  | woke =>
      refine hkeep ?_
      have hsame : total (fun t => t.billed u)
          (w.tasks.map fun t => { t with call := t.call.map Call.wake }) =
            total (fun t => t.billed u) w.tasks := by
        simp only [total, List.map_map]
        refine congrArg List.sum (List.map_congr_left fun t _ => ?_)
        cases hc : t.call <;> simp [Task.billed, hc]
      simp only [unbilled, hsame]
      rfl
  | reset =>
      refine ⟨fun hne => absurd rfl hne, fun _ => ?_⟩
      have hnonneg : 0 ≤ total (fun t => t.billed u) w.tasks := by
        refine total_nonneg fun t _ => ?_
        cases hc : t.call with
        | none => simp [Task.billed, hc]
        | some c => simpa [Task.billed, hc] using c.billed_nonneg u
      simpa [unbilled, withProvider, ProviderState.resetLedger, Ledger.lookupsOf_reset] using hnonneg
  | quiet _ _ _ hledger _ _ => exact hkeep (by simp only [unbilled, hledger])

/-! ## Runs -/

/-- **The invariant of every run.** -/
theorem World.run_sound {limiter : InFlightLimiter} {es : List Event}
    (hl : InFlightLimiter.make cfg.maxInFlightUpstream = .ok limiter)
    (hrun : Run (Steps (World.next cfg)) (.start cfg s₀ replicas limiter) es w) :
    World.Sound cfg s₀ replicas w :=
  hrun.invariant (fun _ _ _ h hstep => h.step (moves_of_next hstep)) (start_sound hl s₀ replicas)

end Limitless
