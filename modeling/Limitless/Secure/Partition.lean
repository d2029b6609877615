import Limitless.Secure.Transactions

/-!
# A tenant's admission is its own affair

The reservation of a request writes a row that all tenants share, and whether it is granted depends
on what that row holds. With partitions that fit into the period's cap, it depends on the tenant's
own requests alone: `admitted_by_own_requests` gives the exact condition, which sums over the
requests of the tenant and names no other. Nothing is assumed of the run. A request may be struck
anywhere, even where its reservation is left behind or settled twice: that is its own tenant's loss.
-/

namespace Limitless

open Indexed Runs

/-- The period's two columns are the sums of the tenants'. -/
def Store.Divided (s : Store) : Prop := ∀ m, s.balance (.period m) = s.balance (.tenants m)

/-- In a divided store whose partitions fit, there is as much room in the period as in a row. -/
theorem Store.Divided.room {s : Store} (h : s.Divided) {u : TenantId} {row : TenantAllowance}
    {per : SpendPeriod} (hrow : s.allowance? u = some row) (hper : s.period? = some per)
    (hfits : s.allowanceTotal ≤ per.capCents) :
    row.allowanceCents - row.committedCents - row.reservedCents ≤
      per.capCents - per.committedCents - per.reservedCents := by
  have hreserved : per.reservedCents = s.tenantAllowances.sum TenantAllowance.reservedCents := by
    have h := h .reserved
    rwa [Store.balance_period hper] at h
  have hcommitted : per.committedCents = s.tenantAllowances.sum TenantAllowance.committedCents := by
    have h := h .committed
    rwa [Store.balance_period hper] at h
  -- what every row has left adds up to what the period has left of the partitions
  have hleft := Keyed.le_sum_of_mem s.tenantAllowances
    (f := fun r => r.allowanceCents + -(r.committedCents + r.reservedCents))
    (fun r _ => by have := r.within_allowance; omega) (Keyed.find?_mem hrow)
  have hneg : ∀ f : TenantAllowance → Int,
      s.tenantAllowances.sum (fun r => -f r) = -s.tenantAllowances.sum f := by
    intro f
    have hadd := Keyed.sum_add s.tenantAllowances (fun r => -f r) f
    simp only [neg_add_cancel] at hadd
    have hzero : s.tenantAllowances.sum (fun _ => (0 : Int)) = 0 :=
      Keyed.sum_eq_zero fun _ _ => rfl
    omega
  rw [Keyed.sum_add, hneg, Keyed.sum_add] at hleft
  unfold Store.allowanceTotal at hfits
  omega

/-- In such a store, the row of the tenant decides a reservation. -/
theorem Store.Divided.reserve_iff {s : Store} (h : s.Divided) {u : TenantId} {row : TenantAllowance}
    {per : SpendPeriod} (hrow : s.allowance? u = some row) (hper : s.period? = some per)
    (hfits : s.allowanceTotal ≤ per.capCents) (lookups price : ℕ) :
    (row.committedCents + row.reservedCents + lookups * price ≤ row.allowanceCents →
      ∃ s', s.reserve u lookups price = .ok (s', ⟨u, lookups * price, lookups⟩)) ∧
    (row.allowanceCents < row.committedCents + row.reservedCents + lookups * price →
      s.reserve u lookups price = .error .allowanceExhausted) := by
  have hroom := h.room hrow hper hfits
  cases hreserve : s.reserve u lookups price with
  | ok result =>
      obtain ⟨s', r⟩ := result
      obtain ⟨-, rfl, -, ⟨row', hrow', hle⟩, -⟩ := Store.reserve_ok hreserve
      cases hrow.symm.trans hrow'
      exact ⟨fun _ => ⟨s', rfl⟩, fun hlt => absurd hle (not_le.mpr hlt)⟩
  | error e =>
      obtain ⟨rfl, hfull⟩ := Store.reserve_error hrow hper (Int.natCast_nonneg lookups)
        (Int.natCast_nonneg price) hreserve
      refine ⟨fun hle => ?_, fun _ => rfl⟩
      exfalso
      rcases hfull with hfull | hfull
      · exact absurd hle (not_le.mpr hfull)
      · omega

variable {cfg : Config} {s₀ : Store} {replicas : Nat} {w : World} {t : Task}

/-- What a trail has left reserved and committed for a tenant. -/
def Task.holding (t : Task) (u : TenantId) : Int :=
  amounts t.trail (.tenant u .reserved) + amounts t.trail (.tenant u .committed)

/-- What the requests of a tenant have left reserved and committed for it. -/
def World.ownHolding (w : World) (u : TenantId) : Int :=
  total (·.holding u) (w.tasks.filter (·.request.principal = some u))

/-- It is all that its row holds, where the rows were fresh. -/
theorem World.Transacted.ownHolding (h : w.Transacted cfg s₀ replicas) (hs₀ : s₀.FreshlySeeded)
    (u : TenantId) : w.ownHolding u =
      w.service.store.balance (.tenant u .reserved) +
        w.service.store.balance (.tenant u .committed) := by
  rw [h.sound.books, h.sound.books, hs₀.balance, hs₀.balance, zero_add, zero_add, ← total_add,
    World.ownHolding, total_filter]
  refine total_congr fun t ht => ?_
  by_cases howner : t.request.principal = some u
  · simp [howner, Task.holding]
  · have hown := h.own t ht
    simp [howner, hown.amounts_eq_zero howner]

/-- A run from fresh rows leaves the store divided. -/
theorem World.Transacted.divided (h : w.Transacted cfg s₀ replicas) (hs₀ : s₀.FreshlySeeded) :
    w.service.store.Divided := by
  intro m
  rw [h.sound.books, h.sound.books, hs₀.balance, hs₀.balance]
  exact congrArg (0 + ·) (total_congr fun t _ => amounts_period t.trail m)

/-- **Admitted by its own requests.** From fresh rows whose partitions fit into the period's cap,
in every state of every run of any number of replicas, wherever exceptions have struck: a request
that stands at its reservation is admitted if and only if the partition of its tenant has room for
it beside what the tenant's own requests have left reserved and committed. What the other tenants
have done plays no part. -/
theorem admitted_by_own_requests {limiter : InFlightLimiter} {es : List Event} {i : Nat}
    {work : Work} {row : TenantAllowance} {per : SpendPeriod}
    (hl : InFlightLimiter.make cfg.maxInFlightUpstream = .ok limiter) (hs₀ : s₀.FreshlySeeded)
    (hrow : s₀.allowance? work.tenantId = some row) (hper : s₀.period? = some per)
    (hfits : s₀.allowanceTotal ≤ per.capCents)
    (hrun : Run (Steps (World.next cfg)) (.start cfg s₀ replicas limiter) es w)
    (hi : w.tasks[i]? = some t) (hpc : t.pc = .reserving work) :
    t.request.principal = some work.tenantId ∧ ∃ w' t', w.next cfg (.advance i) = some w' ∧
      w'.tasks[i]? = some t' ∧
      t'.pc = if w.ownHolding work.tenantId + work.companyNames.length * cfg.priceCents ≤
          row.allowanceCents
        then .leavingConnection work (work.reservation cfg.priceCents)
        else .ended (.raised (.limitReached .allowanceExhausted t.request.payload.operation)) := by
  have h := World.transacted_of_run hl hrun
  obtain ⟨hallowances, hcap⟩ := h.sound.budgets
  have hallowance := hallowances work.tenantId
  rw [hrow, Option.map_some, Option.map_eq_some_iff] at hallowance
  obtain ⟨row', hrow', hsame⟩ := hallowance
  rw [hper, Option.map_some, Option.map_eq_some_iff] at hcap
  obtain ⟨per', hper', hcap⟩ := hcap
  have hiff := (h.divided hs₀).reserve_iff hrow' hper'
    (by rw [h.allowances, hcap]; exact hfits) work.companyNames.length cfg.priceCents
  have hheld := h.ownHolding hs₀ work.tenantId
  rw [Store.balance_tenant hrow', Store.balance_tenant hrow'] at hheld
  simp only [TenantAllowance.cents] at hheld
  have hlt := (List.getElem?_eq_some_iff.mp hi).1
  have hnext : w.next cfg (.advance i) = some ⟨(t.reserve cfg w.service work).1,
      w.tasks.set i (t.reserve cfg w.service work).2⟩ := by
    simp only [World.next, World.act, hi, Task.advance, hpc]
  refine ⟨(h.asked t (List.mem_of_getElem? hi)).works work (by rw [hpc]; rfl) |>.principal,
    _, _, hnext, List.getElem?_set_self hlt, ?_⟩
  split
  · obtain ⟨s', hreserve⟩ := hiff.1 (by omega)
    simp only [Task.reserve, hreserve]
    rfl
  · have hreserve := hiff.2 (by omega)
    simp only [Task.reserve, hreserve, Task.raise, hpc]
    rfl

/-- A request is cancelled with its reservation behind it, and another one gets to its own. -/
def leftBehind : List Event :=
  .arrive (.demo 0) :: List.replicate 4 (.advance 0) ++ .fault 0 .cancelled ::
    .arrive (.demo 0) :: List.replicate 3 (.advance 1)

theorem admitted_beside_what_was_left_behind :
    ∃ w w' t', replay (World.next (.demo 1)) (.demo 1) leftBehind = some w ∧
      w.ownHolding Fixtures.attackerTenantId = 4 ∧
      w.next (.demo 1) (.advance 1) = some w' ∧ w'.tasks[1]? = some t' ∧
      t'.pc = .leavingConnection ⟨Fixtures.attackerTenantId, [Fixtures.companyName 1], none⟩
        .demo := by
  have hfigures : (replay (World.next (.demo 1)) (.demo 1) leftBehind).map (fun w =>
      (w.ownHolding Fixtures.attackerTenantId, w.tasks[1]?.map (·.pc))) =
      some (4, some (.reserving ⟨Fixtures.attackerTenantId, [Fixtures.companyName 1], none⟩)) := by
    decide
  obtain ⟨w, hw, hfigures⟩ := Option.map_eq_some_iff.mp hfigures
  obtain ⟨hholding, hpc⟩ := Prod.mk.inj hfigures
  obtain ⟨t, ht, hpc⟩ := Option.map_eq_some_iff.mp hpc
  have hrow : Store.demo.allowance? Fixtures.attackerTenantId =
      some (.fresh Fixtures.attackerTenantId 40 (by decide)) := rfl
  have hper : Store.demo.period? = some (.fresh 100 (by decide)) := rfl
  obtain ⟨-, w', t', hnext, ht', hpc'⟩ := admitted_by_own_requests rfl Store.demo_freshlySeeded
    hrow hper (by decide) (World.run_demo hw) ht hpc
  refine ⟨w, w', t', hw, hholding, hnext, ht', hpc'.trans ?_⟩
  rw [hholding]
  rfl

end Limitless
