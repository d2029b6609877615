import Limitless.Store.Balance
import Limitless.Store.Seed
import Limitless.Lib.Runs

/-!
# Runs of the budget transactions

Any number of replicas issue `reserve`, `settle`, `release` and `charge_undivided_pool` against one
store, each as one atomic transaction. `Accounts` is that store beside what its clients hold: the
successful reservations nobody has closed yet, and everything charged to the undivided pool. A run
is any sequence of permitted operations; which replica issues one is irrelevant, since the rows
are all they share.

`Balanced` is the invariant that carries the module: the two tables are sums over the outstanding
reservations and over each other. It makes the `CHECK` constraints unreachable, which is
`Balanced.no_checkViolation`, and the two together are `run_balanced`.
-/

namespace Limitless

open Runs

/-- The shared rows, and what the clients of the store hold against them. -/
structure Accounts where
  store : Store
  /-- The reservations that succeeded and have not been settled or released. -/
  outstanding : List Reservation
  /-- Everything charged through `charge_undivided_pool`. -/
  pooled : Int

/-- One transaction a client issues. -/
inductive Operation
  | reserve (tenantId : TenantId) (lookups priceCents : Int)
  | settle (reservation : Reservation) (lookupsPerformed centsCharged : Int)
  | release (reservation : Reservation)
  | chargeUndividedPool (lookups priceCents : Int)
  deriving DecidableEq

/-- What the client gets back. -/
inductive Outcome
  | admitted (reservation : Reservation)
  | closed
  | charged (enough : Bool)
  | failed (error : StoreError)
  deriving DecidableEq

namespace Accounts

/-- Run one transaction. One that fails leaves everything as it was. -/
def perform (a : Accounts) : Operation → Accounts × Outcome
  | .reserve t lookups price =>
    match a.store.reserve t lookups price with
    | .ok (s, r) => ({ a with store := s, outstanding := r :: a.outstanding }, .admitted r)
    | .error e => (a, .failed e)
  | .settle r lookups charged =>
    match a.store.settle r lookups charged with
    | .ok s => ({ a with store := s, outstanding := a.outstanding.erase r }, .closed)
    | .error e => (a, .failed e)
  | .release r =>
    match a.store.release r with
    | .ok s => ({ a with store := s, outstanding := a.outstanding.erase r }, .closed)
    | .error e => (a, .failed e)
  | .chargeUndividedPool lookups price =>
    match a.store.chargeUndividedPool lookups price with
    | .ok (s, true) => ({ a with store := s, pooled := a.pooled + lookups * price }, .charged true)
    | .ok (s, false) => ({ a with store := s }, .charged false)
    | .error e => (a, .failed e)

/-- The callers' side of the contract: no negative work, and a reservation is closed only while it
is outstanding, with a charge between nothing and what it holds. -/
def Permits (a : Accounts) : Operation → Prop
  | .reserve _ lookups price => 0 ≤ lookups ∧ 0 ≤ price
  | .settle r _ charged => r ∈ a.outstanding ∧ 0 ≤ charged ∧ charged ≤ r.cents
  | .release r => r ∈ a.outstanding
  | .chargeUndividedPool lookups price => 0 ≤ lookups ∧ 0 ≤ price

/-- One permitted transaction. -/
def Step (a : Accounts) (op : Operation) (b : Accounts) : Prop :=
  a.Permits op ∧ (a.perform op).1 = b

/-- Freshly seeded rows, with nothing outstanding. -/
def start (s : Store) : Accounts := ⟨s, [], 0⟩

/-- The cents of a tenant's outstanding reservations. -/
def heldFor (a : Accounts) (t : TenantId) : Int :=
  ((a.outstanding.filter (·.tenantId = t)).map Reservation.cents).sum

/-! ## The invariant -/

/-- The rows are sums: a tenant's reserved column over its outstanding reservations, the period's
two columns over the tenants' and the pool. -/
structure Balanced (a : Accounts) : Prop where
  reserved : ∀ t, a.store.balance (.tenant t .reserved) = a.heldFor t
  periodReserved : a.store.balance (.period .reserved) = a.store.balance (.tenants .reserved)
  periodCommitted :
    a.store.balance (.period .committed) = a.store.balance (.tenants .committed) + a.pooled
  /-- What is held is not negative, and its tenant has a row. -/
  outstanding : ∀ r ∈ a.outstanding, 0 ≤ r.cents ∧ ∃ row, a.store.allowance? r.tenantId = some row
  period : ∃ per, a.store.period? = some per

/-- Seeding balances. -/
theorem start_balanced {s : Store} (hs : s.FreshlySeeded) : Balanced (start s) := by
  obtain ⟨per, hper, _⟩ := hs.period
  refine ⟨fun t => hs.balance _, ?_, ?_, by simp [start], ⟨per, hper⟩⟩
  · exact (hs.balance _).trans (hs.balance _).symm
  · rw [show (start s).store = s from rfl, hs.balance, hs.balance]
    rfl

/-! ## One transaction keeps it -/

theorem heldFor_cons (s : Store) (r : Reservation) (l : List Reservation) (p : Int) (t : TenantId) :
    heldFor ⟨s, r :: l, p⟩ t = heldFor ⟨s, l, p⟩ t + if t = r.tenantId then r.cents else 0 := by
  by_cases h : r.tenantId = t
  · simp [heldFor, h, add_comm]
  · simp [heldFor, h, Ne.symm h]

theorem heldFor_erase {a : Accounts} {r : Reservation} (h : r ∈ a.outstanding) (t : TenantId) :
    heldFor ⟨a.store, a.outstanding.erase r, a.pooled⟩ t =
      a.heldFor t - if t = r.tenantId then r.cents else 0 := by
  have hperm := List.perm_cons_erase h
  have hsum : a.heldFor t =
      heldFor ⟨a.store, r :: a.outstanding.erase r, a.pooled⟩ t :=
    ((hperm.filter _).map _).sum_eq
  rw [hsum, heldFor_cons]
  omega

/-- A held reservation is part of what its tenant and the period have reserved. -/
theorem Balanced.cents_le {a : Accounts} (ha : Balanced a) {r : Reservation}
    (hr : r ∈ a.outstanding) {row : TenantAllowance} {per : SpendPeriod}
    (hrow : a.store.allowance? r.tenantId = some row) (hper : a.store.period? = some per) :
    r.cents ≤ row.reservedCents ∧ r.cents ≤ per.reservedCents := by
  have hmem : r.cents ∈ (a.outstanding.filter (·.tenantId = r.tenantId)).map Reservation.cents :=
    List.mem_map_of_mem (List.mem_filter.mpr ⟨hr, by simp⟩)
  have hle : r.cents ≤ a.heldFor r.tenantId := by
    refine List.single_le_sum (fun x hx => ?_) _ hmem
    obtain ⟨q, hq, rfl⟩ := List.mem_map.mp hx
    exact (ha.outstanding q (List.mem_of_mem_filter hq)).1
  have h1 := ha.reserved r.tenantId
  rw [Store.balance_tenant hrow] at h1
  have h2 := ha.periodReserved
  rw [Store.balance_period hper] at h2
  have h3 := Store.reserved_le_tenants hrow
  simp only [TenantAllowance.cents, SpendPeriod.cents] at h1 h2
  omega

/-- Everything one permitted transaction can do on balanced books: nothing, or hold, or close, or
charge the pool. -/
theorem Step.cases {a b : Accounts} {op : Operation} (ha : Balanced a) (h : a.Step op b) :
    b = a ∨
      (∃ r : Reservation, 0 ≤ r.cents ∧ (∃ row, a.store.allowance? r.tenantId = some row) ∧
        a.store.Moved r.held.amount b.store ∧
        b.outstanding = r :: a.outstanding ∧ b.pooled = a.pooled) ∨
      (∃ r l charged, r ∈ a.outstanding ∧ a.store.Moved (r.closed l charged).amount b.store ∧
        b.outstanding = a.outstanding.erase r ∧ b.pooled = a.pooled) ∨
      ∃ cents, a.store.Moved (poolCharge cents) b.store ∧
        b.outstanding = a.outstanding ∧ b.pooled = a.pooled + cents := by
  obtain ⟨hperm, rfl⟩ := h
  have hclose : ∀ r ∈ a.outstanding, ∀ l charged s', a.store.settle r l charged = .ok s' →
      a.store.Moved (r.closed l charged).amount s' := by
    intro r hr l charged s' hs'
    obtain ⟨_, row, hrow⟩ := ha.outstanding r hr
    obtain ⟨per, hper⟩ := ha.period
    exact Store.settle_ok hs' hrow hper
  cases op with
  | reserve t l price =>
      simp only [perform]
      split
      · next s' r hok =>
          obtain ⟨_, rfl, hmoved, ⟨row, hrow, _⟩, _⟩ := Store.reserve_ok hok
          exact .inr (.inl ⟨_, mul_nonneg hperm.1 hperm.2, ⟨row, hrow⟩, hmoved, rfl, rfl⟩)
      · exact .inl rfl
  | settle r l charged =>
      simp only [perform]
      split
      · next s' hok =>
          exact .inr (.inr (.inl ⟨r, l, charged, hperm.1, hclose r hperm.1 _ _ _ hok, rfl, rfl⟩))
      · exact .inl rfl
  | release r =>
      simp only [perform]
      split
      · next s' hok =>
          exact .inr (.inr (.inl ⟨r, 0, 0, hperm, hclose r hperm _ _ _ hok, rfl, rfl⟩))
      · exact .inl rfl
  | chargeUndividedPool l price =>
      simp only [perform]
      split
      · next s' hok =>
          rcases Store.chargeUndividedPool_ok hok with ⟨_, hm⟩ | ⟨hf, _⟩
          · exact .inr (.inr (.inr ⟨_, hm, rfl, rfl⟩))
          · cases hf
      · next s' hok =>
          rcases Store.chargeUndividedPool_ok hok with ⟨hf, _⟩ | ⟨_, rfl⟩
          · cases hf
          · exact .inl rfl
      · exact .inl rfl

/-- Rows and the period survive a movement. -/
theorem Balanced.rows {a : Accounts} (ha : Balanced a) {s' : Store} {δ : Account → Int}
    (hmoved : a.store.Moved δ s') :
    (∀ r ∈ a.outstanding, 0 ≤ r.cents ∧ ∃ row, s'.allowance? r.tenantId = some row) ∧
      ∃ per, s'.period? = some per := by
  refine ⟨fun r hr => ?_, ?_⟩
  · obtain ⟨hc, row, hrow⟩ := ha.outstanding r hr
    obtain ⟨row', hrow', _⟩ := hmoved.allowance_some hrow
    exact ⟨hc, row', hrow'⟩
  · obtain ⟨per, hper⟩ := ha.period
    obtain ⟨per', hper', _⟩ := hmoved.period_some hper
    exact ⟨per', hper'⟩

/-- **One step of the invariant.** Every permitted transaction keeps the books balanced. -/
theorem Balanced.step {a b : Accounts} {op : Operation} (ha : Balanced a) (h : a.Step op b) :
    Balanced b := by
  obtain ⟨s', out, pooled⟩ := b
  rcases h.cases ha with hb | ⟨r, hc, ⟨row, hrow⟩, hm, rfl, rfl⟩ | ⟨r, l, charged, hr, hm, rfl, rfl⟩ |
    ⟨cents, hm, rfl, rfl⟩
  · exact hb ▸ ha
  · -- a hold adds to the tenant's and the period's reserved column
    obtain ⟨hrows, hper⟩ := ha.rows hm
    refine ⟨fun u => ?_, ?_, ?_, fun q hq => ?_, hper⟩
    · rw [heldFor_cons s', hm.balance, ha.reserved u]
      rfl
    · rw [hm.balance, hm.balance, ha.periodReserved]
      rfl
    · rw [hm.balance, hm.balance, ha.periodCommitted]
      simp [Posting.amount, Posting.cents, Reservation.held]
    · rcases List.mem_cons.mp hq with rfl | hq
      · obtain ⟨row', hrow', _⟩ := hm.allowance_some hrow
        exact ⟨hc, row', hrow'⟩
      · exact hrows q hq
  · -- a close takes the hold out of both reserved columns and charges both committed ones
    obtain ⟨hrows, hper⟩ := ha.rows hm
    refine ⟨fun u => ?_, ?_, ?_, fun q hq => hrows q (List.mem_of_mem_erase hq), hper⟩
    · have herase := heldFor_erase hr u
      show s'.balance _ = heldFor ⟨a.store, a.outstanding.erase r, a.pooled⟩ u
      rw [herase, hm.balance, ha.reserved u]
      by_cases hu : u = r.tenantId <;>
        simp [hu, Posting.amount, Posting.cents, Reservation.closed, sub_eq_add_neg]
    · rw [hm.balance, hm.balance, ha.periodReserved]
      rfl
    · rw [hm.balance, hm.balance, ha.periodCommitted]
      simp only [Posting.amount, Posting.cents, Reservation.closed]
      omega
  · -- a charge to the pool adds to the period's committed column alone
    obtain ⟨hrows, hper⟩ := ha.rows hm
    refine ⟨fun u => ?_, ?_, ?_, hrows, hper⟩
    · rw [hm.balance, ha.reserved u]
      exact add_zero _
    · rw [hm.balance, hm.balance, ha.periodReserved]
      rfl
    · rw [hm.balance, hm.balance, ha.periodCommitted]
      simp only [poolCharge]
      omega

/-- A permitted transaction leaves every budget as it is. -/
theorem Balanced.budgets {a b : Accounts} {op : Operation} (ha : Balanced a) (h : a.Step op b) :
    (∀ t, (b.store.allowance? t).map TenantAllowance.allowanceCents =
      (a.store.allowance? t).map TenantAllowance.allowanceCents) ∧
      b.store.period?.map SpendPeriod.capCents = a.store.period?.map SpendPeriod.capCents := by
  rcases h.cases ha with rfl | ⟨_, _, _, hm, _⟩ | ⟨_, _, _, _, hm, _⟩ | ⟨_, hm, _⟩
  exacts [⟨fun _ => rfl, rfl⟩, ⟨hm.allowance, hm.cap⟩, ⟨hm.allowance, hm.cap⟩,
    ⟨hm.allowance, hm.cap⟩]

/-- No permitted transaction on balanced books is refused by a `CHECK` constraint. -/
theorem Balanced.no_checkViolation {a : Accounts} (ha : Balanced a) {op : Operation}
    (hperm : a.Permits op) (c : CheckConstraint) :
    (a.perform op).2 ≠ .failed (.checkViolation c) := by
  have hclose : ∀ r ∈ a.outstanding, ∀ l charged, 0 ≤ charged → charged ≤ r.cents →
      ∃ s', a.store.settle r l charged = .ok s' := by
    intro r hr l charged hnn hle
    obtain ⟨_, row, hrow⟩ := ha.outstanding r hr
    obtain ⟨per, hper⟩ := ha.period
    obtain ⟨h1, h2⟩ := ha.cents_le hr hrow hper
    exact Store.settle_isOk l hrow hper h1 h2 hnn hle
  cases op with
  | reserve t l price =>
      simp only [perform]
      split
      · simp
      · next e he =>
          intro hc
          cases hc
          exact Store.reserve_ne_checkViolation hperm.1 hperm.2 c he
  | settle r l charged =>
      obtain ⟨s', hs'⟩ := hclose r hperm.1 l charged hperm.2.1 hperm.2.2
      simp [perform, hs']
  | release r =>
      obtain ⟨s', hs'⟩ := hclose r hperm 0 0 le_rfl (ha.outstanding r hperm).1
      simp [perform, Store.release, hs']
  | chargeUndividedPool l price =>
      simp only [perform]
      split
      · simp
      · simp
      · next e he =>
          intro hc
          cases hc
          exact Store.chargeUndividedPool_ne_checkViolation hperm.1 hperm.2 c he

/-! ## Every run -/

/-- Every run of permitted transactions from freshly seeded rows keeps the books balanced and the
budgets in place. -/
theorem run_balanced {s : Store} {ops : List Operation} {a : Accounts} (hs : s.FreshlySeeded)
    (hrun : Run Step (start s) ops a) :
    Balanced a ∧
      (∀ t, (a.store.allowance? t).map TenantAllowance.allowanceCents =
        (s.allowance? t).map TenantAllowance.allowanceCents) ∧
      a.store.period?.map SpendPeriod.capCents = s.period?.map SpendPeriod.capCents := by
  refine hrun.invariant (I := fun b => Balanced b ∧
    (∀ t, (b.store.allowance? t).map TenantAllowance.allowanceCents =
      (s.allowance? t).map TenantAllowance.allowanceCents) ∧
    b.store.period?.map SpendPeriod.capCents = s.period?.map SpendPeriod.capCents) ?_
    ⟨start_balanced hs, fun _ => rfl, rfl⟩
  rintro a op b ⟨ha, hallow, hcap⟩ hstep
  obtain ⟨h1, h2⟩ := ha.budgets hstep
  exact ⟨ha.step hstep, fun t => (h1 t).trans (hallow t), h2.trans hcap⟩

/-- **The books of every run.** Whatever the replicas issue, in every state reached: a tenant's
reserved money is what its open reservations hold, the period's reserved money is the tenants', its
committed money is the tenants' and the pool's, neither budget is passed or changed, and no
statement issued next is refused by a `CHECK` constraint. -/
theorem books_of_every_run {s : Store} {ops : List Operation} {a : Accounts}
    (hs : s.FreshlySeeded) (hrun : Run Step (start s) ops a) :
    (∀ row ∈ a.store.tenantAllowances.entries,
        row.reservedCents = a.heldFor row.tenantId ∧
        row.committedCents + row.reservedCents ≤ row.allowanceCents ∧
        (s.allowance? row.tenantId).map TenantAllowance.allowanceCents = some row.allowanceCents) ∧
      (∃ per, a.store.period? = some per ∧
        per.reservedCents = a.store.tenantAllowances.sum TenantAllowance.reservedCents ∧
        per.committedCents =
          a.store.tenantAllowances.sum TenantAllowance.committedCents + a.pooled ∧
        per.committedCents + per.reservedCents ≤ per.capCents ∧
        s.period?.map SpendPeriod.capCents = some per.capCents) ∧
      ∀ op, a.Permits op → ∀ c, (a.perform op).2 ≠ .failed (.checkViolation c) := by
  obtain ⟨ha, hallow, hcap⟩ := run_balanced hs hrun
  refine ⟨fun row hrow => ?_, ?_, fun op hop c => ha.no_checkViolation hop c⟩
  · have hfind : a.store.allowance? row.tenantId = some row := Keyed.find?_of_mem hrow
    have hres := ha.reserved row.tenantId
    rw [Store.balance_tenant hfind] at hres
    refine ⟨hres, row.within_allowance, ?_⟩
    rw [← hallow, hfind, Option.map_some]
  · obtain ⟨per, hper⟩ := ha.period
    have hres := ha.periodReserved
    have hcom := ha.periodCommitted
    rw [Store.balance_period hper] at hres hcom
    refine ⟨per, hper, hres, hcom, per.within_cap, ?_⟩
    rw [← hcap, hper, Option.map_some]

/-- The books after one tenant of the fixtures reserves ten lookups: the period holds them. -/
theorem books_after_one_reservation :
    ∃ per, ((start .resetFixtures).perform
        (.reserve Fixtures.attackerTenantId 10 4)).1.store.period? = some per ∧
      per.reservedCents = 40 := by
  have hrun : Run Step (start .resetFixtures) [.reserve Fixtures.attackerTenantId 10 4]
      ((start .resetFixtures).perform (.reserve Fixtures.attackerTenantId 10 4)).1 :=
    .cons ⟨⟨by decide, by decide⟩, rfl⟩ .nil
  obtain ⟨_, ⟨per, hper, hres, _⟩, _⟩ :=
    books_of_every_run (Store.seeded_freshlySeeded _ _ _ _) hrun
  exact ⟨per, hper, hres.trans (by decide)⟩

end Accounts

end Limitless
