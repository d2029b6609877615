import Limitless.Fixtures
import Limitless.Lib.Indexed
import Limitless.Lib.Keyed
import Mathlib.Algebra.BigOperators.Ring.List
import Mathlib.Algebra.Ring.Int.Defs

/-!
# The provider's own books

`provider/ledger.py`: lookups performed for each tenant, in the order the tenants first appeared,
and the price of one. `Ledger.lookupsOf` reads one tenant's line, `charge` adds to it, and
`view` is the bill as the provider shows it, sorted by tenant. `view_totals` says that the totals
of a bill are the sums of its lines, and `totalLookups_eq` what they are of.
-/

namespace Limitless

open Indexed

/-- One item of `Ledger._lookups`. -/
structure TenantLookups where
  tenantId : TenantId
  lookups : Int
  deriving DecidableEq

/-- Lookups performed and fictional cents charged, for each tenant and in total. -/
structure Ledger where
  priceCentsPerLookup : Int
  lookups : Keyed TenantLookups.tenantId

/-- One line of the bill. -/
structure TenantLedgerEntry where
  tenantId : TenantId
  lookups : Int
  cents : Int
  deriving DecidableEq, Repr

/-- The provider's bill. -/
structure LedgerView where
  provider : String
  currency : String
  priceCentsPerLookup : Int
  totalLookups : Int
  totalCents : Int
  perTenant : List TenantLedgerEntry
  deriving DecidableEq, Repr

/-- The cents of a tenant's line. -/
def LedgerView.centsOf (v : LedgerView) (tenantId : TenantId) : Int :=
  (v.perTenant.find? (·.tenantId = tenantId)).elim 0 TenantLedgerEntry.cents

namespace Ledger

/-- The lookups of one tenant: `self._lookups.get(tenant_id, 0)`. -/
def lookupsOf (l : Ledger) (tenantId : TenantId) : Int :=
  (l.lookups.find? tenantId).elim 0 TenantLookups.lookups

/-- `charge`: record lookups performed, and answer the cents charged for them. -/
def charge (l : Ledger) (tenantId : TenantId) (lookups : Int) : Except String (Ledger × Int) :=
  if lookups < 0 then .error s!"cannot charge {lookups} lookups" else
  .ok ({ l with lookups := l.lookups.put ⟨tenantId, l.lookupsOf tenantId + lookups⟩ },
    lookups * l.priceCentsPerLookup)

/-- `reset`: start a run from an empty bill. -/
def reset (l : Ledger) : Ledger := { l with lookups := Keyed.empty }

/-- `total_lookups`. -/
def totalLookups (l : Ledger) : Int := l.lookups.sum TenantLookups.lookups

/-- `total_cents`. -/
def totalCents (l : Ledger) : Int := l.totalLookups * l.priceCentsPerLookup

/-- `view`. -/
def view (l : Ledger) : LedgerView where
  provider := Fixtures.providerName
  currency := Fixtures.currencyLabel
  priceCentsPerLookup := l.priceCentsPerLookup
  totalLookups := l.totalLookups
  totalCents := l.totalCents
  perTenant := (l.lookups.entries.mergeSort fun a b => a.tenantId ≤ b.tenantId).map fun e =>
    ⟨e.tenantId, e.lookups, e.lookups * l.priceCentsPerLookup⟩

/-! ## Charging -/

variable {l l' : Ledger} {t : TenantId} {n cents : Int}

theorem lookupsOf_reset (l : Ledger) (t : TenantId) : l.reset.lookupsOf t = 0 := rfl

/-- A committed charge costs its lookups at the price, and adds them to one tenant's line. -/
theorem charge_ok (h : l.charge t n = .ok (l', cents)) :
    0 ≤ n ∧ cents = n * l.priceCentsPerLookup ∧ l'.priceCentsPerLookup = l.priceCentsPerLookup ∧
      ∀ u, l'.lookupsOf u = l.lookupsOf u + if t = u then n else 0 := by
  unfold charge at h
  split at h
  · cases h
  · cases h
    refine ⟨by omega, rfl, rfl, fun u => ?_⟩
    show ((l.lookups.put ⟨t, l.lookupsOf t + n⟩).find? u).elim 0 TenantLookups.lookups = _
    rw [Keyed.find?_put]
    by_cases hu : t = u
    · subst hu
      simp
    · simp [hu, lookupsOf]

/-- A charge opens no line but its own tenant's. -/
theorem charge_tenants (h : l.charge t n = .ok (l', cents)) {e : TenantLookups}
    (he : e ∈ l'.lookups.entries) : e.tenantId = t ∨ e ∈ l.lookups.entries := by
  unfold charge at h
  split at h
  · cases h
  · cases h
    rcases Keyed.mem_putEntry he with rfl | he
    exacts [.inl rfl, .inr he]

theorem charge_isOk (l : Ledger) (t : TenantId) (hn : 0 ≤ n) :
    ∃ l', l.charge t n = .ok (l', n * l.priceCentsPerLookup) := by
  unfold charge
  rw [if_neg (by omega)]
  exact ⟨_, rfl⟩

/-! ## The bill -/

/-- A line of the bill is one tenant's. -/
theorem mem_perTenant {e : TenantLedgerEntry} (h : e ∈ l.view.perTenant) :
    e.lookups = l.lookupsOf e.tenantId ∧ e.cents = e.lookups * l.priceCentsPerLookup := by
  obtain ⟨x, hx, rfl⟩ := List.mem_map.mp h
  have hfind := Keyed.find?_of_mem (List.mem_mergeSort.mp hx)
  exact ⟨by simp [lookupsOf, hfind], rfl⟩

/-- The line of a tenant. -/
theorem view_find? (l : Ledger) (t : TenantId) :
    l.view.perTenant.find? (·.tenantId = t) =
      (l.lookups.find? t).map fun x => ⟨x.tenantId, x.lookups, x.lookups * l.priceCentsPerLookup⟩ := by
  cases hfind : l.view.perTenant.find? (·.tenantId = t) with
  | some e =>
      have ht : e.tenantId = t := by simpa using List.find?_some hfind
      obtain ⟨x, hx, rfl⟩ := List.mem_map.mp (List.mem_of_find?_eq_some hfind)
      have hline := Keyed.find?_of_mem (List.mem_mergeSort.mp hx)
      rw [← ht, hline, Option.map_some]
  | none =>
      -- without a line there is no entry either
      have hnone : l.lookups.find? t = none := by
        refine Option.eq_none_iff_forall_ne_some.mpr fun x hx => ?_
        have hmem : ⟨x.tenantId, x.lookups, x.lookups * l.priceCentsPerLookup⟩ ∈
            l.view.perTenant :=
          List.mem_map.mpr ⟨x, List.mem_mergeSort.mpr (Keyed.find?_mem hx), rfl⟩
        have := List.find?_eq_none.mp hfind _ hmem
        exact this (by simpa using Keyed.find?_key hx)
      rw [hnone, Option.map_none]

/-- What a bill shows for a tenant, whether or not it has a line. -/
theorem view_centsOf (l : Ledger) (t : TenantId) :
    l.view.centsOf t = l.lookupsOf t * l.priceCentsPerLookup := by
  unfold LedgerView.centsOf lookupsOf
  rw [view_find?]
  cases l.lookups.find? t <;> simp

/-- The lookups of all tenants, where each tenant's are a sum of figures that are not negative. -/
theorem totalLookups_eq {α : Type} (tenantOf : α → TenantId) (f : α → Int) {xs : List α}
    (hf : ∀ x ∈ xs, 0 ≤ f x)
    (h : ∀ u, l.lookupsOf u = total (fun x => if tenantOf x = u then f x else 0) xs) :
    l.totalLookups = total f xs := by
  have hline : ∀ e ∈ l.lookups.entries, e.lookups =
      total (fun x => if tenantOf x = e.tenantId then f x else 0) xs := by
    intro e he
    rw [← h, lookupsOf, Keyed.find?_of_mem he, Option.elim_some]
  calc l.totalLookups
      = total (fun e => total (fun x => if tenantOf x = e.tenantId then f x else 0) xs)
          l.lookups.entries := total_congr hline
    _ = total (fun x => if tenantOf x ∈ l.lookups.entries.map TenantLookups.tenantId then f x
          else 0) xs := by
        rw [total_comm]
        exact total_congr fun x _ => total_unique _ _ _ l.lookups.nodup
    _ = total f xs := total_congr fun x hx => ?_
  by_cases hmem : tenantOf x ∈ l.lookups.entries.map TenantLookups.tenantId
  · rw [if_pos hmem]
  · -- a tenant without a line has no lookups, so none of its figures is positive
    have hnone : l.lookups.find? (tenantOf x) = none := by
      refine List.find?_eq_none.mpr fun e he => ?_
      simp only [decide_eq_true_eq]
      exact fun heq => hmem (heq ▸ List.mem_map_of_mem he)
    have hzero := h (tenantOf x)
    rw [lookupsOf, hnone, Option.elim_none] at hzero
    have hle := le_total_of_mem (f := fun y => if tenantOf y = tenantOf x then f y else 0)
      (fun y hy => by split; exacts [hf y hy, le_rfl]) hx
    rw [if_pos rfl, ← hzero] at hle
    rw [if_neg hmem]
    exact le_antisymm (hf x hx) hle

/-- The totals of a bill are the sums of its lines. -/
theorem view_totals (l : Ledger) :
    l.view.totalLookups = (l.view.perTenant.map TenantLedgerEntry.lookups).sum ∧
      l.view.totalCents = (l.view.perTenant.map TenantLedgerEntry.cents).sum := by
  have hperm := List.mergeSort_perm l.lookups.entries fun a b => a.tenantId ≤ b.tenantId
  have hlookups := (hperm.map TenantLookups.lookups).sum_eq
  refine ⟨?_, ?_⟩
  · simp only [view, List.map_map]
    exact hlookups.symm
  · simp only [view, List.map_map, totalCents, totalLookups, Keyed.sum]
    rw [← hlookups]
    exact (List.sum_map_mul_right _ TenantLookups.lookups l.priceCentsPerLookup).symm

end Ledger

end Limitless
