import Limitless.Lib.Runs

/-!
# Pools of a bounded size

Parties take units from pools and give them back. `Clients` is a step function with what each event
takes and how many units are out; `guarded` is the same system where an event that takes a unit
waits until the pool has one. So no more units are out than a pool has (`held_le`), a full stop
is not the pools' doing while those who have a unit can go on (`stop_of_guarded`), and while units
that nobody gives back fill a pool, nobody takes one (`not_takes_of_full`).
-/

namespace Pools

open Runs

universe u v w

/-- A system whose parties take units of pools. -/
structure Clients (σ : Type u) (ε : Type v) (κ : Type w) where
  next : σ → ε → Option σ
  /-- The pool that an event takes a unit of. -/
  takes : σ → ε → Option κ
  /-- The units that are out. -/
  held : σ → κ → ℕ
  /-- Nothing but taking one puts a unit out. -/
  held_next : ∀ {a : σ} {e : ε} {b : σ}, next a e = some b → ∀ k,
    held b k ≤ held a k ∨ takes a e = some k ∧ held b k ≤ held a k + 1

variable {σ : Type u} {ε : Type v} {κ : Type w}

namespace Clients

variable (c : Clients σ ε κ) (size : κ → ℕ)

/-- The pool that the event needs has a unit. -/
def admits (a : σ) (e : ε) : Bool := (c.takes a e).all fun k => c.held a k < size k

/-- An event that takes a unit waits for one. -/
def guarded (a : σ) (e : ε) : Option σ := if c.admits size a e then c.next a e else none

variable {c size} {a b : σ} {e : ε} {es : List ε} {k : κ}

theorem admits_iff :
    c.admits size a e = true ↔ ∀ k, c.takes a e = some k → c.held a k < size k := by
  unfold admits
  cases c.takes a e with
  | none => simp
  | some k => simp

theorem admits_of_takes_none (h : c.takes a e = none) : c.admits size a e = true := by
  rw [admits, h]
  rfl

theorem guarded_eq_some : c.guarded size a e = some b ↔
    c.admits size a e = true ∧ c.next a e = some b := by
  unfold guarded
  split
  · next h => simp [h]
  · next h => simp [h]

theorem guarded_of_admits (h : c.admits size a e = true) : c.guarded size a e = c.next a e :=
  if_pos h

/-- A run with the pools is a run without them. -/
theorem run_next (h : Run (Steps (c.guarded size)) a es b) : Run (Steps c.next) a es b :=
  h.mono fun _ _ _ hstep => (guarded_eq_some.mp hstep).2

/-- **No pool gives out more than it has.** -/
theorem held_le (hrun : Run (Steps (c.guarded size)) a es b) (h : ∀ k, c.held a k ≤ size k) :
    ∀ k, c.held b k ≤ size k := by
  refine hrun.invariant (I := fun s => ∀ k, c.held s k ≤ size k) ?_ h
  intro s e t hs hstep k
  obtain ⟨hadmits, hnext⟩ := guarded_eq_some.mp hstep
  rcases c.held_next hnext k with hle | ⟨htakes, hle⟩
  · exact hle.trans (hs k)
  · have := admits_iff.mp hadmits k htakes
    omega

/-- **Pools add no deadlock.** Where whoever has a unit out can go on without taking one, and every
pool has units at all, a full stop is one that the pools have no part in. -/
theorem stop_of_guarded {own : ε → Prop} (hsize : ∀ k, 0 < size k)
    (hholder : ∀ k, 0 < c.held a k → ∃ e, own e ∧ c.takes a e = none ∧ (c.next a e).isSome)
    (hstop : ∀ e, own e → c.guarded size a e = none) :
    (∀ k, c.held a k = 0) ∧ ∀ e, own e → c.next a e = none := by
  have hfree : ∀ k, c.held a k = 0 := by
    intro k
    by_contra hheld
    obtain ⟨e, he, htakes, hsome⟩ := hholder k (Nat.pos_of_ne_zero hheld)
    have hadmits : c.admits size a e = true := admits_of_takes_none htakes
    rw [← guarded_of_admits hadmits, hstop e he] at hsome
    cases hsome
  refine ⟨hfree, fun e he => ?_⟩
  have hadmits : c.admits size a e = true := admits_iff.mpr fun k _ => by
    rw [hfree k]
    exact hsize k
  rw [← guarded_of_admits hadmits]
  exact hstop e he

/-- **A full pool.** Where what is out fills a pool, no event takes a unit of it. -/
theorem not_takes_of_full (hfull : size k ≤ c.held a k) (h : c.admits size a e = true) :
    c.takes a e ≠ some k := by
  intro htakes
  have := admits_iff.mp h k htakes
  omega

end Clients

end Pools
