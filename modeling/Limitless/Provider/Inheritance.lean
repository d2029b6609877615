import Limitless.Provider.Fixture

/-!
# What a run inherits

`seed.py`'s `reset_provider`: `POST /ledger/reset`, and then `POST /control` with both controls off.
Other events can come between the two requests, and after them. The ledger that the new run starts
from is empty, but a call that an earlier run left behind is still inside the handler, and the
second request lets it go: it is charged to the new run. So a run is sure to start from an empty
bill exactly when the calls inside the handler name nothing (`starts_from_empty_bill_iff`).

One way of it is `Done`: a call that has ended, or names nothing, puts nothing on the bill, however
things go on. The other is a run of two steps (`let_go`).
-/

namespace Limitless

open Indexed Runs

namespace Fixture

variable {price : Int} {s s' : Fixture} {es : List FixtureEvent} {e : FixtureEvent} {i : ℕ}
  {c : Call}

/-- The requests of `reset_provider`, with what happens between them and after them. -/
def resetProvider (between after : List FixtureEvent) : List FixtureEvent :=
  .resetLedger :: between ++ .control (some false) (some false) :: after

/-- Every lookup in the ledger of `s'` belongs to a call that reached the provider after `s`. -/
def BillOfLater (s s' : Fixture) : Prop :=
  (∀ t, s'.provider.ledger.lookupsOf t = s'.chargedTo t) ∧
    ∀ i ∈ s'.charged, ∀ c, s'.calls[i]? = some c → c.payload.items ≠ [] → i ∉ s.arrived

/-- No call inside the handler names an item. -/
def NothingInside (s : Fixture) : Prop :=
  ∀ (i : ℕ) (c : Call), s.calls[i]? = some c → c.phase.occupies = 1 → c.payload.items = []

/-- Call `i` has ended without a charge that still stands, or it names nothing. -/
def Done (i : ℕ) (s : Fixture) : Prop :=
  ∃ c, s.calls[i]? = some c ∧
    (c.phase.isRunning = false ∧ i ∉ s.charged ∨ c.payload.items = [])

/-- **One step.** -/
theorem Done.step (h : s.Done i) (hstep : s.next e = some s') : s'.Done i := by
  obtain ⟨c, hc, hdone⟩ := h
  -- a call that goes on, or is given up, was running: it is another one, or names nothing
  have hmoved : ∀ {j : ℕ} {c₀ c₁ : Call} {charged : List ℕ}, s.calls[j]? = some c₀ →
      c₀.phase.isRunning = true → c₁.payload = c₀.payload →
      (∀ k ∈ charged, k = j ∨ k ∈ s.charged) →
      ∃ c', (s.calls.set j c₁)[i]? = some c' ∧
        (c'.phase.isRunning = false ∧ i ∉ charged ∨ c'.payload.items = []) := by
    intro j c₀ c₁ charged hj hrunning hpayload hcharged
    rcases eq_or_ne i j with rfl | hne
    · obtain rfl : c = c₀ := Option.some.inj (hc.symm.trans hj)
      refine ⟨c₁, List.getElem?_set_self (List.getElem?_eq_some_iff.mp hj).1, .inr ?_⟩
      rcases hdone with ⟨hended, -⟩ | hitems
      · rw [hended] at hrunning
        cases hrunning
      · rwa [hpayload]
    · refine ⟨c, (getElem?_set_other hne).trans hc, hdone.imp_left fun ⟨hended, hfree⟩ => ?_⟩
      exact ⟨hended, fun hi => (hcharged i hi).elim hne hfree⟩
  cases next_advance hstep with
  | sent payload =>
      exact ⟨c, (List.getElem?_append_left (List.getElem?_eq_some_iff.mp hc).1).trans hc, hdone⟩
  | @resumed j c₀ c₁ _ hj hresume =>
      have hhandled := Call.resume_handled hresume
      have hcharged : ∀ k ∈ (if c₁.phase.isAnswered then s.charged ++ [j] else s.charged),
          k = j ∨ k ∈ s.charged := by
        intro k hk
        split at hk
        · rcases List.mem_append.mp hk with hk | hk
          exacts [.inr hk, .inl (List.mem_singleton.mp hk)]
        · exact .inr hk
      exact hmoved hj hhandled.running hhandled.payload hcharged
  | aborted hj habort =>
      have hhandled := Call.abort_handled habort
      exact hmoved hj hhandled.running hhandled.payload fun k hk => .inr hk
  | controlled slowMode held =>
      split
      · refine ⟨c.wake, List.getElem?_map.trans (by rw [hc, Option.map_some]), ?_⟩
        rwa [Call.wake_isRunning, Call.wake_payload]
      · exact ⟨c, hc, hdone⟩
  | reset => exact ⟨c, hc, hdone.imp_left fun ⟨hended, _⟩ => ⟨hended, List.not_mem_nil⟩⟩

/-- What has arrived before a reset is done with it, if nothing is inside. -/
theorem done_of_nothingInside (h : s.Sound price) (hinside : s.NothingInside)
    (hi : i ∈ s.arrived) :
    Done i { s with provider := s.provider.resetLedger, charged := [] } := by
  obtain ⟨c, hc, hsent⟩ := h.arrived i hi
  refine ⟨c, hc, ?_⟩
  cases hrunning : c.phase.isRunning with
  | false => exact .inl ⟨rfl, List.not_mem_nil⟩
  | true =>
      right
      refine hinside i c hc ?_
      cases hphase : c.phase <;>
        simp [hphase, CallPhase.isRunning, CallPhase.occupies] at hrunning hsent ⊢

/-- With the controls off, the handler of a call that is inside runs to its end. -/
theorem resume_let_go (p : ProviderState) (hc : c.phase.occupies = 1) :
    c.wake.resume (p.control (some false) (some false)) =
      some (c.wake.finish (p.control (some false) (some false))) := by
  obtain ⟨payload, phase⟩ := c
  cases phase with
  | yielding | awaitingRelease | woken | delaying => rfl
  | sent | answered | aborted => cases hc

theorem next_resume {p : ProviderState} {c' : Call} (hi : s.calls[i]? = some c)
    (hresume : c.resume s.provider = some (p, c')) :
    s.next (.resume i) = some
      { provider := p
        calls := s.calls.set i c'
        arrived := if c.phase = .sent then s.arrived ++ [i] else s.arrived
        charged := if c'.phase.isAnswered then s.charged ++ [i] else s.charged } := by
  simp only [next, hi, hresume]

/-- And it is charged. -/
theorem let_go (hi : s.calls[i]? = some c) (hc : c.phase.occupies = 1) :
    ∃ s', Run (Steps next) s [.control (some false) (some false), .resume i] s' ∧
      i ∈ s'.charged ∧ ∃ c', s'.calls[i]? = some c' ∧ c'.payload = c.payload := by
  let p := s.provider.control (some false) (some false)
  obtain ⟨ledger, hledger⟩ := p.ledger.charge_isOk c.wake.payload.tenantId
    (Int.natCast_nonneg c.wake.payload.items.length)
  have hwoken : (s.calls.map Call.wake)[i]? = some c.wake :=
    List.getElem?_map.trans (by rw [hi, Option.map_some])
  have hlt := (List.getElem?_eq_some_iff.mp hwoken).1
  have hresume : c.wake.resume p = some ({ p with ledger := ledger }.vacate,
      ⟨c.wake.payload, .answered (c.wake.payload.response p.ledger.priceCentsPerLookup)⟩) := by
    refine (resume_let_go s.provider hc).trans ?_
    simp only [Call.finish]
    rw [hledger]
    rfl
  refine ⟨_, .cons rfl (.cons (next_resume hwoken hresume) .nil), ?_, _,
    List.getElem?_set_self hlt, ?_⟩
  · exact List.mem_append_right _ (List.mem_singleton_self i)
  · exact Call.wake_payload c

/-- **Starting from an empty bill.** At any reachable state, `reset_provider` leaves the new run a
ledger of its own calls alone, whatever comes between its two requests and after them, if and only
if no call inside the handler names an item. -/
theorem starts_from_empty_bill_iff (hrun : Run (Steps next) (start price) es s) :
    (∀ between after s', Run (Steps next) s (resetProvider between after) s' → BillOfLater s s') ↔
      s.NothingInside := by
  have h := Sound.of_run hrun
  constructor
  · intro hall i c hi hc
    by_contra hitems
    obtain ⟨s', hgo, hcharged, c', hc', hpayload⟩ := let_go
      (s := { s with provider := s.provider.resetLedger, charged := [] }) hi hc
    have hlater := hall [] [.resume i] s' (.cons rfl hgo)
    refine hlater.2 i hcharged c' hc' ?_ (h.inside_arrived i c hi hc)
    rwa [hpayload]
  · intro hinside between after s' hrun'
    refine ⟨(Sound.of_run (hrun.append hrun')).ledger, fun i hi c hc hitems harrived => ?_⟩
    have hdone : s'.Done i := by
      cases hrun' with
      | cons hreset hrest =>
          cases hreset
          exact hrest.invariant (fun _ _ _ ha hab => ha.step hab)
            (done_of_nothingInside h hinside harrived)
    obtain ⟨c', hc', ⟨-, hfree⟩ | hnothing⟩ := hdone
    · exact hfree hi
    · rw [hc] at hc'
      cases hc'
      exact hitems hnothing

/-- A call is held, and the run that sent it ends there. -/
def leftBehind : List FixtureEvent :=
  [.control none (some true), .send ⟨Fixtures.attackerTenantId, ["Acme"], true⟩, .resume 0,
    .resume 0]

theorem starts_from_empty_bill_iff_left_behind :
    ∃ s, Run (Steps next) (start 4) leftBehind s ∧
      ((∀ between after s', Run (Steps next) s (resetProvider between after) s' →
        BillOfLater s s') ↔ s.NothingInside) := by
  have hsome : (replay next (start 4) leftBehind).isSome = true := by decide
  obtain ⟨s, hs⟩ := Option.isSome_iff_exists.mp hsome
  exact ⟨s, run_of_replay hs, starts_from_empty_bill_iff (run_of_replay hs)⟩

/-- The next run is charged for that call, and for nothing of its own. -/
theorem inherits_a_charge :
    ∃ s s', replay next (start 4) leftBehind = some s ∧
      replay next s (resetProvider [] [.resume 0]) = some s' ∧ ¬ BillOfLater s s' ∧
      s'.calls.length = s.calls.length ∧ s.provider.ledger.lookupsOf Fixtures.attackerTenantId = 0 ∧
      s'.provider.ledger.lookupsOf Fixtures.attackerTenantId = 1 := by
  have hfacts : ((replay next (start 4) leftBehind).bind fun s =>
      (replay next s (resetProvider [] [.resume 0])).map fun s' =>
        ((s.arrived, s'.charged), s'.calls.map (·.payload.items), s.calls.length,
          s.provider.ledger.lookupsOf Fixtures.attackerTenantId,
          s'.provider.ledger.lookupsOf Fixtures.attackerTenantId)) =
      some (([0], [0]), [["Acme"]], 1, 0, 1) := by decide
  obtain ⟨s, hs, hfacts⟩ := Option.bind_eq_some_iff.mp hfacts
  obtain ⟨s', hs', hfacts⟩ := Option.map_eq_some_iff.mp hfacts
  simp only [Prod.mk.injEq] at hfacts
  obtain ⟨⟨harrived, hcharged⟩, hitems, hlength, hbefore, hafter⟩ := hfacts
  have hone : s'.calls.length = 1 := by
    have := congrArg List.length hitems
    rwa [List.length_map] at this
  refine ⟨s, s', hs, hs', fun hlater => ?_, hone.trans hlength.symm, hbefore, hafter⟩
  obtain ⟨c, hc⟩ := List.length_eq_one_iff.mp hone
  have hname : c.payload.items = ["Acme"] := by
    rw [hc] at hitems
    exact (List.cons.inj hitems).1
  refine hlater.2 0 (by rw [hcharged]; decide) c (by rw [hc]; rfl) (by rw [hname]; decide) ?_
  rw [harrived]
  decide

end Fixture

end Limitless
