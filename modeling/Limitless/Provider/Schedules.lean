import Limitless.Lib.KeyedSort
import Limitless.Provider.Fixture
import Mathlib.Data.String.Basic

/-!
# The controls change only when

Two schedules of the fixture that answer the same calls. The ledger adds up what the calls put on
it, and addition does not mind the order: the bill is a function of its lines (`view_congr`), a line
is the total of its tenant's answered calls, and a call that has been answered has been charged, as
long as nobody resets the ledger (`Settled`). So holds, releases, delays and the order in which the
calls come and go decide when the fixture answers, and nothing about what it charges.
-/

namespace Limitless

open Indexed Runs

/-- The bill is what the lines of the ledger say, in whatever order they were opened. -/
theorem Ledger.view_congr {l l' : Ledger}
    (hprice : l.priceCentsPerLookup = l'.priceCentsPerLookup)
    (hlines : ∀ t, (l.lookups.find? t).isSome ↔ (l'.lookups.find? t).isSome)
    (hlookups : ∀ t, l.lookupsOf t = l'.lookupsOf t) : l.view = l'.view := by
  have hfind : ∀ t, l.lookups.find? t = l'.lookups.find? t := by
    intro t
    have hline := hlines t
    have hof := hlookups t
    unfold lookupsOf at hof
    cases hx : l.lookups.find? t with
    | none =>
        cases hx' : l'.lookups.find? t with
        | none => rfl
        | some x' => simp [hx, hx'] at hline
    | some x =>
        cases hx' : l'.lookups.find? t with
        | none => simp [hx, hx'] at hline
        | some x' =>
            rw [hx, hx', Option.elim_some, Option.elim_some] at hof
            have hkey : x.tenantId = x'.tenantId :=
              (Keyed.find?_key hx).trans (Keyed.find?_key hx').symm
            obtain ⟨t₁, n₁⟩ := x
            obtain ⟨t₂, n₂⟩ := x'
            obtain rfl : t₁ = t₂ := hkey
            obtain rfl : n₁ = n₂ := hof
            rfl
  have htotal : l.totalLookups = l'.totalLookups :=
    ((Keyed.perm_of_find? hfind).map TenantLookups.lookups).sum_eq
  unfold view totalCents
  rw [hprice, htotal, Keyed.sort_congr (fun _ _ => decide_eq_true_iff) hfind]

namespace Fixture

variable {price : Int} {s s' : Fixture} {es es' : List FixtureEvent} {e : FixtureEvent}

/-- Every call that has been answered has been charged since the ledger was reset. -/
def Settled (s : Fixture) : Prop :=
  ∀ i c, s.calls[i]? = some c → c.phase.isAnswered = true → i ∈ s.charged

/-- **One step.** Only a reset of the ledger forgets a charge. -/
theorem Settled.step (h : s.Settled) (hstep : s.next e = some s') (he : e ≠ .resetLedger) :
    s'.Settled := by
  intro j c hj hanswered
  cases next_advance hstep with
  | sent payload =>
      rcases lt_or_ge j s.calls.length with hlt | hge
      · exact h j c ((List.getElem?_append_left hlt).symm.trans hj) hanswered
      · rw [show ((s.calls ++ [⟨payload, .sent⟩])[j]? : Option Call) = _ from
          List.getElem?_append_right hge] at hj
        rw [List.mem_singleton.mp (List.mem_of_getElem? hj)] at hanswered
        cases hanswered
  | @resumed i _ c' _ hi hresume =>
      show j ∈ if c'.phase.isAnswered then s.charged ++ [i] else s.charged
      rcases getElem?_set_cases hj with ⟨rfl, rfl⟩ | ⟨-, hj⟩
      · rw [if_pos hanswered]
        exact List.mem_append_right _ (List.mem_singleton_self j)
      · have := h j c hj hanswered
        split
        exacts [List.mem_append_left _ this, this]
  | aborted hi habort =>
      rcases getElem?_set_cases hj with ⟨rfl, rfl⟩ | ⟨-, hj⟩
      · obtain ⟨rfl, -⟩ := Call.abort_cases habort
        cases hanswered
      · exact h j c hj hanswered
  | controlled slowMode held =>
      split at hj
      · obtain ⟨c₀, hc₀, rfl⟩ := Option.map_eq_some_iff.mp (List.getElem?_map.symm.trans hj)
        refine h j c₀ hc₀ ?_
        unfold Call.wake at hanswered
        split at hanswered
        · cases hanswered
        · exact hanswered
      · exact h j c hj hanswered
  | reset => exact absurd rfl he

/-- After any run without a reset. -/
theorem Settled.of_run (hrun : Run (Steps next) (start price) es s) (hes : .resetLedger ∉ es) :
    s.Settled := by
  refine hrun.invariant_mem (fun a e he b ha hab => ha.step hab fun heq => hes (heq ▸ he)) ?_
  intro i c hi
  cases hi

/-- Where all calls are charged, the bill is their total. -/
theorem lookupsOf_of_settled (h : s.Sound price) (hsettled : s.Settled)
    (hall : ∀ c ∈ s.calls, c.phase.isAnswered = true) (t : TenantId) :
    s.provider.ledger.lookupsOf t = total (·.billed t) s.calls := by
  have hperm : s.charged.Perm (List.range s.calls.length) := by
    refine (List.perm_ext_iff_of_nodup h.charged_nodup List.nodup_range).mpr fun i => ?_
    rw [List.mem_range]
    refine ⟨fun hi => ?_, fun hi => ?_⟩
    · obtain ⟨c, hc, -⟩ := h.charged i hi
      exact (List.getElem?_eq_some_iff.mp hc).1
    · exact hsettled i _ (List.getElem?_eq_getElem hi) (hall _ (List.getElem_mem hi))
  rw [h.ledger, chargedTo, total, (hperm.map _).sum_eq]
  exact total_range (·.billed t) s.calls

/-- A tenant has a line if it has a charged call. -/
theorem line_of_settled (h : s.Sound price) (hsettled : s.Settled)
    (hall : ∀ c ∈ s.calls, c.phase.isAnswered = true) (t : TenantId) :
    (s.provider.ledger.lookups.find? t).isSome ↔ ∃ c ∈ s.calls, c.payload.tenantId = t := by
  rw [h.lines]
  constructor
  · rintro ⟨i, -, c, hc, ht⟩
    exact ⟨c, List.mem_of_getElem? hc, ht⟩
  · rintro ⟨c, hc, ht⟩
    obtain ⟨i, hi⟩ := List.mem_iff_getElem?.mp hc
    exact ⟨i, hsettled i c hi (hall c hc), c, hi, ht⟩

/-- Answered calls are determined by their payloads. -/
theorem calls_of_answered (h : s.Sound price) (hall : ∀ c ∈ s.calls, c.phase.isAnswered = true) :
    s.calls = (s.calls.map Call.payload).map fun payload =>
      ⟨payload, .answered (payload.response price)⟩ := by
  rw [List.map_map]
  refine (List.map_id _).symm.trans (List.map_congr_left fun c hc => ?_)
  have hanswered := hall c hc
  cases hphase : c.phase with
  | answered r =>
      obtain ⟨payload, phase⟩ := c
      obtain rfl : phase = .answered r := hphase
      rw [h.answers _ hc r rfl]
      rfl
  | sent | yielding | awaitingRelease | woken | delaying | aborted =>
      rw [hphase] at hanswered
      cases hanswered

/-- **The controls change only when.** Two schedules of one set of calls, in any order and under any
controls, with no reset of the ledger, and every call answered in the end: the bill is the same, the
calls have the same answers, nobody is inside, and at every point of any run the peak is between
the calls inside and those that have arrived. -/
theorem schedules_agree (hrun : Run (Steps next) (start price) es s)
    (hrun' : Run (Steps next) (start price) es' s') (hes : .resetLedger ∉ es)
    (hes' : .resetLedger ∉ es')
    (hcalls : (s.calls.map Call.payload).Perm (s'.calls.map Call.payload))
    (hall : ∀ c ∈ s.calls, c.phase.isAnswered = true)
    (hall' : ∀ c ∈ s'.calls, c.phase.isAnswered = true) :
    s.provider.ledger.view = s'.provider.ledger.view ∧
      (∀ t, s.provider.ledger.lookupsOf t = s'.provider.ledger.lookupsOf t) ∧
      (∀ c ∈ s.calls ++ s'.calls, c.phase = .answered (c.payload.response price)) ∧
      s.calls.Perm s'.calls ∧
      (s.provider.inFlight = 0 ∧ s'.provider.inFlight = 0) ∧
      ∀ fs m, Run (Steps next) (start price) fs m →
        m.provider.inFlight ≤ m.provider.peakInFlight ∧
        m.provider.peakInFlight ≤ m.arrived.length ∧ m.arrived.Nodup := by
  have h := Sound.of_run hrun
  have h' := Sound.of_run hrun'
  have hsettled := Settled.of_run hrun hes
  have hsettled' := Settled.of_run hrun' hes'
  have hperm : s.calls.Perm s'.calls := by
    rw [calls_of_answered h hall, calls_of_answered h' hall']
    exact hcalls.map _
  have hlookups : ∀ t, s.provider.ledger.lookupsOf t = s'.provider.ledger.lookupsOf t := by
    intro t
    rw [lookupsOf_of_settled h hsettled hall, lookupsOf_of_settled h' hsettled' hall']
    exact (hperm.map _).sum_eq
  have hinside : ∀ {f : Fixture}, f.Sound price → (∀ c ∈ f.calls, c.phase.isAnswered = true) →
      f.provider.inFlight = 0 := by
    intro f hf hfall
    rw [hf.inFlight]
    refine total_eq_zero fun c hc => ?_
    have hanswered := hfall c hc
    cases hphase : c.phase <;>
      simp [hphase, CallPhase.isAnswered, CallPhase.occupies] at hanswered ⊢
  have hanswer : ∀ {f : Fixture}, f.Sound price → (∀ c ∈ f.calls, c.phase.isAnswered = true) →
      ∀ c ∈ f.calls, c.phase = .answered (c.payload.response price) := by
    intro f hf hfall c hc
    rw [calls_of_answered hf hfall] at hc
    obtain ⟨payload, -, rfl⟩ := List.mem_map.mp hc
    rfl
  refine ⟨Ledger.view_congr (h.price_eq.trans h'.price_eq.symm) (fun t => ?_) hlookups, hlookups,
    fun c hc => ?_, hperm, ⟨hinside h hall, hinside h' hall'⟩, fun fs m hm => ?_⟩
  · rw [line_of_settled h hsettled hall, line_of_settled h' hsettled' hall']
    exact exists_congr fun c => and_congr_left fun _ => hperm.mem_iff
  · rcases List.mem_append.mp hc with hc | hc
    exacts [hanswer h hall c hc, hanswer h' hall' c hc]
  · have hm := Sound.of_run hm
    exact ⟨hm.inFlight_le, hm.peak_le, hm.arrived_nodup⟩

/-- A lookup of one tenant, and one of another. -/
def twoLookups : LookupRequest × LookupRequest :=
  (⟨Fixtures.attackerTenantId, ["Acme"], true⟩, ⟨"TEN-BASIL", ["Acme", "Birch"], false⟩)

/-- The two lookups, one after the other. -/
def plainSchedule : List FixtureEvent :=
  [.send twoLookups.1, .resume 0, .resume 0, .send twoLookups.2, .resume 1, .resume 1]

/-- The two lookups, held together, released into slow mode, and finished in the other order. -/
def heldSchedule : List FixtureEvent :=
  [.control none (some true), .send twoLookups.2, .send twoLookups.1, .resume 0, .resume 1,
    .resume 1, .resume 0, .control (some true) (some false), .resume 0, .resume 1, .resume 1,
    .resume 0]

theorem schedules_agree_when_held :
    ∃ s s', replay next (start 4) plainSchedule = some s ∧
      replay next (start 4) heldSchedule = some s' ∧
      s.provider.ledger.view = s'.provider.ledger.view := by
  have hplain : (replay next (start 4) plainSchedule).map (fun s => (s.calls.map Call.payload,
      s.calls.all (·.phase.isAnswered))) = some ([twoLookups.1, twoLookups.2], true) := by decide
  have hheld : (replay next (start 4) heldSchedule).map (fun s => (s.calls.map Call.payload,
      s.calls.all (·.phase.isAnswered))) = some ([twoLookups.2, twoLookups.1], true) := by decide
  obtain ⟨s, hs, hfacts⟩ := Option.map_eq_some_iff.mp hplain
  obtain ⟨s', hs', hfacts'⟩ := Option.map_eq_some_iff.mp hheld
  rw [Prod.mk.injEq, List.all_eq_true] at hfacts hfacts'
  refine ⟨s, s', hs, hs', ?_⟩
  refine (schedules_agree (run_of_replay hs) (run_of_replay hs') (by decide) (by decide) ?_
    hfacts.2 hfacts'.2).1
  rw [hfacts.1, hfacts'.1]
  exact List.Perm.swap ..

end Fixture

end Limitless
