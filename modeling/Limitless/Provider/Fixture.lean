import Limitless.Provider.Service
import Limitless.Lib.Indexed
import Limitless.Lib.Runs

/-!
# The provider fixture by itself

The fixture with any number of lookup calls, whoever sends them, under its controls: `POST /control`
and `POST /ledger/reset`. A step is one call going on to its next await, a call given up, a new call
sent, or a control handled; the event loop may take them in any order.

`Fixture.arrived` and `Fixture.charged` are kept for the statements, and no step reads them: which
calls have reached the handler, and which the ledger has charged since it was last reset.
`Sound` is what holds of every reachable state, and `next_sound` its step: in particular the ledger
is what the charged calls put on it, and `in_flight` is the number of calls inside the handler.
-/

namespace Limitless

open Indexed Runs

/-- The fixture and its calls. -/
structure Fixture where
  provider : ProviderState
  calls : List Call
  /-- The calls that have reached the handler, oldest first. -/
  arrived : List ℕ
  /-- The calls charged since the ledger was reset, oldest first. -/
  charged : List ℕ

/-- What can happen to the fixture. -/
inductive FixtureEvent
  | send (payload : LookupRequest)
  /-- The handler of a call runs to its next await. -/
  | resume (call : ℕ)
  /-- A call is lost on the way, or its handler is given up. -/
  | abort (call : ℕ)
  /-- `POST /control`: `none` leaves a control as it is. -/
  | control (slowMode held : Option Bool)
  /-- `POST /ledger/reset`. -/
  | resetLedger
  deriving DecidableEq

/-- The handler of `POST /control`. -/
def ProviderState.control (p : ProviderState) (slowMode held : Option Bool) : ProviderState :=
  let p := { p with slowMode := slowMode.getD p.slowMode }
  match held with
  | none => p
  | some true => p.hold
  | some false => p.release

namespace Fixture

/-- A fixture that has just started. -/
def start (priceCents : Int) : Fixture := ⟨.initial priceCents, [], [], []⟩

/-- One step. -/
def next (s : Fixture) : FixtureEvent → Option Fixture
  | .send payload => some { s with calls := s.calls ++ [⟨payload, .sent⟩] }
  | .resume i =>
    match s.calls[i]? with
    | none => none
    | some c =>
      match c.resume s.provider with
      | none => none
      | some (p, c') => some
        { provider := p
          calls := s.calls.set i c'
          arrived := if c.phase = .sent then s.arrived ++ [i] else s.arrived
          charged := if c'.phase.isAnswered then s.charged ++ [i] else s.charged }
  | .abort i =>
    match s.calls[i]? with
    | none => none
    | some c =>
      match c.abort s.provider with
      | none => none
      | some (p, c') => some { s with provider := p, calls := s.calls.set i c' }
  | .control slowMode held => some
    { s with
      provider := s.provider.control slowMode held
      calls := if held = some false then s.calls.map Call.wake else s.calls }
  | .resetLedger => some { s with provider := s.provider.resetLedger, charged := [] }

/-- What the charged calls have put on a tenant's bill. -/
def chargedTo (s : Fixture) (t : TenantId) : Int :=
  total (fun i => s.calls[i]?.elim 0 (·.billed t)) s.charged

end Fixture

/-- Everything a step can be. -/
inductive Fixture.Advance : Fixture → FixtureEvent → Fixture → Prop
  | sent {s : Fixture} (payload : LookupRequest) :
      Advance s (.send payload) { s with calls := s.calls ++ [⟨payload, .sent⟩] }
  | resumed {s : Fixture} {i : ℕ} {c c' : Call} {p : ProviderState} :
      s.calls[i]? = some c → c.resume s.provider = some (p, c') →
      Advance s (.resume i)
        { provider := p
          calls := s.calls.set i c'
          arrived := if c.phase = .sent then s.arrived ++ [i] else s.arrived
          charged := if c'.phase.isAnswered then s.charged ++ [i] else s.charged }
  | aborted {s : Fixture} {i : ℕ} {c c' : Call} {p : ProviderState} :
      s.calls[i]? = some c → c.abort s.provider = some (p, c') →
      Advance s (.abort i) { s with provider := p, calls := s.calls.set i c' }
  | controlled {s : Fixture} (slowMode held : Option Bool) :
      Advance s (.control slowMode held)
        { s with
          provider := s.provider.control slowMode held
          calls := if held = some false then s.calls.map Call.wake else s.calls }
  | reset {s : Fixture} :
      Advance s .resetLedger { s with provider := s.provider.resetLedger, charged := [] }

/-- A step is one of these. -/
theorem Fixture.next_advance {s s' : Fixture} {e : FixtureEvent} (h : s.next e = some s') :
    Advance s e s' := by
  unfold next at h
  split at h
  · cases h
    exact .sent _
  · split at h
    · cases h
    · next i c hi =>
        split at h
        · cases h
        · next hresume =>
            cases h
            exact .resumed hi hresume
  · split at h
    · cases h
    · next i c hi =>
        split at h
        · cases h
        · next habort =>
            cases h
            exact .aborted hi habort
  · cases h
    exact .controlled _ _
  · cases h
    exact .reset

/-! ## What a handler step is -/

namespace Call

variable {p p' : ProviderState} {c c' : Call}

/-- A call that goes on arrives, waits inside the handler, or is charged and answered. -/
theorem resume_cases (h : c.resume p = some (p', c')) :
    (c.phase = .sent ∧ p' = p.occupy ∧ c' = { c with phase := .yielding }) ∨
    (c.phase.occupies = 1 ∧ p' = p ∧ ∃ ph : CallPhase, ph.occupies = 1 ∧
      c' = { c with phase := ph }) ∨
    (c.phase.occupies = 1 ∧ ∃ ledger, p.ledger.charge c.payload.tenantId c.payload.items.length =
        .ok (ledger, c.payload.items.length * p.ledger.priceCentsPerLookup) ∧
      p' = { p with ledger := ledger }.vacate ∧
      c' = { c with phase := .answered (c.payload.response p.ledger.priceCentsPerLookup) }) := by
  obtain ⟨ledger, hledger⟩ := p.ledger.charge_isOk c.payload.tenantId
    (Int.natCast_nonneg c.payload.items.length)
  have hfinish : finish p c = ({ p with ledger := ledger }.vacate,
      { c with phase := .answered (c.payload.response p.ledger.priceCentsPerLookup) }) := by
    simp only [finish, hledger]
    rfl
  have hproceed : proceed p c = (p, { c with phase := .delaying }) ∨
      proceed p c = finish p c := by
    unfold proceed
    split
    exacts [.inl rfl, .inr rfl]
  unfold resume at h
  split at h
  · next hphase =>
      cases h
      exact .inl ⟨hphase, rfl, rfl⟩
  · next hphase =>
      have hin : c.phase.occupies = 1 := by rw [hphase]; rfl
      split at h
      · rcases hproceed with hp | hp
        · rw [hp] at h
          cases h
          exact .inr (.inl ⟨hin, rfl, _, rfl, rfl⟩)
        · rw [hp, hfinish] at h
          cases h
          exact .inr (.inr ⟨hin, ledger, hledger, rfl, rfl⟩)
      · cases h
        exact .inr (.inl ⟨hin, rfl, _, rfl, rfl⟩)
  · next hphase =>
      have hin : c.phase.occupies = 1 := by rw [hphase]; rfl
      rcases hproceed with hp | hp
      · rw [hp] at h
        cases h
        exact .inr (.inl ⟨hin, rfl, _, rfl, rfl⟩)
      · rw [hp, hfinish] at h
        cases h
        exact .inr (.inr ⟨hin, ledger, hledger, rfl, rfl⟩)
  · next hphase =>
      rw [hfinish] at h
      cases h
      exact .inr (.inr ⟨by rw [hphase]; rfl, ledger, hledger, rfl, rfl⟩)
  all_goals cases h

/-- A call that is given up had not been answered, and is not charged. -/
theorem abort_cases (h : c.abort p = some (p', c')) :
    c' = { c with phase := .aborted } ∧ c.phase.isRunning = true ∧
      (c.phase = .sent ∧ p' = p ∨ c.phase.occupies = 1 ∧ p' = p.vacate) := by
  unfold abort at h
  split at h
  · next hphase =>
      cases h
      exact ⟨rfl, by rw [hphase]; rfl, .inl ⟨hphase, rfl⟩⟩
  all_goals cases h
  all_goals
    next hphase => exact ⟨rfl, by rw [hphase]; rfl, .inr ⟨by rw [hphase]; rfl, rfl⟩⟩

end Call

/-! ## The invariant -/

/-- A charge gives its tenant a line, and keeps the lines there are. -/
theorem Ledger.charge_line {l l' : Ledger} {t : TenantId} {n cents : Int}
    (h : l.charge t n = .ok (l', cents)) (u : TenantId) :
    (l'.lookups.find? u).isSome ↔ (l.lookups.find? u).isSome ∨ t = u := by
  unfold charge at h
  split at h
  · cases h
  · cases h
    show ((l.lookups.put ⟨t, l.lookupsOf t + n⟩).find? u).isSome ↔ _
    rw [Keyed.find?_put]
    by_cases hu : t = u <;> simp [hu]

namespace Fixture

variable {price : Int} {s s' : Fixture} {e : FixtureEvent} {i : ℕ} {c c' : Call}

/-- What holds of every reachable state. -/
structure Sound (price : Int) (s : Fixture) : Prop where
  price_eq : s.provider.ledger.priceCentsPerLookup = price
  inFlight : s.provider.inFlight = total (·.phase.occupies) s.calls
  inFlight_le : s.provider.inFlight ≤ s.provider.peakInFlight
  peak_le : s.provider.peakInFlight ≤ s.arrived.length
  /-- Each call arrives once. -/
  arrived_nodup : s.arrived.Nodup
  arrived : ∀ i ∈ s.arrived, ∃ c, s.calls[i]? = some c ∧ c.phase ≠ .sent
  inside_arrived : ∀ i c, s.calls[i]? = some c → c.phase.occupies = 1 → i ∈ s.arrived
  /-- Each call is charged once, and answered. -/
  charged_nodup : s.charged.Nodup
  charged : ∀ i ∈ s.charged, ∃ c, s.calls[i]? = some c ∧ c.phase.isAnswered = true
  ledger : ∀ t, s.provider.ledger.lookupsOf t = s.chargedTo t
  lines : ∀ t, (s.provider.ledger.lookups.find? t).isSome ↔
    ∃ i ∈ s.charged, ∃ c, s.calls[i]? = some c ∧ c.payload.tenantId = t
  answers : ∀ c ∈ s.calls, ∀ r, c.phase = .answered r → r = c.payload.response price

theorem start_sound (price : Int) : (start price).Sound price where
  price_eq := rfl
  inFlight := rfl
  inFlight_le := le_rfl
  peak_le := le_rfl
  arrived_nodup := .nil
  arrived _ h := by cases h
  inside_arrived _ _ h := by cases h
  charged_nodup := .nil
  charged _ h := by cases h
  ledger _ := rfl
  lines t := by
    refine ⟨fun h => (by cases h), ?_⟩
    rintro ⟨_, h, -⟩
    cases h
  answers _ h := by cases h

/-- A call that has not been answered has not been charged. -/
theorem Sound.not_charged (h : s.Sound price) (hi : s.calls[i]? = some c)
    (hc : c.phase.isAnswered = false) : i ∉ s.charged := by
  intro hmem
  obtain ⟨c₁, hc₁, hanswered⟩ := h.charged i hmem
  cases hi.symm.trans hc₁
  rw [hc] at hanswered
  cases hanswered

/-- Other calls than the one that moved. -/
theorem getElem?_set_other {l : List Call} {j : ℕ} (hj : j ≠ i) : (l.set i c')[j]? = l[j]? :=
  List.getElem?_set_ne (Ne.symm hj)

/-- Moving a call that has not been answered leaves the charged ones where they are. -/
theorem Sound.getElem?_charged (h : s.Sound price) (hi : s.calls[i]? = some c)
    (hc : c.phase.isAnswered = false) (c' : Call) {j : ℕ} (hj : j ∈ s.charged) :
    (s.calls.set i c')[j]? = s.calls[j]? :=
  getElem?_set_other fun hji => h.not_charged hi hc (hji ▸ hj)

/-- A call moves, and the ledger does not. -/
theorem Sound.set_uncharged (h : s.Sound price) (hi : s.calls[i]? = some c)
    (hc : c.phase.isAnswered = false) {ph : CallPhase} (hph : ph.isAnswered = false)
    {p : ProviderState} {arrived : List ℕ} (hledger : p.ledger = s.provider.ledger)
    (hin : p.inFlight = s.provider.inFlight + (ph.occupies - c.phase.occupies))
    (hle : p.inFlight ≤ p.peakInFlight) (hpeak : p.peakInFlight ≤ arrived.length)
    (hnodup : arrived.Nodup)
    (harrived : ∀ j ∈ arrived, j = i ∧ ph ≠ .sent ∨ j ≠ i ∧ j ∈ s.arrived)
    (hkept : ∀ j ∈ s.arrived, j ∈ arrived) (hinside : ph.occupies = 1 → i ∈ arrived) :
    Sound price ⟨p, s.calls.set i { c with phase := ph }, arrived, s.charged⟩ := by
  have hlt := (List.getElem?_eq_some_iff.mp hi).1
  have hother := fun (j : ℕ) (hj : j ∈ s.charged) =>
    h.getElem?_charged hi hc { c with phase := ph } hj
  refine ⟨hledger ▸ h.price_eq, ?_, hle, hpeak, hnodup, fun j hj => ?_, fun j c₁ hj hin₁ => ?_,
    h.charged_nodup, fun j hj => ?_, fun t => ?_, fun t => ?_, fun c₁ hc₁ r hr => ?_⟩
  · show p.inFlight = total _ (s.calls.set i _)
    rw [total_set _ _ hi, hin, h.inFlight]
  · rcases harrived j hj with ⟨rfl, hsent⟩ | ⟨hne, hmem⟩
    · exact ⟨_, List.getElem?_set_self hlt, hsent⟩
    · show ∃ c₁, (s.calls.set i _)[j]? = some c₁ ∧ _
      rw [getElem?_set_other hne]
      exact h.arrived j hmem
  · rcases getElem?_set_cases hj with ⟨rfl, rfl⟩ | ⟨-, hj⟩
    exacts [hinside hin₁, hkept j (h.inside_arrived j c₁ hj hin₁)]
  · show ∃ c₁, (s.calls.set i _)[j]? = some c₁ ∧ _
    rw [hother j hj]
    exact h.charged j hj
  · show p.ledger.lookupsOf t = total (fun j => ((s.calls.set i _)[j]?).elim 0 _) s.charged
    rw [hledger, h.ledger]
    exact total_congr fun j hj => by rw [hother j hj]
  · show (p.ledger.lookups.find? t).isSome ↔ _
    rw [hledger, h.lines]
    refine exists_congr fun j => and_congr_right fun hj => ?_
    show _ ↔ ∃ c₁, (s.calls.set i _)[j]? = some c₁ ∧ _
    rw [hother j hj]
  · rcases mem_of_mem_set hc₁ with rfl | hmem
    · rw [show ph = .answered r from hr] at hph
      cases hph
    · exact h.answers c₁ hmem r hr

/-- A call inside the handler is charged and answered. -/
theorem Sound.set_charged (h : s.Sound price) (hi : s.calls[i]? = some c)
    (hc : c.phase.occupies = 1) {ledger : Ledger}
    (hledger : s.provider.ledger.charge c.payload.tenantId c.payload.items.length =
      .ok (ledger, c.payload.items.length * s.provider.ledger.priceCentsPerLookup)) :
    Sound price ⟨{ s.provider with ledger := ledger }.vacate,
      s.calls.set i { c with phase := .answered (c.payload.response price) }, s.arrived,
      s.charged ++ [i]⟩ := by
  have hunanswered : c.phase.isAnswered = false := by
    cases hphase : c.phase <;> simp [hphase, CallPhase.occupies, CallPhase.isAnswered] at hc ⊢
  have hfree := h.not_charged hi hunanswered
  have hlt := (List.getElem?_eq_some_iff.mp hi).1
  have hother := fun (c' : Call) (j : ℕ) (hj : j ∈ s.charged) =>
    h.getElem?_charged hi hunanswered c' hj
  obtain ⟨-, -, hprice, hlookups⟩ := Ledger.charge_ok hledger
  refine ⟨hprice.trans h.price_eq, ?_, ?_, h.peak_le, h.arrived_nodup, fun j hj => ?_,
    fun j c₁ hj hin₁ => ?_, ?_, fun j hj => ?_, fun t => ?_, fun t => ?_, fun c₁ hc₁ r hr => ?_⟩
  · show s.provider.inFlight - 1 = total _ (s.calls.set i _)
    rw [total_set _ _ hi, hc, h.inFlight]
    rfl
  · have := h.inFlight_le
    show s.provider.inFlight - 1 ≤ s.provider.peakInFlight
    omega
  · show ∃ c₁, (s.calls.set i _)[j]? = some c₁ ∧ _
    rcases eq_or_ne j i with rfl | hne
    · exact ⟨_, List.getElem?_set_self hlt, by simp⟩
    · rw [getElem?_set_other hne]
      exact h.arrived j hj
  · rcases getElem?_set_cases hj with ⟨rfl, rfl⟩ | ⟨-, hj⟩
    · cases hin₁
    · exact h.inside_arrived j c₁ hj hin₁
  · exact List.nodup_append.mpr ⟨h.charged_nodup, List.nodup_singleton i,
      fun j hj k hk hjk => hfree (by rwa [hjk, List.mem_singleton.mp hk] at hj)⟩
  · show ∃ c₁, (s.calls.set i _)[j]? = some c₁ ∧ _
    rcases List.mem_append.mp hj with hj | hj
    · rw [hother _ j hj]
      exact h.charged j hj
    · obtain rfl := List.mem_singleton.mp hj
      exact ⟨_, List.getElem?_set_self hlt, rfl⟩
  · show ledger.lookupsOf t = total _ (s.charged ++ [i])
    rw [hlookups, h.ledger, total_append, total_cons, total_nil, add_zero]
    show s.chargedTo t + _ = total (fun j => ((s.calls.set i _)[j]?).elim 0 _) s.charged + _
    rw [List.getElem?_set_self hlt]
    congr 1
    · refine total_congr fun j hj => ?_
      rw [hother _ j hj]
    · simp [Call.billed, CallPhase.isAnswered]
  · show (ledger.lookups.find? t).isSome ↔ ∃ j ∈ s.charged ++ [i], _
    rw [Ledger.charge_line hledger, h.lines]
    constructor
    · rintro (⟨j, hj, c₁, hc₁, ht⟩ | ht)
      · exact ⟨j, List.mem_append_left _ hj, c₁, (hother _ j hj).trans hc₁, ht⟩
      · exact ⟨i, List.mem_append_right _ (List.mem_singleton_self i), _,
          List.getElem?_set_self hlt, ht⟩
    · rintro ⟨j, hj, c₁, hc₁, ht⟩
      rcases List.mem_append.mp hj with hj | hj
      · exact .inl ⟨j, hj, c₁, (hother _ j hj).symm.trans hc₁, ht⟩
      · obtain rfl := List.mem_singleton.mp hj
        cases (List.getElem?_set_self hlt).symm.trans hc₁
        exact .inr ht
  · rcases mem_of_mem_set hc₁ with rfl | hmem
    · cases hr
      rfl
    · exact h.answers c₁ hmem r hr

/-- A new call is on its way. -/
theorem Sound.sent (h : s.Sound price) (payload : LookupRequest) :
    Sound price { s with calls := s.calls ++ [⟨payload, .sent⟩] } := by
  have hold : ∀ (j : ℕ) (c₁ : Call), s.calls[j]? = some c₁ →
      (s.calls ++ [⟨payload, .sent⟩])[j]? = some c₁ :=
    fun j c₁ hj => (List.getElem?_append_left (List.getElem?_eq_some_iff.mp hj).1).trans hj
  have hnew : ∀ (j : ℕ) (c₁ : Call), (s.calls ++ [⟨payload, .sent⟩])[j]? = some c₁ →
      s.calls[j]? = some c₁ ∨ c₁ = ⟨payload, .sent⟩ := by
    intro j c₁ hj
    rcases lt_or_ge j s.calls.length with hlt | hge
    · exact .inl ((List.getElem?_append_left hlt).symm.trans hj)
    · rw [List.getElem?_append_right hge] at hj
      exact .inr (List.mem_singleton.mp (List.mem_of_getElem? hj))
  have hcharged : ∀ j ∈ s.charged, (s.calls ++ [⟨payload, .sent⟩])[j]? = s.calls[j]? := by
    intro j hj
    obtain ⟨c₁, hc₁, -⟩ := h.charged j hj
    rw [hold j c₁ hc₁, hc₁]
  refine ⟨h.price_eq, ?_, h.inFlight_le, h.peak_le, h.arrived_nodup, fun j hj => ?_,
    fun j c₁ hj hin => ?_, h.charged_nodup, fun j hj => ?_, fun t => ?_, fun t => ?_,
    fun c₁ hc₁ r hr => ?_⟩
  · show s.provider.inFlight = total _ (s.calls ++ [_])
    rw [total_append, total_cons, total_nil, h.inFlight]
    exact (add_zero _).symm
  · obtain ⟨c₁, hc₁, hsent⟩ := h.arrived j hj
    exact ⟨c₁, hold j c₁ hc₁, hsent⟩
  · rcases hnew j c₁ hj with hj | rfl
    · exact h.inside_arrived j c₁ hj hin
    · cases hin
  · obtain ⟨c₁, hc₁, hanswered⟩ := h.charged j hj
    exact ⟨c₁, hold j c₁ hc₁, hanswered⟩
  · rw [h.ledger]
    exact total_congr fun j hj => by rw [hcharged j hj]
  · rw [h.lines]
    exact exists_congr fun j => and_congr_right fun hj => by rw [hcharged j hj]
  · rcases List.mem_append.mp hc₁ with hmem | hmem
    · exact h.answers c₁ hmem r hr
    · rw [List.mem_singleton.mp hmem] at hr
      cases hr

/-- Waking the calls that wait moves no count. -/
theorem Sound.woken (h : s.Sound price) : Sound price { s with calls := s.calls.map Call.wake } := by
  have hget : ∀ j, (s.calls.map Call.wake)[j]? = s.calls[j]?.map Call.wake :=
    fun j => List.getElem?_map
  refine ⟨h.price_eq, ?_, h.inFlight_le, h.peak_le, h.arrived_nodup, fun j hj => ?_,
    fun j c₁ hj hin => ?_, h.charged_nodup, fun j hj => ?_, fun t => ?_, fun t => ?_,
    fun c₁ hc₁ r hr => ?_⟩
  · rw [h.inFlight]
    unfold total
    rw [List.map_map]
    exact congrArg List.sum (List.map_congr_left fun c _ => (Call.wake_occupies c).symm)
  · obtain ⟨c₁, hc₁, hsent⟩ := h.arrived j hj
    refine ⟨c₁.wake, by rw [hget, hc₁, Option.map_some], ?_⟩
    unfold Call.wake
    split
    exacts [by simp, hsent]
  · obtain ⟨c₀, hc₀, rfl⟩ := Option.map_eq_some_iff.mp ((hget j).symm.trans hj)
    exact h.inside_arrived j c₀ hc₀ (by rwa [Call.wake_occupies] at hin)
  · obtain ⟨c₁, hc₁, hanswered⟩ := h.charged j hj
    refine ⟨c₁.wake, by rw [hget, hc₁, Option.map_some], ?_⟩
    unfold Call.wake
    split
    · next hphase =>
        rw [hphase] at hanswered
        cases hanswered
    · exact hanswered
  · rw [h.ledger]
    refine total_congr fun j hj => ?_
    rw [hget]
    cases s.calls[j]? with
    | none => rfl
    | some c₁ => exact (Call.wake_billed c₁ t).symm
  · rw [h.lines]
    refine exists_congr fun j => and_congr_right fun hj => ?_
    rw [hget]
    cases s.calls[j]? with
    | none => simp
    | some c₁ => simp
  · obtain ⟨c₀, hc₀, rfl⟩ := List.mem_map.mp hc₁
    rw [Call.wake_payload]
    exact h.answers c₀ hc₀ r (Call.wake_answered.mp hr)

/-- The controls leave the books and the occupancy alone. -/
theorem Sound.controlled (h : s.Sound price) {p : ProviderState}
    (hledger : p.ledger = s.provider.ledger) (hin : p.inFlight = s.provider.inFlight)
    (hpeak : p.peakInFlight = s.provider.peakInFlight) :
    Sound price { s with provider := p } := by
  refine ⟨hledger ▸ h.price_eq, hin.trans h.inFlight, ?_, hpeak.trans_le h.peak_le,
    h.arrived_nodup, h.arrived, h.inside_arrived, h.charged_nodup, h.charged, fun t => ?_,
    fun t => ?_, h.answers⟩
  · show p.inFlight ≤ p.peakInFlight
    rw [hin, hpeak]
    exact h.inFlight_le
  · show p.ledger.lookupsOf t = _
    rw [hledger]
    exact h.ledger t
  · show (p.ledger.lookups.find? t).isSome ↔ _
    rw [hledger]
    exact h.lines t

theorem control_keeps (p : ProviderState) (slowMode held : Option Bool) :
    (p.control slowMode held).ledger = p.ledger ∧
      (p.control slowMode held).inFlight = p.inFlight ∧
      (p.control slowMode held).peakInFlight = p.peakInFlight := by
  unfold ProviderState.control
  rcases held with _ | (_ | _) <;> exact ⟨rfl, rfl, rfl⟩

/-- An emptied ledger has charged nobody. -/
theorem Sound.reset (h : s.Sound price) :
    Sound price { s with provider := s.provider.resetLedger, charged := [] } := by
  refine ⟨h.price_eq, h.inFlight, le_rfl, h.inFlight_le.trans h.peak_le, h.arrived_nodup,
    h.arrived, h.inside_arrived, .nil, fun j hj => (by cases hj), fun t => rfl, fun t => ?_,
    h.answers⟩
  refine ⟨fun hline => (by cases hline), ?_⟩
  rintro ⟨j, hj, -⟩
  cases hj

/-- A call goes on to its next await. -/
theorem Sound.resumed (h : s.Sound price) (hi : s.calls[i]? = some c) {p : ProviderState}
    (hresume : c.resume s.provider = some (p, c')) :
    Sound price
      { provider := p
        calls := s.calls.set i c'
        arrived := if c.phase = .sent then s.arrived ++ [i] else s.arrived
        charged := if c'.phase.isAnswered then s.charged ++ [i] else s.charged } := by
  rcases Call.resume_cases hresume with ⟨hphase, rfl, rfl⟩ | ⟨hin, rfl, ph, hph, rfl⟩ |
    ⟨hin, ledger, hledger, rfl, rfl⟩
  · -- it arrives: it had not been there before, and it makes one more
    have hnew : i ∉ s.arrived := by
      intro hmem
      obtain ⟨c₁, hc₁, hsent⟩ := h.arrived i hmem
      cases hi.symm.trans hc₁
      exact hsent hphase
    have hlength : ((s.arrived ++ [i]).length : Int) = s.arrived.length + 1 := by simp
    have hle := h.inFlight_le
    have hpeak := h.peak_le
    rw [if_pos hphase]
    refine h.set_uncharged hi (by rw [hphase]; rfl) rfl rfl ?_ (le_max_right _ _) ?_ ?_ ?_ ?_ ?_
    · rw [hphase]
      rfl
    · show max s.provider.peakInFlight (s.provider.inFlight + 1) ≤ _
      omega
    · exact List.nodup_append.mpr ⟨h.arrived_nodup, List.nodup_singleton i,
        fun j hj k hk hjk => hnew (by rwa [hjk, List.mem_singleton.mp hk] at hj)⟩
    · intro j hj
      rcases List.mem_append.mp hj with hj | hj
      · exact .inr ⟨fun hji => hnew (hji ▸ hj), hj⟩
      · exact .inl ⟨List.mem_singleton.mp hj, by simp⟩
    · exact fun j hj => List.mem_append_left _ hj
    · exact fun _ => List.mem_append_right _ (List.mem_singleton_self i)
  · have hsent : c.phase ≠ .sent := by
      intro hphase
      rw [hphase] at hin
      cases hin
    have hunanswered : ∀ {q : CallPhase}, q.occupies = 1 → q.isAnswered = false := by
      intro q hq
      cases q <;> first | rfl | cases hq
    rw [if_neg hsent, if_neg (by simp [hunanswered hph])]
    refine h.set_uncharged hi (hunanswered hin) (hunanswered hph) rfl ?_ h.inFlight_le h.peak_le
      h.arrived_nodup (fun j hj => ?_) (fun _ => id) fun _ => h.inside_arrived i c hi hin
    · rw [hph, hin, sub_self, add_zero]
    · rcases eq_or_ne j i with rfl | hne
      · exact .inl ⟨rfl, by rintro rfl; cases hph⟩
      · exact .inr ⟨hne, hj⟩
  · have hsent : c.phase ≠ .sent := by
      intro hphase
      rw [hphase] at hin
      cases hin
    have hcharged := h.set_charged hi hin hledger
    rw [← h.price_eq] at hcharged
    rw [if_neg hsent, ← h.price_eq]
    exact hcharged

/-- A call is given up. -/
theorem Sound.aborted (h : s.Sound price) (hi : s.calls[i]? = some c) {p : ProviderState}
    (habort : c.abort s.provider = some (p, c')) :
    Sound price { s with provider := p, calls := s.calls.set i c' } := by
  obtain ⟨rfl, hrunning, hcases⟩ := Call.abort_cases habort
  have hle := h.inFlight_le
  refine h.set_uncharged hi (CallPhase.isAnswered_of_isRunning hrunning) rfl ?_ ?_ ?_ ?_
    h.arrived_nodup (fun j hj => ?_) (fun _ => id) fun h => (by cases h)
  · rcases hcases with ⟨-, rfl⟩ | ⟨-, rfl⟩ <;> rfl
  · rcases hcases with ⟨hphase, rfl⟩ | ⟨hin, rfl⟩
    · rw [hphase]
      exact (add_zero _).symm
    · rw [hin]
      rfl
  · rcases hcases with ⟨-, rfl⟩ | ⟨-, rfl⟩
    · exact hle
    · show s.provider.inFlight - 1 ≤ s.provider.peakInFlight
      omega
  · rcases hcases with ⟨-, rfl⟩ | ⟨-, rfl⟩ <;> exact h.peak_le
  · rcases eq_or_ne j i with rfl | hne
    · exact .inl ⟨rfl, by simp⟩
    · exact .inr ⟨hne, hj⟩

/-- **One step.** -/
theorem Sound.step (h : s.Sound price) (hstep : s.next e = some s') : s'.Sound price := by
  cases next_advance hstep with
  | sent payload => exact h.sent payload
  | resumed hi hresume => exact h.resumed hi hresume
  | aborted hi habort => exact h.aborted hi habort
  | controlled slowMode held =>
      obtain ⟨hledger, hin, hpeak⟩ := control_keeps s.provider slowMode held
      split
      · exact h.woken.controlled hledger hin hpeak
      · exact h.controlled hledger hin hpeak
  | reset => exact h.reset

/-- **Every reachable state is sound.** -/
theorem Sound.of_run {es : List FixtureEvent} (hrun : Run (Steps next) (start price) es s) :
    s.Sound price :=
  hrun.invariant (fun _ _ _ ha hab => ha.step hab) (start_sound price)

end Fixture

end Limitless
