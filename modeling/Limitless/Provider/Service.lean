import Limitless.Provider.Ledger

/-!
# The provider's lookup calls

`provider/app.py`: the fixture's state and the handler of `POST /v1/lookups`, cut at its awaits.
A call has been sent, is inside `occupied()` at one of the awaits, or has been answered; whether
the client still waits for it plays no part. `Call.resume` runs a handler to its next await, and
`Call.abort` ends one whose server gives it up.

Whatever a handler does moves the occupancy and the ledger by what the call itself gains:
`Handled` says so once, and `resume_handled` and `abort_handled` are its two instances.
-/

namespace Limitless

/-- The body of a lookup call. -/
structure LookupRequest where
  tenantId : TenantId
  items : List String
  returnResults : Bool
  deriving DecidableEq, Repr

/-- One enriched row. -/
structure LookupResult where
  companyName : String
  registryNumber : String
  deriving DecidableEq, Repr

/-- What the provider charged, decided and reported by the provider itself. -/
structure LookupResponse where
  lookups : Int
  centsCharged : Int
  results : List LookupResult
  deriving DecidableEq, Repr

/-- `_registry_number_for`. -/
def registryNumberFor (companyName : String) : String :=
  let digest := companyName.toList.foldl (fun d c => (d * 131 + c.toNat) % 1000000) 0
  "CR-" ++ toString (digest % 10) ++ Fixtures.zeroPadded 6 digest

/-- The fixture's mutable state: its books, its two controls and its occupancy. -/
structure ProviderState where
  ledger : Ledger
  slowMode : Bool
  /-- The event `_released`: set means not held. -/
  released : Bool
  inFlight : Int
  peakInFlight : Int

namespace ProviderState

/-- A fixture that has just started: nothing billed, nothing held, nothing in flight. -/
def initial (priceCents : Int) : ProviderState where
  ledger := ⟨priceCents, Keyed.empty⟩
  slowMode := false
  released := true
  inFlight := 0
  peakInFlight := 0

/-- Entering `occupied()`. -/
def occupy (p : ProviderState) : ProviderState :=
  { p with inFlight := p.inFlight + 1, peakInFlight := max p.peakInFlight (p.inFlight + 1) }

/-- Leaving `occupied()`. -/
def vacate (p : ProviderState) : ProviderState := { p with inFlight := p.inFlight - 1 }

/-- `hold`. -/
def hold (p : ProviderState) : ProviderState := { p with released := false }

/-- `release`, less the waiters it wakes. -/
def release (p : ProviderState) : ProviderState := { p with released := true }

/-- `POST /ledger/reset`: an empty bill, and no remembered high-water mark. -/
def resetLedger (p : ProviderState) : ProviderState :=
  { p with ledger := p.ledger.reset, peakInFlight := p.inFlight }

end ProviderState

/-! ## The handler -/

/-- Where a call stands. -/
inductive CallPhase
  /-- On its way: no handler runs yet. -/
  | sent
  /-- At `asyncio.sleep(0)`. -/
  | yielding
  /-- In `await_release`, with the event clear. -/
  | awaitingRelease
  /-- Woken by `release`, whatever the event has been since. -/
  | woken
  /-- In the slow-mode delay. -/
  | delaying
  | answered (response : LookupResponse)
  /-- Lost on the way, or ended without an answer. -/
  | aborted
  deriving DecidableEq, Repr

namespace CallPhase

/-- One for a call inside `occupied()`. -/
def occupies : CallPhase → Int
  | yielding | awaitingRelease | woken | delaying => 1
  | sent | answered _ | aborted => 0

/-- The provider has charged for the call and answered it. -/
def isAnswered : CallPhase → Bool
  | answered _ => true
  | sent | yielding | awaitingRelease | woken | delaying | aborted => false

/-- The call is on its way, or a handler works on it. -/
def isRunning : CallPhase → Bool
  | sent | yielding | awaitingRelease | woken | delaying => true
  | answered _ | aborted => false

/-- The call is on its way, or inside the handler before the release has let it through. -/
def isHeld : CallPhase → Bool
  | sent | yielding | awaitingRelease => true
  | woken | delaying | answered _ | aborted => false

theorem isAnswered_of_isRunning {p : CallPhase} (h : p.isRunning = true) :
    p.isAnswered = false := by
  cases p <;> first | rfl | cases h

theorem occupies_of_not_isRunning {p : CallPhase} (h : p.isRunning = false) : p.occupies = 0 := by
  cases p <;> first | rfl | cases h

theorem occupies_le_one (p : CallPhase) : p.occupies ≤ 1 := by cases p <;> simp [occupies]

end CallPhase

/-- One lookup call. -/
structure Call where
  payload : LookupRequest
  phase : CallPhase
  deriving DecidableEq, Repr

/-- The rows echoed back for a call. -/
def LookupRequest.results (payload : LookupRequest) : List LookupResult :=
  if payload.returnResults then payload.items.map fun name => ⟨name, registryNumberFor name⟩ else []

/-- The answer to a call at a price. -/
def LookupRequest.response (payload : LookupRequest) (priceCents : Int) : LookupResponse where
  lookups := payload.items.length
  centsCharged := payload.items.length * priceCents
  results := payload.results

namespace Call

/-- The end of the handler: charge, leave `occupied()`, answer. -/
def finish (p : ProviderState) (c : Call) : ProviderState × Call :=
  match p.ledger.charge c.payload.tenantId c.payload.items.length with
  | .error _ => (p.vacate, { c with phase := .aborted })
  | .ok (ledger, cents) =>
    ({ p with ledger := ledger }.vacate,
      { c with phase := .answered ⟨c.payload.items.length, cents, c.payload.results⟩ })

/-- The handler from `await_release` on: the delay of slow mode, or the end. -/
def proceed (p : ProviderState) (c : Call) : ProviderState × Call :=
  if p.slowMode then (p, { c with phase := .delaying }) else finish p c

/-- Run the handler of a call to its next await. -/
def resume (p : ProviderState) (c : Call) : Option (ProviderState × Call) :=
  match c.phase with
  | .sent => some (p.occupy, { c with phase := .yielding })
  | .yielding =>
    if p.released then some (proceed p c) else some (p, { c with phase := .awaitingRelease })
  | .woken => some (proceed p c)
  | .delaying => some (finish p c)
  | .awaitingRelease | .answered _ | .aborted => none

/-- The call is lost on the way, or its handler is given up. -/
def abort (p : ProviderState) (c : Call) : Option (ProviderState × Call) :=
  match c.phase with
  | .sent => some (p, { c with phase := .aborted })
  | .yielding | .awaitingRelease | .woken | .delaying =>
    some (p.vacate, { c with phase := .aborted })
  | .answered _ | .aborted => none

/-- `_released.set()` wakes a call that waits for it. -/
def wake (c : Call) : Call :=
  match c.phase with
  | .awaitingRelease => { c with phase := .woken }
  | _ => c

/-! ## What a call counts for -/

/-- The lookups a call has put on a tenant's bill. -/
def billed (c : Call) (t : TenantId) : Int :=
  if c.phase.isAnswered ∧ c.payload.tenantId = t then c.payload.items.length else 0

theorem billed_nonneg (c : Call) (t : TenantId) : 0 ≤ c.billed t := by
  unfold billed
  split <;> omega

theorem billed_of_unanswered {c : Call} (h : c.phase.isAnswered = false) (t : TenantId) :
    c.billed t = 0 := by
  simp [billed, h]

/-- A handler step: the occupancy and the bill move by what the call gains, and an answer is the
one its payload has at the provider's price. -/
structure Handled (p : ProviderState) (c : Call) (p' : ProviderState) (c' : Call) : Prop where
  payload : c'.payload = c.payload
  price : p'.ledger.priceCentsPerLookup = p.ledger.priceCentsPerLookup
  inFlight : p'.inFlight = p.inFlight + (c'.phase.occupies - c.phase.occupies)
  peak : p'.peakInFlight ≤ max p.peakInFlight p'.inFlight
  lookups : ∀ t, p'.ledger.lookupsOf t = p.ledger.lookupsOf t + (c'.billed t - c.billed t)
  running : c.phase.isRunning = true
  answered : ∀ r, c'.phase = .answered r → r = c.payload.response p.ledger.priceCentsPerLookup

variable {p p' : ProviderState} {c c' : Call}

/-- A step that charges nothing is a handler step, when the occupancy moves as the phase says. -/
theorem handled_of_phase {ph : CallPhase} (hledger : p'.ledger = p.ledger)
    (hin : p'.inFlight = p.inFlight + (ph.occupies - c.phase.occupies))
    (hpeak : p'.peakInFlight ≤ max p.peakInFlight p'.inFlight)
    (hc : c.phase.isRunning = true) (hph : ph.isAnswered = false) :
    Handled p c p' { c with phase := ph } := by
  refine ⟨rfl, by rw [hledger], hin, hpeak, fun t => ?_, hc, ?_⟩
  · rw [billed_of_unanswered (CallPhase.isAnswered_of_isRunning hc), billed_of_unanswered hph,
      hledger]
    omega
  · rintro r rfl
    cases hph

theorem finish_handled (hin : c.phase.occupies = 1) (hc : c.phase.isRunning = true) :
    Handled p c (finish p c).1 (finish p c).2 := by
  obtain ⟨ledger, hledger⟩ := p.ledger.charge_isOk c.payload.tenantId
    (Int.natCast_nonneg c.payload.items.length)
  obtain ⟨_, _, hprice, hlookups⟩ := Ledger.charge_ok hledger
  simp only [finish, hledger]
  refine ⟨rfl, hprice, ?_, le_max_left _ _, fun t => ?_, hc, ?_⟩
  · rw [hin]
    simp only [ProviderState.vacate, CallPhase.occupies]
    omega
  · rw [billed_of_unanswered (CallPhase.isAnswered_of_isRunning hc)]
    simp [ProviderState.vacate, billed, hlookups, CallPhase.isAnswered]
  · rintro r ⟨⟩
    rfl

theorem proceed_handled (hin : c.phase.occupies = 1) (hc : c.phase.isRunning = true) :
    Handled p c (proceed p c).1 (proceed p c).2 := by
  unfold proceed
  split
  · refine handled_of_phase rfl ?_ (le_max_left _ _) hc rfl
    rw [hin]
    exact (add_zero _).symm
  · exact finish_handled hin hc

/-- Running a handler to its next await is a handler step. -/
theorem resume_handled (h : c.resume p = some (p', c')) : Handled p c p' c' := by
  unfold resume at h
  split at h
  · next hphase =>
      cases h
      exact handled_of_phase rfl (by simp [hphase, CallPhase.occupies, ProviderState.occupy]) le_rfl
        (by simp [hphase, CallPhase.isRunning]) rfl
  · next hphase =>
      split at h
      · have hproceed := proceed_handled (p := p) (c := c) (by simp [hphase, CallPhase.occupies])
          (by simp [hphase, CallPhase.isRunning])
        rw [Option.some.injEq] at h
        rwa [h] at hproceed
      · cases h
        exact handled_of_phase rfl (by simp [hphase, CallPhase.occupies]) (le_max_left _ _)
          (by simp [hphase, CallPhase.isRunning]) rfl
  · next hphase =>
      have hproceed := proceed_handled (p := p) (c := c) (by simp [hphase, CallPhase.occupies])
        (by simp [hphase, CallPhase.isRunning])
      rw [Option.some.injEq] at h
      rwa [h] at hproceed
  · next hphase =>
      have hfinish := finish_handled (p := p) (c := c) (by simp [hphase, CallPhase.occupies])
        (by simp [hphase, CallPhase.isRunning])
      rw [Option.some.injEq] at h
      rwa [h] at hfinish
  all_goals cases h

/-- Giving a call up is a handler step. -/
theorem abort_handled (h : c.abort p = some (p', c')) : Handled p c p' c' := by
  have hinside : c.phase.occupies = 1 → c.phase.isRunning = true →
      Handled p c p.vacate { c with phase := .aborted } := by
    intro hin hc
    refine handled_of_phase rfl ?_ (le_max_left _ _) hc rfl
    rw [hin]
    simp only [ProviderState.vacate, CallPhase.occupies]
    omega
  unfold abort at h
  split at h
  · next hphase =>
      cases h
      exact handled_of_phase rfl (by simp [hphase, CallPhase.occupies]) (le_max_left _ _)
        (by simp [hphase, CallPhase.isRunning]) rfl
  all_goals cases h
  all_goals
    next hphase =>
      exact hinside (by simp [hphase, CallPhase.occupies]) (by simp [hphase, CallPhase.isRunning])

/-- The provider's controls are the operator's. -/
theorem resume_released (h : c.resume p = some (p', c')) : p'.released = p.released := by
  have hfinish : (finish p c).1.released = p.released := by
    unfold finish
    split <;> rfl
  have hproceed : (proceed p c).1.released = p.released := by
    unfold proceed
    split
    exacts [rfl, hfinish]
  unfold resume at h
  split at h
  · cases h
    rfl
  · split at h
    · rwa [Option.some.inj h] at hproceed
    · cases h
      rfl
  · rwa [Option.some.inj h] at hproceed
  · rwa [Option.some.inj h] at hfinish
  all_goals cases h

theorem abort_released (h : c.abort p = some (p', c')) :
    p'.released = p.released ∧ p'.ledger = p.ledger ∧ c' = { c with phase := .aborted } := by
  unfold abort at h
  split at h
  all_goals cases h
  all_goals exact ⟨rfl, rfl, rfl⟩

/-- A call that is held goes no further than to the release. -/
theorem resume_isHeld (hheld : c.phase.isHeld = true) (hreleased : p.released = false)
    (h : c.resume p = some (p', c')) : c'.phase.isHeld = true := by
  unfold resume at h
  split at h
  · cases h
    rfl
  · rw [hreleased] at h
    cases h
    rfl
  · next hphase =>
      rw [hphase] at hheld
      cases hheld
  · next hphase =>
      rw [hphase] at hheld
      cases hheld
  all_goals cases h

/-! ## Waking -/

@[simp] theorem wake_payload (c : Call) : c.wake.payload = c.payload := by
  unfold wake
  split <;> rfl

@[simp] theorem wake_occupies (c : Call) : c.wake.phase.occupies = c.phase.occupies := by
  unfold wake
  split
  · next h => simp [CallPhase.occupies, h]
  · rfl

@[simp] theorem wake_isRunning (c : Call) : c.wake.phase.isRunning = c.phase.isRunning := by
  unfold wake
  split
  · next h => simp [CallPhase.isRunning, h]
  · rfl

@[simp] theorem wake_answered {c : Call} {r : LookupResponse} :
    c.wake.phase = .answered r ↔ c.phase = .answered r := by
  unfold wake
  split
  · next h => simp [h]
  · rfl

@[simp] theorem wake_billed (c : Call) (t : TenantId) : c.wake.billed t = c.billed t := by
  unfold wake
  split
  · next h => simp [billed, h, CallPhase.isAnswered]
  · rfl

end Call

end Limitless
