import Limitless.Secure.Invariant

/-!
# What becomes of a reservation

`perform_lookups` takes a reservation over and is to close it exactly once, whatever strikes it.
`Task.LeftLookups` is a request whose `perform_lookups` has exited, and `left_cases` its two pasts:
no exception inside (`Task.Returned`), or one, and the `except` handler closed after it
(`Task.Handled`). The handler closes whatever the `try` block has behind it, and one point of the
block comes after the settle: the exit of `async with pool.connection()`. `settled_once_iff` is the
consequence.

Before `perform_lookups` the reservation is already made, and an exception between the two leaves it
behind: `closed_iff`. Once every request has ended and none was struck there, nothing is reserved
any more (`closed_by_the_end`): a reservation closed twice would only have taken more out of the
reserved columns, and they are never negative.
-/

namespace Limitless

open Indexed Runs

/-! ## What is asked of a request -/

/-- A committed settle or release. -/
def Effect.isClosing : Effect → Bool
  | settled _ _ _ => true
  | reserved _ | tookSlot | leftSlot | sent _ | upserted _ | insertedJob _ => false

namespace Pc

/-- The point is one of `perform_lookups`. -/
def inLookups : Pc → Bool
  | calling _ _ _ | finishing _ _ _ _ | handling _ _ _ _ _ => true
  | _ => false

/-- The reservation is made and `perform_lookups` is not entered: the caller leaves the connection
it made the reservation on. -/
def isUnguarded : Pc → Bool
  | leavingConnection _ _ => true
  | _ => false

/-- The reservation is settled and the `try` block is not left: it gives its connection back. -/
def isSettledInTry : Pc → Bool
  | finishing _ _ _ .leaveConnection => true
  | _ => false

end Pc

/-- The exceptions inside `perform_lookups`. -/
def Task.struck (t : Task) : List (Pc × Exception) := t.raised.filter (·.1.inLookups)

/-- The request made the reservation, and `perform_lookups` was entered and has exited. -/
structure Task.LeftLookups (t : Task) (r : Reservation) : Prop where
  reserved : .reserved r ∈ t.trail
  outside : t.pc.inLookups = false
  entered : t.pc.isUnguarded = false ∧ ∀ x ∈ t.raised, x.1.isUnguarded = false

theorem Task.leftLookups_iff {t : Task} {r : Reservation} : t.LeftLookups r ↔
    .reserved r ∈ t.trail ∧ t.pc.inLookups = false ∧ t.pc.isUnguarded = false ∧
      ∀ x ∈ t.raised, x.1.isUnguarded = false :=
  ⟨fun h => ⟨h.reserved, h.outside, h.entered⟩, fun h => ⟨h.1, h.2.1, h.2.2⟩⟩

instance (t : Task) (r : Reservation) : Decidable (t.LeftLookups r) :=
  decidable_of_iff _ Task.leftLookups_iff.symm

/-- Exactly one settle or release of the reservation has been applied, with the charge that is due:
the provider's on normal return, the whole reservation if the call was attempted, and otherwise
nothing. Every account has moved by one hold and one close. -/
def Task.SettledOnce (t : Task) (r : Reservation) : Prop :=
  ∃ lookups cents, t.trail.filter Effect.isClosing = [.settled r lookups cents] ∧
    (t.struck = [] → ∃ payload result, t.call = some ⟨payload, .answered result⟩ ∧
      lookups = result.lookups ∧ cents = result.centsCharged) ∧
    (∀ x ∈ t.struck, cents = if x.1.attempted then r.cents else 0) ∧
    ∀ a, amounts t.trail a = r.held.amount a + (r.closed lookups cents).amount a

variable {cfg : Config} {pc : Pc} {call : Option Call} {w : Work} {r : Reservation} {t : Task}

/-! ## Trails -/

/-- The answer a settle inside the `try` block charged. -/
def Pc.settledResult? : Pc → Option LookupResponse
  | finishing _ _ result .leaveConnection => some result
  | _ => none

/-- What the `try` block has closed. -/
theorem closing_framed (hframe : pc.frame? = some (w, r)) :
    (pc.trail cfg ++ pc.unwound).filter Effect.isClosing =
      pc.settledResult?.elim [] fun result =>
        [.settled r result.lookups result.centsCharged] := by
  cases pc with
  | calling w' r' p => cases hframe; cases p <;> rfl
  | finishing w' r' result p => cases hframe; cases p <;> rfl
  | _ => cases hframe

/-- What the `try` block has moved. -/
theorem amounts_framed (hframe : pc.frame? = some (w, r)) (a : Account) :
    amounts (pc.trail cfg ++ pc.unwound) a = r.held.amount a +
      pc.settledResult?.elim 0 fun result =>
        (r.closed result.lookups result.centsCharged).amount a := by
  cases pc with
  | calling w' r' p =>
      cases hframe
      cases p <;>
        simp [Pc.trail, CallPoint.trail, Pc.unwound, Pc.holdsSlot, amounts, Effect.amount,
          Pc.settledResult?]
  | finishing w' r' result p =>
      cases hframe
      cases p <;>
        simp [Pc.trail, FinishPoint.trail, Pc.unwound, Pc.holdsSlot, amounts, Effect.amount,
          Pc.settledResult?]
  | _ => cases hframe

/-- A framed point has made its reservation and no other. -/
theorem reserved_framed (hframe : pc.frame? = some (w, r)) {r' : Reservation}
    (h : .reserved r' ∈ pc.trail cfg ++ pc.unwound) : r' = r := by
  cases pc with
  | calling w' r'' p =>
      cases hframe
      cases p <;> simpa [Pc.trail, CallPoint.trail, Pc.unwound, Pc.holdsSlot] using h
  | finishing w' r'' result p =>
      cases hframe
      cases p <;> simpa [Pc.trail, FinishPoint.trail, Pc.unwound, Pc.holdsSlot] using h
  | _ => cases hframe

theorem settledResult_eq_none (h : pc.isSettledInTry = false) : pc.settledResult? = none := by
  cases pc with
  | finishing w r result p => cases p <;> first | rfl | cases h
  | _ => rfl

theorem settledResult_isSome (h : pc.isSettledInTry = true) :
    ∃ result, pc.settledResult? = some result := by
  cases pc with
  | finishing w r result p => cases p <;> first | exact ⟨_, rfl⟩ | cases h
  | _ => cases h

/-! ## The two pasts -/

/-- The end of an import adds nothing to a closed reservation. -/
theorem recording_trail {result : LookupResponse} {jobId : JobId} {p : JobPoint} (a : Account) :
    ((Pc.recording w r result jobId p).trail cfg).filter Effect.isClosing =
        [.settled r result.lookups result.centsCharged] ∧
      amounts ((Pc.recording w r result jobId p).trail cfg) a =
        r.held.amount a + (r.closed result.lookups result.centsCharged).amount a ∧
      ∀ r', .reserved r' ∈ (Pc.recording w r result jobId p).trail cfg → r' = r := by
  cases p <;> refine ⟨rfl, ?_, ?_⟩ <;>
    simp [Pc.trail, FinishPoint.trail, JobPoint.trail, amounts, Effect.amount]

/-- A request whose `perform_lookups` returned. -/
structure Task.Returned (t : Task) (r : Reservation) (result : LookupResponse) : Prop where
  struck : t.struck = []
  call : ∃ payload, t.call = some ⟨payload, .answered result⟩
  closing : t.trail.filter Effect.isClosing = [.settled r result.lookups result.centsCharged]
  amounts : ∀ a, amounts t.trail a =
    r.held.amount a + (r.closed result.lookups result.centsCharged).amount a

/-- A request whose `except` handler closed after an exception at a point of the `try` block. -/
structure Task.Handled (cfg : Config) (t : Task) (r : Reservation) (struck : Pc) (exc : Exception) :
    Prop where
  frame : ∃ w, struck.frame? = some (w, r) ∧ r = w.reservation cfg.priceCents
  exception : t.struck = [(struck, exc)]
  trail : t.trail = struck.trail cfg ++ struck.unwound ++ [r.closing struck.attempted]

theorem inLookups_of_frame (h : pc.frame? = some (w, r)) : pc.inLookups = true := by
  cases pc <;> first | rfl | cases h

/-- An import at its end has returned from `perform_lookups`. -/
theorem Task.returned_of_recording {r' : Reservation} {result : LookupResponse} {jobId : JobId}
    {p : JobPoint} (hstruck : t.struck = [])
    (hfits : (Pc.recording w r' result jobId p).Fits cfg t.call)
    (htrail : t.trail = (Pc.recording w r' result jobId p).trail cfg)
    (hres : .reserved r ∈ t.trail) : t.Returned r result := by
  rw [htrail] at hres
  obtain rfl : r = r' := (recording_trail (.period .reserved)).2.2 r hres
  refine ⟨hstruck, ⟨_, hfits.1⟩, ?_, fun a => ?_⟩
  · rw [htrail]
    exact (recording_trail (.period .reserved)).1
  · rw [htrail]
    exact (recording_trail a).2.1

/-- An enrichment that responds has returned from `perform_lookups`. -/
theorem Task.returned_of_finishing {r' : Reservation} {result : LookupResponse}
    (hstruck : t.struck = []) (hfits : (Pc.finishing w r' result .leaveConnection).Fits cfg t.call)
    (htrail : t.trail = (Pc.finishing w r' result .leaveConnection).trail cfg)
    (hres : .reserved r ∈ t.trail) : t.Returned r result := by
  -- the point has left its slot, so unwinding adds nothing to its trail
  have hframe : (Pc.finishing w r' result .leaveConnection).frame? = some (w, r') := rfl
  have hunwound : t.trail = (Pc.finishing w r' result .leaveConnection).trail cfg ++
      (Pc.finishing w r' result .leaveConnection).unwound := htrail
  rw [hunwound] at hres
  obtain rfl : r = r' := reserved_framed hframe hres
  refine ⟨hstruck, ⟨_, hfits.1⟩, ?_, fun a => ?_⟩
  · rw [hunwound]
    exact closing_framed hframe
  · rw [hunwound]
    exact amounts_framed hframe a

/-- A request that the `except` handler has closed and left. -/
theorem Task.handled_of_live {r' : Reservation} {attempted : Bool} {exc : Exception}
    (hlive : Live cfg (.handling w r' attempted exc .leaveConnection) t.call t.trail t.raised)
    (hres : .reserved r ∈ t.trail) : ∃ struck, t.Handled cfg r struck exc := by
  obtain ⟨hpriced, struck, hframe, rfl, _, _, hraised, htrail⟩ := hlive
  obtain rfl : r = r' := by
    rw [htrail] at hres
    rcases List.mem_append.mp hres with h | h
    · exact reserved_framed hframe h
    · cases hatt : struck.attempted <;>
        simp [HandlerPoint.trail, Reservation.closing, hatt] at h
  refine ⟨struck, ⟨w, hframe, hpriced⟩, ?_, htrail⟩
  simp [Task.struck, hraised, inLookups_of_frame hframe]

/-- A point that has no exception behind it has none of `perform_lookups`. -/
theorem Task.struck_of_nil (h : t.raised = []) : t.struck = [] := by simp [Task.struck, h]

/-- Every request whose `perform_lookups` exited with one exception inside it at most: a second one
could only be the handler's. -/
theorem left_cases (hs : t.Sound cfg) (hleft : t.LeftLookups r) (hone : t.struck.length ≤ 1) :
    (∃ result, t.Returned r result) ∨ ∃ struck exc, t.Handled cfg r struck exc := by
  obtain ⟨hres, hout, hunguarded, hentered⟩ := hleft
  rcases hs with hlive | ⟨e, _, last, before, hlive, hend⟩
  · cases hpc : t.pc with
    | recording w r' result jobId p =>
        rw [hpc] at hlive
        obtain ⟨_, hfits, hraised, htrail⟩ := hlive
        exact .inl ⟨result, Task.returned_of_recording (Task.struck_of_nil hraised) hfits htrail hres⟩
    | leavingConnection => rw [hpc] at hunguarded; cases hunguarded
    | calling | finishing | handling => rw [hpc] at hout; cases hout
    | ended => rw [hpc] at hlive; exact hlive.2.elim
    | _ =>
        rw [hpc] at hlive
        rw [hlive.2.2.2] at hres
        cases hres
  rcases hend with ⟨hexit, hraised⟩ | ⟨exc, _, hframe, _, hraised⟩
  · subst hraised
    cases hexit with
    | enriched =>
        obtain ⟨_, hfits, hraised, htrail⟩ := hlive
        exact .inl ⟨_, Task.returned_of_finishing (Task.struck_of_nil hraised) hfits htrail hres⟩
    | imported =>
        obtain ⟨_, hfits, hraised, htrail⟩ := hlive
        exact .inl ⟨_, Task.returned_of_recording (Task.struck_of_nil hraised) hfits htrail hres⟩
    | page =>
        rw [hlive.2.2.2] at hres
        cases hres
    | @raised _ _ _ exc =>
        obtain ⟨struck, hhandled⟩ := Task.handled_of_live hlive hres
        exact .inr ⟨struck, exc, hhandled⟩
  · cases last with
    | leavingConnection w r' =>
        have := hentered (.leavingConnection w r', exc) (by rw [hraised]; simp)
        cases this
    | handling w r' attempted exc' p =>
        -- the exception in the handler is the second one
        obtain ⟨_, struck, hframe', _, _, _, hbefore, _⟩ := hlive
        have hin := inLookups_of_frame hframe'
        have hhandler : (Pc.handling w r' attempted exc' p).inLookups = true := rfl
        simp [Task.struck, hraised, hbefore, hin, hhandler] at hone
    | recording w r' result jobId p =>
        obtain ⟨_, hfits, hbefore, htrail⟩ := hlive
        have hstruck : t.struck = [] := by simp [Task.struck, hraised, hbefore, Pc.inLookups]
        exact .inl ⟨result, Task.returned_of_recording hstruck hfits htrail hres⟩
    | calling | finishing => cases hframe
    | ended => exact hlive.2.elim
    | _ =>
        rw [hlive.2.2.2] at hres
        cases hres

/-! ## Closing exactly once -/

/-- A request that returned settled once. -/
theorem Task.Returned.settledOnce {result : LookupResponse} (h : t.Returned r result) :
    t.SettledOnce r := by
  obtain ⟨payload, hcall⟩ := h.call
  refine ⟨_, _, h.closing, fun _ => ⟨payload, result, hcall, rfl, rfl⟩, ?_, h.amounts⟩
  rw [h.struck]
  intro x hx
  cases hx

/-- What the handler leaves behind. -/
theorem Task.Handled.closing {struck : Pc} {exc : Exception} (h : t.Handled cfg r struck exc) :
    t.trail.filter Effect.isClosing = (struck.settledResult?.elim [] fun result =>
      [.settled r result.lookups result.centsCharged]) ++ [r.closing struck.attempted] := by
  obtain ⟨w, hframe, _⟩ := h.frame
  rw [h.trail, List.filter_append, closing_framed hframe]
  cases struck.attempted <;> rfl

theorem Task.Handled.amounts {struck : Pc} {exc : Exception} (h : t.Handled cfg r struck exc)
    (a : Account) : amounts t.trail a = r.held.amount a +
      (struck.settledResult?.elim 0 fun result =>
        (r.closed result.lookups result.centsCharged).amount a) +
      (r.closing struck.attempted).amount a := by
  obtain ⟨w, hframe, _⟩ := h.frame
  rw [h.trail, amounts_append, amounts_framed hframe]
  simp [Limitless.amounts]

/-- The handler settles once exactly when the `try` block had not settled. -/
theorem Task.Handled.settledOnce_iff {struck : Pc} {exc : Exception}
    (h : t.Handled cfg r struck exc) : t.SettledOnce r ↔ struck.isSettledInTry = false := by
  refine ⟨?_, fun hsettled => ?_⟩
  · rintro ⟨l, c, hclosing, _⟩
    rw [h.closing] at hclosing
    cases hsettled : struck.isSettledInTry with
    | false => rfl
    | true =>
        obtain ⟨result, hresult⟩ := settledResult_isSome hsettled
        rw [hresult] at hclosing
        cases hclosing
  · have hnone := settledResult_eq_none hsettled
    have hstruck : ∀ {c : Int}, (c = if struck.attempted then r.cents else 0) →
        ∀ x ∈ t.struck, c = if x.1.attempted then r.cents else 0 := by
      intro c hc x hx
      rw [h.exception] at hx
      rw [List.mem_singleton.mp hx]
      exact hc
    have hraised : t.struck ≠ [] := by rw [h.exception]; simp
    have hclosing := h.closing
    have hamounts := h.amounts
    rw [hnone] at hclosing
    simp only [hnone, Option.elim_none, add_zero] at hamounts
    cases hatt : struck.attempted with
    | true =>
        rw [hatt] at hclosing hamounts
        exact ⟨_, _, hclosing, fun h0 => absurd h0 hraised, hstruck (by rw [hatt]; rfl), hamounts⟩
    | false =>
        rw [hatt] at hclosing hamounts
        exact ⟨_, _, hclosing, fun h0 => absurd h0 hraised, hstruck (by rw [hatt]; rfl), hamounts⟩

/-- **When a reservation is closed exactly once.** In every run, for every request whose
`perform_lookups` has exited after at most one exception inside it: exactly one settle or release
has been applied, with the charge that is due, if and only if the exception did not strike while
the `try` block gave its connection back after the settle. -/
theorem settled_once_iff {s₀ : Store} {replicas : Nat} {limiter : InFlightLimiter}
    {es : List Event} {world : World}
    (hl : InFlightLimiter.make cfg.maxInFlightUpstream = .ok limiter)
    (hrun : Run (Steps (World.next cfg)) (.start cfg s₀ replicas limiter) es world)
    (ht : t ∈ world.tasks) (hleft : t.LeftLookups r) (hone : t.struck.length ≤ 1) :
    t.SettledOnce r ↔ ∀ x ∈ t.struck, x.1.isSettledInTry = false := by
  have hs := (World.run_sound hl hrun).task t ht
  rcases left_cases hs hleft hone with ⟨result, h⟩ | ⟨struck, exc, h⟩
  · refine ⟨fun _ x hx => ?_, fun _ => h.settledOnce⟩
    rw [h.struck] at hx
    cases hx
  · rw [h.settledOnce_iff, h.exception]
    simp

/-- A request is cancelled while its lookup call is on its way. -/
def cancelledOnItsWay : List Event :=
  [.arrive (.demo 0)] ++ List.replicate 9 (.advance 0) ++ [.fault 0 .cancelled] ++
    List.replicate 3 (.advance 0)

/-- It is charged in full, once. -/
theorem settled_once_after_a_cancellation :
    ∃ w t, replay (World.next (.demo 48)) (.demo 48) cancelledOnItsWay = some w ∧
      t ∈ w.tasks ∧ t.SettledOnce .demo := by
  have htask : ((replay (World.next (.demo 48)) (.demo 48) cancelledOnItsWay).bind
      (·.tasks[0]?)).map (fun t => (decide (t.LeftLookups .demo), t.struck.length,
        t.struck.map (·.1.isSettledInTry))) = some (true, 1, [false]) := by decide
  obtain ⟨t, ht, hfacts⟩ := Option.map_eq_some_iff.mp htask
  obtain ⟨w, hw, ht⟩ := Option.bind_eq_some_iff.mp ht
  simp only [Prod.mk.injEq, decide_eq_true_eq] at hfacts
  obtain ⟨hleft, hone, hstruck⟩ := hfacts
  have hmem := List.mem_of_getElem? ht
  have hiff := settled_once_iff rfl (World.run_demo hw) hmem hleft hone.le
  refine ⟨w, t, hw, hmem, hiff.mpr fun x hx => ?_⟩
  have := List.mem_map_of_mem (f := fun y : Pc × Exception => y.1.isSettledInTry) hx
  rw [hstruck] at this
  exact List.mem_singleton.mp this

/-- A request is cancelled as its connection goes back to the pool after the settle, while another
request of the tenant holds a reservation. -/
def cancelledAfterItsSettle : List Event :=
  [.arrive (.demo 0), .arrive (.demo 0)] ++ List.replicate 4 (.advance 1) ++
    List.replicate 9 (.advance 0) ++ [.resume 0, .resume 0] ++ List.replicate 8 (.advance 0) ++
    [.fault 0 .cancelled] ++ List.replicate 3 (.advance 0)

/-- Its reservation is settled a second time: eight cents are committed for one lookup, and what
the other request holds is not reserved any more. -/
theorem settled_twice_after_a_cancellation :
    ∃ w t, replay (World.next (.demo 48)) (.demo 48) cancelledAfterItsSettle = some w ∧
      t ∈ w.tasks ∧ t.LeftLookups .demo ∧ t.struck.length ≤ 1 ∧ ¬ t.SettledOnce .demo ∧
      w.service.store.balance (.tenant Fixtures.attackerTenantId .committed) = 8 ∧
      w.service.store.balance (.tenant Fixtures.attackerTenantId .reserved) = 0 ∧
      w.tasks[1]?.bind (·.pc.reservation?) = some .demo := by
  have hstore : ((replay (World.next (.demo 48)) (.demo 48) cancelledAfterItsSettle).map fun w =>
      ((w.service.store.balance (.tenant Fixtures.attackerTenantId .committed),
        w.service.store.balance (.tenant Fixtures.attackerTenantId .reserved)),
        w.tasks[1]?.bind (·.pc.reservation?))) = some ((8, 0), some .demo) := by decide
  have htask : ((replay (World.next (.demo 48)) (.demo 48) cancelledAfterItsSettle).bind
      (·.tasks[0]?)).map (fun t => (decide (t.LeftLookups .demo), t.struck.length,
        t.trail.filter Effect.isClosing)) =
      some (true, 1, [.settled .demo 1 4, .settled .demo 1 4]) := by decide
  obtain ⟨w, hw, hbalances⟩ := Option.map_eq_some_iff.mp hstore
  obtain ⟨t, ht, hfacts⟩ := Option.map_eq_some_iff.mp htask
  rw [hw, Option.bind_some] at ht
  simp only [Prod.mk.injEq, decide_eq_true_eq] at hbalances hfacts
  obtain ⟨⟨hcommitted, hreserved⟩, hother⟩ := hbalances
  obtain ⟨hleft, hone, hclosing⟩ := hfacts
  refine ⟨w, t, hw, List.mem_of_getElem? ht, hleft, hone.le, ?_, hcommitted, hreserved, hother⟩
  rintro ⟨l, c, hsingle, _⟩
  rw [hclosing] at hsingle
  cases hsingle

/-! ## Leaving none behind -/

/-- A request struck before `perform_lookups` was entered has only its reservation. -/
theorem unguarded_trail (hs : t.Sound cfg) {x : Pc × Exception} (hx : x ∈ t.raised)
    (hunguarded : x.1.isUnguarded = true) : ∃ r, t.trail = [.reserved r] := by
  obtain ⟨request, pc, call, trail, raised⟩ := t
  have hlive : ∀ {pc : Pc} {raised : List (Pc × Exception)}, Live cfg pc call trail raised →
      x ∉ raised := by
    rintro pc raised ⟨_, h⟩ hx
    cases pc with
    | handling w r attempted exc p =>
        obtain ⟨struck, hframe, _, _, _, rfl, _⟩ := h
        obtain rfl := List.mem_singleton.mp hx
        cases struck <;> first | cases hframe; done | cases hunguarded
    | ended => exact h
    | _ =>
        obtain ⟨_, rfl, _⟩ := h
        cases hx
  rcases hs with hs | ⟨e, _, last, before, hs, hend⟩
  · exact absurd hx (hlive hs)
  · rcases hend with ⟨_, hraised⟩ | ⟨exc, _, _, _, hraised⟩
    · obtain rfl : raised = before := hraised
      exact absurd hx (hlive hs)
    · obtain rfl : raised = before ++ [(last, exc)] := hraised
      rcases List.mem_append.mp hx with hx | hx
      · exact absurd hx (hlive hs)
      · obtain rfl := List.mem_singleton.mp hx
        cases last with
        | leavingConnection w r =>
            obtain ⟨_, _, _, rfl⟩ := hs
            exact ⟨r, rfl⟩
        | _ => cases hunguarded

/-- A request that has ended and was not struck there has left `perform_lookups`, if it entered. -/
theorem leftLookups_of_ended (hend : t.pc.isEnded = true) (hres : .reserved r ∈ t.trail)
    (hunguarded : ∀ x ∈ t.raised, x.1.isUnguarded = false) : t.LeftLookups r := by
  cases hpc : t.pc with
  | ended e => exact ⟨hres, by rw [hpc]; rfl, by rw [hpc]; rfl, hunguarded⟩
  | _ => rw [hpc] at hend; cases hend

/-- Whether the reservation of an ended request was closed. -/
theorem closed_iff (hs : t.Sound cfg) (hend : t.pc.isEnded = true) (hres : .reserved r ∈ t.trail)
    (hone : t.struck.length ≤ 1) :
    (∃ lookups cents, .settled r lookups cents ∈ t.trail) ↔
      ∀ x ∈ t.raised, x.1.isUnguarded = false := by
  refine ⟨?_, fun hunguarded => ?_⟩
  · rintro ⟨l, c, hclosed⟩ x hx
    cases hunguarded : x.1.isUnguarded with
    | false => rfl
    | true =>
        obtain ⟨r', htrail⟩ := unguarded_trail hs hx hunguarded
        rw [htrail] at hclosed
        simp at hclosed
  · rcases left_cases hs (leftLookups_of_ended hend hres hunguarded) hone with
      ⟨result, h⟩ | ⟨struck, exc, h⟩
    · have hclosing : .settled r result.lookups result.centsCharged ∈
          t.trail.filter Effect.isClosing := h.closing ▸ List.mem_singleton_self _
      exact ⟨_, _, List.mem_of_mem_filter hclosing⟩
    · rw [h.trail]
      cases struck.attempted
      · exact ⟨0, 0, by simp [Reservation.closing]⟩
      · exact ⟨r.lookups, r.cents, by simp [Reservation.closing]⟩

/-- A request that has ended, and was not struck before `perform_lookups`, has not left more in a
reserved column than it found. -/
theorem reserved_ended (hs : t.Sound cfg) (hend : t.pc.isEnded = true) (hone : t.struck.length ≤ 1)
    (hunguarded : ∀ x ∈ t.raised, x.1.isUnguarded = false) {a : Account}
    (ha : a.money? = some .reserved) : amounts t.trail a ≤ 0 := by
  rcases hs.reserved with htrail | ⟨r, hres⟩
  · rw [htrail]
    exact le_rfl
  rcases left_cases hs (leftLookups_of_ended hend hres hunguarded) hone with
    ⟨result, h⟩ | ⟨struck, exc, h⟩
  · rw [h.amounts, Reservation.closed_reserved ha]
    omega
  · obtain ⟨w, _, hpriced⟩ := h.frame
    have hcents : 0 ≤ r.cents := by
      rw [hpriced]
      exact mul_nonneg (Int.natCast_nonneg _) (Int.natCast_nonneg _)
    have hheld := r.held_nonneg hcents a
    have hclosing : (r.closing struck.attempted).amount a = -r.held.amount a := by
      cases struck.attempted <;> exact Reservation.closed_reserved ha _ _
    have htry : (struck.settledResult?.elim 0 fun result =>
        (r.closed result.lookups result.centsCharged).amount a) ≤ 0 := by
      cases struck.settledResult? with
      | none => exact le_rfl
      | some result =>
          have := Reservation.closed_reserved (r := r) ha result.lookups result.centsCharged
          simp only [Option.elim_some]
          omega
    rw [h.amounts, hclosing]
    omega

/-- **When no reservation outlives its request.** In every run: the reservation of a request that
has ended, with one exception inside `perform_lookups` at most, was settled or released if and only
if no exception struck the request between its reservation and `perform_lookups`. Where every
request has ended so and none was struck there, nothing is reserved. -/
theorem closed_by_the_end {s₀ : Store} {replicas : Nat} {limiter : InFlightLimiter}
    {es : List Event} {world : World}
    (hl : InFlightLimiter.make cfg.maxInFlightUpstream = .ok limiter)
    (hrun : Run (Steps (World.next cfg)) (.start cfg s₀ replicas limiter) es world) :
    (∀ t ∈ world.tasks, t.pc.isEnded = true → t.struck.length ≤ 1 → ∀ r, .reserved r ∈ t.trail →
      ((∃ lookups cents, .settled r lookups cents ∈ t.trail) ↔
        ∀ x ∈ t.raised, x.1.isUnguarded = false)) ∧
    (s₀.FreshlySeeded → world.Ended → (∀ t ∈ world.tasks, t.struck.length ≤ 1) →
      (∀ t ∈ world.tasks, ∀ x ∈ t.raised, x.1.isUnguarded = false) →
      (∀ u, world.service.store.balance (.tenant u .reserved) = 0) ∧
        world.service.store.balance (.period .reserved) = 0) := by
  have hs := World.run_sound hl hrun
  refine ⟨fun t ht hend hone r hres => closed_iff (hs.task t ht) hend hres hone, ?_⟩
  intro hs₀ hended hone hunguarded
  have hreserved : ∀ a : Account, a.money? = some .reserved →
      world.service.store.balance a ≤ 0 := by
    intro a ha
    rw [hs.books, hs₀.balance, zero_add]
    exact total_nonpos fun t ht =>
      reserved_ended (hs.task t ht) (hended t ht) (hone t ht) (hunguarded t ht) ha
  refine ⟨fun u => ?_, ?_⟩
  · exact le_antisymm (hreserved _ rfl) (world.service.store.balance_tenant_nonneg u .reserved)
  · exact le_antisymm (hreserved _ rfl) (world.service.store.balance_period_nonneg .reserved)

/-- A request that was cancelled while its call was on its way leaves nothing reserved. -/
theorem closed_after_a_cancellation :
    ∃ w, replay (World.next (.demo 48)) (.demo 48) cancelledOnItsWay = some w ∧
      w.service.store.balance (.tenant Fixtures.attackerTenantId .reserved) = 0 ∧
      w.service.store.balance (.period .reserved) = 0 := by
  have htasks : (replay (World.next (.demo 48)) (.demo 48) cancelledOnItsWay).map
      (fun w => decide (∀ t ∈ w.tasks, t.struck.length ≤ 1 ∧ t.pc.isEnded = true ∧
        ∀ x ∈ t.raised, x.1.isUnguarded = false)) = some true := by decide
  obtain ⟨w, hw, hfacts⟩ := Option.map_eq_some_iff.mp htasks
  have hfacts := of_decide_eq_true hfacts
  obtain ⟨_, hall⟩ := closed_by_the_end rfl (World.run_demo hw)
  obtain ⟨htenant, hperiod⟩ := hall Store.demo_freshlySeeded (fun t ht => (hfacts t ht).2.1)
    (fun t ht => (hfacts t ht).1) fun t ht => (hfacts t ht).2.2
  exact ⟨w, hw, htenant _, hperiod⟩

/-- A request is cancelled as it leaves the connection it reserved on. -/
def cancelledBeforeItsLookups : List Event :=
  [.arrive (.demo 0)] ++ List.replicate 4 (.advance 0) ++ [.fault 0 .cancelled]

/-- Its four cents stay reserved when every request has ended. -/
theorem left_behind_by_a_cancellation :
    ∃ w t, replay (World.next (.demo 48)) (.demo 48) cancelledBeforeItsLookups = some w ∧
      w.tasks = [t] ∧ t.pc = .ended (.raised .cancelled) ∧ t.struck = [] ∧
      t.trail = [.reserved .demo] ∧
      w.service.store.balance (.tenant Fixtures.attackerTenantId .reserved) = 4 ∧
      w.service.store.balance (.period .reserved) = 4 := by
  have hstore : (replay (World.next (.demo 48)) (.demo 48) cancelledBeforeItsLookups).map (fun w =>
      (w.service.store.balance (.tenant Fixtures.attackerTenantId .reserved),
        w.service.store.balance (.period .reserved))) = some (4, 4) := by decide
  have htask : (replay (World.next (.demo 48)) (.demo 48) cancelledBeforeItsLookups).map (fun w =>
      w.tasks.map fun t => (t.pc, t.struck.isEmpty, t.trail)) =
      some [(.ended (.raised .cancelled), true, [.reserved .demo])] := by decide
  obtain ⟨w, hw, hbalances⟩ := Option.map_eq_some_iff.mp hstore
  rw [hw, Option.map_some, Option.some.injEq, List.map_eq_singleton_iff] at htask
  obtain ⟨t, htasks, hfacts⟩ := htask
  simp only [Prod.mk.injEq, List.isEmpty_iff] at hbalances hfacts
  obtain ⟨htenant, hperiod⟩ := hbalances
  obtain ⟨hpc, hstruck, htrail⟩ := hfacts
  exact ⟨w, t, hw, htasks, hpc, hstruck, htrail, htenant, hperiod⟩

end Limitless
