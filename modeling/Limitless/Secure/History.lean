import Limitless.Secure.World

/-!
# What the point a request stands at says of its past

`Pc.trail` is what a request has done by the time it stands at a point no exception has struck,
and `Pc.Fits` where its lookup call is by then. A request in the `except` handler has done what the
point the exception struck had behind it, has left its slot, and has closed its reservation from
`leaveConnection` on. A request that has ended is one of these that took its last step. `Sound`
says all this, and every step of a request and of its call keeps it (`advance_sound`,
`fault_sound`, `Sound.serve`). What the later modules ask of a request is read off `Sound`.
-/

namespace Limitless

/-! ## Points without an exception -/

/-- What has been done by a point before the answer. -/
def CallPoint.trail (w : Work) (r : Reservation) : CallPoint → List Effect
  | enterRequestDeadline | enterSlot => [.reserved r]
  | enterUpstreamDeadline | send => [.reserved r, .tookSlot]
  | awaitResponse => [.reserved r, .tookSlot, .sent w.lookupRequest]

/-- What has been done by a point after the answer. -/
def FinishPoint.trail (cfg : Config) (w : Work) (r : Reservation) (result : LookupResponse) :
    FinishPoint → List Effect
  | leaveUpstreamDeadline | leaveSlot => [.reserved r, .tookSlot, .sent w.lookupRequest]
  | leaveRequestDeadline | buildRecords | takeConnection | upsertRecords =>
    [.reserved r, .tookSlot, .sent w.lookupRequest, .leftSlot]
  | settle =>
    [.reserved r, .tookSlot, .sent w.lookupRequest, .leftSlot,
      .upserted (recordEntries cfg w.tenantId result)]
  | leaveConnection =>
    [.reserved r, .tookSlot, .sent w.lookupRequest, .leftSlot,
      .upserted (recordEntries cfg w.tenantId result),
      .settled r result.lookups result.centsCharged]

/-- What has been done by a point of the end of an import, beyond `perform_lookups`. -/
def JobPoint.trail (jobId : JobId) : JobPoint → List Effect
  | takeConnection | insertJob => []
  | leaveConnection => [.insertedJob jobId]

/-- How the `except` handler closes a reservation. -/
def Reservation.closing (r : Reservation) (attempted : Bool) : Effect :=
  if attempted then .settled r r.lookups r.cents else .settled r 0 0

/-- What has been done by a point of the `except` handler, beyond the `try` block. -/
def HandlerPoint.trail (r : Reservation) (attempted : Bool) : HandlerPoint → List Effect
  | takeConnection | close => []
  | leaveConnection => [r.closing attempted]

namespace Pc

/-- What a request at the point has done, when no exception has struck it. -/
def trail (cfg : Config) : Pc → List Effect
  | leavingConnection _ r => [.reserved r]
  | calling w r p => p.trail w r
  | finishing w r result p => p.trail cfg w r result
  | recording w r result jobId p =>
    FinishPoint.leaveConnection.trail cfg w r result ++ p.trail jobId
  | authenticating | reading _ | takingConnection _ | reserving _ | handling _ _ _ _ _
  | listing _ _ _ | ended _ => []

/-- What unwinding the contexts of the `try` block adds. -/
def unwound (pc : Pc) : List Effect := if pc.holdsSlot then [.leftSlot] else []

/-- The reservation is the one `store.reserve` makes for the work. -/
def Priced (cfg : Config) : Pc → Prop
  | leavingConnection w r | calling w r _ | finishing w r _ _ | handling w r _ _ _
  | recording w r _ _ _ => r = w.reservation cfg.priceCents
  | authenticating | reading _ | takingConnection _ | reserving _ | listing _ _ _ | ended _ => True

/-- Where the lookup call of a request at the point is, when no exception has struck it: on its way
or answered while the request waits for it, answered once the request has gone on. -/
def Fits (cfg : Config) (call : Option Call) : Pc → Prop
  | calling w _ .awaitResponse => ∃ c, call = some c ∧ c.payload = w.lookupRequest ∧
      ∀ result, c.phase = .answered result →
        result = w.lookupRequest.response cfg.providerPriceCents
  | finishing w _ result _ | recording w _ result _ _ =>
    call = some ⟨w.lookupRequest, .answered result⟩ ∧
      result = w.lookupRequest.response cfg.providerPriceCents
  | _ => call = none

/-- The points that refuse, and the refusals of each. -/
inductive Refuses : Pc → Exception → Prop
  | unauthorized : Refuses authenticating .unauthorized
  | malformed {u : TenantId} : Refuses (reading u) .badRequest
  | tooLarge {u : TenantId} {op : RefusedOperation} :
      Refuses (reading u) (.limitReached .inputTooLarge op)
  | exhausted {w : Work} {op : RefusedOperation} :
      Refuses (reserving w) (.limitReached .allowanceExhausted op)
  | shed {w : Work} {r : Reservation} {op : RefusedOperation} :
      Refuses (calling w r .enterSlot) (.limitReached .capacityShed op)

end Pc

/-- A `401`, a `400`, or a refusal by a bound, by the reservation or by the slot: every refusal but
an expired deadline. -/
def Exception.isRefusal : Exception → Bool
  | unauthorized | badRequest | limitReached _ _ => true
  | deadlineExpired _ | store _ | cancelled | failed => false

/-! ## Histories -/

/-- A request at `pc`, not yet ended, with this call and this past. -/
def Live (cfg : Config) (pc : Pc) (call : Option Call) (trail : List Effect)
    (raised : List (Pc × Exception)) : Prop :=
  pc.Priced cfg ∧
  match pc with
  | .ended _ => False
  | .handling w r attempted exc p =>
    ∃ struck : Pc, struck.frame? = some (w, r) ∧ struck.attempted = attempted ∧
      (exc.isRefusal = true → struck.Refuses exc) ∧ struck.Fits cfg call ∧ raised = [(struck, exc)] ∧
      trail = struck.trail cfg ++ struck.unwound ++ p.trail r attempted
  | pc => pc.Fits cfg call ∧ raised = [] ∧ trail = pc.trail cfg

/-- The last steps that raise nothing. -/
inductive Exits (cfg : Config) : Pc → Ending → Prop
  | enriched {w : Work} {r : Reservation} {result : LookupResponse} : w.job = none →
      Exits cfg (.finishing w r result .leaveConnection)
        (.responded (.enriched w.tenantId (enrichedRecords cfg w.tenantId result).length
          result.lookups result.centsCharged (enrichedRecords cfg w.tenantId result)))
  | imported {w : Work} {r : Reservation} {result : LookupResponse} {jobId : JobId} :
      Exits cfg (.recording w r result jobId .leaveConnection)
        (.responded (.imported jobId w.tenantId .completed
          (enrichedRecords cfg w.tenantId result).length result.centsCharged))
  | page {tenantId : TenantId} {pageSize : Nat} {page : RecordPage} :
      Exits cfg (.listing tenantId pageSize (.leaveConnection page)) (.responded (.page page))
  | raised {w : Work} {r : Reservation} {attempted : Bool} {exc : Exception} :
      Exits cfg (.handling w r attempted exc .leaveConnection) (.raised exc)

/-- A request that has ended, from the point of its last step. -/
def Left (cfg : Config) (e : Ending) (call : Option Call) (trail : List Effect)
    (raised : List (Pc × Exception)) : Prop :=
  ∃ last before, Live cfg last call trail before ∧
    ((Exits cfg last e ∧ raised = before) ∨
      ∃ exc, e = .raised exc ∧ last.frame? = none ∧ (exc.isRefusal = true → last.Refuses exc) ∧
        raised = before ++ [(last, exc)])

/-- A request's past is what its point says. -/
def Task.Sound (cfg : Config) (t : Task) : Prop :=
  Live cfg t.pc t.call t.trail t.raised ∨
    ∃ e, t.pc = .ended e ∧ Left cfg e t.call t.trail t.raised

variable {cfg : Config} {s s' : Service} {t t' : Task}

/-- A request that has not ended is live. -/
theorem Task.Sound.live (h : t.Sound cfg) (hpc : t.pc.isEnded = false) :
    Live cfg t.pc t.call t.trail t.raised := by
  rcases h with h | ⟨e, he, _⟩
  · exact h
  · rw [he] at hpc
    cases hpc

/-- A point of the `try` block has its reservation behind it. -/
theorem Pc.reserved_of_frame {pc : Pc} {w : Work} {r : Reservation} (h : pc.frame? = some (w, r)) :
    .reserved r ∈ pc.trail cfg := by
  cases pc with
  | calling w' r' p => cases h; cases p <;> simp [trail, CallPoint.trail]
  | finishing w' r' result p => cases h; cases p <;> simp [trail, FinishPoint.trail]
  | _ => cases h

theorem Live.reserved {pc : Pc} {call : Option Call} {trail : List Effect}
    {raised : List (Pc × Exception)} (h : Live cfg pc call trail raised) :
    trail = [] ∨ ∃ r, .reserved r ∈ trail := by
  obtain ⟨_, h⟩ := h
  cases pc with
  | ended e => exact h.elim
  | handling w r attempted exc p =>
      obtain ⟨struck, hframe, _, _, _, _, rfl⟩ := h
      refine .inr ⟨r, ?_⟩
      simp [Pc.reserved_of_frame hframe]
  | calling w r p | finishing w r result p =>
      obtain ⟨_, _, rfl⟩ := h
      exact .inr ⟨r, Pc.reserved_of_frame rfl⟩
  | leavingConnection w r | recording w r result jobId p =>
      obtain ⟨_, _, rfl⟩ := h
      exact .inr ⟨r, by simp [Pc.trail, FinishPoint.trail]⟩
  | authenticating | reading | takingConnection | reserving | listing => exact .inl h.2.2

/-- A request that has done nothing has sent nothing. -/
theorem Live.uncalled {pc : Pc} {call : Option Call} {raised : List (Pc × Exception)}
    (h : Live cfg pc call [] raised) : call = none := by
  obtain ⟨_, h⟩ := h
  cases pc with
  | ended e => exact h.elim
  | handling w r attempted exc p =>
      obtain ⟨struck, hframe, _, _, _, _, htrail⟩ := h
      have hres : .reserved r ∈ struck.trail cfg := Pc.reserved_of_frame hframe
      rw [eq_comm, List.append_eq_nil_iff, List.append_eq_nil_iff] at htrail
      rw [htrail.1.1] at hres
      cases hres
  | calling w r p | finishing w r result p =>
      obtain ⟨_, _, htrail⟩ := h
      cases p <;> cases htrail
  | leavingConnection | recording => cases h.2.2
  | authenticating | reading | takingConnection | reserving | listing => exact h.1

/-- A refusal outside the `try` block is not the slot's, and finds nothing done. -/
theorem Live.refused {pc : Pc} {call : Option Call} {trail : List Effect}
    {raised : List (Pc × Exception)} {exc : Exception} (h : Live cfg pc call trail raised)
    (hframe : pc.frame? = none) (hrefuses : pc.Refuses exc) :
    (∀ op, exc ≠ .limitReached .capacityShed op) ∧ call = none ∧ trail = [] := by
  cases hrefuses with
  | shed => cases hframe
  | _ => exact ⟨fun op => by simp, h.2.1, h.2.2.2⟩

/-- A refusal that the `except` handler re-raises is the slot's: the reservation is released, and
nothing was sent. -/
theorem Live.shed {w : Work} {r : Reservation} {call : Option Call} {trail : List Effect}
    {raised : List (Pc × Exception)} {attempted : Bool} {exc : Exception}
    (h : Live cfg (.handling w r attempted exc .leaveConnection) call trail raised)
    (hexc : exc.isRefusal = true) :
    (∃ op, exc = .limitReached .capacityShed op) ∧ r = w.reservation cfg.priceCents ∧
      call = none ∧ trail = [.reserved r, .settled r 0 0] := by
  obtain ⟨hpriced, struck, hframe, rfl, hrefuses, hfits, _, rfl⟩ := h
  cases hrefuses hexc with
  | @shed w' r' op =>
      cases hframe
      exact ⟨⟨op, rfl⟩, hpriced, hfits, rfl⟩
  | _ => cases hframe

/-- A request that has ended took its last step somewhere. -/
theorem Task.Sound.left (h : t.Sound cfg) (hend : t.pc.isEnded = true) :
    ∃ e, t.pc = .ended e ∧ Left cfg e t.call t.trail t.raised := by
  rcases h with ⟨_, hlive⟩ | h
  · cases hpc : t.pc with
    | ended e => rw [hpc] at hlive; exact hlive.elim
    | _ => rw [hpc] at hend; cases hend
  · exact h

/-- A request that has done anything has reserved. -/
theorem Task.Sound.reserved (h : t.Sound cfg) : t.trail = [] ∨ ∃ r, .reserved r ∈ t.trail := by
  rcases h with h | ⟨_, _, _, _, hlast, _⟩
  exacts [h.reserved, hlast.reserved]

theorem Task.arrived_sound (request : Request) : (Task.arrived request).Sound cfg :=
  .inl ⟨trivial, rfl, rfl, rfl⟩

/-! ## Steps of a request -/

/-- An exception keeps a history sound, wherever it strikes. -/
theorem Task.raise_sound {exc : Exception} (h : Live cfg t.pc t.call t.trail t.raised)
    (hexc : exc.isRefusal = true → t.pc.Refuses exc) : (t.raise s exc).2.Sound cfg := by
  obtain ⟨hpriced, hlive⟩ := id h
  cases hframe : t.pc.frame? with
  | none =>
      -- outside the `try` block the request ends, and it holds no slot there
      have hslot : t.pc.holdsSlot = false := by
        cases hpc : t.pc <;> simp_all [Pc.frame?, Pc.holdsSlot]
      refine .inr ⟨.raised exc, by simp [raise, hframe], t.pc, t.raised, ?_, .inr ⟨exc, rfl, hframe,
        hexc, rfl⟩⟩
      simpa [raise, hslot] using h
  | some frame =>
      obtain ⟨w, r⟩ := frame
      refine .inl ?_
      have htrail : (if t.pc.holdsSlot then t.trail ++ [.leftSlot] else t.trail) =
          t.trail ++ t.pc.unwound := by
        unfold Pc.unwound
        split <;> simp
      simp only [raise, hframe, htrail]
      cases hpc : t.pc with
      | calling w' r' p =>
          rw [hpc] at hpriced hlive hframe hexc
          cases hframe
          obtain ⟨hfits, hraised, htr⟩ := hlive
          exact ⟨hpriced, _, rfl, rfl, hexc, hfits, by rw [hraised]; rfl, by
            rw [htr]; simp [HandlerPoint.trail]⟩
      | finishing w' r' result p =>
          rw [hpc] at hpriced hlive hframe hexc
          cases hframe
          obtain ⟨hfits, hraised, htr⟩ := hlive
          exact ⟨hpriced, _, rfl, rfl, hexc, hfits, by rw [hraised]; rfl, by
            rw [htr]; simp [HandlerPoint.trail]⟩
      | _ => simp [hpc, Pc.frame?] at hframe

/-- An error of a statement is no refusal. -/
theorem Task.raise_store_sound (e : StoreError) (h : Live cfg t.pc t.call t.trail t.raised) :
    (t.raise s (.store e)).2.Sound cfg := by
  refine raise_sound h fun hrefusal => ?_
  cases hrefusal

/-- An exception from outside is no refusal. -/
theorem Task.fault_sound {f : Fault} (h : t.Sound cfg) (hf : t.fault s f = some (s', t')) :
    t'.Sound cfg := by
  unfold fault at hf
  split at hf
  · cases hf
  · next hpc =>
      have hlive := h.live (by simpa using hpc)
      have hraise : ∀ exc : Exception, exc.isRefusal = false → (t.raise s exc).2.Sound cfg :=
        fun exc hexc => raise_sound hlive fun h => by rw [hexc] at h; cases h
      cases f with
      | cancelled => cases hf; exact hraise .cancelled rfl
      | failed => cases hf; exact hraise .failed rfl
      | deadline =>
          simp only at hf
          split at hf
          · cases hf; exact hraise (.deadlineExpired _) rfl
          · cases hf

/-- Moving on keeps a history sound, when the next point says no more than has been done. -/
theorem Task.goto_sound {pc : Pc} (h : Live cfg pc t.call t.trail t.raised) :
    (t.goto pc).Sound cfg := .inl h

theorem Task.read_sound {u : TenantId} (hpc : t.pc = .reading u) (h : t.Sound cfg) :
    (t.read cfg s u).2.Sound cfg := by
  have hlive := h.live (by rw [hpc]; rfl)
  have htoo : ∀ op, (t.raise s (.limitReached .inputTooLarge op)).2.Sound cfg := fun op =>
    raise_sound hlive fun _ => hpc ▸ .tooLarge
  have hraise : ∀ (e : InputRefusal) op, (t.raise s (e.exception op)).2.Sound cfg := by
    intro e op
    cases e with
    | malformed => exact raise_sound hlive fun _ => hpc ▸ .malformed
    | tooLarge => exact htoo op
    | failed => exact raise_sound hlive fun h => by cases h
  rw [hpc] at hlive
  obtain ⟨_, hcall, hraised, htrail⟩ := hlive
  unfold read
  split
  · split
    · exact htoo _
    · exact goto_sound ⟨trivial, hcall, hraised, htrail⟩
  · exact goto_sound ⟨trivial, hcall, hraised, htrail⟩
  · exact goto_sound ⟨trivial, hcall, hraised, htrail⟩
  all_goals exact hraise _ _

theorem Task.reserve_sound {w : Work} (hpc : t.pc = .reserving w) (h : t.Sound cfg) :
    (t.reserve cfg s w).2.Sound cfg := by
  have hlive := h.live (by rw [hpc]; rfl)
  have hexhausted : ∀ op, (t.raise s (.limitReached .allowanceExhausted op)).2.Sound cfg :=
    fun op => raise_sound hlive fun _ => hpc ▸ .exhausted
  have hraise : ∀ e, (t.raise s (.store e)).2.Sound cfg := fun e => raise_store_sound e hlive
  rw [hpc] at hlive
  obtain ⟨_, hcall, hraised, htrail⟩ := hlive
  unfold reserve
  split
  · next store r hr =>
      obtain ⟨_, rfl, _⟩ := Store.reserve_ok hr
      refine .inl ⟨rfl, hcall, hraised, ?_⟩
      simp only [did, htrail, Pc.trail]
      rfl
  · exact hexhausted _
  · exact hraise _

theorem Task.lookUp_sound {w : Work} {r : Reservation} {p : CallPoint}
    (hpc : t.pc = .calling w r p) (h : t.Sound cfg) (hstep : t.lookUp s w r p = some (s', t')) :
    t'.Sound cfg := by
  have hlive := h.live (by rw [hpc]; rfl)
  have hshed : ∀ op, p = .enterSlot → (t.raise s (.limitReached .capacityShed op)).2.Sound cfg := by
    rintro op rfl
    exact raise_sound hlive fun _ => hpc ▸ .shed
  rw [hpc] at hlive
  obtain ⟨hpriced, hfits, hraised, htrail⟩ := hlive
  cases p with
  | enterRequestDeadline => cases hstep; exact .inl ⟨hpriced, hfits, hraised, htrail⟩
  | enterSlot =>
      simp only [lookUp] at hstep
      split at hstep
      · cases hstep
      · split at hstep
        · next kind hkind =>
            obtain rfl := InFlightLimiter.enter_error hkind
            cases hstep
            exact hshed _ rfl
        · cases hstep
          refine .inl ⟨hpriced, hfits, hraised, ?_⟩
          simp only [did, htrail]
          rfl
  | enterUpstreamDeadline => cases hstep; exact .inl ⟨hpriced, hfits, hraised, htrail⟩
  | send =>
      cases hstep
      refine .inl ⟨hpriced, ⟨_, rfl, rfl, fun result h => by cases h⟩, hraised, ?_⟩
      simp only [did, htrail]
      rfl
  | awaitResponse =>
      obtain ⟨c, hcall, hpayload, hanswer⟩ := hfits
      simp only [lookUp, hcall] at hstep
      obtain ⟨payload, phase⟩ := c
      cases phase with
      | answered result =>
          cases hstep
          obtain rfl : payload = w.lookupRequest := hpayload
          exact .inl ⟨hpriced, ⟨hcall, hanswer result rfl⟩, hraised, htrail⟩
      | _ => cases hstep

theorem Task.finish_sound {w : Work} {r : Reservation} {result : LookupResponse} {p : FinishPoint}
    (hpc : t.pc = .finishing w r result p) (h : t.Sound cfg) :
    (t.finish cfg s w r result p).2.Sound cfg := by
  have hlive := h.live (by rw [hpc]; rfl)
  have hraise : ∀ e, (t.raise s (.store e)).2.Sound cfg := fun e => raise_store_sound e hlive
  rw [hpc] at hlive
  obtain ⟨hpriced, hfits, hraised, htrail⟩ := id hlive
  cases p with
  | leaveUpstreamDeadline | leaveRequestDeadline | buildRecords | takeConnection =>
      exact .inl ⟨hpriced, hfits, hraised, htrail⟩
  | leaveSlot | upsertRecords =>
      refine .inl ⟨hpriced, hfits, hraised, ?_⟩
      simp only [finish, did, htrail]
      rfl
  | settle =>
      simp only [finish]
      split
      · exact hraise _
      · refine .inl ⟨hpriced, hfits, hraised, ?_⟩
        simp only [did, htrail]
        rfl
  | leaveConnection =>
      simp only [finish]
      split
      · next hjob =>
          exact .inr ⟨_, rfl, _, _, hlive, .inl ⟨.enriched hjob, rfl⟩⟩
      · refine .inl ⟨hpriced, hfits, hraised, ?_⟩
        simp only [goto, htrail]
        rfl

theorem Task.handle_sound {w : Work} {r : Reservation} {attempted : Bool} {exc : Exception}
    {p : HandlerPoint} (hpc : t.pc = .handling w r attempted exc p) (h : t.Sound cfg) :
    (t.handle s w r attempted exc p).2.Sound cfg := by
  have hlive := h.live (by rw [hpc]; rfl)
  have hraise : ∀ e, (t.raise s (.store e)).2.Sound cfg := fun e => raise_store_sound e hlive
  rw [hpc] at hlive
  obtain ⟨hpriced, struck, hframe, hatt, hexc, hfits, hraised, htrail⟩ := id hlive
  cases p with
  | takeConnection => exact .inl ⟨hpriced, struck, hframe, hatt, hexc, hfits, hraised, htrail⟩
  | close =>
      have hclosed : ∀ e, e = r.closing attempted →
          Task.Sound cfg (t.did e (.handling w r attempted exc .leaveConnection)) := by
        rintro e rfl
        refine .inl ⟨hpriced, struck, hframe, hatt, hexc, hfits, hraised, ?_⟩
        simp only [did, htrail, HandlerPoint.trail, List.append_nil]
      cases attempted with
      | true =>
          simp only [handle, if_true]
          split
          · exact hraise _
          · exact hclosed _ rfl
      | false =>
          simp only [handle, Bool.false_eq_true, if_false]
          split
          · exact hraise _
          · exact hclosed _ rfl
  | leaveConnection => exact .inr ⟨_, rfl, _, _, hlive, .inl ⟨.raised, rfl⟩⟩

theorem Task.record_sound {w : Work} {r : Reservation} {result : LookupResponse} {jobId : JobId}
    {p : JobPoint} (hpc : t.pc = .recording w r result jobId p) (h : t.Sound cfg) :
    (t.record cfg s w r result jobId p).2.Sound cfg := by
  have hlive := h.live (by rw [hpc]; rfl)
  have hraise : ∀ e, (t.raise s (.store e)).2.Sound cfg := fun e => raise_store_sound e hlive
  rw [hpc] at hlive
  obtain ⟨hpriced, hfits, hraised, htrail⟩ := id hlive
  cases p with
  | takeConnection => exact .inl ⟨hpriced, hfits, hraised, htrail⟩
  | insertJob =>
      simp only [record]
      split
      · exact hraise _
      · refine .inl ⟨hpriced, hfits, hraised, ?_⟩
        simp only [did, htrail]
        rfl
  | leaveConnection => exact .inr ⟨_, rfl, _, _, hlive, .inl ⟨.imported, rfl⟩⟩

theorem Task.list_sound {u : TenantId} {n : Nat} {p : ListPoint} (hpc : t.pc = .listing u n p)
    (h : t.Sound cfg) : (t.list s u n p).2.Sound cfg := by
  have hlive := h.live (by rw [hpc]; rfl)
  rw [hpc] at hlive
  obtain ⟨_, hcall, hraised, htrail⟩ := id hlive
  cases p with
  | takeConnection => exact .inl ⟨trivial, hcall, hraised, htrail⟩
  | readRecords => exact .inl ⟨trivial, hcall, hraised, htrail⟩
  | leaveConnection page => exact .inr ⟨_, rfl, _, _, hlive, .inl ⟨.page, rfl⟩⟩

/-- **A step of a request keeps its history sound.** -/
theorem Task.advance_sound (h : t.Sound cfg) (hstep : t.advance cfg s = some (s', t')) :
    t'.Sound cfg := by
  have hsnd : ∀ {x : Service × Task}, x.2.Sound cfg → some x = some (s', t') → t'.Sound cfg := by
    rintro _ hx ⟨⟩
    exact hx
  unfold advance at hstep
  split at hstep
  · next hpc =>
      have hlive := h.live (by rw [hpc]; rfl)
      split at hstep
      · exact hsnd (raise_sound hlive fun _ => hpc ▸ .unauthorized) hstep
      · rw [hpc] at hlive
        cases hstep
        exact .inl hlive
  · next hpc => exact hsnd (read_sound hpc h) hstep
  · next hpc =>
      have hlive := h.live (by rw [hpc]; rfl)
      rw [hpc] at hlive
      cases hstep
      exact .inl hlive
  · next hpc => exact hsnd (reserve_sound hpc h) hstep
  · next hpc =>
      have hlive := h.live (by rw [hpc]; rfl)
      rw [hpc] at hlive
      cases hstep
      exact .inl hlive
  · next hpc => exact lookUp_sound hpc h hstep
  · next hpc => exact hsnd (finish_sound hpc h) hstep
  · next hpc => exact hsnd (handle_sound hpc h) hstep
  · next hpc => exact hsnd (record_sound hpc h) hstep
  · next hpc => exact hsnd (list_sound hpc h) hstep
  · cases hstep

/-! ## Steps of a call -/

/-- A call that changes by a handler step, or is woken, still fits the point. -/
theorem Pc.Fits.serve {pc : Pc} {c c' : Call} (h : pc.Fits cfg (some c))
    (hpayload : c'.payload = c.payload)
    (hkeep : ∀ result, c.phase = .answered result → c'.phase = .answered result)
    (hnew : ∀ result, c'.phase = .answered result → c.phase = .answered result ∨
      result = c.payload.response cfg.providerPriceCents) : pc.Fits cfg (some c') := by
  cases pc with
  | calling w r p =>
      cases p with
      | awaitResponse =>
          obtain ⟨d, hd, hdp, hda⟩ := h
          cases hd
          refine ⟨c', rfl, hpayload.trans hdp, fun result hr => ?_⟩
          rcases hnew result hr with hc | hc
          · exact hda result hc
          · rw [hc, hdp]
      | _ => cases h
  | finishing w r result p =>
      obtain ⟨hd, hr⟩ := h
      cases hd
      refine ⟨?_, hr⟩
      obtain ⟨payload, phase⟩ := c'
      cases hkeep result rfl
      cases hpayload
      rfl
  | recording w r result j p =>
      obtain ⟨hd, hr⟩ := h
      cases hd
      refine ⟨?_, hr⟩
      obtain ⟨payload, phase⟩ := c'
      cases hkeep result rfl
      cases hpayload
      rfl
  | _ => cases h

/-- What keeps every point's fit keeps a history. -/
theorem Live.call {pc : Pc} {call call' : Option Call} {trail : List Effect}
    {raised : List (Pc × Exception)} (h : Live cfg pc call trail raised)
    (hcall : ∀ pc : Pc, pc.Fits cfg call → pc.Fits cfg call') : Live cfg pc call' trail raised := by
  obtain ⟨hpriced, h⟩ := h
  refine ⟨hpriced, ?_⟩
  cases pc with
  | handling w r attempted exc p =>
      obtain ⟨struck, hframe, hatt, hexc, hfits, hrest⟩ := h
      exact ⟨struck, hframe, hatt, hexc, hcall _ hfits, hrest⟩
  | ended e => exact h
  | _ =>
      obtain ⟨hfits, hrest⟩ := h
      exact ⟨hcall _ hfits, hrest⟩

theorem Task.Sound.call {call' : Option Call} (h : t.Sound cfg)
    (hcall : ∀ pc : Pc, pc.Fits cfg t.call → pc.Fits cfg call') :
    Task.Sound cfg { t with call := call' } := by
  rcases h with h | ⟨e, he, last, before, hlast, hend⟩
  · exact .inl (h.call hcall)
  · exact .inr ⟨e, he, last, before, hlast.call hcall, hend⟩

/-- **A handler step of its call keeps a request's history sound.** -/
theorem Task.Sound.serve {c c' : Call} {p p' : ProviderState} (h : t.Sound cfg)
    (hc : t.call = some c) (hserve : Call.Handled p c p' c')
    (hprice : p.ledger.priceCentsPerLookup = cfg.providerPriceCents) :
    Task.Sound cfg { t with call := some c' } := by
  refine h.call fun pc hfits => ?_
  rw [hc] at hfits
  refine hfits.serve hserve.payload (fun result hr => ?_) fun result hr => .inr ?_
  · have := hserve.running
    rw [hr] at this
    cases this
  · rw [hserve.answered result hr, hprice]

theorem Task.Sound.wake (h : t.Sound cfg) :
    Task.Sound cfg { t with call := t.call.map Call.wake } := by
  refine h.call fun pc hfits => ?_
  cases hc : t.call with
  | none => rw [hc] at hfits; exact hfits
  | some c =>
      rw [hc] at hfits
      exact hfits.serve c.wake_payload (fun _ hr => Call.wake_answered.mpr hr)
        fun _ hr => .inl (Call.wake_answered.mp hr)

end Limitless
