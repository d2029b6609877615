import Limitless.Lib.Indexed
import Limitless.Secure.History

/-!
# The shared figures are sums over the requests

Every figure the requests share is moved by one request at a time, by what that request gains: the
balances of the store by the effects on its trail, a limiter's count by the slot it takes or
leaves, and the provider's occupancy and bill by its lookup call. `Acted` and `Call.Handled` say
so of one step, `Moves` lists the steps of the world, and `World.Sound` is the invariant that
follows: each figure is what it was at the start and a sum over the requests.
-/

namespace Limitless

open Indexed Runs

/-! ## What a request counts for -/

/-- What an effect adds to an account. -/
def Effect.amount : Effect → Account → Int
  | reserved r, a => r.held.amount a
  | settled r lookups cents, a => (r.closed lookups cents).amount a
  | tookSlot, _ | leftSlot, _ | sent _, _ | upserted _, _ | insertedJob _, _ => 0

/-- What a trail adds to an account. -/
def amounts (trail : List Effect) (a : Account) : Int := total (·.amount a) trail

theorem amounts_append (l m : List Effect) (a : Account) :
    amounts (l ++ m) a = amounts l a + amounts m a := total_append _ l m

/-- The reservation a request has made. -/
def Pc.reservation? : Pc → Option Reservation
  | leavingConnection _ r | calling _ r _ | finishing _ r _ _ | handling _ r _ _ _
  | recording _ r _ _ _ => some r
  | authenticating | reading _ | takingConnection _ | reserving _ | listing _ _ _ | ended _ => none

/-- The rows of a reservation exist. -/
def Store.HasRows (s : Store) (r : Reservation) : Prop :=
  (s.allowance? r.tenantId).isSome ∧ s.period?.isSome

/-- One for a request in a slot of the replica. -/
def Task.slots (t : Task) (replica : Nat) : Int :=
  if t.request.replica = replica ∧ t.pc.holdsSlot = true then 1 else 0

/-- One for a request whose lookup call is inside `occupied()`. -/
def Task.occupies (t : Task) : Int := t.call.elim 0 (·.phase.occupies)

/-- The lookups a request's call has put on a tenant's bill. -/
def Task.billed (t : Task) (u : TenantId) : Int := t.call.elim 0 (·.billed u)

/-- A replica's slots in use. -/
def Service.occupancy (s : Service) (replica : Nat) : Int :=
  (s.limiters[replica]?).elim 0 InFlightLimiter.inFlight

theorem Store.Posted.hasRows {s s' : Store} {δ : Account → Int} (h : s.Posted δ s')
    {r : Reservation} (hr : s.HasRows r) : s'.HasRows r :=
  ⟨h.allowance_isSome hr.1, h.period_isSome hr.2⟩

/-- A write to the store. -/
def Effect.isWrite : Effect → Bool
  | reserved _ | upserted _ | settled _ _ _ | insertedJob _ => true
  | tookSlot | leftSlot | sent _ => false

/-- What the effects of a request write: the books move by them, the records and the jobs change
only if one of them says so, and without a write nothing does. -/
structure Store.Wrote (s : Store) (new : List Effect) (s' : Store) : Prop where
  posted : s.Posted (amounts new) s'
  records : (∀ entries, .upserted entries ∉ new) → s'.records = s.records
  jobs : (∀ jobId, .insertedJob jobId ∉ new) → s'.jobs = s.jobs
  unchanged : (∀ e ∈ new, e.isWrite = false) → s' = s

/-- Doing nothing to the store writes nothing. -/
theorem Store.wrote_of_amounts (s : Store) {new : List Effect} (h : ∀ a, amounts new a = 0) :
    s.Wrote new s :=
  ⟨⟨fun a => by rw [h, add_zero], fun _ => rfl, rfl⟩, fun _ => rfl, fun _ => rfl, fun _ => rfl⟩

/-- One write, with its posting. -/
theorem Store.wrote_one {s s' : Store} {e : Effect} (he : e.isWrite = true)
    (hposted : s.Posted e.amount s') (hrecords : (∀ entries, .upserted entries ∉ [e]) →
      s'.records = s.records) (hjobs : (∀ jobId, .insertedJob jobId ∉ [e]) → s'.jobs = s.jobs) :
    s.Wrote [e] s' := by
  refine ⟨⟨fun a => ?_, hposted.allowance, hposted.cap⟩, hrecords, hjobs, fun h => ?_⟩
  · rw [hposted.balance]
    simp [amounts]
  · rw [h e (List.mem_singleton_self e)] at he
    cases he

/-- A committed `settle` writes its effect. -/
theorem Store.settle_wrote {s s' : Store} {r : Reservation} {l c : Int}
    (h : s.settle r l c = .ok s') (hr : s.HasRows r) : s.Wrote [.settled r l c] s' := by
  obtain ⟨row, hrow⟩ := Option.isSome_iff_exists.mp hr.1
  obtain ⟨per, hper⟩ := Option.isSome_iff_exists.mp hr.2
  have hmoved := Store.settle_ok h hrow hper
  exact wrote_one rfl hmoved.posted (fun _ => hmoved.records) fun _ => hmoved.jobs

/-- A committed `reserve` writes its effect, on rows that exist. -/
theorem Store.reserve_wrote {s s' : Store} {u : TenantId} {l price : Int} {r : Reservation}
    (h : s.reserve u l price = .ok (s', r)) : s.Wrote [.reserved r] s' ∧ s'.HasRows r := by
  obtain ⟨_, rfl, hmoved, ⟨row, hrow, _⟩, ⟨per, hper, _⟩⟩ := Store.reserve_ok h
  have hrows : s.HasRows ⟨u, l * price, l⟩ := ⟨by rw [hrow]; rfl, by rw [hper]; rfl⟩
  exact ⟨wrote_one rfl hmoved.posted (fun _ => hmoved.records) fun _ => hmoved.jobs,
    hmoved.posted.hasRows hrows⟩

/-- `upsert_records` writes its effect. -/
theorem Store.upsertRecords_wrote (s : Store) (u : TenantId) (entries : List RecordEntry)
    (at' : Timestamp) : s.Wrote [.upserted entries] (s.upsertRecords u entries at') := by
  refine wrote_one rfl (s.upsertRecords_posted u entries at') (fun h => ?_) fun _ => ?_
  · exact absurd (List.mem_singleton_self _) (h entries)
  · unfold upsertRecords
    split <;> rfl

/-- A committed `insert_job` writes its effect. -/
theorem Store.insertJob_wrote {s s' : Store} {j : JobId} {u : TenantId} {n cents : Int}
    {by' : String} (h : s.insertJob j u n cents by' = .ok s') : s.Wrote [.insertedJob j] s' := by
  obtain ⟨hposted, hrecords⟩ := Store.insertJob_posted h
  exact wrote_one rfl hposted (fun _ => hrecords) fun h =>
    absurd (List.mem_singleton_self _) (h j)

/-! ## Limiters -/

namespace Service

variable {s : Service} {l l' : InFlightLimiter} {replica : Nat}

/-- Setting a replica's limiter moves its count alone. -/
theorem occupancy_set (h : s.limiters[replica]? = some l) (ρ : Nat) :
    occupancy { s with limiters := s.limiters.set replica l' } ρ =
      s.occupancy ρ + if replica = ρ then l'.inFlight - l.inFlight else 0 := by
  simp only [occupancy]
  by_cases hρ : replica = ρ
  · subst hρ
    rw [List.getElem?_set_self (List.getElem?_eq_some_iff.mp h).1, h]
    simp
  · rw [List.getElem?_set_ne hρ]
    simp [hρ]

/-- Leaving a slot, whichever limiter it is of. -/
theorem leaveSlot_cases (h : replica < s.limiters.length) :
    ∃ l, s.limiters[replica]? = some l ∧
      s.leaveSlot replica = { s with limiters := s.limiters.set replica l.leave } := by
  refine ⟨s.limiters[replica], List.getElem?_eq_getElem h, ?_⟩
  simp [leaveSlot, List.getElem?_eq_getElem h]

end Service

/-! ## One step of a request -/

/-- A step of a request: the shared figures move by what the request gains. -/
structure Acted (s : Service) (t : Task) (s' : Service) (t' : Task) : Prop where
  request : t'.request = t.request
  provider : s'.provider = s.provider
  call : t'.call = t.call ∨ t.call = none ∧
    ∃ w r payload, t'.pc = .calling w r .awaitResponse ∧ t'.call = some ⟨payload, .sent⟩
  books : ∃ new, t'.trail = t.trail ++ new ∧ s.store.Wrote new s'.store ∧
    (.tookSlot ∉ new → .leftSlot ∉ new → s'.limiters = s.limiters)
  rows : ∀ r, t'.pc.reservation? = some r → s'.store.HasRows r
  length : s'.limiters.length = s.limiters.length
  capacity : ∀ l' ∈ s'.limiters, ∃ l ∈ s.limiters, l'.capacity = l.capacity
  slots : ∀ ρ, s'.occupancy ρ = s.occupancy ρ + (t'.slots ρ - t.slots ρ)

variable {cfg : Config} {s s' : Service} {t t' : Task}

/-- A call that has just been sent counts for nothing yet. -/
theorem Acted.call_elim (h : Acted s t s' t') {f : Call → Int}
    (hf : ∀ payload, f ⟨payload, .sent⟩ = 0) : t'.call.elim 0 f = t.call.elim 0 f := by
  rcases h.call with hcall | ⟨hnone, _, _, payload, _, hsent⟩
  · rw [hcall]
  · rw [hnone, hsent]
    exact hf payload

theorem Acted.occupies (h : Acted s t s' t') : t'.occupies = t.occupies :=
  h.call_elim fun _ => rfl

theorem Acted.billed (h : Acted s t s' t') (u : TenantId) : t'.billed u = t.billed u :=
  h.call_elim fun _ => Call.billed_of_unanswered rfl u

/-- A step that writes the store, and is in its slot as before. -/
theorem acted_wrote {st : Store} {pc : Pc} {call : Option Call} {new : List Effect}
    {raised : List (Pc × Exception)}
    (hcall : call = t.call ∨ t.call = none ∧
      ∃ w r payload, pc = .calling w r .awaitResponse ∧ call = some ⟨payload, .sent⟩)
    (hwrote : s.store.Wrote new st) (hslot : pc.holdsSlot = t.pc.holdsSlot)
    (hrows : ∀ r, pc.reservation? = some r → st.HasRows r) :
    Acted s t { s with store := st } ⟨t.request, pc, call, t.trail ++ new, raised⟩ := by
  refine ⟨rfl, rfl, hcall, ⟨new, rfl, hwrote, fun _ _ => rfl⟩, hrows, rfl,
    fun l hl => ⟨l, hl, rfl⟩, fun ρ => ?_⟩
  simp only [Task.slots, hslot, Service.occupancy]
  omega

/-- A step that does nothing to the world. -/
theorem acted_goto {pc : Pc} (hslot : pc.holdsSlot = t.pc.holdsSlot)
    (hrows : ∀ r, pc.reservation? = some r → s.store.HasRows r) : Acted s t s (t.goto pc) := by
  have h : Acted s t s ⟨t.request, pc, t.call, t.trail ++ [], t.raised⟩ :=
    acted_wrote (.inl rfl) (s.store.wrote_of_amounts fun _ => rfl) hslot hrows
  simpa [Task.goto] using h

/-- Nor does one to a point without a reservation. -/
theorem acted_goto_free {pc : Pc} (hslot : pc.holdsSlot = t.pc.holdsSlot)
    (hfree : pc.reservation? = none) : Acted s t s (t.goto pc) := by
  refine acted_goto hslot fun r hr => ?_
  rw [hfree] at hr
  cases hr

/-- Nor does one that keeps its reservation. -/
theorem acted_goto_holding {pc : Pc} {r : Reservation} (hslot : pc.holdsSlot = t.pc.holdsSlot)
    (hr : pc.reservation? = some r) (hhas : s.store.HasRows r) : Acted s t s (t.goto pc) := by
  refine acted_goto hslot fun r' hr' => ?_
  obtain rfl : r = r' := Option.some.inj (hr.symm.trans hr')
  exact hhas

/-- A step that writes the store. -/
theorem acted_did {st : Store} {pc : Pc} {e : Effect} (hwrote : s.store.Wrote [e] st)
    (hslot : pc.holdsSlot = t.pc.holdsSlot)
    (hrows : ∀ r, pc.reservation? = some r → st.HasRows r) :
    Acted s t { s with store := st } (t.did e pc) :=
  acted_wrote (.inl rfl) hwrote hslot hrows

/-- A step that writes the store and keeps its reservation. -/
theorem acted_did_holding {st : Store} {pc : Pc} {e : Effect} {r : Reservation}
    (hwrote : s.store.Wrote [e] st) (hslot : pc.holdsSlot = t.pc.holdsSlot)
    (hr : pc.reservation? = some r) (hhas : s.store.HasRows r) :
    Acted s t { s with store := st } (t.did e pc) := by
  refine acted_did hwrote hslot fun r' hr' => ?_
  obtain rfl : r = r' := Option.some.inj (hr.symm.trans hr')
  exact hwrote.posted.hasRows hhas

/-- A step that takes or leaves a slot. -/
theorem acted_slot {l l' : InFlightLimiter} {pc : Pc} {e : Effect}
    {raised : List (Pc × Exception)} (hl : s.limiters[t.request.replica]? = some l)
    (hcap : l'.capacity = l.capacity)
    (hin : l'.inFlight - l.inFlight =
      (if pc.holdsSlot then 1 else 0) - if t.pc.holdsSlot then 1 else 0)
    (he : e = .tookSlot ∨ e = .leftSlot)
    (hrows : ∀ r, pc.reservation? = some r → s.store.HasRows r) :
    Acted s t { s with limiters := s.limiters.set t.request.replica l' }
      ⟨t.request, pc, t.call, t.trail ++ [e], raised⟩ := by
  have hwrote : s.store.Wrote [e] s.store := s.store.wrote_of_amounts fun a => by
    rcases he with rfl | rfl <;> rfl
  have hslot : .tookSlot ∉ [e] → .leftSlot ∉ [e] →
      s.limiters.set t.request.replica l' = s.limiters := by
    intro htook hleft
    rcases he with rfl | rfl
    exacts [absurd (List.mem_singleton_self _) htook, absurd (List.mem_singleton_self _) hleft]
  refine ⟨rfl, rfl, .inl rfl, ⟨[e], rfl, hwrote, hslot⟩, hrows, List.length_set .., ?_,
    fun ρ => ?_⟩
  · intro k hk
    rcases mem_of_mem_set hk with rfl | hk
    · exact ⟨l, List.mem_of_getElem? hl, hcap⟩
    · exact ⟨k, hk, rfl⟩
  · rw [Service.occupancy_set hl, hin]
    simp only [Task.slots]
    by_cases hρ : t.request.replica = ρ
    · simp [hρ]
    · simp [hρ]

theorem Task.raise_acted (exc : Exception) (hrep : t.request.replica < s.limiters.length)
    (hrows : ∀ r, t.pc.reservation? = some r → s.store.HasRows r) :
    Acted s t (t.raise s exc).1 (t.raise s exc).2 := by
  have hnext : ∀ r, (t.raise s exc).2.pc.reservation? = some r → s.store.HasRows r := by
    intro r hr
    refine hrows r ?_
    cases hpc : t.pc <;> simp_all [raise, Pc.frame?, Pc.reservation?]
  have hslot : (t.raise s exc).2.pc.holdsSlot = false := by
    cases hpc : t.pc <;> simp [raise, hpc, Pc.frame?, Pc.holdsSlot]
  cases hheld : t.pc.holdsSlot with
  | true =>
      obtain ⟨l, hl, hleave⟩ := Service.leaveSlot_cases hrep
      have hin : l.leave.inFlight - l.inFlight =
          (if (t.raise s exc).2.pc.holdsSlot then 1 else 0) - if t.pc.holdsSlot then 1 else 0 := by
        simp [hslot, hheld, InFlightLimiter.leave]
      have h : Acted s t { s with limiters := s.limiters.set t.request.replica l.leave }
          ⟨t.request, (t.raise s exc).2.pc, t.call, t.trail ++ [.leftSlot],
            t.raised ++ [(t.pc, exc)]⟩ :=
        acted_slot hl rfl hin (.inr rfl) hnext
      simpa [raise, hheld, hleave] using h
  | false =>
      have h : Acted s t s ⟨t.request, (t.raise s exc).2.pc, t.call, t.trail ++ [],
          t.raised ++ [(t.pc, exc)]⟩ :=
        acted_wrote (.inl rfl) (s.store.wrote_of_amounts fun _ => rfl)
          (hslot.trans hheld.symm) hnext
      simpa [raise, hheld] using h

theorem Task.fault_acted {f : Fault} (hrep : t.request.replica < s.limiters.length)
    (hrows : ∀ r, t.pc.reservation? = some r → s.store.HasRows r)
    (hf : t.fault s f = some (s', t')) : Acted s t s' t' := by
  unfold fault at hf
  split at hf
  · cases hf
  · cases f with
    | cancelled => cases hf; exact raise_acted _ hrep hrows
    | failed => cases hf; exact raise_acted _ hrep hrows
    | deadline =>
        simp only at hf
        split at hf
        · cases hf; exact raise_acted _ hrep hrows
        · cases hf

/-! ## The steps of a handler -/

section
variable (hrep : t.request.replica < s.limiters.length)
  (hrows : ∀ r, t.pc.reservation? = some r → s.store.HasRows r)
include hrep hrows

theorem Task.read_acted {u : TenantId} (hpc : t.pc = .reading u) :
    Acted s t (t.read cfg s u).1 (t.read cfg s u).2 := by
  unfold read
  split
  · split
    · exact raise_acted _ hrep hrows
    · exact acted_goto_free (by rw [hpc]; rfl) rfl
  · exact acted_goto_free (by rw [hpc]; rfl) rfl
  · exact acted_goto_free (by rw [hpc]; rfl) rfl
  all_goals exact raise_acted _ hrep hrows

theorem Task.reserve_acted {w : Work} (hpc : t.pc = .reserving w) :
    Acted s t (t.reserve cfg s w).1 (t.reserve cfg s w).2 := by
  unfold reserve
  split
  · next st r hr =>
      obtain ⟨hwrote, hhas⟩ := Store.reserve_wrote hr
      refine acted_did hwrote (by rw [hpc]; rfl) ?_
      rintro _ ⟨⟩
      exact hhas
  · exact raise_acted _ hrep hrows
  · exact raise_acted _ hrep hrows

theorem Task.lookUp_acted {w : Work} {r : Reservation} {p : CallPoint}
    (hpc : t.pc = .calling w r p) (hcall : p = .send → t.call = none)
    (hstep : t.lookUp s w r p = some (s', t')) : Acted s t s' t' := by
  have hhas : s.store.HasRows r := hrows r (by rw [hpc]; rfl)
  have hr : ∀ p' r', (Pc.calling w r p').reservation? = some r' → s.store.HasRows r' := by
    rintro p' _ ⟨⟩
    exact hhas
  cases p with
  | enterRequestDeadline => cases hstep; exact acted_goto_holding (by rw [hpc]; rfl) rfl hhas
  | enterSlot =>
      simp only [lookUp] at hstep
      split at hstep
      · cases hstep
      · next l hl =>
          split at hstep
          · cases hstep; exact raise_acted _ hrep hrows
          · next l' hl' =>
              obtain ⟨hcap, hin⟩ := InFlightLimiter.enter_ok hl'
              cases hstep
              refine acted_slot hl hcap ?_ (.inl rfl) (hr _)
              rw [hpc, hin]
              simp [Pc.holdsSlot]
  | enterUpstreamDeadline => cases hstep; exact acted_goto_holding (by rw [hpc]; rfl) rfl hhas
  | send =>
      cases hstep
      exact acted_wrote (.inr ⟨hcall rfl, w, r, _, rfl, rfl⟩)
        (s.store.wrote_of_amounts fun _ => rfl) (by rw [hpc]; rfl) (hr _)
  | awaitResponse =>
      simp only [lookUp] at hstep
      split at hstep
      · cases hstep
        exact acted_goto_holding (by rw [hpc]; rfl) rfl hhas
      · cases hstep

theorem Task.finish_acted {w : Work} {r : Reservation} {result : LookupResponse} {p : FinishPoint}
    (hpc : t.pc = .finishing w r result p) :
    Acted s t (t.finish cfg s w r result p).1 (t.finish cfg s w r result p).2 := by
  have hhas : s.store.HasRows r := hrows r (by rw [hpc]; rfl)
  cases p with
  | leaveUpstreamDeadline | leaveRequestDeadline | buildRecords | takeConnection =>
      exact acted_goto_holding (by rw [hpc]; rfl) rfl hhas
  | leaveSlot =>
      obtain ⟨l, hl, hleave⟩ := Service.leaveSlot_cases hrep
      simp only [finish, hleave]
      refine acted_slot hl rfl ?_ (.inr rfl) fun r' h => hrows r' (by rw [hpc]; exact h)
      rw [hpc]
      simp [Pc.holdsSlot, InFlightLimiter.leave]
  | upsertRecords =>
      have hw := s.store.upsertRecords_wrote w.tenantId (recordEntries cfg w.tenantId result) s.clock
      exact acted_did_holding hw (by rw [hpc]; rfl) rfl hhas
  | settle =>
      simp only [finish]
      split
      · exact raise_acted _ hrep hrows
      · next st hst =>
          exact acted_did_holding (Store.settle_wrote hst hhas) (by rw [hpc]; rfl) rfl hhas
  | leaveConnection =>
      simp only [finish]
      split
      · exact acted_goto_free (by rw [hpc]; rfl) rfl
      · exact acted_goto_holding (by rw [hpc]; rfl) rfl hhas

theorem Task.handle_acted {w : Work} {r : Reservation} {attempted : Bool} {exc : Exception}
    {p : HandlerPoint} (hpc : t.pc = .handling w r attempted exc p) :
    Acted s t (t.handle s w r attempted exc p).1 (t.handle s w r attempted exc p).2 := by
  have hhas : s.store.HasRows r := hrows r (by rw [hpc]; rfl)
  have hclosed : ∀ {st : Store} {l c : Int}, s.store.settle r l c = .ok st →
      Acted s t { s with store := st }
        (t.did (.settled r l c) (.handling w r attempted exc .leaveConnection)) := by
    intro st l c hst
    exact acted_did_holding (Store.settle_wrote hst hhas) (by rw [hpc]; rfl) rfl hhas
  cases p with
  | takeConnection =>
      exact acted_goto_holding (by rw [hpc]; rfl) rfl hhas
  | close =>
      simp only [handle]
      split
      · split
        · exact raise_acted _ hrep hrows
        · next hst => exact hclosed hst
      · split
        · exact raise_acted _ hrep hrows
        · next hst => exact hclosed hst
  | leaveConnection => exact acted_goto_free (by rw [hpc]; rfl) rfl

theorem Task.record_acted {w : Work} {r : Reservation} {result : LookupResponse} {jobId : JobId}
    {p : JobPoint} (hpc : t.pc = .recording w r result jobId p) :
    Acted s t (t.record cfg s w r result jobId p).1 (t.record cfg s w r result jobId p).2 := by
  have hhas : s.store.HasRows r := hrows r (by rw [hpc]; rfl)
  cases p with
  | takeConnection =>
      exact acted_goto_holding (by rw [hpc]; rfl) rfl hhas
  | insertJob =>
      simp only [record]
      split
      · exact raise_acted _ hrep hrows
      · next st hst =>
          exact acted_did_holding (Store.insertJob_wrote hst) (by rw [hpc]; rfl) rfl hhas
  | leaveConnection => exact acted_goto_free (by rw [hpc]; rfl) rfl

omit hrep hrows in
theorem Task.list_acted {u : TenantId} {n : Nat} {p : ListPoint} (hpc : t.pc = .listing u n p) :
    Acted s t (t.list s u n p).1 (t.list s u n p).2 := by
  cases p <;> exact acted_goto_free (by rw [hpc]; rfl) rfl

/-- **A step of a request moves the shared figures by what the request gains.** -/
theorem Task.advance_acted (hsound : t.Sound cfg) (hstep : t.advance cfg s = some (s', t')) :
    Acted s t s' t' := by
  have hacted : ∀ {x : Service × Task}, Acted s t x.1 x.2 → some x = some (s', t') →
      Acted s t s' t' := by
    rintro _ hx ⟨⟩
    exact hx
  unfold advance at hstep
  split at hstep
  · next hpc =>
      split at hstep
      · exact hacted (raise_acted _ hrep hrows) hstep
      · cases hstep
        exact acted_goto_free (by rw [hpc]; rfl) rfl
  · next hpc => exact hacted (read_acted hrep hrows hpc) hstep
  · next hpc =>
      cases hstep
      exact acted_goto_free (by rw [hpc]; rfl) rfl
  · next hpc => exact hacted (reserve_acted hrep hrows hpc) hstep
  · next hpc =>
      cases hstep
      exact acted_goto_holding (by rw [hpc]; rfl) rfl (hrows _ (by rw [hpc]; rfl))
  · next w r p hpc =>
      refine lookUp_acted hrep hrows hpc ?_ hstep
      rintro rfl
      have hlive := hsound.live (by rw [hpc]; rfl)
      rw [hpc] at hlive
      exact hlive.2.1
  · next hpc => exact hacted (finish_acted hrep hrows hpc) hstep
  · next hpc => exact hacted (handle_acted hrep hrows hpc) hstep
  · next hpc => exact hacted (record_acted hrep hrows hpc) hstep
  · next hpc => exact hacted (list_acted hpc) hstep
  · cases hstep

end

end Limitless
