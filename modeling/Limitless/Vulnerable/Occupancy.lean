import Limitless.Vulnerable.Connections
import Limitless.Vulnerable.Pool
import Mathlib.Tactic.Ring

/-!
# How much runs at the provider, and how little fills a pool

The unbounded application has no cap on the calls it has in flight, and yet it has one: a request
that waits for the provider keeps its connection, so no more of them wait than there are connections
(`in_flight_le_connections`), as long as no request is taken away from its call and none uses the
repair that calls the provider first. It takes as many ordinary requests to get there, and they fill
the pool for everybody else (`requests_fill_the_pool`).
-/

namespace Limitless.Vulnerable

open Indexed Runs Pools

/-! ## Running calls -/

/-- The lookup call of a request is on its way to the provider, or runs there. -/
def Task.isCalling (t : Task) : Bool := t.call.elim false (·.phase.isRunning)

/-- One for a request whose lookup call is inside `occupied()`. -/
def Task.occupies (t : Task) : Int := t.call.elim 0 (·.phase.occupies)

/-- The event takes no request away from a call that still runs, and no request arrives that will
call the provider before it has a connection. -/
def World.spares (w : World) : Event → Bool
  | .arrive request => parseHalfFix request.halfFix ≠ some .nonCancellingDeadline
  | .fault i _ | .timeOut i => w.tasks[i]?.all fun t => !t.isCalling
  | _ => true

/-- So it is with an event of the replicas. -/
def spares (p : Replicas World) : ReplicaEvent Event → Bool
  | .inside e => p.world.spares e
  | .ask _ | .advance _ | .fault _ _ => true

/-- The points of the repair that calls first. -/
def Pc.isEarly : Pc → Bool
  | enriching _ .callEarly | enriching _ .awaitEarly => true
  | _ => false

/-- A request whose call runs waits for it with a connection. -/
structure Task.Attended (t : Task) : Prop where
  repair : parseHalfFix t.request.halfFix ≠ some .nonCancellingDeadline
  onTime : t.pc.isEarly = false
  waits : t.isCalling = true → t.pc.awaits.isSome = true

variable {cfg : Config} {s s' : Service} {t t' : Task} {w w' : World} {e : Event}

/-- Who waits for the provider has a connection, but for the repair that calls first. -/
theorem Pc.holds_of_awaits {pc : Pc} (h : pc.awaits.isSome = true) (hearly : pc.isEarly = false) :
    pc.holdsConnection = true := by
  cases pc with
  | enriching b p =>
      cases p with
      | awaitEarly => cases hearly
      | awaitResponse => rfl
      | _ => cases h
  | importing b p =>
      cases p with
      | awaitResponse => rfl
      | _ => cases h
  | _ => cases h

/-- A request without a call runs none. -/
theorem Task.Fits.idle {priceCents : Int} (hfits : t.Fits priceCents) (hend : t.pc.isEnded = false)
    (hawaits : t.pc.awaits = none) : t.isCalling = false := by
  rw [Task.isCalling, (Pc.calls_none hawaits).mp (hfits hend)]
  rfl

/-- A step leaves the provider's count as it is. -/
theorem Step.occupies {priceCents : Int} (h : Step cfg s t s' t') (hfits : t.Fits priceCents) :
    t'.occupies = t.occupies := by
  have hend := h.not_ended
  cases h with
  | sends hpc =>
      simp [Task.occupies, Task.send, Task.did, (Pc.calls_none hpc.free.2).mp (hfits hend),
        CallPhase.occupies]
  | takes _ hcall => simp [Task.occupies, Task.receive, Task.did, hcall, CallPhase.occupies]
  | selects _ _ _ _ _ _ hout =>
      rcases hout with ⟨-, rfl⟩ | ⟨-, rfl⟩
      all_goals rfl
  | _ => rfl

/-- **Step lemma.** A request goes on without its call only once it has been answered. -/
theorem Step.attended {priceCents : Int} (h : Step cfg s t s' t') (hfits : t.Fits priceCents)
    (hattended : t.Attended) : t'.Attended := by
  obtain ⟨hrepair, honTime, hwaits⟩ := hattended
  have hend := h.not_ended
  have hidle : t.pc.awaits = none → t.isCalling = false := hfits.idle hend
  refine ⟨by rw [h.request]; exact hrepair, ?_, ?_⟩
  · cases h with
    | onward hpc | sends hpc | takes hpc | charges hpc | records hpc =>
        simp only [Task.goto, Task.send, Task.receive, Task.did]
        generalize t.pc = pc at hpc honTime ⊢
        cases hpc
        all_goals first | rfl | cases honTime
    | selects _ hfix _ _ _ _ hout =>
        rcases hout with ⟨-, rfl⟩ | ⟨-, rfl⟩
        · have hne : ¬ _ = HalfFix.nonCancellingDeadline := fun heq => hrepair (heq ▸ hfix)
          simp only [Task.did, if_neg hne]
          rfl
        · rfl
    | drains | upserts | inserts | refuses | collides => rfl
  · intro hcalling
    cases h with
    | sends _ hpayload => exact Option.isSome_of_eq_some hpayload
    | takes => cases hcalling
    | onward hpc | charges hpc | records hpc =>
        have hcalling' : t.isCalling = true := hcalling
        rw [hidle hpc.free.2.1] at hcalling'
        cases hcalling'
    | selects hpc _ _ _ _ _ hout =>
        have hcalling' : t.isCalling = true := by
          rcases hout with ⟨-, rfl⟩ | ⟨-, rfl⟩
          exacts [hcalling, hcalling]
        rw [hidle (by rw [hpc]; rfl)] at hcalling'
        cases hcalling'
    | drains hpc | upserts hpc | inserts hpc | collides hpc =>
        have hcalling' : t.isCalling = true := hcalling
        rw [hidle (by rw [hpc]; rfl)] at hcalling'
        cases hcalling'
    | refuses hpc =>
        have hcalling' : t.isCalling = true := hcalling
        have hawaits : t.pc.awaits = none := by
          generalize t.pc = pc at hpc ⊢
          cases hpc
          all_goals rfl
        rw [hidle hawaits] at hcalling'
        cases hcalling'

/-! ## The bound -/

/-- What the bound needs of the world: every running call is attended, and the provider's count is
of the requests' calls. -/
structure World.Attended (cfg : Config) (replicas : ℕ) (w : World) : Prop where
  fits : ∀ t ∈ w.tasks, t.Fits cfg.providerPriceCents
  attended : ∀ t ∈ w.tasks, t.Attended
  replica : ∀ t ∈ w.tasks, t.request.replica < replicas
  length : w.service.halfFixes.length = replicas
  price : w.service.provider.ledger.priceCentsPerLookup = cfg.providerPriceCents
  inFlight : w.service.provider.inFlight = total Task.occupies w.tasks

variable {replicas : ℕ}

/-- Nothing has arrived. -/
theorem World.start_attended (cfg : Config) (d : Database) (replicas allowanceCents : ℕ) :
    (World.start cfg d replicas allowanceCents).Attended cfg replicas where
  fits := by simp [World.start]
  attended := by simp [World.start]
  replica := by simp [World.start]
  length := List.length_replicate
  price := rfl
  inFlight := rfl

/-- A call that the provider works on is where its request says. -/
theorem World.Attended.serve (h : w.Attended cfg replicas) {i : ℕ} {c c' : Call}
    {q : ProviderState} (hi : w.tasks[i]? = some t) (hcall : t.call = some c)
    (hhandled : Call.Handled w.service.provider c q c') :
    World.Attended cfg replicas
      ⟨{ w.service with provider := q }, w.tasks.set i { t with call := some c' }⟩ := by
  have hmem := List.mem_of_getElem? hi
  have hattended := h.attended t hmem
  refine ⟨forall_mem_set ((h.fits t hmem).serve hcall hhandled.payload fun r hr => ?_) h.fits,
    forall_mem_set ⟨hattended.repair, hattended.onTime, fun _ => hattended.waits ?_⟩ h.attended,
    forall_mem_set (h.replica t hmem) h.replica, h.length, hhandled.price.trans h.price, ?_⟩
  · rw [hhandled.answered r hr, h.price]
  · rw [Task.isCalling, hcall]
    exact hhandled.running
  · refine hhandled.inFlight.trans ?_
    rw [h.inFlight, total_set _ _ hi]
    simp [Task.occupies, hcall]

/-- A request that ends while it has no running call. -/
theorem World.Attended.struck (h : w.Attended cfg replicas) {i : ℕ} (hi : w.tasks[i]? = some t)
    (hidle : t.isCalling = false) (exc : Exception) :
    World.Attended cfg replicas { w with tasks := w.tasks.set i (t.raise exc) } := by
  have hmem := List.mem_of_getElem? hi
  refine ⟨forall_mem_set nofun h.fits, forall_mem_set ⟨(h.attended t hmem).repair, rfl, ?_⟩
    h.attended, forall_mem_set (h.replica t hmem) h.replica, h.length, h.price, ?_⟩
  · intro hcalling
    have hcalling' : t.isCalling = true := hcalling
    rw [hidle] at hcalling'
    cases hcalling'
  · refine h.inFlight.trans ?_
    rw [total_set _ _ hi]
    simp [Task.occupies, Task.raise]

/-- **Step lemma.** An event that spares the running calls keeps them attended, and the high-water
mark follows the count. -/
theorem World.Attended.step (h : w.Attended cfg replicas) (hspares : w.spares e = true)
    (hnext : w.next cfg e = some w') : w'.Attended cfg replicas ∧
      w'.service.provider.peakInFlight ≤
        max w.service.provider.peakInFlight w'.service.provider.inFlight := by
  cases e with
  | arrive request =>
      rw [World.next] at hnext
      split at hnext
      · next hreplica =>
          cases hnext
          have hrepair : parseHalfFix request.halfFix ≠ some .nonCancellingDeadline := by
            simpa [World.spares] using hspares
          have hattended : (Task.arrived request).Attended := by
            refine ⟨hrepair, rfl, ?_⟩
            intro hcalling
            cases hcalling
          refine ⟨⟨forall_mem_concat h.fits fun _ => rfl,
            forall_mem_concat h.attended hattended,
            forall_mem_concat h.replica (hreplica.trans_eq h.length), h.length, h.price, ?_⟩,
            le_max_left _ _⟩
          refine h.inFlight.trans ?_
          simp [Task.occupies, Task.arrived]
      · cases hnext
  | advance i =>
      obtain ⟨t, s', t', hi, hstep, rfl⟩ := World.act_eq_some hnext
      have hstep := step_of_advance hstep
      have hmem := List.mem_of_getElem? hi
      have hfits := h.fits t hmem
      obtain ⟨new, -, hwrote⟩ := hstep.wrote
      refine ⟨⟨forall_mem_set (hstep.fits hfits) h.fits,
        forall_mem_set (hstep.attended hfits (h.attended t hmem)) h.attended,
        forall_mem_set ?_ h.replica, hwrote.length.trans h.length, ?_, ?_⟩, ?_⟩
      · rw [hstep.request]
        exact h.replica t hmem
      · rw [hwrote.provider]
        exact h.price
      · rw [hwrote.provider, h.inFlight, total_set _ _ hi, hstep.occupies hfits]
        omega
      · rw [hwrote.provider]
        exact le_max_left _ _
  | fault i f =>
      have hact : (w.act i fun s t => t.fault s f) = some w' := hnext
      obtain ⟨t, s', t', hi, hstep, rfl⟩ := World.act_eq_some hact
      have hidle : t.isCalling = false := by simpa [World.spares, hi] using hspares
      unfold Task.fault at hstep
      split at hstep
      · cases hstep
      · cases hstep
        exact ⟨h.struck hi hidle _, le_max_left _ _⟩
  | timeOut i =>
      have hact : (w.act i fun s t => t.timeOut s) = some w' := hnext
      obtain ⟨t, s', t', hi, hstep, rfl⟩ := World.act_eq_some hact
      have hidle : t.isCalling = false := by simpa [World.spares, hi] using hspares
      unfold Task.timeOut at hstep
      split at hstep
      · cases hstep
        exact ⟨h.struck hi hidle _, le_max_left _ _⟩
      · cases hstep
  | resume i =>
      obtain ⟨t, c, q, c', hi, hcall, hstep, rfl⟩ := World.serve_eq_some hnext
      have hhandled := Call.resume_handled hstep
      exact ⟨h.serve hi hcall hhandled, hhandled.peak⟩
  | abort i =>
      obtain ⟨t, c, q, c', hi, hcall, hstep, rfl⟩ := World.serve_eq_some hnext
      have hhandled := Call.abort_handled hstep
      exact ⟨h.serve hi hcall hhandled, hhandled.peak⟩
  | release =>
      cases hnext
      refine ⟨⟨List.forall_mem_map.mpr fun t ht => (h.fits t ht).wake,
        List.forall_mem_map.mpr fun t ht => ?_, List.forall_mem_map.mpr h.replica, h.length,
        h.price, ?_⟩, le_max_left _ _⟩
      · have hattended := h.attended t ht
        refine ⟨hattended.repair, hattended.onTime, fun hcalling => hattended.waits ?_⟩
        cases hc : t.call with
        | none => simp [Task.isCalling, hc] at hcalling
        | some c => simpa [Task.isCalling, hc] using hcalling
      · refine h.inFlight.trans ?_
        rw [total_map]
        refine total_congr fun t _ => ?_
        cases hc : t.call <;> simp [Task.occupies, hc]
  | hold | slow on | tick =>
      cases hnext
      exact ⟨⟨h.fits, h.attended, h.replica, h.length, h.price, h.inFlight⟩, le_max_left _ _⟩

/-- While every running call is attended, the provider works on no more than connections are
taken. -/
theorem World.Attended.inFlight_le (h : w.Attended cfg replicas) :
    w.service.provider.inFlight ≤ total (fun ρ => (w.held ρ : Int)) (List.range replicas) := by
  have hone : ∀ t ∈ w.tasks, t.occupies ≤ if t.pc.holdsConnection then 1 else 0 := by
    intro t ht
    cases hcalling : t.isCalling with
    | true =>
        have hattended := h.attended t ht
        rw [Pc.holds_of_awaits (hattended.waits hcalling) hattended.onTime, if_pos rfl]
        unfold Task.occupies
        cases t.call with
        | none => exact Int.zero_le_ofNat 1
        | some c => exact c.phase.occupies_le_one
    | false =>
        have hzero : t.occupies = 0 := by
          unfold Task.isCalling at hcalling
          unfold Task.occupies
          cases hc : t.call with
          | none => rfl
          | some c =>
              rw [hc] at hcalling
              exact CallPhase.occupies_of_not_isRunning hcalling
        rw [hzero]
        split <;> omega
  calc w.service.provider.inFlight
      = total Task.occupies w.tasks := h.inFlight
    _ ≤ total (fun t => if t.pc.holdsConnection then 1 else 0) w.tasks := total_le_total hone
    _ = total (fun ρ => (w.held ρ : Int)) (List.range replicas) := by
        rw [← total_keyed _ (fun t : Task => t.request.replica) h.replica]
        refine total_congr fun ρ _ => ?_
        rw [World.held, ← total_countP]
        refine total_congr fun t _ => ?_
        simp [Task.holdsAt, ite_and]

variable {size : ℕ → ℕ} {p : Replicas World} {d : Database} {allowanceCents : ℕ}

/-- **The pool is a cap.** In every run of any number of replicas, each with its own pool of
connections, in which no request is taken away from a call that still runs and none uses the repair
that calls first: the provider works on at most as many calls as the replicas have connections
between them, and never has worked on more. -/
theorem in_flight_le_connections {es : List (ReplicaEvent Event)}
    (hrun : Run (restrict (fun p e => spares p e = true) (Steps (pooled cfg size)))
      (.start (.start cfg d replicas allowanceCents)) es p) :
    p.world.service.provider.inFlight ≤ total (fun ρ => (size ρ : Int)) (List.range replicas) ∧
      p.world.service.provider.peakInFlight ≤
        total (fun ρ => (size ρ : Int)) (List.range replicas) := by
  have hbound : ∀ {q : Replicas World}, (∀ ρ, (variant cfg).clients.held q ρ ≤ size ρ) →
      q.world.Attended cfg replicas →
      q.world.service.provider.inFlight ≤
        total (fun ρ => (size ρ : Int)) (List.range replicas) := by
    intro q hheld hattended
    refine hattended.inFlight_le.trans (total_le_total fun ρ _ => ?_)
    exact Int.ofNat_le.mpr ((Nat.le_add_right _ _).trans (hheld ρ))
  have h : (∀ ρ, (variant cfg).clients.held p ρ ≤ size ρ) ∧ p.world.Attended cfg replicas ∧
      p.world.service.provider.peakInFlight ≤
        total (fun ρ => (size ρ : Int)) (List.range replicas) := by
    refine hrun.invariant (I := fun q => (∀ ρ, (variant cfg).clients.held q ρ ≤ size ρ) ∧
      q.world.Attended cfg replicas ∧ q.world.service.provider.peakInFlight ≤
        total (fun ρ => (size ρ : Int)) (List.range replicas)) ?_
      ⟨fun ρ => Nat.zero_le _, World.start_attended cfg d replicas allowanceCents,
        total_nonneg fun ρ _ => Int.natCast_nonneg (size ρ)⟩
    rintro a e b ⟨hheld, hattended, hpeak⟩ ⟨hspares, hstep⟩
    have hheld' := Clients.held_le (.cons hstep .nil) hheld
    cases Replicas.moves_of_next (Clients.guarded_eq_some.mp hstep).2 with
    | inside hw =>
        obtain ⟨hattended', hpeak'⟩ := hattended.step hspares hw
        exact ⟨hheld', hattended', hpeak'.trans (max_le hpeak (hbound hheld' hattended'))⟩
    | asked | advanced | struck => exact ⟨hheld', hattended, hpeak⟩
  exact ⟨hbound h.1 h.2.1, h.2.2⟩

/-- One request of two has the one connection, and its call runs. -/
def oneOfTwo : List (ReplicaEvent Event) :=
  [.inside (.arrive .demo), .inside (.arrive .demo)] ++
    List.replicate 7 (.inside (.advance 0)) ++ List.replicate 3 (.inside (.advance 1)) ++
    [.inside (.resume 0)]

theorem in_flight_le_one_connection :
    ∃ p, Run (restrict (fun p e => spares p e = true) (Steps (pooled (.demo 4) fun _ => 1)))
        (.start (.start (.demo 4) .demo 1 40000)) oneOfTwo p ∧
      p.world.service.provider.inFlight = 1 ∧ p.world.service.provider.peakInFlight ≤
        total (fun _ => ((1 : ℕ) : Int)) (List.range 1) := by
  have hfigures : (replay (fun a e => if spares a e then pooled (.demo 4) (fun _ => 1) a e
      else none) (.start (.start (.demo 4) .demo 1 40000)) oneOfTwo).map
        (fun p => p.world.service.provider.inFlight) = some 1 := by decide
  obtain ⟨p, hp, hone⟩ := Option.map_eq_some_iff.mp hfigures
  have hrun := run_of_replay_checked (p := spares) hp
  exact ⟨p, hrun, hone, (in_flight_le_connections hrun).2⟩

/-! ## Filling a pool -/

/-- It arrives as the request of a number, and goes on until it waits for the provider. -/
def occupy (q : Request) (k : ℕ) : List (ReplicaEvent Event) :=
  .inside (.arrive q) :: List.replicate 7 (.inside (.advance k))

/-- The provider is held, and so many of them go on until they wait. -/
def fillPool (q : Request) (n : ℕ) : List (ReplicaEvent Event) :=
  .inside .hold :: (List.range n).flatMap (occupy q)

/-- The last request of the world goes on. -/
theorem pooled_advance_last {tasks : List Task} {readers : List CommonReader}
    (hstep : t.advance cfg s = some (s', t')) (hadmits : t.pc.takesConnection = true →
      (tasks ++ [t]).countP (·.holdsAt t.request.replica) +
        readers.countP (·.holdsAt t.request.replica) < size t.request.replica) :
    pooled cfg size ⟨⟨s, tasks ++ [t]⟩, readers⟩ (.inside (.advance tasks.length)) =
      some ⟨⟨s', tasks ++ [t']⟩, readers⟩ := by
  refine Clients.guarded_eq_some.mpr ⟨Clients.admits_iff.mpr fun ρ htakes => ?_, ?_⟩
  · have htakes' : World.takes ⟨s, tasks ++ [t]⟩ (.advance tasks.length) = some ρ := htakes
    simp only [World.takes, List.getElem?_concat_length] at htakes'
    obtain ⟨u, hu, rfl⟩ := Option.map_eq_some_iff.mp htakes'
    obtain ⟨rfl, htook⟩ : t = u ∧ u.pc.takesConnection = true := by
      simpa [Option.filter_eq_some_iff] using hu
    exact hadmits htook
  · show ((World.act ⟨s, tasks ++ [t]⟩ tasks.length fun s t => t.advance cfg s).map _) = _
    simp [World.act, hstep]

/-- What so many of these requests have come to: each waits at the held provider with a connection,
and the pool has room for more. -/
structure Filling (q : Request) (n : ℕ) (replicas : ℕ) (room : Int) (p : Replicas World) :
    Prop where
  length : p.world.tasks.length = n
  stuck : ∀ t ∈ p.world.tasks, t.stuckAt q.replica = true
  readers : p.readers = []
  held : p.world.service.provider.released = false
  replicas : p.world.service.halfFixes.length = replicas
  room : HasRoom p.world.service.database.store room

/-- **One more.** An ordinary request that finds a connection and room in the pool goes on until it
waits for the provider, and keeps its connection. -/
theorem Filling.step {q : Request} {u : TenantId} {names : List String} {n : ℕ} {rest : Int}
    (hq : q.Ordinary u names) (hreplica : q.replica < replicas) (hn : n < size q.replica)
    (hrest : 0 ≤ rest) (h : Filling q n replicas (names.length * cfg.priceCents + rest) p) :
    ∃ p', Run (Steps (pooled cfg size)) p (occupy q n) p' ∧ Filling q (n + 1) replicas rest p' := by
  obtain ⟨⟨s, tasks⟩, readers⟩ := p
  obtain ⟨rfl, hstuck, rfl, hheld, hlength, hroom⟩ := h
  obtain ⟨hprincipal, hpayload, hrepair⟩ := hq
  let e : Enrichment := ⟨u, names⟩
  -- the request at its points, and the services after the repair, the charge and the record
  obtain ⟨state, hstate⟩ : ∃ state, s.halfFixes[q.replica]? = some state :=
    ⟨_, List.getElem?_eq_getElem (hreplica.trans_eq hlength.symm)⟩
  let s₁ : Service := { s with halfFixes := s.halfFixes.set q.replica state }
  let t₀ := Task.arrived q
  let t₁ := t₀.goto (.reading u)
  let t₂ := t₁.goto (.enriching e .select)
  let t₃ := t₂.did (.granted q.replica .none (HalfFixState.keyFor .none u q.clientId)
    (names.length * cfg.priceCents)) (.enriching e (.takeConnection none))
  let t₄ := t₃.goto (.enriching e (.chargePool none))
  let t₅ := t₄.did (.charged (names.length * cfg.priceCents)) (.enriching e (.recordWork none))
  obtain ⟨store, hcharge, hleft⟩ := chargePool_of_hasRoom cfg s₁ t₄ t₅
    (t₄.raise (.limitReached .allowanceExhausted .enrich))
    (hroom.mono (le_add_of_nonneg_right hrest))
  have hroom' : HasRoom store rest := (hleft rest).mpr hroom
  let s₂ : Service := { s₁ with database := { s₁.database with store := store } }
  let t₆ := t₅.did (.recordedWork u names.length (names.length * cfg.priceCents))
    (.enriching e (.callProvider none))
  obtain ⟨database, hrecord⟩ := s₂.database.recordAdmittedWork_isOk u
    (Int.natCast_nonneg names.length) (Int.natCast_nonneg (names.length * cfg.priceCents))
  have hstore : database.store = store := (Database.recordAdmittedWork_ok hrecord).1
  let s₃ : Service := { s₂ with database := database }
  let t₇ := t₆.send ⟨u, names, true⟩ (.enriching e .awaitResponse)
  have harrive : pooled cfg size ⟨⟨s, tasks⟩, []⟩ (.inside (.arrive q)) =
      some ⟨⟨s, tasks ++ [t₀]⟩, []⟩ := by
    refine Clients.guarded_eq_some.mpr ⟨Clients.admits_of_takes_none rfl, ?_⟩
    show ((World.next cfg ⟨s, tasks⟩ (.arrive q)).map _) = _
    simp only [World.next, if_pos (hreplica.trans_eq hlength.symm)]
    rfl
  have h₁ : t₀.advance cfg s = some (s, t₁) := by
    simp only [t₀, Task.advance, Task.arrived, hprincipal]
    rfl
  have h₂ : t₁.advance cfg s = some (s, t₂) := by
    simp only [t₁, t₀, Task.advance, Task.goto, Task.read, Task.arrived, hpayload]
    rfl
  have h₃ : t₂.advance cfg s = some (s₁, t₃) := by
    show t₂.select cfg s e = _
    have hrequest : t₂.request = q := rfl
    simp only [Task.select, hrequest, hrepair, hstate, HalfFixState.consult, if_true]
    rfl
  have h₄ : t₃.advance cfg s₁ = some (s₁, t₄) := rfl
  have h₅ : t₄.advance cfg s₁ = some (s₂, t₅) := congrArg some hcharge
  have h₆ : t₅.advance cfg s₂ = some (s₃, t₆) := by
    show some (t₅.recordWork cfg s₂ u names.length (.enriching e (.callProvider none))) = _
    simp only [Task.recordWork, hrecord]
    rfl
  have h₇ : t₆.advance cfg s₃ = some (s₃, t₇) := rfl
  have hfree : ∀ {t : Task}, t.pc.takesConnection = false → t.pc.takesConnection = true →
      (tasks ++ [t]).countP (·.holdsAt t.request.replica) +
        ([] : List CommonReader).countP (·.holdsAt t.request.replica) < size t.request.replica := by
    intro t hnot htakes
    rw [hnot] at htakes
    cases htakes
  have hconnection : (tasks ++ [t₃]).countP (·.holdsAt q.replica) +
      ([] : List CommonReader).countP (·.holdsAt q.replica) < size q.replica := by
    have hcount : tasks.countP (·.holdsAt q.replica) ≤ tasks.length := List.countP_le_length
    have hlast : t₃.holdsAt q.replica = false := by
      simp [Task.holdsAt, t₃, Task.did, Pc.holdsConnection]
    simp only [List.countP_append, List.countP_singleton, hlast, List.countP_nil]
    simp only at hn
    simp
    omega
  refine ⟨⟨⟨s₃, tasks ++ [t₇]⟩, []⟩, ?_, by simp, ?_, rfl, hheld, ?_, ?_⟩
  · exact .cons harrive (.cons (pooled_advance_last h₁ (hfree rfl))
      (.cons (pooled_advance_last h₂ (hfree rfl)) (.cons (pooled_advance_last h₃ (hfree rfl))
        (.cons (pooled_advance_last h₄ fun _ => hconnection)
          (.cons (pooled_advance_last h₅ (hfree rfl)) (.cons (pooled_advance_last h₆ (hfree rfl))
            (.cons (pooled_advance_last h₇ (hfree rfl)) .nil)))))))
  · exact forall_mem_concat hstuck (by
      simp [Task.stuckAt, Task.holdsAt, t₇, Task.send, Task.did, Pc.holdsConnection, Pc.awaits,
        CallPhase.isHeld, t₆, t₅, t₄, t₃, t₂, t₁, t₀, Task.goto, Task.arrived])
  · simp only [s₃, s₂, s₁, List.length_set]
    exact hlength
  · show HasRoom database.store rest
    rw [hstore]
    exact hroom'

/-- The provider is held before anything arrives. -/
def holding (cfg : Config) (d : Database) (replicas allowanceCents : ℕ) : World :=
  (World.start cfg d replicas allowanceCents).withProvider
    (ProviderState.initial cfg.providerPriceCents).hold

theorem filling_zero {q : Request} {room : Int} (hroom : HasRoom d.store room) :
    Filling q 0 replicas room (.start (holding cfg d replicas allowanceCents)) where
  length := rfl
  stuck := by simp [Replicas.start, holding, World.withProvider, World.start]
  readers := rfl
  held := rfl
  replicas := List.length_replicate
  room := hroom

/-- **Filling a pool.** As many ordinary requests as a replica has connections, each for work that
the pool can pay for, take them all: with the provider held, they leave it jammed. -/
theorem requests_fill_the_pool {q : Request} {u : TenantId} {names : List String}
    (hq : q.Ordinary u names) (hreplica : q.replica < replicas)
    (hroom : HasRoom d.store (size q.replica * (names.length * cfg.priceCents))) :
    ∃ p, Run (Steps (pooled cfg size)) (.start (.start cfg d replicas allowanceCents))
        (fillPool q (size q.replica)) p ∧
      Jammed size q.replica p.world ∧ p.world.tasks.length = size q.replica ∧
      (variant cfg).clients.held p q.replica = size q.replica := by
  have hfill : ∀ n ≤ size q.replica, ∃ p, Run (Steps (pooled cfg size))
      (.start (.start cfg d replicas allowanceCents)) (fillPool q n) p ∧
      Filling q n replicas ((size q.replica - n : ℕ) * (names.length * cfg.priceCents)) p := by
    intro n
    induction n with
    | zero =>
        intro _
        have hhold : pooled cfg size (.start (.start cfg d replicas allowanceCents))
            (.inside .hold) = some (.start (holding cfg d replicas allowanceCents)) := rfl
        refine ⟨_, .cons hhold .nil, filling_zero ?_⟩
        rw [Nat.sub_zero]
        exact hroom
    | succ n ih =>
        intro hn
        obtain ⟨p, hrun, hfilling⟩ := ih (by omega)
        have hsplit : ((size q.replica - n : ℕ) : Int) * (names.length * cfg.priceCents) =
            names.length * cfg.priceCents +
              (size q.replica - (n + 1) : ℕ) * (names.length * cfg.priceCents) := by
          have : size q.replica - n = (size q.replica - (n + 1)) + 1 := by omega
          rw [this]
          push_cast
          ring
        rw [hsplit] at hfilling
        have hn' : n < size q.replica := by omega
        obtain ⟨p', hrun', hfilling'⟩ := hfilling.step hq hreplica hn' (by positivity)
        refine ⟨p', ?_, hfilling'⟩
        have hevents : fillPool q (n + 1) = fillPool q n ++ occupy q n := by
          simp [fillPool, List.range_succ]
        rw [hevents]
        exact hrun.append hrun'
  obtain ⟨p, hrun, hfilling⟩ := hfill _ le_rfl
  have hfull : p.world.tasks.countP (·.stuckAt q.replica) = size q.replica := by
    rw [List.countP_eq_length.mpr hfilling.stuck, hfilling.length]
  refine ⟨p, hrun, ⟨hfilling.held, hfull.ge⟩, hfilling.length, ?_⟩
  show p.world.held q.replica + p.readers.countP (·.holdsAt q.replica) = size q.replica
  rw [hfilling.readers, World.held, List.countP_nil, Nat.add_zero]
  refine (List.countP_eq_length.mpr fun t ht => ?_).trans hfilling.length
  exact (Task.stuckAt_iff.mp (hfilling.stuck t ht)).1

/-- Two requests, and the two connections of a replica. -/
theorem two_requests_fill_two_connections :
    ∃ p, Run (Steps (pooled (.demo 4) fun _ => 2)) (.start (.start (.demo 4) .demo 1 40000))
        (fillPool .demo 2) p ∧ Jammed (fun _ => 2) 0 p.world := by
  have hroom : HasRoom Database.demo.store (2 * (1 * (Config.demo 4).priceCents)) :=
    ⟨_, rfl, by decide⟩
  have hordinary : Request.demo.Ordinary Fixtures.attackerTenantId [Fixtures.companyName 1] :=
    ⟨rfl, rfl, rfl⟩
  obtain ⟨p, hrun, hjam, -⟩ := @requests_fill_the_pool (.demo 4) 1 (fun _ => 2) .demo 40000
    .demo Fixtures.attackerTenantId [Fixtures.companyName 1] hordinary Nat.one_pos hroom
  exact ⟨p, hrun, hjam⟩

end Limitless.Vulnerable
