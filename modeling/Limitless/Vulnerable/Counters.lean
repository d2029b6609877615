import Limitless.Vulnerable.Invariant

/-!
# The counters of the repairs

An allowance that a process keeps is a counter of its own for each key. `Service.counters` reads the
counters of one key at every replica, with the allowance they are held to. A request moves one only
where its repair is asked (`Step.counters`), and only under the repair and the key that it names; so
whatever the requests and wherever they are sent, no counter passes the allowance, and all of them
together pass it at most once for each process (`granted_le`).
-/

namespace Limitless.Vulnerable

open Indexed Runs

/-! ## One process -/

namespace HalfFixState

/-- The allowance that a repair holds its keys to. -/
def allowanceCents (state : HalfFixState) (halfFix : HalfFix) : ℕ :=
  match halfFix with
  | .inProcessAllowance => state.inProcess.allowanceCents
  | .callerKeyedAllowance => state.callerKeyed.allowanceCents
  | .none | .requestRateLimit | .nonCancellingDeadline => 0

variable {state state' : HalfFixState} {halfFix halfFix' : HalfFix} {key key' : String}
  {cents : ℕ} {moment : Timestamp} {allowed : Bool}

theorem consult_allowanceCents (h : state.consult halfFix key cents moment = (allowed, state'))
    (halfFix' : HalfFix) : state'.allowanceCents halfFix' = state.allowanceCents halfFix' := by
  have hcharge : ∀ a : InProcessAllowance,
      (a.charge key cents).2.allowanceCents = a.allowanceCents := by
    intro a
    unfold InProcessAllowance.charge
    split <;> rfl
  obtain rfl : state' = (state.consult halfFix key cents moment).2 := by rw [h]
  cases halfFix <;> cases halfFix' <;>
    simp only [consult, allowanceCents, hcharge]

/-- A repair that keeps an allowance lets a request go on exactly where it fits. -/
theorem consult_iff (hkeeps : halfFix.keepsAllowance = true)
    (h : state.consult halfFix key cents moment = (allowed, state')) :
    allowed = true ↔ state.spentOn halfFix key + cents ≤ state.allowanceCents halfFix := by
  have hcharge : ∀ a : InProcessAllowance,
      (a.charge key cents).1 = true ↔ a.spent key + cents ≤ a.allowanceCents := by
    intro a
    unfold InProcessAllowance.charge
    split
    · simp_all
    · simp_all
  obtain rfl : allowed = (state.consult halfFix key cents moment).1 := by rw [h]
  cases halfFix with
  | inProcessAllowance => exact hcharge state.inProcess
  | callerKeyedAllowance => exact hcharge state.callerKeyed
  | none | requestRateLimit | nonCancellingDeadline => cases hkeeps

/-- What a repair remembers of the other keys, and of the other repair, stays as it is. -/
theorem consult_spentOn_of_ne (hne : ¬ (halfFix = halfFix' ∧ key = key'))
    (h : state.consult halfFix key cents moment = (allowed, state')) :
    state'.spentOn halfFix' key' = state.spentOn halfFix' key' := by
  have hspent := consult_spentOn state halfFix key cents moment halfFix' key'
  rw [h, if_neg (fun hall => hne ⟨hall.2.1, hall.2.2.1⟩)] at hspent
  simpa using hspent

/-- Under its own key it counts what it lets through. -/
theorem consult_spentOn_self (hkeeps : halfFix.keepsAllowance = true)
    (h : state.consult halfFix key cents moment = (allowed, state')) :
    state'.spentOn halfFix key = state.spentOn halfFix key + if allowed then cents else 0 := by
  have hspent := consult_spentOn state halfFix key cents moment halfFix key
  rw [h] at hspent
  simp only [hkeeps, and_true] at hspent
  exact_mod_cast hspent

end HalfFixState

/-! ## All processes -/

/-- The counters of a key, replica by replica, each with the allowance it is held to. -/
def Service.counters (s : Service) (halfFix : HalfFix) (key : String) (replica : ℕ) :
    Option (ℕ × ℕ) :=
  s.halfFixes[replica]?.map fun h => (h.spentOn halfFix key, h.allowanceCents halfFix)

/-- The request is counted by the repair, under the key. -/
def Request.Names (q : Request) (halfFix : HalfFix) (key : String) : Prop :=
  parseHalfFix q.halfFix = some halfFix ∧
    ∃ u, q.principal = some u ∧ HalfFixState.keyFor halfFix u q.clientId = key

/-- The tenant a request works for at a point. -/
def Pc.tenantId? : Pc → Option TenantId
  | .authenticating | .ended _ => none
  | .reading u => some u
  | .enriching e _ => some e.tenantId
  | .importing b _ => some b.tenantId

/-- It is the authenticated one. -/
def Task.Owned (t : Task) : Prop := ∀ u, t.pc.tenantId? = some u → t.request.principal = some u

variable {cfg : Config} {s s' : Service} {t t' : Task} {halfFix : HalfFix} {key : String}

/-- A request works for its caller throughout. -/
theorem Step.owned (h : Step cfg s t s' t') (ht : t.Owned) : t'.Owned := by
  have hkeep : ∀ {x : Task} {u : TenantId}, t.pc.tenantId? = some u → x.request = t.request →
      (x.pc.tenantId? = none ∨ x.pc.tenantId? = some u) → x.Owned := by
    intro x u hu hrequest hor v hv
    rw [hrequest]
    rcases hor with hnone | hsome
    · rw [hnone] at hv
      cases hv
    · rw [hsome] at hv
      cases hv
      exact ht u hu
  obtain ⟨q, pc, call, trail, raised⟩ := t
  cases h with
  | onward hpc =>
      cases hpc with
      | authenticated hu =>
          intro v hv
          cases hv
          exact hu
      | enriched | imported => exact hkeep rfl rfl (.inl rfl)
      | _ => exact hkeep rfl rfl (.inr rfl)
  | sends hpc | takes hpc | charges hpc | records hpc =>
      cases hpc <;> exact hkeep rfl rfl (.inr rfl)
  | selects hpc _ _ _ _ _ hout =>
      obtain rfl : pc = _ := hpc
      rcases hout with ⟨-, rfl⟩ | ⟨-, rfl⟩
      · exact hkeep rfl rfl (.inr rfl)
      · exact hkeep rfl rfl (.inl rfl)
  | drains hpc | upserts hpc | inserts hpc =>
      obtain rfl : pc = _ := hpc
      exact hkeep rfl rfl (.inr rfl)
  | refuses | collides =>
      intro v hv
      cases hv

/-- A step that does not ask a repair leaves all of them as they are. -/
theorem Step.halfFixes (h : Step cfg s t s' t') (hpc : ∀ e, t.pc ≠ .enriching e .select) :
    s'.halfFixes = s.halfFixes := by
  cases h with
  | selects hselect => exact absurd hselect (hpc _)
  | charges _ _ hfixes | records _ _ hfixes | upserts _ _ hfixes | inserts _ _ hfixes =>
      exact hfixes
  | onward | sends | takes | drains | refuses | collides => rfl

/-- Asking a repair sets the counters of one replica. -/
theorem counters_set {replica : ℕ} {state state' : HalfFixState}
    (hstate : s.halfFixes[replica]? = some state) (halfFix : HalfFix) (key : String) :
    Service.counters { s with halfFixes := s.halfFixes.set replica state' } halfFix key =
      Function.update (s.counters halfFix key) replica
        (some (state'.spentOn halfFix key, state'.allowanceCents halfFix)) := by
  funext k
  by_cases hk : replica = k
  · subst hk
    have hlt := (List.getElem?_eq_some_iff.mp hstate).1
    simp [Service.counters, hlt]
  · rw [Function.update_of_ne (Ne.symm hk)]
    simp [Service.counters, List.getElem?_set_ne hk]

/-- A step of a request that is not counted under a key leaves the counters of the key alone. -/
theorem Step.counters (h : Step cfg s t s' t') (ht : t.Owned)
    (hnames : ¬ t.request.Names halfFix key) :
    s'.counters halfFix key = s.counters halfFix key := by
  by_cases hpc : ∀ e, t.pc ≠ .enriching e .select
  · unfold Service.counters
    rw [h.halfFixes hpc]
  · push Not at hpc
    obtain ⟨e, hselect⟩ := hpc
    obtain ⟨q, pc, call, trail, raised⟩ := t
    obtain rfl : pc = _ := hselect
    cases h with
    | onward hpc | sends hpc | takes hpc | charges hpc | records hpc => cases hpc
    | @selects e' halfFix' key' cents state state' allowed t' hpc hfix hkey _ hstate hconsult _ =>
        cases hpc
        have hprincipal : q.principal = some e.tenantId := ht _ rfl
        have hne : ¬ (halfFix' = halfFix ∧ key' = key) := by
          rintro ⟨rfl, rfl⟩
          exact hnames ⟨hfix, e.tenantId, hprincipal, hkey.symm⟩
        rw [counters_set hstate, HalfFixState.consult_spentOn_of_ne hne hconsult,
          HalfFixState.consult_allowanceCents hconsult]
        refine Function.update_eq_self_iff.mpr ?_
        show some _ = (s.halfFixes[q.replica]?).map _
        rw [hstate]
        rfl
    | drains hpc | upserts hpc | inserts hpc | collides hpc => cases hpc
    | refuses => rfl

/-! ## In any run -/

/-- What an effect has been let through by a repair, under a key, at whatever replica. -/
def Effect.grantedTo (halfFix : HalfFix) (key : String) : Effect → Int
  | .granted _ h k cents => if h = halfFix ∧ k = key then cents else 0
  | _ => 0

/-- The replica that let it through. -/
def Effect.grantReplica : Effect → ℕ
  | .granted replica _ _ _ => replica
  | _ => 0

/-- What a request has been let through by a repair, under a key. -/
def Task.granted (halfFix : HalfFix) (key : String) (t : Task) : Int :=
  total (Effect.grantedTo halfFix key) t.trail

/-- The process holds every key to the allowance. -/
def HalfFixState.Holds (allowanceCents : ℕ) (state : HalfFixState) : Prop :=
  ∀ halfFix : HalfFix, halfFix.keepsAllowance = true →
    state.allowanceCents halfFix = allowanceCents ∧
      ∀ key, state.spentOn halfFix key ≤ allowanceCents

/-- Every process holds every key to the allowance, and a request has been let through only by
replicas there are. -/
structure Held (allowanceCents : ℕ) (w : World) : Prop where
  spent : ∀ state ∈ w.service.halfFixes, state.Holds allowanceCents
  replica : ∀ t ∈ w.tasks, ∀ e ∈ t.trail, e.grantReplica < w.service.halfFixes.length

variable {w w' : World} {allowanceCents : ℕ} {e : Event} {es : List Event}

/-- A process that asks its repair keeps to the allowance. -/
theorem HalfFixState.Holds.consult {state state' : HalfFixState} {halfFix' : HalfFix}
    {key' : String} {cents : ℕ} {moment : Timestamp} {allowed : Bool}
    (hholds : state.Holds allowanceCents)
    (h : state.consult halfFix' key' cents moment = (allowed, state')) :
    state'.Holds allowanceCents := by
  intro halfFix hkeeps
  obtain ⟨hallowance, hspent⟩ := hholds halfFix hkeeps
  refine ⟨(consult_allowanceCents h halfFix).trans hallowance, fun key => ?_⟩
  by_cases hsame : halfFix' = halfFix ∧ key' = key
  · obtain ⟨rfl, rfl⟩ := hsame
    rw [consult_spentOn_self hkeeps h]
    split
    · next hallowed =>
        have := (consult_iff hkeeps h).mp hallowed
        omega
    · exact hspent key'
  · rw [consult_spentOn_of_ne hsame h]
    exact hspent key

theorem Step.holds (h : Step cfg s t s' t')
    (hs : ∀ state ∈ s.halfFixes, state.Holds allowanceCents) :
    ∀ state ∈ s'.halfFixes, state.Holds allowanceCents := by
  by_cases hpc : ∀ e, t.pc ≠ .enriching e .select
  · rwa [h.halfFixes hpc]
  · push Not at hpc
    obtain ⟨e, hselect⟩ := hpc
    cases h with
    | selects _ _ _ _ hstate hconsult _ =>
        exact forall_mem_set ((hs _ (List.mem_of_getElem? hstate)).consult hconsult) hs
    | onward | sends | takes | drains | refuses | collides => exact hs
    | charges _ _ hfixes | records _ _ hfixes | upserts _ _ hfixes | inserts _ _ hfixes =>
        rwa [hfixes]

/-- A step lets its request through, if at all, at the request's own replica. -/
theorem Step.grantReplica (h : Step cfg s t s' t') {e : Effect} (he : e ∈ t'.trail) :
    e ∈ t.trail ∨ e.grantReplica = 0 ∨ e.grantReplica < s.halfFixes.length := by
  cases h with
  | selects _ _ _ _ hstate _ hout =>
      rcases hout with ⟨-, rfl⟩ | ⟨-, rfl⟩
      · rcases List.mem_append.mp he with he | he
        · exact .inl he
        · cases List.mem_singleton.mp he
          exact .inr (.inr (List.getElem?_eq_some_iff.mp hstate).1)
      · exact .inl he
  | onward | refuses | collides => exact .inl he
  | sends | takes | charges | drains | records | upserts | inserts =>
      rcases List.mem_append.mp he with he | he
      · exact .inl he
      · cases List.mem_singleton.mp he
        exact .inr (.inl rfl)

/-- **Step lemma.** An event keeps every counter inside the allowance. -/
theorem Held.step (hpos : 0 < w.service.halfFixes.length) (h : Held allowanceCents w)
    (hnext : w.next cfg e = some w') : Held allowanceCents w' := by
  cases moves_of_next hnext with
  | arrived =>
      exact ⟨h.spent, forall_mem_concat h.replica (by simp [Task.arrived])⟩
  | advanced hi hadvance =>
      have hmem := List.mem_of_getElem? hi
      have hstep := step_of_advance hadvance
      obtain ⟨new, -, hwrote⟩ := hstep.wrote
      refine ⟨hstep.holds h.spent, ?_⟩
      rw [hwrote.length]
      refine forall_mem_set (fun e he => ?_) h.replica
      rcases hstep.grantReplica he with hold | hzero | hnew
      · exact h.replica _ hmem e hold
      · rw [hzero]
        exact hpos
      · exact hnew
  | struck hi | timedOut hi | served _ hi =>
      refine ⟨h.spent, forall_mem_set ?_ h.replica⟩
      exact fun e he => h.replica _ (List.mem_of_getElem? hi) e he
  | woke =>
      exact ⟨h.spent, List.forall_mem_map.mpr h.replica⟩
  | quiet => exact ⟨h.spent, h.replica⟩

theorem Held.start (cfg : Config) (d : Database) (replicas allowanceCents : ℕ) :
    Held allowanceCents (.start cfg d replicas allowanceCents) where
  spent state hmem := by
    obtain rfl := List.eq_of_mem_replicate hmem
    intro halfFix hkeeps
    cases halfFix with
    | inProcessAllowance | callerKeyedAllowance => exact ⟨rfl, fun _ => Nat.zero_le _⟩
    | none | requestRateLimit | nonCancellingDeadline => cases hkeeps
  replica := by simp [World.start]

/-- **Run lemma.** In any run, no counter passes the allowance. -/
theorem Held.run {d : Database} {replicas : ℕ} (hreplicas : 1 ≤ replicas)
    (hrun : Run (Steps (World.next cfg)) (.start cfg d replicas allowanceCents) es w) :
    Held allowanceCents w := by
  have hboth := hrun.invariant
    (I := fun w => Sound cfg (World.start cfg d replicas allowanceCents).service w ∧
      Held allowanceCents w)
    (fun a e b ⟨hs, hheld⟩ hnext => ⟨hs.step hnext, hheld.step
      (by rw [hs.length, World.start, List.length_replicate]; exact hreplicas) hnext⟩)
    ⟨.start cfg d replicas allowanceCents, .start cfg d replicas allowanceCents⟩
  exact hboth.2

/-- The counter of a key at a replica counts what was let through there. -/
theorem counter_amount (hkeeps : halfFix.keepsAllowance = true) (replica : ℕ) (e : Effect) :
    e.amount (.counter replica halfFix key) =
      if e.grantReplica = replica then e.grantedTo halfFix key else 0 := by
  cases e with
  | granted r h k cents =>
      by_cases hh : h = halfFix
      · subst hh
        simp only [Effect.amount, Effect.grantReplica, Effect.grantedTo, hkeeps, and_true, true_and]
        split_ifs <;> first | rfl | (exfalso; tauto)
      · simp [Effect.amount, Effect.grantedTo, hh]
  | _ => simp [Effect.amount, Effect.grantedTo]

/-- What the requests have been let through under a key is at most the allowance of every
process. -/
theorem granted_le {d : Database} {replicas : ℕ} (hreplicas : 1 ≤ replicas)
    (hrun : Run (Steps (World.next cfg)) (.start cfg d replicas allowanceCents) es w)
    (hkeeps : halfFix.keepsAllowance = true) (key : String) :
    total (Task.granted halfFix key) w.tasks ≤ replicas * allowanceCents := by
  have hs := (Sound.start cfg d replicas allowanceCents).run hrun
  have hheld := Held.run hreplicas hrun
  have hlength : w.service.halfFixes.length = replicas := by
    rw [hs.length]
    simp [World.start]
  have hcounter : ∀ k ∈ List.range replicas,
      w.service.balance (.counter k halfFix key) ≤ allowanceCents := by
    intro k hk
    have hlt : k < w.service.halfFixes.length := by
      rw [hlength]
      exact List.mem_range.mp hk
    simp only [Service.balance, List.getElem?_eq_getElem hlt, Option.elim_some]
    exact_mod_cast ((hheld.spent _ (List.getElem_mem hlt)) halfFix hkeeps).2 key
  calc total (Task.granted halfFix key) w.tasks
      = total (Effect.grantedTo halfFix key) (w.tasks.flatMap Task.trail) :=
        (total_flatMap _ _ _).symm
    _ = total (fun k => total (fun e => if e.grantReplica = k then e.grantedTo halfFix key else 0)
          (w.tasks.flatMap Task.trail)) (List.range replicas) := by
        refine (total_keyed _ Effect.grantReplica fun e he => ?_).symm
        obtain ⟨t, ht, he⟩ := List.mem_flatMap.mp he
        exact hlength ▸ hheld.replica t ht e he
    _ = total (fun k => w.service.balance (.counter k halfFix key)) (List.range replicas) := by
        refine total_congr fun k hk => ?_
        have hzero : (World.start cfg d replicas allowanceCents).service.balance
            (.counter k halfFix key) = 0 := by
          simp only [World.start, Service.balance,
            List.getElem?_replicate_of_lt (List.mem_range.mp hk), Option.elim_some]
          cases halfFix <;> rfl
        rw [hs.books (.counter k halfFix key) trivial, hzero, zero_add, total_flatMap]
        exact total_congr fun t _ => total_congr fun e _ => (counter_amount hkeeps k e).symm
    _ ≤ total (fun _ => (allowanceCents : Int)) (List.range replicas) := total_le_total hcounter
    _ = replicas * allowanceCents := by
        unfold total
        rw [List.map_const', List.sum_replicate, List.length_range, nsmul_eq_mul]

end Limitless.Vulnerable
