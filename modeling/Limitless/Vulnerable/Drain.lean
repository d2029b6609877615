import Limitless.Vulnerable.Pool
import Mathlib.Tactic.Ring

/-!
# Draining the pool

A burst of requests that each name the same work, of whatever tenants, empties the pool to the last
batch, in whatever order they take their steps (`drains_exactly`). `Task.InBurst` is what is known
of each of them at every point: what it has paid, and, once it is refused, that no batch fits any
more.
-/

namespace Limitless.Vulnerable

open Indexed Runs

variable {cfg : Config} {s s' : Service} {t t' : Task} {w w' : World} {e : Event}

/-- The handler has answered. -/
def Task.isServed (t : Task) : Bool :=
  match t.pc with
  | .ended (.responded _) => true
  | _ => false

/-- A request of a burst, each for `n` names: it has paid for them, or not yet, or has been refused
because they do not fit. -/
def Task.InBurst (cfg : Config) (n : ℕ) (store : Store) (t : Task) : Prop :=
  match t.pc with
  | .authenticating | .reading _ => t.amount .pool = 0
  | .enriching b .select | .enriching b (.takeConnection none) | .enriching b (.chargePool none) =>
    b.companyNames.length = n ∧ t.amount .pool = 0
  | .enriching _ (.recordWork none) | .enriching _ (.callProvider none)
  | .enriching _ .awaitResponse | .enriching _ (.upsertRecords _)
  | .enriching _ (.leaveConnection _) | .ended (.responded _) =>
    t.amount .pool = n * cfg.priceCents
  | .ended (.raised _) => t.amount .pool = 0 ∧ ¬ HasRoom store (n * cfg.priceCents)
  | _ => False

/-- What others take from the pool does not undo a refusal. -/
theorem Task.InBurst.mono {n : ℕ} {store store' : Store} (h : t.InBurst cfg n store)
    (hroom : ∀ c, HasRoom store' c → HasRoom store c) : t.InBurst cfg n store' := by
  unfold InBurst at h ⊢
  split at h
  all_goals first
    | exact h
    | exact ⟨h.1, fun hhas => h.2 (hroom _ hhas)⟩

/-- An effect that takes nothing from the pool. -/
theorem Task.amount_did_pool (t : Task) {eff : Effect} (pc : Pc) (heff : eff.amount .pool = 0) :
    (t.did eff pc).amount .pool = t.amount .pool := by
  simp [Task.amount, Task.did, heff]

/-- A request of a burst that pays has paid nothing before, and pays for its names. -/
theorem Task.InBurst.pays {n lookups : ℕ} {store : Store} {pc : Pc} (h : t.InBurst cfg n store)
    (hcharges : Charges t.pc lookups pc) :
    lookups = n ∧ t.amount .pool = 0 ∧
      (t.did (.charged (lookups * cfg.priceCents)) pc).amount .pool = n * cfg.priceCents ∧
      ∀ store', (t.did (.charged (lookups * cfg.priceCents)) pc).InBurst cfg n store' := by
  obtain ⟨q, tpc, call, trail, raised⟩ := t
  cases hcharges with
  | @enrich b early =>
      cases early with
      | none =>
          obtain ⟨rfl, hzero⟩ := h
          have hamount : Task.amount (Task.did ⟨q, .enriching b (.chargePool none), call, trail,
              raised⟩ (.charged (b.companyNames.length * cfg.priceCents))
                (.enriching b (.recordWork none))) .pool =
              b.companyNames.length * cfg.priceCents := by
            simp only [Task.amount] at hzero
            simp [Task.amount, Task.did, hzero, Effect.amount]
          exact ⟨rfl, hzero, hamount, fun _ => hamount⟩
      | some result => exact h.elim
  | chunk => exact h.elim

/-- One that goes on goes on as one. -/
theorem Task.InBurst.goto {u : TenantId} {names : List String} {store : Store} {pc : Pc}
    (h : t.InBurst cfg names.length store) (hq : t.request.Ordinary u names)
    (honward : Onward cfg t.request t.pc pc) : (t.goto pc).InBurst cfg names.length store := by
  obtain ⟨q, tpc, call, trail, raised⟩ := t
  cases honward with
  | authenticated => exact h
  | readEnrich hread =>
      cases hq.payload.symm.trans hread
      exact ⟨rfl, h⟩
  | readImport hread => cases hq.payload.symm.trans hread
  | @connected b early =>
      cases early with
      | none => exact h
      | some result => exact h.elim
  | enriched => exact h
  | hadEarly | admitting | admitted | spending | performed | imported => exact h.elim

/-- Nothing refuses an ordinary request but the pool. -/
theorem Request.Ordinary.not_refuses {q : Request} {u : TenantId} {names : List String} {pc : Pc}
    {exc : Exception} (hq : q.Ordinary u names) (hfree : ∀ n pc', ¬ Charges pc n pc') :
    ¬ Refuses cfg s q pc exc := by
  intro hrefuses
  cases hrefuses with
  | unauthorized hnone => cases hq.principal.symm.trans hnone
  | malformed hread | tooLarge hread | undecodable hread => cases hq.payload.symm.trans hread
  | unknownRepair hnone => cases hq.repair.symm.trans hnone
  | drained => exact hfree _ _ .enrich

/-- So does one at any other point that charges nothing. -/
theorem Task.InBurst.free {u : TenantId} {names : List String}
    (h : t.InBurst cfg names.length s.database.store) (hq : t.request.Ordinary u names)
    (hstep : Step cfg s t s' t') (hfree : ∀ n pc, ¬ Charges t.pc n pc) :
    t'.InBurst cfg names.length s'.database.store ∧ t'.amount .pool = t.amount .pool := by
  cases hstep with
  | onward honward => exact ⟨h.goto hq honward, rfl⟩
  | @sends payload pc hsends =>
      refine ⟨?_, t.amount_did_pool pc rfl⟩
      obtain ⟨q, tpc, call, trail, raised⟩ := t
      cases hsends with
      | enrich => exact (Task.amount_did_pool _ .authenticating rfl).trans h
      | early | chunk => exact h.elim
  | @takes payload result pc htakes =>
      refine ⟨?_, t.amount_did_pool pc rfl⟩
      obtain ⟨q, tpc, call, trail, raised⟩ := t
      cases htakes with
      | enrich => exact (Task.amount_did_pool _ .authenticating rfl).trans h
      | early | chunk => exact h.elim
  | selects hpc hfix _ _ _ hconsult hout =>
      cases hq.repair.symm.trans hfix
      cases hconsult
      obtain ⟨-, rfl⟩ | ⟨hfalse, -⟩ := hout
      · unfold InBurst at h
        rw [hpc] at h
        exact ⟨⟨h.1, (t.amount_did_pool _ rfl).trans h.2⟩, t.amount_did_pool _ rfl⟩
      · cases hfalse
  | charges hcharges => exact absurd hcharges (hfree _ _)
  | @records v records pc s' hrecords =>
      refine ⟨?_, t.amount_did_pool pc rfl⟩
      obtain ⟨q, tpc, call, trail, raised⟩ := t
      cases hrecords with
      | @enrich b early =>
          cases early with
          | none => exact (Task.amount_did_pool _ .authenticating rfl).trans h
          | some result => exact h.elim
      | flush => exact h.elim
  | drains hpc | inserts hpc | collides hpc =>
      unfold InBurst at h
      rw [hpc] at h
      exact h.elim
  | upserts hpc =>
      unfold InBurst at h
      rw [hpc] at h
      exact ⟨(t.amount_did_pool _ rfl).trans h, t.amount_did_pool _ rfl⟩
  | refuses hrefuses => exact absurd hrefuses (hq.not_refuses hfree)

/-- **Step lemma.** A request of a burst goes on as one. -/
theorem Task.InBurst.step {u : TenantId} {names : List String}
    (h : t.InBurst cfg names.length s.database.store) (hq : t.request.Ordinary u names)
    (hstep : PoolStep cfg s t s' t') :
    t'.InBurst cfg names.length s'.database.store ∧
      ∀ c, HasRoom s'.database.store c ↔
        HasRoom s.database.store (t'.amount .pool - t.amount .pool + c) := by
  have hsame : ∀ {store : Store} {x : Task}, store.period? = s.database.store.period? →
      x.amount .pool = t.amount .pool → ∀ c, HasRoom store c ↔
        HasRoom s.database.store (x.amount .pool - t.amount .pool + c) := by
    intro store x hperiod hamount c
    rw [hamount, sub_self, zero_add]
    exact hasRoom_congr hperiod c
  cases hstep with
  | pays hcharges hroom hleft =>
      obtain ⟨hlookups, hzero, hamount, hburst⟩ := h.pays hcharges
      refine ⟨hburst _, fun c => ?_⟩
      rw [hamount, hzero, sub_zero, ← hlookups]
      exact hleft c
  | @refused b early hpc hfull =>
      unfold InBurst at h
      rw [hpc] at h
      cases early with
      | none =>
          obtain ⟨hlength, hzero⟩ := h
          rw [hlength] at hfull
          exact ⟨⟨hzero, hfull⟩, hsame rfl rfl⟩
      | some result => exact h.elim
  | drained hpc =>
      unfold InBurst at h
      rw [hpc] at h
      exact h.elim
  | free hstep hfree hperiod =>
      obtain ⟨hburst, hamount⟩ := h.free hq hstep hfree
      exact ⟨hburst, hsame hperiod hamount⟩

/-- Something but a refusal has ended the request. -/
def Task.Struck (t : Task) : Prop :=
  ∃ exc, t.pc = .ended (.raised exc) ∧ ∀ kind operation, exc ≠ .limitReached kind operation

/-- The requests of a burst, and what they leave of the pool. They name what is allowed, and some
may have been struck where faults are allowed. -/
structure World.InBurst (cfg : Config) (allowed : List String → Prop) (faults : Prop) (d : Database)
    (w : World) : Prop where
  tasks : ∀ t ∈ w.tasks, ∃ u names, t.request.Ordinary u names ∧ allowed names ∧
    (t.InBurst cfg names.length w.service.database.store ∨ faults ∧ t.Struck)
  room : ∀ c, HasRoom w.service.database.store c ↔
    HasRoom d.store (total (·.amount .pool) w.tasks + c)

/-- **Step lemma.** Every event leaves a burst one. -/
theorem World.InBurst.step {allowed : List String → Prop} {faults : Prop} {d : Database}
    (h : w.InBurst cfg allowed faults d)
    (harrives : ∀ q, e = .arrive q → ∃ u names, q.Ordinary u names ∧ allowed names)
    (hfault : ∀ i f, e = .fault i f → faults) (hnext : w.next cfg e = some w') :
    w'.InBurst cfg allowed faults d := by
  have hset : ∀ {i : ℕ} {t t' : Task}, w.tasks[i]? = some t → t'.amount .pool = t.amount .pool →
      ∀ c, HasRoom w.service.database.store c ↔
        HasRoom d.store (total (·.amount .pool) (w.tasks.set i t') + c) := by
    intro i t t' hi hamount c
    rw [total_set _ _ hi, hamount, sub_self, add_zero]
    exact h.room c
  cases moves_of_next hnext with
  | @arrived request =>
      obtain ⟨u, names, hq, hallowed⟩ := harrives request rfl
      refine ⟨forall_mem_concat h.tasks ⟨u, names, hq, hallowed, .inl rfl⟩, fun c => ?_⟩
      rw [h.room c, total_append, total_cons, total_nil]
      simp [Task.amount, Task.arrived]
  | @advanced i t t' s' hi hadvance =>
      have hpool := poolStep_of_advance hadvance
      have hstep := step_of_advance hadvance
      obtain ⟨u, names, hq, hallowed, hburst | ⟨-, exc, hpc, -⟩⟩ :=
        h.tasks t (List.mem_of_getElem? hi)
      · obtain ⟨hburst', hroom⟩ := hburst.step hq hpool
        refine ⟨forall_mem_set ⟨u, names, ?_, hallowed, .inl hburst'⟩ fun x hx => ?_, fun c => ?_⟩
        · rw [hstep.request]
          exact hq
        · obtain ⟨v, names', hx', hallowed', hburst⟩ := h.tasks x hx
          exact ⟨v, names', hx', hallowed', hburst.imp_left (·.mono fun c => hpool.room)⟩
        · rw [hroom c, h.room, total_set _ _ hi]
          ring_nf
      · have hend := hstep.not_ended
        rw [hpc] at hend
        cases hend
  | @struck i f t hi hend =>
      obtain ⟨u, names, hq, hallowed, -⟩ := h.tasks t (List.mem_of_getElem? hi)
      refine ⟨forall_mem_set ⟨u, names, hq, hallowed, .inr ⟨hfault i f rfl, _, rfl, ?_⟩⟩ h.tasks,
        hset hi rfl⟩
      intro kind operation
      cases f <;> simp [Fault.exception]
  | @timedOut i t b hi hpc =>
      obtain ⟨u, names, hq, hallowed, hburst | ⟨-, exc, hpc', -⟩⟩ :=
        h.tasks t (List.mem_of_getElem? hi)
      · unfold Task.InBurst at hburst
        rw [hpc] at hburst
        exact hburst.elim
      · cases hpc.symm.trans hpc'
  | @served e i t c c' p' _ hi =>
      have hburst := h.tasks t (List.mem_of_getElem? hi)
      exact ⟨forall_mem_set hburst h.tasks, hset hi rfl⟩
  | woke =>
      refine ⟨List.forall_mem_map.mpr h.tasks, fun c => ?_⟩
      rw [total_map]
      exact h.room c
  | quiet => exact ⟨h.tasks, h.room⟩

/-- **Run lemma.** Requests that name what is allowed are a burst in every run. -/
theorem World.inBurst_of_run {allowed : List String → Prop} {faults : Prop} {d : Database}
    {replicas allowanceCents : ℕ} {es : List Event}
    (harrivals : ∀ q, .arrive q ∈ es → ∃ u names, q.Ordinary u names ∧ allowed names)
    (hfaults : ∀ i f, .fault i f ∈ es → faults)
    (hrun : Run (Steps (World.next cfg)) (.start cfg d replicas allowanceCents) es w) :
    w.InBurst cfg allowed faults d := by
  refine hrun.invariant_mem (I := fun a => a.InBurst cfg allowed faults d)
    (fun a e he b h hstep => ?_) ?_
  · exact h.step (fun q hq => harrivals q (hq ▸ he)) (fun i f hf => hfaults i f (hf ▸ he)) hstep
  · exact ⟨fun t ht => absurd ht List.not_mem_nil, fun c => by simp [World.start]⟩

/-- What an ended request of a burst that has not been struck has paid. -/
theorem Task.InBurst.paid {n : ℕ} {store : Store} (h : t.InBurst cfg n store)
    (hend : t.pc.isEnded = true) :
    t.amount .pool = (if t.isServed then 1 else 0) * (n * cfg.priceCents : Int) ∧
      (t.isServed = false → ¬ HasRoom store (n * cfg.priceCents)) := by
  unfold InBurst at h
  unfold isServed
  cases hpc : t.pc with
  | ended ending =>
      rw [hpc] at h
      cases ending with
      | responded response => simpa using h
      | raised exc => simpa using h
  | _ =>
      rw [hpc] at hend
      cases hend

/-- **Drained to the last batch.** In a burst of any number of requests of any tenants that each
name `n` companies, in whatever order they take their steps at however many replicas, once all of
them have ended: as many have been served as the pool had money for, or all of them, and the money
they cost is what is gone. -/
theorem drains_exactly {d : Database} {per : SpendPeriod} {replicas allowanceCents n : ℕ}
    {es : List Event} (hprice : 0 < n * cfg.priceCents) (hper : d.store.period? = some per)
    (harrivals : ∀ q, .arrive q ∈ es → ∃ u names, q.Ordinary u names ∧ names.length = n)
    (hfaults : ∀ i f, .fault i f ∉ es)
    (hrun : Run (Steps (World.next cfg)) (.start cfg d replicas allowanceCents) es w)
    (hended : ∀ t ∈ w.tasks, t.pc.isEnded = true) :
    w.tasks.countP (·.isServed) = min w.tasks.length
        ((per.capCents - per.committedCents - per.reservedCents).toNat / (n * cfg.priceCents)) ∧
      w.service.database.store.balance (.period .committed) = per.committedCents +
        w.tasks.countP (·.isServed) * (n * cfg.priceCents) := by
  have hburst : w.InBurst cfg (·.length = n) False d :=
    World.inBurst_of_run harrivals (fun i f => hfaults i f) hrun
  have hpaid : ∀ t ∈ w.tasks, t.amount .pool =
      (if t.isServed then 1 else 0) * (n * cfg.priceCents : Int) ∧
        (t.isServed = false → ¬ HasRoom w.service.database.store (n * cfg.priceCents)) := by
    intro t ht
    obtain ⟨u, names, -, hlength, hb | ⟨hfalse, -⟩⟩ := hburst.tasks t ht
    · rw [hlength] at hb
      exact hb.paid (hended t ht)
    · exact hfalse.elim
  have htotal : total (·.amount .pool) w.tasks =
      w.tasks.countP (·.isServed) * (n * cfg.priceCents : Int) := by
    rw [total_congr fun t ht => (hpaid t ht).1, ← total_mul, total_countP]
  -- what the pool had left at the start
  obtain ⟨room, hroom⟩ : ∃ room : ℕ, per.capCents - per.committedCents - per.reservedCents = room :=
    Int.eq_ofNat_of_zero_le (by have := per.within_cap; omega)
  have hfits : ∀ c, HasRoom d.store c ↔ c ≤ room := by
    intro c
    constructor
    · rintro ⟨per', hper', hle⟩
      cases hper.symm.trans hper'
      omega
    · exact fun hle => ⟨per, hper, by omega⟩
  have hwithin : w.tasks.countP (·.isServed) * (n * cfg.priceCents) ≤ room := by
    have hperiod : w.service.database.store.period?.isSome := by
      have hcap := (Sound.run hrun (.start cfg d replicas allowanceCents)).cap
      rw [show (World.start cfg d replicas allowanceCents).service.database.store.period? =
        some per from hper] at hcap
      exact Option.isSome_map.symm.trans (congrArg Option.isSome hcap)
    have hzero := (hburst.room 0).mp (hasRoom_zero hperiod)
    rw [add_zero, htotal, hfits] at hzero
    exact_mod_cast hzero
  have hmoney := (Sound.run hrun (.start cfg d replicas allowanceCents)).books .pool trivial
  refine ⟨?_, ?_⟩
  · rw [hroom, Int.toNat_natCast]
    have hle := (Nat.le_div_iff_mul_le hprice).mpr hwithin
    refine le_antisymm (le_min List.countP_le_length hle) ?_
    by_cases hall : ∀ t ∈ w.tasks, t.isServed = true
    · rw [List.countP_eq_length.mpr hall]
      exact min_le_left _ _
    · -- somebody was refused, so less than one more batch is left
      push Not at hall
      obtain ⟨t, ht, hnot⟩ := hall
      have hfull := (hpaid t ht).2 (Bool.eq_false_iff.mpr hnot)
      rw [hburst.room, htotal, hfits, not_le] at hfull
      have hfull' : room < (w.tasks.countP (·.isServed) + 1) * (n * cfg.priceCents) := by
        rw [add_mul, one_mul]
        exact_mod_cast hfull
      exact (min_le_right _ _).trans (Nat.lt_succ_iff.mp (Nat.div_lt_of_lt_mul
        (hfull'.trans_eq (Nat.mul_comm _ _))))
  · rw [← htotal]
    refine hmoney.trans (congrArg (· + _) ?_)
    exact (Store.balance_period hper _).trans rfl

theorem two_of_three_are_served :
    ∃ w, Run (Steps (World.next dearLookups)) (.start dearLookups .demo 1 40000)
        (twoServed ++ thenRefused) w ∧ w.tasks.countP (·.isServed) = 2 := by
  have hfigures : (replay (World.next dearLookups) (.start dearLookups .demo 1 40000)
      (twoServed ++ thenRefused)).map (fun w => (w.tasks.length, w.tasks.all (·.pc.isEnded))) =
      some (3, true) := by decide
  obtain ⟨w, hw, hfigures⟩ := Option.map_eq_some_iff.mp hfigures
  obtain ⟨hlength, hended⟩ := Prod.mk.inj hfigures
  refine ⟨w, run_of_replay hw, ?_⟩
  have hper : Database.demo.store.period? = some (.fresh 100 (by decide)) := rfl
  have hcount := (drains_exactly (n := 1) (by decide) hper (fun q hq => ?_) (fun i f hf => ?_)
    (run_of_replay hw) (List.all_eq_true.mp hended)).1
  · rw [hcount, hlength]
    rfl
  · obtain rfl : q = .demo := by
      rcases (by simpa [twoServed, thenRefused] using hq : (∃ x, x < 2) ∧ q = .demo ∨ q = .demo)
        with ⟨-, hq⟩ | hq
      exacts [hq, hq]
    exact ⟨Fixtures.attackerTenantId, [Fixtures.companyName 1], ⟨rfl, rfl, rfl⟩, rfl⟩
  · simp [twoServed, thenRefused] at hf

end Limitless.Vulnerable
