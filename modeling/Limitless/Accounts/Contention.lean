import Limitless.Lib.Indexed
import Limitless.Lib.Runs
import Limitless.Store.Balance
import Limitless.Store.Seed

/-!
# Admission under contention

A burst of requests of one tenant: each has arrived, then reserves the same work, and settles the
charge it reserved. Which of them reserves or settles next is the schedule's choice, and so is the
replica it runs on, since the two shared rows are all the replicas have in common.

`Uniform` says what the rows hold in the middle of a burst: one price per hold and one per charge,
and a request that was refused saw the holds and charges of that moment fill the partition. Holds
turn into charges and never go back, so a refusal stays justified to the end of the burst. That is
what makes the count exact in `admits_exactly`: no schedule admits one request too many, and none
refuses one while there is money left.
-/

namespace Limitless

open Runs Indexed

/-- Where one request of a burst stands. -/
inductive Phase
  | arrived
  | holding (reservation : Reservation)
  | settled
  | failed (error : StoreError)
  deriving DecidableEq

namespace Phase

/-- The request has nothing left to do. -/
def Ended : Phase → Prop
  | arrived | holding _ => False
  | settled | failed _ => True

/-- One for a request that holds money. -/
def holds : Phase → Int
  | holding _ => 1
  | arrived | settled | failed _ => 0

/-- One for a request that was charged. -/
def charges : Phase → Int
  | settled => 1
  | arrived | holding _ | failed _ => 0

theorem holds_nonneg (p : Phase) : 0 ≤ p.holds := by cases p <;> simp [holds]

end Phase

/-- The shared rows and the requests of one burst. -/
structure Burst where
  store : Store
  phases : List Phase

namespace Burst

/-- `k` requests have arrived. -/
def arrivals (s : Store) (k : Nat) : Burst := ⟨s, List.replicate k .arrived⟩

/-- Let request `i` run its next transaction: `reserve` for `n` lookups, or `settle` for what it
reserved. -/
def next (t : TenantId) (n price : Int) (b : Burst) (i : Nat) : Option Burst :=
  match b.phases[i]? with
  | some .arrived =>
    match b.store.reserve t n price with
    | .ok (s, r) => some ⟨s, b.phases.set i (.holding r)⟩
    | .error e => some { b with phases := b.phases.set i (.failed e) }
  | some (.holding r) =>
    match b.store.settle r n r.cents with
    | .ok s => some ⟨s, b.phases.set i .settled⟩
    | .error e => some { b with phases := b.phases.set i (.failed e) }
  | _ => none

/-- What the schedule can make a burst do. -/
theorem next_cases {t : TenantId} {n price : Int} {b b' : Burst} {i : Nat}
    (h : next t n price b i = some b') :
    (∃ s r, b.phases[i]? = some .arrived ∧ b.store.reserve t n price = .ok (s, r) ∧
      b' = ⟨s, b.phases.set i (.holding r)⟩) ∨
    (∃ e, b.phases[i]? = some .arrived ∧ b.store.reserve t n price = .error e ∧
      b' = ⟨b.store, b.phases.set i (.failed e)⟩) ∨
    (∃ s r, b.phases[i]? = some (.holding r) ∧ b.store.settle r n r.cents = .ok s ∧
      b' = ⟨s, b.phases.set i .settled⟩) ∨
    ∃ e r, b.phases[i]? = some (.holding r) ∧ b.store.settle r n r.cents = .error e ∧
      b' = ⟨b.store, b.phases.set i (.failed e)⟩ := by
  unfold next at h
  split at h
  · next hi =>
      split at h
      · next s r hs => cases h; exact .inl ⟨s, r, hi, hs, rfl⟩
      · next e he => cases h; exact .inr (.inl ⟨e, hi, he, rfl⟩)
  · next r hi =>
      split at h
      · next s hs => cases h; exact .inr (.inr (.inl ⟨s, r, hi, hs, rfl⟩))
      · next e he => cases h; exact .inr (.inr (.inr ⟨e, r, hi, he, rfl⟩))
  · cases h

/-! ## The invariant -/

/-- The requests that hold money now. -/
def held (b : Burst) : Int := total Phase.holds b.phases

/-- The requests that were charged. -/
def charged (b : Burst) : Int := total Phase.charges b.phases

/-- The rows of a burst over `row` and `per` at `cents` a request: every hold and every charge is
one price, and a refusal was made with the partition full. -/
structure Uniform (t : TenantId) (n cents : Int) (row : TenantAllowance) (per : SpendPeriod)
    (k : Nat) (b : Burst) : Prop where
  length : b.phases.length = k
  allowance : ∃ r, b.store.allowance? t = some r ∧ r.allowanceCents = row.allowanceCents
  period : ∃ p, b.store.period? = some p ∧ p.capCents = per.capCents
  reserved : b.store.balance (.tenant t .reserved) = b.held * cents
  committed : b.store.balance (.tenant t .committed) = row.committedCents + b.charged * cents
  periodReserved : b.store.balance (.period .reserved) = per.reservedCents + b.held * cents
  periodCommitted : b.store.balance (.period .committed) = per.committedCents + b.charged * cents
  holding : ∀ r, Phase.holding r ∈ b.phases → r = ⟨t, cents, n⟩
  failed : ∀ e, Phase.failed e ∈ b.phases → e = .allowanceExhausted ∧
    row.allowanceCents < row.committedCents + (b.held + b.charged + 1) * cents

variable {t : TenantId} {n price cents : Int} {row : TenantAllowance} {per : SpendPeriod} {k : Nat}
  {b b' : Burst}

/-- A burst starts uniform when its tenant holds nothing. -/
theorem arrivals_uniform {s : Store} (hrow : s.allowance? t = some row)
    (hper : s.period? = some per) (hres : row.reservedCents = 0) (k : Nat) :
    Uniform t n cents row per k (arrivals s k) := by
  have hheld : (arrivals s k).held = 0 :=
    total_eq_zero fun p hp => by rw [List.eq_of_mem_replicate hp]; rfl
  have hcharged : (arrivals s k).charged = 0 :=
    total_eq_zero fun p hp => by rw [List.eq_of_mem_replicate hp]; rfl
  refine ⟨List.length_replicate, ⟨row, hrow, rfl⟩, ⟨per, hper, rfl⟩, ?_, ?_, ?_, ?_, ?_, ?_⟩
  · rw [hheld, zero_mul]
    exact (Store.balance_tenant hrow .reserved).trans hres
  · rw [hcharged, zero_mul, add_zero]
    exact Store.balance_tenant hrow .committed
  · rw [hheld, zero_mul, add_zero]
    exact Store.balance_period hper .reserved
  · rw [hcharged, zero_mul, add_zero]
    exact Store.balance_period hper .committed
  · intro r hr
    cases List.eq_of_mem_replicate hr
  · intro e he
    cases List.eq_of_mem_replicate he

/-- The figures of the rows in the middle of a burst. -/
theorem Uniform.rows (hb : Uniform t n cents row per k b) :
    ∃ r p, b.store.allowance? t = some r ∧ b.store.period? = some p ∧
      r.allowanceCents = row.allowanceCents ∧ p.capCents = per.capCents ∧
      r.reservedCents = b.held * cents ∧ r.committedCents = row.committedCents + b.charged * cents ∧
      p.reservedCents = per.reservedCents + b.held * cents ∧
      p.committedCents = per.committedCents + b.charged * cents := by
  obtain ⟨r, hr, hra⟩ := hb.allowance
  obtain ⟨p, hp, hpc⟩ := hb.period
  refine ⟨r, p, hr, hp, hra, hpc, ?_, ?_, ?_, ?_⟩
  · exact (Store.balance_tenant hr .reserved).symm.trans hb.reserved
  · exact (Store.balance_tenant hr .committed).symm.trans hb.committed
  · exact (Store.balance_period hp .reserved).symm.trans hb.periodReserved
  · exact (Store.balance_period hp .committed).symm.trans hb.periodCommitted

/-- A step that moves the books and one request keeps the burst uniform, when the books move by a
price for each count. -/
theorem Uniform.moved (hb : Uniform t n cents row per k b) {p : Posting} {s' : Store} {i : Nat}
    {old new : Phase} (hi : b.phases[i]? = some old) (hm : b.store.Moved p.amount s')
    (ht : p.tenantId = t) (hr : p.reserved = (new.holds - old.holds) * cents)
    (hc : p.committed = (new.charges - old.charges) * cents)
    (hkept : 0 ≤ (new.holds - old.holds) + (new.charges - old.charges)) (hcents : 0 ≤ cents)
    (hholding : ∀ r, new = .holding r → r = ⟨t, cents, n⟩) (hfailed : ∀ e, new ≠ .failed e) :
    Uniform t n cents row per k ⟨s', b.phases.set i new⟩ := by
  have hheld : held ⟨s', b.phases.set i new⟩ = b.held + (new.holds - old.holds) :=
    total_set Phase.holds new hi
  have hcharged : charged ⟨s', b.phases.set i new⟩ = b.charged + (new.charges - old.charges) :=
    total_set Phase.charges new hi
  obtain ⟨r, hrow, hra⟩ := hb.allowance
  obtain ⟨r', hrow', hra'⟩ := hm.allowance_some hrow
  obtain ⟨q, hper, hqc⟩ := hb.period
  obtain ⟨q', hper', hqc'⟩ := hm.period_some hper
  refine ⟨?_, ⟨r', hrow', hra'.trans hra⟩, ⟨q', hper', hqc'.trans hqc⟩, ?_, ?_, ?_, ?_, ?_, ?_⟩
  · rw [List.length_set, hb.length]
  · rw [hm.balance, hb.reserved, hheld, add_mul, ← hr]
    simp [Posting.amount, Posting.cents, ht]
  · rw [hm.balance, hb.committed, hcharged, add_mul, ← hc]
    simp [Posting.amount, Posting.cents, ht, add_assoc]
  · rw [hm.balance, hb.periodReserved, hheld, add_mul, ← hr]
    simp [Posting.amount, Posting.cents, add_assoc]
  · rw [hm.balance, hb.periodCommitted, hcharged, add_mul, ← hc]
    simp [Posting.amount, Posting.cents, add_assoc]
  · intro r hr
    rcases mem_of_mem_set hr with h | h
    exacts [hholding r h.symm, hb.holding r h]
  · intro e he
    rcases mem_of_mem_set he with h | h
    · exact absurd h.symm (hfailed e)
    · -- holds and charges together have not gone down since the refusal
      obtain ⟨hexh, hfull⟩ := hb.failed e h
      refine ⟨hexh, hfull.trans_le ?_⟩
      rw [hheld, hcharged]
      have hle : b.held + b.charged + 1 ≤ b.held + (new.holds - old.holds) +
        (b.charged + (new.charges - old.charges)) + 1 := by omega
      have := mul_le_mul_of_nonneg_right hle hcents
      omega

/-- **One step of the invariant.** Whichever request goes next, the burst stays uniform, when the
period has at least the partition's room. -/
theorem Uniform.step (hb : Uniform t n (n * price) row per k b) (hn : 1 ≤ n) (hprice : 1 ≤ price)
    (hroom : row.allowanceCents - row.committedCents ≤
      per.capCents - (per.committedCents + per.reservedCents))
    {i : Nat} (h : next t n price b i = some b') : Uniform t n (n * price) row per k b' := by
  have hcents : 0 ≤ n * price := mul_nonneg (by omega) (by omega)
  obtain ⟨r, p, hr, hp, hra, hpc, hrr, hrc, hpr, hpm⟩ := hb.rows
  rcases next_cases h with ⟨s', q, hi, hok, rfl⟩ | ⟨e, hi, herr, rfl⟩ | ⟨s', q, hi, hok, rfl⟩ |
    ⟨e, q, hi, herr, rfl⟩
  · -- admitted: one more hold
    obtain ⟨_, rfl, hm, _⟩ := Store.reserve_ok hok
    refine hb.moved hi hm rfl ?_ ?_ (by simp [Phase.holds, Phase.charges]) hcents ?_ (by simp)
    · simp [Reservation.held, Phase.holds]
    · simp [Reservation.held, Phase.charges]
    · rintro r ⟨⟩
      rfl
  · -- refused: nothing moves, and one of the rows had no room; the partition fills first
    obtain ⟨rfl, hfull⟩ := Store.reserve_error hr hp (by omega) (by omega) herr
    have hheld : held ⟨b.store, b.phases.set i (.failed .allowanceExhausted)⟩ = b.held :=
      (total_set Phase.holds _ hi).trans (add_zero _)
    have hcharged : charged ⟨b.store, b.phases.set i (.failed .allowanceExhausted)⟩ = b.charged :=
      (total_set Phase.charges _ hi).trans (add_zero _)
    refine ⟨(List.length_set ..).trans hb.length, hb.allowance, hb.period, ?_, ?_, ?_, ?_, ?_, ?_⟩
    · rw [hheld]; exact hb.reserved
    · rw [hcharged]; exact hb.committed
    · rw [hheld]; exact hb.periodReserved
    · rw [hcharged]; exact hb.periodCommitted
    · intro q hq
      rcases mem_of_mem_set hq with h | h
      · cases h
      · exact hb.holding q h
    · intro e he
      rw [hheld, hcharged]
      rcases mem_of_mem_set he with h | h
      · cases h
        refine ⟨rfl, ?_⟩
        rw [add_mul, add_mul, one_mul]
        omega
      · exact hb.failed e h
  · -- settled: the hold becomes a charge
    have hq := hb.holding q (List.mem_of_getElem? hi)
    subst hq
    have hm := Store.settle_ok hok hr hp
    refine hb.moved hi hm rfl ?_ ?_ (by simp [Phase.holds, Phase.charges]) hcents (by simp)
      (by simp)
    · simp [Reservation.closed, Phase.holds]
    · simp [Reservation.closed, Phase.charges]
  · -- a settle of what is held is never refused
    have hmem := List.mem_of_getElem? hi
    have hq := hb.holding q hmem
    subst hq
    have hone : 1 ≤ b.held := le_total_of_mem (fun p _ => p.holds_nonneg) hmem
    have hle : n * price ≤ b.held * (n * price) := le_mul_of_one_le_left hcents hone
    have hpres := per.reserved_nonneg
    have hle' : n * price ≤ p.reservedCents := by omega
    obtain ⟨s', hok⟩ := Store.settle_isOk (r := ⟨t, n * price, n⟩) n hr hp (hrr ▸ hle) hle' hcents
      le_rfl
    rw [hok] at herr
    cases herr

/-! ## The burst -/

/-- A charge counts a settled request. -/
theorem charged_eq_count (b : Burst) : b.charged = (b.phases.count .settled : Int) := by
  obtain ⟨s, l⟩ := b
  show total Phase.charges l = _
  induction l with
  | nil => rfl
  | cons p l ih => cases p <;> simp [ih, Phase.charges, add_comm]

/-- **Exact admission.** However the transactions of `k` requests interleave, once they have all
ended exactly as many were admitted as the partition pays for, every other one was refused for the
allowance, and the charges of the admitted ones are all that is left on the tenant's row. -/
theorem admits_exactly {s : Store} {sched : List Nat} (hrow : s.allowance? t = some row)
    (hper : s.period? = some per) (hn : 1 ≤ n) (hprice : 1 ≤ price) (hres : row.reservedCents = 0)
    (hroom : row.allowanceCents - row.committedCents ≤
      per.capCents - (per.committedCents + per.reservedCents))
    (hrun : Run (Steps (next t n price)) (arrivals s k) sched b)
    (hended : ∀ p ∈ b.phases, p.Ended) :
    (b.phases.count .settled : Int) =
        min (k : Int) ((row.allowanceCents - row.committedCents) / (n * price)) ∧
      b.phases.length = k ∧ (∀ p ∈ b.phases, p = .settled ∨ p = .failed .allowanceExhausted) ∧
      ∃ row', b.store.allowance? t = some row' ∧ row'.reservedCents = 0 ∧
        row'.committedCents = row.committedCents + b.phases.count .settled * (n * price) := by
  have hb : Uniform t n (n * price) row per k b :=
    hrun.invariant (I := Uniform t n (n * price) row per k)
      (fun a i c ha hstep => ha.step hn hprice hroom hstep) (arrivals_uniform hrow hper hres k)
  have hpos : 0 < n * price := mul_pos (by omega) (by omega)
  have hheld : b.held = 0 := by
    refine total_eq_zero fun p hp => ?_
    have := hended p hp
    cases p with
    | arrived | holding => exact this.elim
    | settled | failed => rfl
  obtain ⟨r, _, hr, _, hra, _, hrr, hrc, _⟩ := hb.rows
  have hwithin := r.within_allowance
  rw [hheld, zero_mul] at hrr
  rw [← charged_eq_count]
  refine ⟨?_, hb.length, fun p hp => ?_, r, hr, hrr, hrc⟩
  · have hpaid : b.charged ≤ (row.allowanceCents - row.committedCents) / (n * price) :=
      (Int.le_ediv_iff_mul_le hpos).mpr (by omega)
    have hcount := charged_eq_count b
    rcases Nat.lt_or_ge (b.phases.count .settled) k with hlt | hge
    · -- someone was refused, so one more would not have fitted
      have hne : ¬ ∀ p ∈ b.phases, Phase.settled = p := fun hall =>
        absurd (List.count_eq_length.mpr hall) (by rw [hb.length]; omega)
      push Not at hne
      obtain ⟨p, hp, hps⟩ := hne
      have hend := hended p hp
      cases p with
      | arrived | holding => exact hend.elim
      | settled => exact absurd rfl hps
      | failed e =>
          obtain ⟨_, hfull⟩ := hb.failed e hp
          rw [hheld, zero_add] at hfull
          have : (row.allowanceCents - row.committedCents) / (n * price) < b.charged + 1 :=
            (Int.ediv_lt_iff_lt_mul hpos).mpr (by omega)
          omega
    · have hle : b.phases.count .settled ≤ k := hb.length ▸ List.count_le_length
      omega
  · have hend := hended p hp
    cases p with
    | arrived | holding => exact hend.elim
    | settled => exact .inl rfl
    | failed e =>
        obtain ⟨rfl, _⟩ := hb.failed e hp
        exact .inr rfl

/-- Three requests of two lookups at four cents against a partition of twenty cents: the third is
refused, although it asks while the first two only hold. -/
theorem third_request_refused :
    ∃ b, replay (next Fixtures.attackerTenantId 2 4)
        (arrivals (.seeded [Fixtures.attackerTenantId] 20 100 (by decide) (by decide) []) 3)
        [0, 1, 2, 1, 0] = some b ∧
      (b.phases.count .settled : Int) = 2 := by
  have hphases : (replay (next Fixtures.attackerTenantId 2 4)
      (arrivals (.seeded [Fixtures.attackerTenantId] 20 100 (by decide) (by decide) []) 3)
      [0, 1, 2, 1, 0]).map Burst.phases =
        some [.settled, .settled, .failed .allowanceExhausted] := by decide
  obtain ⟨b, hb, hb'⟩ := Option.map_eq_some_iff.mp hphases
  have hended : ∀ p ∈ b.phases, p.Ended := by
    rw [hb']
    simp [Phase.Ended]
  have hrow : Store.allowance? (.seeded [Fixtures.attackerTenantId] 20 100 (by decide) (by decide) [])
      Fixtures.attackerTenantId = some (.fresh _ 20 (by decide)) := rfl
  have hper : Store.period? (.seeded [Fixtures.attackerTenantId] 20 100 (by decide) (by decide) []) =
      some (.fresh 100 (by decide)) := rfl
  obtain ⟨hcount, _⟩ := admits_exactly hrow hper (by decide) (by decide) rfl (by decide)
    (run_of_replay hb) hended
  exact ⟨b, hb, hcount.trans (by decide)⟩

end Burst

end Limitless
