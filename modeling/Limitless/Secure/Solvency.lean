import Limitless.Secure.Invariant

/-!
# Billed work is accounted for

The provider may bill a call before, while or long after the application waits for it, and each of
the many points of failure settles another amount. What holds throughout is a statement about one
request: what its call has put on the bill is at most what its trail has left committed and
reserved. Inside the `try` block that is the whole reservation, whether or not it has been settled
(`net_framed`); the handler gives it back only when the call was never attempted, and then there
is no call (`billed_le`). Summed over the requests, it is `solvent`.
-/

namespace Limitless

open Indexed Runs

/-- What a trail leaves committed and reserved for a tenant. -/
def net (trail : List Effect) (u : TenantId) : Int :=
  amounts trail (.tenant u .reserved) + amounts trail (.tenant u .committed)

theorem net_append (l m : List Effect) (u : TenantId) : net (l ++ m) u = net l u + net m u := by
  simp only [net, amounts_append]
  omega

@[simp] theorem net_nil (u : TenantId) : net [] u = 0 := rfl

/-- What one effect leaves a tenant: holding adds the cents, and closing leaves the charge in their
place. -/
def Effect.part : Effect → TenantId → Int
  | reserved r, u => if u = r.tenantId then r.cents else 0
  | settled r _ cents, u => if u = r.tenantId then cents - r.cents else 0
  | tookSlot, _ | leftSlot, _ | sent _, _ | upserted _, _ | insertedJob _, _ => 0

theorem Effect.part_eq (e : Effect) (u : TenantId) :
    e.amount (.tenant u .reserved) + e.amount (.tenant u .committed) = e.part u := by
  cases e with
  | reserved r =>
      by_cases hu : u = r.tenantId <;>
        simp [amount, part, Posting.amount, Reservation.held, Posting.cents, hu]
  | settled r l c =>
      by_cases hu : u = r.tenantId
      · simp only [amount, part, Posting.amount, Reservation.closed, Posting.cents, hu, if_true]
        omega
      · simp [amount, part, Posting.amount, Reservation.closed, hu]
  | _ => rfl

theorem net_cons (e : Effect) (l : List Effect) (u : TenantId) :
    net (e :: l) u = e.part u + net l u := by
  have := e.part_eq u
  simp only [net, amounts, total_cons]
  omega

variable {cfg : Config} {pc : Pc} {call : Option Call} {w : Work} {r : Reservation}

/-- Inside the `try` block a reservation is priced by its work. -/
theorem Pc.priced_iff (hframe : pc.frame? = some (w, r)) :
    pc.Priced cfg ↔ r = w.reservation cfg.priceCents := by
  cases pc with
  | calling | finishing => cases hframe; rfl
  | _ => cases hframe

/-- Inside the `try` block the whole reservation is accounted for, settled or not. -/
theorem net_framed (hframe : pc.frame? = some (w, r)) (hpriced : pc.Priced cfg)
    (hfits : pc.Fits cfg call) (hprice : cfg.priceCents = cfg.providerPriceCents) (u : TenantId) :
    net (pc.trail cfg) u = if u = w.tenantId then w.companyNames.length * cfg.priceCents else 0 := by
  cases pc with
  | calling w' r' p =>
      cases hframe
      obtain rfl : r = w.reservation cfg.priceCents := hpriced
      cases p <;>
        simp [Pc.trail, CallPoint.trail, net_cons, Effect.part, Work.reservation]
  | finishing w' r' result p =>
      cases hframe
      obtain rfl : r = w.reservation cfg.priceCents := hpriced
      have hcents : result.centsCharged = w.companyNames.length * cfg.priceCents := by
        rw [hfits.2, hprice]
        rfl
      cases p <;>
        simp [Pc.trail, FinishPoint.trail, net_cons, Effect.part, Work.reservation, hcents]
  | _ => cases hframe

/-- A call has billed nothing but its own items, and nothing before it was attempted. -/
theorem billed_framed (hframe : pc.frame? = some (w, r)) (hfits : pc.Fits cfg call) (u : TenantId) :
    call.elim 0 (·.billed u) ≤ (if u = w.tenantId then (w.companyNames.length : Int) else 0) ∧
      (pc.attempted = false → call = none) := by
  have hbound : ∀ c : Call, c.payload = w.lookupRequest →
      c.billed u ≤ if u = w.tenantId then (w.companyNames.length : Int) else 0 := by
    intro c hc
    simp only [Call.billed, hc, Work.lookupRequest]
    by_cases hu : u = w.tenantId
    · simp only [hu, and_true, if_true]
      split <;> omega
    · simp [hu, Ne.symm hu]
  have hnone : (0 : Int) ≤ if u = w.tenantId then (w.companyNames.length : Int) else 0 := by
    split <;> omega
  cases pc with
  | calling w' r' p =>
      cases hframe
      cases p with
      | awaitResponse =>
          obtain ⟨c, rfl, hc, _⟩ := hfits
          exact ⟨hbound c hc, fun h => by cases h⟩
      | _ =>
          obtain rfl : call = none := hfits
          exact ⟨hnone, fun _ => rfl⟩
  | finishing w' r' result p =>
      cases hframe
      obtain ⟨rfl, _⟩ := hfits
      exact ⟨hbound _ rfl, fun h => by cases h⟩
  | _ => cases hframe

/-- Inside the `try` block the call has billed no more than is accounted for. -/
theorem billed_le_framed (hframe : pc.frame? = some (w, r)) (hpriced : pc.Priced cfg)
    (hfits : pc.Fits cfg call) (hprice : cfg.priceCents = cfg.providerPriceCents) (u : TenantId) :
    call.elim 0 (·.billed u) * cfg.priceCents ≤ net (pc.trail cfg) u := by
  have hmul := mul_le_mul_of_nonneg_right (billed_framed hframe hfits u).1
    (Int.natCast_nonneg cfg.priceCents)
  rw [net_framed hframe hpriced hfits hprice]
  refine hmul.trans (le_of_eq ?_)
  by_cases hu : u = w.tenantId <;> simp [hu]

/-- Nor has it in the `except` handler, whose close leaves what the call may have billed. -/
theorem billed_le_handled (hframe : pc.frame? = some (w, r)) (hpriced : pc.Priced cfg)
    (hfits : pc.Fits cfg call) (hprice : cfg.priceCents = cfg.providerPriceCents)
    (p : HandlerPoint) (u : TenantId) :
    call.elim 0 (·.billed u) * cfg.priceCents ≤
      net (pc.trail cfg ++ pc.unwound ++ p.trail r pc.attempted) u := by
  have hle := billed_le_framed hframe hpriced hfits hprice u
  have hunwound : net pc.unwound u = 0 := by
    unfold Pc.unwound
    split <;> simp [net_cons, Effect.part]
  rw [net_append, net_append, hunwound]
  cases p with
  | takeConnection | close => simpa [HandlerPoint.trail] using hle
  | leaveConnection =>
      cases hatt : pc.attempted with
      | true =>
          -- a full charge leaves the reservation accounted for
          have hfull : net [r.closing true] u = 0 := by
            simp [Reservation.closing, net_cons, Effect.part]
          simpa [HandlerPoint.trail, hfull] using hle
      | false =>
          -- a release gives it back, and there is no call
          rw [(billed_framed hframe hfits u).2 hatt, net_framed hframe hpriced hfits hprice,
            (Pc.priced_iff hframe).mp hpriced]
          by_cases hu : u = w.tenantId <;>
            simp [HandlerPoint.trail, Reservation.closing, net_cons, Effect.part, hu,
              Work.reservation]

/-- **One request.** What its call has put on the bill is at most what its trail has left committed
and reserved. -/
theorem Live.billed_le {trail : List Effect} {raised : List (Pc × Exception)}
    (h : Live cfg pc call trail raised) (hprice : cfg.priceCents = cfg.providerPriceCents)
    (u : TenantId) : call.elim 0 (·.billed u) * cfg.priceCents ≤ net trail u := by
  obtain ⟨hpriced, h⟩ := h
  cases pc with
  | ended e => exact h.elim
  | handling w r attempted exc p =>
      obtain ⟨struck, hframe, rfl, _, hfits, _, rfl⟩ := h
      exact billed_le_handled hframe ((Pc.priced_iff hframe).mpr hpriced) hfits hprice p u
  | calling w r p =>
      obtain ⟨hfits, _, rfl⟩ := h
      exact billed_le_framed rfl hpriced hfits hprice u
  | finishing w r result p =>
      obtain ⟨hfits, _, rfl⟩ := h
      exact billed_le_framed rfl hpriced hfits hprice u
  | recording w r result jobId p =>
      obtain ⟨hfits, _, rfl⟩ := h
      -- an import has the whole `try` block behind it
      have hfinished : (Pc.finishing w r result .leaveConnection).Priced cfg := hpriced
      have hle := billed_le_framed rfl hfinished hfits hprice u
      have hjob : net (p.trail jobId) u = 0 := by
        cases p <;> simp [JobPoint.trail, net_cons, Effect.part]
      rw [Pc.trail, net_append, hjob, add_zero]
      exact hle
  | leavingConnection w r =>
      obtain ⟨hcall, _, rfl⟩ := h
      obtain rfl : call = none := hcall
      obtain rfl : r = w.reservation cfg.priceCents := hpriced
      have hcents : 0 ≤ (w.companyNames.length : Int) * cfg.priceCents :=
        mul_nonneg (Int.natCast_nonneg _) (Int.natCast_nonneg _)
      by_cases hu : u = w.tenantId <;>
        simp [Pc.trail, net_cons, Effect.part, Work.reservation, hu, hcents]
  | authenticating | reading | takingConnection | reserving | listing =>
      obtain ⟨hcall, _, rfl⟩ := h
      obtain rfl : call = none := hcall
      simp [Pc.trail]

/-- It stays so when the request has ended. -/
theorem Task.Sound.billed_le {t : Task} (h : t.Sound cfg)
    (hprice : cfg.priceCents = cfg.providerPriceCents) (u : TenantId) :
    t.billed u * cfg.priceCents ≤ net t.trail u := by
  rcases h with h | ⟨e, _, last, before, hlast, _⟩
  exacts [h.billed_le hprice u, hlast.billed_le hprice u]

/-! ## Every run -/

/-- Calls have put at least on the bill what it shows. -/
theorem World.run_billed {s₀ : Store} {replicas : Nat} {limiter : InFlightLimiter}
    {es : List Event} {w : World} (hl : InFlightLimiter.make cfg.maxInFlightUpstream = .ok limiter)
    (hrun : Run (Steps (World.next cfg)) (.start cfg s₀ replicas limiter) es w) (u : TenantId) :
    0 ≤ w.unbilled u := by
  have h : World.Sound cfg s₀ replicas w ∧ 0 ≤ w.unbilled u := by
    refine hrun.invariant (I := fun w => World.Sound cfg s₀ replicas w ∧ 0 ≤ w.unbilled u) ?_
      ⟨World.start_sound hl s₀ replicas, le_rfl⟩
    rintro a e b ⟨hs, hu⟩ hstep
    have hmoves := moves_of_next hstep
    exact ⟨hs.step hmoves, (hs.bill hmoves u).2 hu⟩
  exact h.2

/-- **Solvency.** In every state of every run, whatever is struck, held, delayed, given up or reset
on the way: what the provider has billed a tenant is at most what the tenant's row has committed
and reserved. -/
theorem solvent {s₀ : Store} {replicas : Nat} {limiter : InFlightLimiter} {es : List Event}
    {w : World} (hl : InFlightLimiter.make cfg.maxInFlightUpstream = .ok limiter)
    (hprice : cfg.priceCents = cfg.providerPriceCents)
    (hrun : Run (Steps (World.next cfg)) (.start cfg s₀ replicas limiter) es w) (u : TenantId) :
    w.service.provider.ledger.lookupsOf u * w.service.provider.ledger.priceCentsPerLookup ≤
      w.service.store.balance (.tenant u .committed) +
        w.service.store.balance (.tenant u .reserved) := by
  have hs := World.run_sound hl hrun
  have hbill := World.run_billed hl hrun u
  have hsum : total (fun t => t.billed u) w.tasks * cfg.priceCents ≤
      total (fun t => net t.trail u) w.tasks := by
    rw [total_mul]
    exact total_le_total fun t ht => (hs.task t ht).billed_le hprice u
  have hnet : total (fun t => net t.trail u) w.tasks =
      total (fun t => amounts t.trail (.tenant u .reserved)) w.tasks +
        total (fun t => amounts t.trail (.tenant u .committed)) w.tasks := total_add _ _ _
  have hlookups : w.service.provider.ledger.lookupsOf u * cfg.priceCents ≤
      total (fun t => t.billed u) w.tasks * cfg.priceCents := by
    refine mul_le_mul_of_nonneg_right ?_ (Int.natCast_nonneg _)
    unfold World.unbilled at hbill
    omega
  have hr := s₀.balance_tenant_nonneg u .reserved
  have hc := s₀.balance_tenant_nonneg u .committed
  rw [hs.price, ← hprice, hs.books, hs.books]
  omega

/-- A client gives its call up at its deadline while the provider holds it, and the provider
answers it afterwards. -/
def billedAfterItsDeadline : List Event :=
  [.arrive (.demo 0)] ++ List.replicate 9 (.advance 0) ++ [.hold, .resume 0, .resume 0,
    .fault 0 .deadline] ++ List.replicate 3 (.advance 0) ++ [.release, .resume 0]

/-- The charge in full covers the late bill. -/
theorem solvent_after_a_deadline :
    ∃ w, replay (World.next (.demo 48)) (.demo 48) billedAfterItsDeadline = some w ∧
      w.service.provider.ledger.lookupsOf Fixtures.attackerTenantId = 1 ∧
      1 * w.service.provider.ledger.priceCentsPerLookup ≤
        w.service.store.balance (.tenant Fixtures.attackerTenantId .committed) +
          w.service.store.balance (.tenant Fixtures.attackerTenantId .reserved) := by
  have hbilled : (replay (World.next (.demo 48)) (.demo 48) billedAfterItsDeadline).map
      (fun w => w.service.provider.ledger.lookupsOf Fixtures.attackerTenantId) = some 1 := by decide
  obtain ⟨w, hw, hone⟩ := Option.map_eq_some_iff.mp hbilled
  have h := solvent rfl rfl (World.run_demo hw) Fixtures.attackerTenantId
  exact ⟨w, hw, hone, hone ▸ h⟩

end Limitless
