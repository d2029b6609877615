import Limitless.Vulnerable.Invariant
import Mathlib.Tactic.Ring

/-!
# The accounts of an unbounded import

`import_bundle` takes a bundle on in one loop and pays for it in another, each in chunks of its own.
`Booked` is the invariant of both: what has been written down, what the pool has been charged, and
what the provider has been paid for, at any value of the loops' variables. `ImportPoint.Books` reads
it at every point, and `Pc.steps` bounds what is left to do. Each kind of step has its own lemma
(`Sends.books` and so on), and `Step.books` is all of them. The pool may be drained by anybody in
between, so the second loop may stop anywhere.
-/

namespace Limitless.Vulnerable

open Indexed Runs

/-! ## The invariant of the loops -/

/-- What an import has done with `remaining` records still to be taken on, after so many lookups
were `performed` and `charged`, and while `pending` more have been charged to the pool. -/
structure Booked (cfg : Config) (b : Import) (remaining : ℕ) (performed charged pending : Int)
    (trail : List Effect) : Prop where
  remaining_le : remaining ≤ b.records
  flushes : ∀ u records cents, .recordedWork u records cents ∈ trail →
    1 ≤ records ∧ records ≤ admitFlushRecords ∧ cents = records * cfg.priceCents
  records : total (Effect.amount (.records b.tenantId)) trail = b.records - remaining
  cents : total (Effect.amount (.cents b.tenantId)) trail =
    (b.records - remaining) * cfg.priceCents
  performed_nonneg : 0 ≤ performed
  pending_nonneg : 0 ≤ pending
  performed_le : performed + pending ≤ b.records
  pool : total (Effect.amount .pool) trail = (performed + pending) * cfg.priceCents
  billed : total (Effect.billed b.tenantId) trail = performed
  charged_eq : charged = performed * cfg.providerPriceCents

/-- Why the second loop has ended. -/
def Stopped (cfg : Config) (b : Import) (performed : Int) (trail : List Effect) : Prop :=
  performed = b.records ∨ ∃ per : SpendPeriod,
    .drained (b.nextChunk performed) (some per) ∈ trail ∧
      per.capCents < per.committedCents + per.reservedCents +
        b.nextChunk performed * cfg.priceCents

/-- The accounts at a point of an import. -/
def ImportPoint.Books (cfg : Config) (b : Import) (trail : List Effect) : ImportPoint → Prop
  | takeConnection => Booked cfg b b.records 0 0 0 trail
  | flush remaining => Booked cfg b remaining 0 0 0 trail
  | takeSpending => Booked cfg b 0 0 0 0 trail
  | spend performed charged => Booked cfg b 0 performed charged 0 trail
  | callProvider performed charged chunk | awaitResponse performed charged chunk =>
    1 ≤ chunk ∧ Booked cfg b 0 performed charged chunk trail
  | insertJob performed charged =>
    Booked cfg b 0 performed charged 0 trail ∧ Stopped cfg b performed trail
  | leaveConnection performed charged =>
    Booked cfg b 0 performed charged 0 trail ∧ Stopped cfg b performed trail ∧
      .insertedJob b.jobId b.tenantId b.records charged ∈ trail

/-- The accounts at a point of the request that makes an import. -/
def Pc.Books (cfg : Config) (b : Import) (trail : List Effect) : Pc → Prop
  | .authenticating => trail = []
  | .reading u => u = b.tenantId ∧ trail = []
  | .importing b' p => b' = b ∧ p.Books cfg b trail
  | .enriching _ _ | .ended _ => False

/-- The request makes the import: it is authenticated, and its body is small enough and can be
decompressed. -/
def Request.Imports (q : Request) (b : Import) : Prop :=
  q.principal = some b.tenantId ∧ ∃ bytes ≤ compressedBodyLimitBytes,
    q.payload = .importBundle bytes (.ok b.records) b.jobId

/-- How many steps of its own the request can take from a point. -/
def Pc.steps (n : ℕ) : Pc → ℕ
  | .authenticating => 4 * n + 9
  | .reading _ => 4 * n + 8
  | .importing _ .takeConnection => 4 * n + 7
  | .importing _ (.flush remaining) => 3 * n + 6 + remaining
  | .importing _ .takeSpending => 3 * n + 5
  | .importing _ (.spend performed _) => 3 * (n - performed).toNat + 4
  | .importing _ (.callProvider performed _ _) => 3 * (n - performed).toNat + 3
  | .importing _ (.awaitResponse performed _ _) => 3 * (n - performed).toNat + 2
  | .importing _ (.insertJob _ _) => 2
  | .importing _ (.leaveConnection _ _) => 1
  | .enriching _ _ | .ended _ => 0

/-- The handler has gone through both loops, and either answered or found its job's identifier
taken. -/
def Finished (cfg : Config) (b : Import) (t : Task) : Prop :=
  ∃ performed charged, Booked cfg b 0 performed charged 0 t.trail ∧
    Stopped cfg b performed t.trail ∧ t.call = none ∧
    (t.pc = .ended (.responded (.imported b.jobId b.tenantId .completed b.records charged)) ∧
        .insertedJob b.jobId b.tenantId b.records charged ∈ t.trail ∨
      t.pc = .ended (.raised (.store .uniqueViolation)) ∧
        t.raised = some (.importing b (.insertJob performed charged), .store .uniqueViolation))

variable {cfg : Config} {s s' : Service} {t t' : Task} {b : Import} {remaining : ℕ}
  {performed charged pending : Int} {trail : List Effect}

/-! ## What each effect adds -/

theorem Booked.start (cfg : Config) (b : Import) : Booked cfg b b.records 0 0 0 [] where
  remaining_le := le_rfl
  flushes _ _ _ h := by cases h
  records := by simp
  cents := by simp
  performed_nonneg := le_rfl
  pending_nonneg := le_rfl
  performed_le := by omega
  pool := by simp
  billed := rfl
  charged_eq := by simp

/-- A flush takes on some of what remains. -/
theorem Booked.flush (h : Booked cfg b remaining 0 0 0 trail) (hpos : 0 < remaining) :
    Booked cfg b (remaining - min admitFlushRecords remaining) 0 0 0
      (trail ++ [.recordedWork b.tenantId (min admitFlushRecords remaining)
        (min admitFlushRecords remaining * cfg.priceCents)]) := by
  have hflush : 1 ≤ min admitFlushRecords remaining ∧
      min admitFlushRecords remaining ≤ admitFlushRecords ∧
      min admitFlushRecords remaining ≤ remaining := by
    unfold admitFlushRecords
    omega
  have hle := h.remaining_le
  generalize min admitFlushRecords remaining = flush at hflush ⊢
  have hleft : ((remaining - flush : ℕ) : Int) = remaining - flush := by omega
  refine ⟨by omega, fun u records cents hmem => ?_, ?_, ?_, h.performed_nonneg, h.pending_nonneg,
    h.performed_le, ?_, ?_, h.charged_eq⟩
  · rcases List.mem_append.mp hmem with hmem | hmem
    · exact h.flushes u records cents hmem
    · cases List.mem_singleton.mp hmem
      exact ⟨hflush.1, hflush.2.1, rfl⟩
  · rw [total_append, h.records, hleft]
    simp only [total_cons, total_nil, Effect.amount, if_true]
    omega
  · rw [total_append, h.cents, hleft]
    simp only [total_cons, total_nil, Effect.amount, if_true]
    push_cast
    ring
  · rw [total_append, h.pool]
    simp [Effect.amount]
  · rw [total_append, h.billed]
    simp [Effect.billed]

/-- An effect of the second loop, with what it adds to the pool and to the bill. -/
theorem Booked.spend {performed' charged' pending' : Int} {e : Effect}
    (h : Booked cfg b remaining performed charged pending trail)
    (hflush : ∀ u records cents, e ≠ .recordedWork u records cents)
    (hperformed : 0 ≤ performed') (hpending : 0 ≤ pending')
    (hle : performed' + pending' ≤ b.records)
    (hpool : e.amount .pool = (performed' + pending' - (performed + pending)) * cfg.priceCents)
    (hbilled : e.billed b.tenantId = performed' - performed)
    (hcharged : charged' = performed' * cfg.providerPriceCents) :
    Booked cfg b remaining performed' charged' pending' (trail ++ [e]) where
  remaining_le := h.remaining_le
  flushes u records cents hmem := by
    rcases List.mem_append.mp hmem with hmem | hmem
    · exact h.flushes u records cents hmem
    · exact absurd (List.mem_singleton.mp hmem).symm (hflush u records cents)
  records := by
    rw [total_append, h.records, total_cons, total_nil]
    cases e <;> first | exact absurd rfl (hflush _ _ _) | exact add_zero _
  cents := by
    rw [total_append, h.cents, total_cons, total_nil]
    cases e <;> first | exact absurd rfl (hflush _ _ _) | exact add_zero _
  performed_nonneg := hperformed
  pending_nonneg := hpending
  performed_le := hle
  pool := by
    rw [total_append, h.pool, total_cons, total_nil, hpool]
    ring
  billed := by
    rw [total_append, h.billed, total_cons, total_nil, hbilled]
    omega
  charged_eq := hcharged

/-- The next chunk is not empty, and no more than what is left. -/
theorem Import.nextChunk_pos (h : performed < b.records) :
    1 ≤ b.nextChunk performed ∧ performed + b.nextChunk performed ≤ b.records := by
  unfold nextChunk enrichChunkRecords
  omega

theorem length_chunkNames (chunk : ℕ) : (Task.chunkNames chunk).length = chunk := by
  simp [Task.chunkNames]

/-! ## One step of the import -/

/-- The points an import goes on to. -/
theorem Onward.books {pc pc' : Pc} (h : Onward cfg t.request pc pc') (hq : t.request.Imports b)
    (hbooks : pc.Books cfg b trail) :
    (pc'.Books cfg b trail ∧ pc'.steps b.records < pc.steps b.records) ∨
      ∃ performed charged, pc = .importing b (.leaveConnection performed charged) ∧
        pc' = .ended (.responded (.imported b.jobId b.tenantId .completed b.records charged)) := by
  obtain ⟨hprincipal, bytes, hbytes, hpayload⟩ := hq
  cases h with
  | authenticated hu =>
      rw [hprincipal] at hu
      cases hu
      exact .inl ⟨⟨rfl, hbooks⟩, by simp only [Pc.steps]; omega⟩
  | readEnrich hread =>
      rw [hpayload] at hread
      cases hread
  | readImport hread =>
      rw [hpayload] at hread
      cases hread
      obtain ⟨rfl, rfl⟩ := hbooks
      exact .inl ⟨⟨rfl, Booked.start cfg b⟩, by simp only [Pc.steps]; omega⟩
  | connected | hadEarly | enriched => cases hbooks
  | admitting =>
      obtain ⟨rfl, hbooked⟩ := hbooks
      exact .inl ⟨⟨rfl, hbooked⟩, by simp only [Pc.steps]; omega⟩
  | admitted | spending =>
      obtain ⟨rfl, hbooked⟩ := hbooks
      exact .inl ⟨⟨rfl, hbooked⟩, by simp only [Pc.steps]; omega⟩
  | performed hdone =>
      obtain ⟨rfl, hbooked⟩ := hbooks
      have hle := hbooked.performed_le
      exact .inl ⟨⟨rfl, hbooked, .inl (by omega)⟩, by simp only [Pc.steps]; omega⟩
  | imported =>
      obtain ⟨rfl, -⟩ := hbooks
      exact .inr ⟨_, _, rfl, rfl⟩

/-- A call goes out for a chunk that has been charged. -/
theorem Sends.books {pc pc' : Pc} {payload : LookupRequest} (h : Sends pc pc')
    (hbooks : pc.Books cfg b trail) :
    pc'.Books cfg b (trail ++ [.sent payload]) ∧ pc'.steps b.records < pc.steps b.records := by
  cases h with
  | early | enrich => cases hbooks
  | chunk =>
      obtain ⟨rfl, hchunk, hbooked⟩ := hbooks
      refine ⟨⟨rfl, hchunk, hbooked.spend (by simp) hbooked.performed_nonneg
        hbooked.pending_nonneg hbooked.performed_le ?_ ?_ hbooked.charged_eq⟩, ?_⟩
      · simp [Effect.amount]
      · simp [Effect.billed]
      · simp only [Pc.steps]
        omega

/-- The answer to it makes what was pending performed, and charged at the provider's price. -/
theorem Takes.books {pc pc' : Pc} {payload : LookupRequest} {result : LookupResponse}
    (h : Takes result pc pc') (hawaits : pc.awaits = some payload)
    (hresult : result = payload.response cfg.providerPriceCents) (hbooks : pc.Books cfg b trail) :
    pc'.Books cfg b (trail ++ [.received payload result]) ∧
      pc'.steps b.records < pc.steps b.records := by
  cases h with
  | early | enrich => cases hbooks
  | @chunk b' performed charged chunk =>
      obtain ⟨rfl, hchunk, hbooked⟩ := hbooks
      obtain rfl := Option.some.inj hawaits
      have hlookups : result.lookups = chunk := by
        rw [hresult]
        exact congrArg Nat.cast (length_chunkNames chunk)
      have hcents : result.centsCharged = chunk * cfg.providerPriceCents := by
        rw [← hlookups, hresult]
        rfl
      have hle := hbooked.performed_le
      have hnonneg := hbooked.performed_nonneg
      refine ⟨⟨rfl, hbooked.spend (by simp) (by omega) le_rfl (by omega) ?_ ?_ ?_⟩, ?_⟩
      · simp only [Effect.amount, hlookups]
        ring
      · simp [Effect.billed, hlookups]
      · rw [hbooked.charged_eq, hlookups, hcents]
        ring
      · simp only [Pc.steps, hlookups]
        omega

/-- The pool is charged for the next chunk, which is pending from now on. -/
theorem Charges.books {pc pc' : Pc} {lookups : ℕ} (h : Charges pc lookups pc')
    (hbooks : pc.Books cfg b trail) :
    pc'.Books cfg b (trail ++ [.charged (lookups * cfg.priceCents)]) ∧
      pc'.steps b.records < pc.steps b.records := by
  cases h with
  | enrich => cases hbooks
  | chunk hless =>
      obtain ⟨rfl, hbooked⟩ := hbooks
      obtain ⟨hpos, hle⟩ := Import.nextChunk_pos hless
      refine ⟨⟨rfl, hpos, hbooked.spend (by simp) hbooked.performed_nonneg (by omega) hle ?_ ?_
        hbooked.charged_eq⟩, ?_⟩
      · simp only [Effect.amount]
        push_cast
        ring
      · simp [Effect.billed]
      · simp only [Pc.steps]
        omega

/-- A flush is written down. -/
theorem Records.books {pc pc' : Pc} {u : TenantId} {records : ℕ} (h : Records pc u records pc')
    (hbooks : pc.Books cfg b trail) :
    pc'.Books cfg b (trail ++ [.recordedWork u records (records * cfg.priceCents)]) ∧
      pc'.steps b.records < pc.steps b.records := by
  cases h with
  | enrich => cases hbooks
  | flush hpos =>
      obtain ⟨rfl, hbooked⟩ := hbooks
      refine ⟨⟨rfl, hbooked.flush hpos⟩, ?_⟩
      simp only [Pc.steps]
      unfold admitFlushRecords
      omega

/-- The pool has no room for the next chunk: the second loop stops. -/
theorem Booked.drains {per : SpendPeriod} (h : Booked cfg b 0 performed charged 0 trail)
    (hfull : per.capCents < per.committedCents + per.reservedCents +
      b.nextChunk performed * cfg.priceCents) :
    Booked cfg b 0 performed charged 0 (trail ++ [.drained (b.nextChunk performed) (some per)]) ∧
      Stopped cfg b performed (trail ++ [.drained (b.nextChunk performed) (some per)]) := by
  refine ⟨h.spend (by simp) h.performed_nonneg le_rfl h.performed_le ?_ ?_ h.charged_eq,
    .inr ⟨per, List.mem_append_right _ List.mem_cons_self, hfull⟩⟩
  · simp [Effect.amount]
  · simp [Effect.billed]

/-- The job is inserted with what the loop has charged. -/
theorem Booked.inserts (h : Booked cfg b 0 performed charged 0 trail) (jobId : JobId)
    (u : TenantId) (records : ℕ) (cents : Int) :
    Booked cfg b 0 performed charged 0 (trail ++ [.insertedJob jobId u records cents]) := by
  refine h.spend (by simp) h.performed_nonneg le_rfl h.performed_le ?_ ?_ h.charged_eq
  · simp [Effect.amount]
  · simp [Effect.billed]

/-- What has been done since does not change why the loop stopped. -/
theorem Stopped.append (h : Stopped cfg b performed trail) (more : List Effect) :
    Stopped cfg b performed (trail ++ more) := by
  rcases h with hall | ⟨per, hmem, hfull⟩
  · exact .inl hall
  · exact .inr ⟨per, List.mem_append_left _ hmem, hfull⟩

/-- Nothing refuses a request that makes an import, once it has been read or before. -/
theorem Refuses.not_books {q : Request} {pc : Pc} {exc : Exception} (h : Refuses cfg s q pc exc)
    (hq : q.Imports b) : ¬ pc.Books cfg b trail := by
  obtain ⟨hprincipal, bytes, hbytes, hpayload⟩ := hq
  intro hbooks
  cases h with
  | unauthorized hnone =>
      rw [hnone] at hprincipal
      cases hprincipal
  | malformed hread | undecodable hread =>
      rw [hpayload] at hread
      cases hread
  | tooLarge hread hlarge =>
      rw [hpayload] at hread
      cases hread
      omega
  | unknownRepair | drained => cases hbooks

/-- What an import was charged is never negative, so only its job's identifier can be refused. -/
theorem Booked.charged_nonneg (h : Booked cfg b remaining performed charged pending trail) :
    0 ≤ charged := by
  rw [h.charged_eq]
  exact mul_nonneg h.performed_nonneg (Int.natCast_nonneg _)

/-- **Step lemma.** A step of the import keeps its accounts and leaves fewer steps to take, or it is
the last. -/
theorem Step.books (h : Step cfg s t s' t') (hq : t.request.Imports b)
    (hfits : t.Fits cfg.providerPriceCents) (hperiod : s.database.store.period?.isSome)
    (hbooks : t.pc.Books cfg b t.trail) :
    (t'.pc.Books cfg b t'.trail ∧ t'.pc.steps b.records < t.pc.steps b.records) ∨
      Finished cfg b t' := by
  have hend := h.not_ended
  cases h with
  | onward hpc =>
      rcases hpc.books hq hbooks with hnext | ⟨performed, charged, hlast, rfl⟩
      · exact .inl hnext
      · rw [hlast] at hbooks
        obtain ⟨-, hbooked, hstopped, hjob⟩ := hbooks
        have hcall := (Pc.calls_none (by rw [hlast]; rfl)).mp (hfits hend)
        exact .inr ⟨performed, charged, hbooked, hstopped, hcall, .inl ⟨rfl, hjob⟩⟩
  | sends hpc => exact .inl (hpc.books hbooks)
  | @takes payload result pc hpc hcall =>
      obtain ⟨awaited, hawaits⟩ := hpc.free.2.1
      obtain ⟨c, hc, rfl, hanswer⟩ := (Pc.calls_some hawaits).mp (hfits hend)
      obtain rfl := Option.some.inj (hcall.symm.trans hc)
      exact .inl (hpc.books hawaits (hanswer _ rfl) hbooks)
  | charges hpc => exact .inl (hpc.books hbooks)
  | records hpc => exact .inl (hpc.books hbooks)
  | selects hpc | upserts hpc =>
      rw [hpc] at hbooks
      cases hbooks
  | @drains b' performed charged hpc hless hfull =>
      obtain ⟨per, hper⟩ := Option.isSome_iff_exists.mp hperiod
      rw [hpc] at hbooks ⊢
      obtain ⟨rfl, hbooked⟩ := hbooks
      rw [hper]
      refine .inl ⟨⟨rfl, hbooked.drains (hfull per hper)⟩, ?_⟩
      simp only [Task.did, Pc.steps]
      omega
  | @inserts b' performed charged s' hpc =>
      rw [hpc] at hbooks ⊢
      obtain ⟨rfl, hbooked, hstopped⟩ := hbooks
      refine .inl ⟨⟨rfl, hbooked.inserts _ _ _ _, hstopped.append _,
        List.mem_append_right _ List.mem_cons_self⟩, ?_⟩
      simp only [Task.did, Pc.steps]
      omega
  | refuses hpc => exact absurd hbooks (hpc.not_books hq)
  | @collides b' performed charged error hpc hunique =>
      rw [hpc] at hbooks
      obtain ⟨rfl, hbooked, hstopped⟩ := hbooks
      obtain ⟨rfl, -⟩ := hunique.resolve_left (not_lt.mpr hbooked.charged_nonneg)
      have hcall := (Pc.calls_none (by rw [hpc]; rfl)).mp (hfits hend)
      exact .inr ⟨performed, charged, hbooked, hstopped, hcall, .inr ⟨rfl, by rw [← hpc]; rfl⟩⟩

end Limitless.Vulnerable
