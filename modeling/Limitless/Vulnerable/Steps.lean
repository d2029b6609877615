import Limitless.Vulnerable.Books

/-!
# What a step of a request can be

`Step` lists what `Task.advance` can do, by what it does to the world: go on, send a call, take its
answer, ask the repair, charge the pool or find it drained, write something down, or raise an
exception. The sub-relations say from which points to which. `step_of_advance` is the inversion of
`advance`; what the later modules ask of a step is a case analysis of `Step`.
-/

namespace Limitless.Vulnerable

open Indexed

/-! ## From point to point -/

/-- The request goes on without touching the world. -/
inductive Onward (cfg : Config) (q : Request) : Pc → Pc → Prop
  | authenticated {u : TenantId} : q.principal = some u → Onward cfg q .authenticating (.reading u)
  | readEnrich {u : TenantId} {names : List String} : q.payload = .enrich (some names) →
      Onward cfg q (.reading u) (.enriching ⟨u, names⟩ .select)
  | readImport {u : TenantId} {bytes records : ℕ} {jobId : JobId} :
      q.payload = .importBundle bytes (.ok records) jobId → bytes ≤ compressedBodyLimitBytes →
      Onward cfg q (.reading u) (.importing ⟨u, records, jobId⟩ .takeConnection)
  | connected {e : Enrichment} {early : Option LookupResponse} :
      Onward cfg q (.enriching e (.takeConnection early)) (.enriching e (.chargePool early))
  | hadEarly {e : Enrichment} {result : LookupResponse} : Onward cfg q
      (.enriching e (.callProvider (some result))) (.enriching e (.upsertRecords result))
  | enriched {e : Enrichment} {result : LookupResponse} :
      Onward cfg q (.enriching e (.leaveConnection result)) (.ended (.responded
        (.enriched e.tenantId (enrichedRecords cfg e.tenantId result).length result.lookups
          result.centsCharged (enrichedRecords cfg e.tenantId result))))
  | admitting {b : Import} :
      Onward cfg q (.importing b .takeConnection) (.importing b (.flush b.records))
  | admitted {b : Import} : Onward cfg q (.importing b (.flush 0)) (.importing b .takeSpending)
  | spending {b : Import} :
      Onward cfg q (.importing b .takeSpending) (.importing b (.spend 0 0))
  | performed {b : Import} {performed charged : Int} : ¬ performed < b.records → Onward cfg q
      (.importing b (.spend performed charged)) (.importing b (.insertJob performed charged))
  | imported {b : Import} {performed charged : Int} :
      Onward cfg q (.importing b (.leaveConnection performed charged)) (.ended (.responded
        (.imported b.jobId b.tenantId .completed b.records charged)))

/-- The call a request waits for. -/
def Pc.awaits : Pc → Option LookupRequest
  | .enriching e .awaitEarly | .enriching e .awaitResponse =>
    some ⟨e.tenantId, e.companyNames, true⟩
  | .importing b (.awaitResponse _ _ chunk) => some ⟨b.tenantId, Task.chunkNames chunk, false⟩
  | _ => none

/-- The request sends a call, and waits for it. -/
inductive Sends : Pc → Pc → Prop
  | early {e : Enrichment} : Sends (.enriching e .callEarly) (.enriching e .awaitEarly)
  | enrich {e : Enrichment} :
      Sends (.enriching e (.callProvider none)) (.enriching e .awaitResponse)
  | chunk {b : Import} {performed charged : Int} {chunk : ℕ} :
      Sends (.importing b (.callProvider performed charged chunk))
        (.importing b (.awaitResponse performed charged chunk))

/-- The request takes the answer it has waited for. -/
inductive Takes (result : LookupResponse) : Pc → Pc → Prop
  | early {e : Enrichment} : Takes result (.enriching e .awaitEarly)
      (.enriching e (.takeConnection (some result)))
  | enrich {e : Enrichment} :
      Takes result (.enriching e .awaitResponse) (.enriching e (.upsertRecords result))
  | chunk {b : Import} {performed charged : Int} {chunk : ℕ} :
      Takes result (.importing b (.awaitResponse performed charged chunk)) (.importing b
        (.spend (performed + result.lookups) (charged + result.centsCharged)))

/-- The records of the next chunk of a bundle. -/
def Import.nextChunk (b : Import) (performed : Int) : ℕ :=
  (min (enrichChunkRecords : Int) (b.records - performed)).toNat

/-- The request charges the pool for so many lookups. -/
inductive Charges : Pc → ℕ → Pc → Prop
  | enrich {e : Enrichment} {early : Option LookupResponse} :
      Charges (.enriching e (.chargePool early)) e.companyNames.length
        (.enriching e (.recordWork early))
  | chunk {b : Import} {performed charged : Int} : performed < b.records →
      Charges (.importing b (.spend performed charged)) (b.nextChunk performed)
        (.importing b (.callProvider performed charged (b.nextChunk performed)))

/-- The request writes down work for so many records of a tenant. -/
inductive Records : Pc → TenantId → ℕ → Pc → Prop
  | enrich {e : Enrichment} {early : Option LookupResponse} :
      Records (.enriching e (.recordWork early)) e.tenantId e.companyNames.length
        (.enriching e (.callProvider early))
  | flush {b : Import} {remaining : ℕ} : 0 < remaining →
      Records (.importing b (.flush remaining)) b.tenantId (min admitFlushRecords remaining)
        (.importing b (.flush (remaining - min admitFlushRecords remaining)))

/-- The exceptions a handler's own statements raise, but for those of the repair and of
`insert_job`. -/
inductive Refuses (cfg : Config) (s : Service) (q : Request) : Pc → Exception → Prop
  | unauthorized : q.principal = none → Refuses cfg s q .authenticating .unauthorized
  | malformed {u : TenantId} : q.payload = .enrich none → Refuses cfg s q (.reading u) .badRequest
  | tooLarge {u : TenantId} {bytes : ℕ} {records : Except BundleFailure ℕ} {jobId : JobId} :
      q.payload = .importBundle bytes records jobId → compressedBodyLimitBytes < bytes →
      Refuses cfg s q (.reading u) (.limitReached .inputTooLarge .importBundle)
  | undecodable {u : TenantId} {bytes : ℕ} {failure : BundleFailure} {jobId : JobId} :
      q.payload = .importBundle bytes (.error failure) jobId →
      Refuses cfg s q (.reading u) failure.exception
  | unknownRepair {e : Enrichment} : parseHalfFix q.halfFix = none →
      Refuses cfg s q (.enriching e .select) .badRequest
  | drained {e : Enrichment} {early : Option LookupResponse} :
      Refuses cfg s q (.enriching e (.chargePool early)) (.limitReached .allowanceExhausted .enrich)

/-! ## Steps -/

/-- What a step of a request is. -/
inductive Step (cfg : Config) (s : Service) (t : Task) : Service → Task → Prop
  | onward {pc : Pc} : Onward cfg t.request t.pc pc → Step cfg s t s (t.goto pc)
  | sends {payload : LookupRequest} {pc : Pc} : Sends t.pc pc → pc.awaits = some payload →
      Step cfg s t s (t.send payload pc)
  | takes {payload : LookupRequest} {result : LookupResponse} {pc : Pc} : Takes result t.pc pc →
      t.call = some ⟨payload, .answered result⟩ → Step cfg s t s (t.receive payload result pc)
  | selects {e : Enrichment} {halfFix : HalfFix} {key : String} {cents : ℕ}
      {state state' : HalfFixState} {allowed : Bool} {t' : Task} :
      t.pc = .enriching e .select → parseHalfFix t.request.halfFix = some halfFix →
      key = HalfFixState.keyFor halfFix e.tenantId t.request.clientId →
      cents = e.companyNames.length * cfg.priceCents →
      s.halfFixes[t.request.replica]? = some state →
      state.consult halfFix key cents s.clock = (allowed, state') →
      (allowed = true ∧ t' = t.did (.granted t.request.replica halfFix key cents) (.enriching e
          (if halfFix = .nonCancellingDeadline then .callEarly else .takeConnection none)) ∨
        allowed = false ∧ t' = t.raise (.limitReached .allowanceExhausted .enrich)) →
      Step cfg s t { s with halfFixes := s.halfFixes.set t.request.replica state' } t'
  | charges {lookups : ℕ} {pc : Pc} {s' : Service} : Charges t.pc lookups pc →
      Wrote s [.charged (lookups * cfg.priceCents)] s' → s'.halfFixes = s.halfFixes →
      Step cfg s t s' (t.did (.charged (lookups * cfg.priceCents)) pc)
  | drains {b : Import} {performed charged : Int} : t.pc = .importing b (.spend performed charged) →
      performed < b.records →
      (∀ per, s.database.store.period? = some per → per.capCents < per.committedCents +
        per.reservedCents + b.nextChunk performed * cfg.priceCents) →
      Step cfg s t s (t.did (.drained (b.nextChunk performed) s.database.store.period?)
        (.importing b (.insertJob performed charged)))
  | records {u : TenantId} {records : ℕ} {pc : Pc} {s' : Service} : Records t.pc u records pc →
      Wrote s [.recordedWork u records (records * cfg.priceCents)] s' →
      s'.halfFixes = s.halfFixes →
      Step cfg s t s' (t.did (.recordedWork u records (records * cfg.priceCents)) pc)
  | upserts {e : Enrichment} {result : LookupResponse} {entries : List RecordEntry}
      {s' : Service} : t.pc = .enriching e (.upsertRecords result) →
      Wrote s [.upserted entries] s' → s'.halfFixes = s.halfFixes →
      Step cfg s t s' (t.did (.upserted entries) (.enriching e (.leaveConnection result)))
  | inserts {b : Import} {performed charged : Int} {s' : Service} :
      t.pc = .importing b (.insertJob performed charged) →
      Wrote s [.insertedJob b.jobId b.tenantId b.records charged] s' →
      s'.halfFixes = s.halfFixes →
      Step cfg s t s' (t.did (.insertedJob b.jobId b.tenantId b.records charged)
        (.importing b (.leaveConnection performed charged)))
  | refuses {exc : Exception} : Refuses cfg s t.request t.pc exc → Step cfg s t s (t.raise exc)
  | collides {b : Import} {performed charged : Int} {error : StoreError} :
      t.pc = .importing b (.insertJob performed charged) →
      charged < 0 ∨ error = .uniqueViolation ∧ (s.database.store.jobs.find? b.jobId).isSome →
      Step cfg s t s (t.raise (.store error))

variable {cfg : Config} {s s' : Service} {t t' : Task}

/-- The steps of `enrich`. -/
theorem step_of_enrich {e : Enrichment} {p : EnrichPoint} (hpc : t.pc = .enriching e p)
    (h : t.enrich cfg s e p = some (s', t')) : Step cfg s t s' t' := by
  cases p with
  | select =>
      simp only [Task.enrich, Task.select] at h
      split at h
      · next hnone =>
          cases h
          exact .refuses (hpc ▸ .unknownRepair hnone)
      · next halfFix hfix =>
          split at h
          · cases h
          · next state hstate =>
              split at h
              · next hallowed =>
                  cases h
                  exact .selects hpc hfix rfl rfl hstate rfl (.inl ⟨hallowed, rfl⟩)
              · next hrefused =>
                  cases h
                  exact .selects hpc hfix rfl rfl hstate rfl
                    (.inr ⟨Bool.eq_false_iff.mpr hrefused, rfl⟩)
  | callEarly =>
      cases h
      exact .sends (hpc ▸ .early) rfl
  | awaitEarly =>
      simp only [Task.enrich] at h
      split at h
      · next hcall =>
          cases h
          exact .takes (hpc ▸ .early) hcall
      · cases h
  | takeConnection early =>
      cases h
      exact .onward (hpc ▸ .connected)
  | chargePool early =>
      rcases chargePool_cases (Option.some.inj h) with ⟨store, heq, hwrote⟩ | ⟨heq, -⟩
      · cases heq
        exact .charges (hpc ▸ .enrich) hwrote rfl
      · cases heq
        exact .refuses (hpc ▸ .drained)
  | recordWork early =>
      obtain ⟨rfl, hwrote, hfixes⟩ := recordWork_eq (Option.some.inj h)
      exact .records (hpc ▸ .enrich) hwrote hfixes
  | callProvider early =>
      cases early with
      | some result =>
          cases h
          exact .onward (hpc ▸ .hadEarly)
      | none =>
          cases h
          exact .sends (hpc ▸ .enrich) rfl
  | awaitResponse =>
      simp only [Task.enrich] at h
      split at h
      · next hcall =>
          cases h
          exact .takes (hpc ▸ .enrich) hcall
      · cases h
  | upsertRecords result =>
      cases h
      exact .upserts hpc (upsert_wrote _ _ _ _) rfl
  | leaveConnection result =>
      cases h
      exact .onward (hpc ▸ .enriched)

/-- The steps of `import_bundle`. -/
theorem step_of_importBundle {b : Import} {p : ImportPoint} (hpc : t.pc = .importing b p)
    (h : t.importBundle cfg s b p = some (s', t')) : Step cfg s t s' t' := by
  cases p with
  | takeConnection =>
      cases h
      exact .onward (hpc ▸ .admitting)
  | flush remaining =>
      simp only [Task.importBundle] at h
      split at h
      · next hsome =>
          obtain ⟨rfl, hwrote, hfixes⟩ := recordWork_eq (Option.some.inj h)
          exact .records (hpc ▸ .flush hsome) hwrote hfixes
      · next hnone =>
          cases h
          obtain rfl : remaining = 0 := by omega
          exact .onward (hpc ▸ .admitted)
  | takeSpending =>
      cases h
      exact .onward (hpc ▸ .spending)
  | spend performed charged =>
      simp only [Task.importBundle] at h
      split at h
      · next hless =>
          rcases chargePool_cases (Option.some.inj h) with ⟨store, heq, hwrote⟩ | ⟨heq, hfull⟩
          · cases heq
            exact .charges (hpc ▸ .chunk hless) hwrote rfl
          · cases heq
            exact .drains hpc hless hfull
      · next hdone =>
          cases h
          exact .onward (hpc ▸ .performed hdone)
  | callProvider performed charged chunk =>
      cases h
      exact .sends (hpc ▸ .chunk) rfl
  | awaitResponse performed charged chunk =>
      simp only [Task.importBundle] at h
      split at h
      · next hcall =>
          cases h
          exact .takes (hpc ▸ .chunk) hcall
      · cases h
  | insertJob performed charged =>
      simp only [Task.importBundle] at h
      split at h
      · next error herror =>
          cases h
          exact .collides hpc (Store.insertJob_error (by omega) herror)
      · next store hstore =>
          cases h
          exact .inserts hpc (insert_wrote hstore) rfl
  | leaveConnection performed charged =>
      cases h
      exact .onward (hpc ▸ .imported)

/-- `advance` does nothing else. -/
theorem step_of_advance (h : t.advance cfg s = some (s', t')) : Step cfg s t s' t' := by
  unfold Task.advance at h
  split at h
  · next hpc =>
      split at h
      · next hnone =>
          cases h
          exact .refuses (hpc ▸ .unauthorized hnone)
      · next u hu =>
          cases h
          exact .onward (hpc ▸ .authenticated hu)
  · next u hpc =>
      rw [Option.some.injEq, Prod.mk.injEq] at h
      obtain ⟨rfl, rfl⟩ := h
      unfold Task.read
      split
      · next names hpayload => exact .onward (hpc ▸ .readEnrich hpayload)
      · next hpayload => exact .refuses (hpc ▸ .malformed hpayload)
      · next bytes records jobId hpayload =>
          split
          · next hlarge => exact .refuses (hpc ▸ .tooLarge hpayload hlarge)
          · next hsmall =>
              split
              · exact .onward (hpc ▸ .readImport hpayload (not_lt.mp hsmall))
              · exact .refuses (hpc ▸ .undecodable hpayload)
  · next e p hpc => exact step_of_enrich hpc h
  · next b p hpc => exact step_of_importBundle hpc h
  · cases h

end Limitless.Vulnerable
