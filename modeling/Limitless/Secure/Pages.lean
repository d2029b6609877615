import Limitless.Secure.Admitted
import Limitless.Secure.Ownership

/-!
# A tenant lists what it was answered

`list_records`, beside everything that upserts. `Shelves` is what a request's own step does to the
records and to a page. A page is `read_records` of a store that the run went through
(`World.listed_of_run`), so it shows what holds of all of those: records of the tenant alone
(`pages_are_the_tenants`), and, from a `201` on, every record that it upserted, unless the page is
full before them (`answered_then_listed`).
-/

namespace Limitless

open Indexed Keyed Runs

/-! ## One step -/

/-- The request lists records, or has listed them. -/
def Pc.lists : Pc → Bool
  | listing _ _ _ | ended (.responded (.page _)) => true
  | _ => false

/-- The page a request has read. -/
def Pc.page? : Pc → Option RecordPage
  | listing _ _ (.leaveConnection page) | ended (.responded (.page page)) => some page
  | _ => none

/-- What a step of a request does to the records, and to a page. -/
inductive Shelves (cfg : Config) (s : Service) (t : Task) : Service × Task → Prop
  | upserts {w : Work} {r : Reservation} {result : LookupResponse} :
      t.pc = .finishing w r result .upsertRecords →
      Shelves cfg s t ({ s with
          store := s.store.upsertRecords w.tenantId (recordEntries cfg w.tenantId result) s.clock },
        t.did (.upserted (recordEntries cfg w.tenantId result)) (.finishing w r result .settle))
  | bounds {u : TenantId} {n : Nat} : t.pc = .reading u → t.request.payload = .listRecords (.ok n) →
      Shelves cfg s t (s, t.goto (.listing u n .takeConnection))
  | connects {u : TenantId} {n : Nat} : t.pc = .listing u n .takeConnection →
      Shelves cfg s t (s, t.goto (.listing u n .readRecords))
  | reads {u : TenantId} {n : Nat} : t.pc = .listing u n .readRecords →
      Shelves cfg s t
        (s, t.goto (.listing u n (.leaveConnection (s.store.readRecords u n))))
  | shows {u : TenantId} {n : Nat} {page : RecordPage} :
      t.pc = .listing u n (.leaveConnection page) →
      Shelves cfg s t (s, t.goto (.ended (.responded (.page page))))
  | aside {x : Service × Task} : x.1.store.records = s.store.records →
      (∀ entries, .upserted entries ∈ x.2.trail → .upserted entries ∈ t.trail) →
      x.2.request = t.request → x.2.pc.lists = false → Shelves cfg s t x

variable {cfg : Config} {s s' : Service} {t t' : Task}

theorem shelves_goto {pc : Pc} (hrecords : s'.store.records = s.store.records)
    (hpc : pc.lists = false) : Shelves cfg s t (s', t.goto pc) :=
  .aside hrecords (fun _ h => h) rfl hpc

theorem shelves_did {eff : Effect} {pc : Pc} (hrecords : s'.store.records = s.store.records)
    (heff : ∀ entries, eff ≠ .upserted entries) (hpc : pc.lists = false) :
    Shelves cfg s t (s', t.did eff pc) := by
  refine .aside hrecords (fun entries hmem => ?_) rfl hpc
  rcases List.mem_append.mp hmem with hmem | hmem
  · exact hmem
  · exact absurd (List.mem_singleton.mp hmem).symm (heff entries)

theorem Task.raise_shelves (cfg : Config) (s : Service) (t : Task) (exc : Exception) :
    Shelves cfg s t (t.raise s exc) := by
  refine .aside ?_ (fun entries hmem => ?_) rfl ?_
  · show (if t.pc.holdsSlot then s.leaveSlot t.request.replica else s).store.records = _
    split
    · rw [Service.leaveSlot_store]
    · rfl
  · simp only [raise] at hmem
    split at hmem
    · simpa using hmem
    · exact hmem
  · unfold raise
    dsimp only
    split <;> rfl

theorem Store.settle_records {st st' : Store} {r : Reservation} {l c : Int}
    (h : st.settle r l c = .ok st') : st'.records = st.records := by
  rw [settle_eq] at h
  split at h
  · cases h
  · split at h
    · cases h
    · cases h
      rfl

/-- A request's own step does one of these. -/
theorem shelves_of_advance (hstep : t.advance cfg s = some (s', t')) :
    Shelves cfg s t (s', t') := by
  have hshelves : ∀ {x : Service × Task}, Shelves cfg s t x → some x = some (s', t') →
      Shelves cfg s t (s', t') := by
    rintro _ hx ⟨⟩
    exact hx
  unfold Task.advance at hstep
  split at hstep
  · split at hstep
    · exact hshelves (t.raise_shelves cfg s _) hstep
    · exact hshelves (shelves_goto rfl rfl) hstep
  · next u hpc =>
      refine hshelves ?_ hstep
      unfold Task.read
      split
      · split
        · exact t.raise_shelves cfg s _
        · exact shelves_goto rfl rfl
      · exact shelves_goto rfl rfl
      · next hpayload => exact .bounds hpc hpayload
      all_goals exact t.raise_shelves cfg s _
  · exact hshelves (shelves_goto rfl rfl) hstep
  · refine hshelves ?_ hstep
    unfold Task.reserve
    split
    · next hreserve => exact shelves_did (Store.reserve_ok hreserve).2.2.1.records (by simp) rfl
    · exact t.raise_shelves cfg s _
    · exact t.raise_shelves cfg s _
  · exact hshelves (shelves_goto rfl rfl) hstep
  · next w r p hpc =>
      cases p with
      | enterSlot =>
          simp only [Task.lookUp] at hstep
          split at hstep
          · cases hstep
          · split at hstep
            · exact hshelves (t.raise_shelves cfg s _) hstep
            · cases hstep
              exact shelves_did rfl (by simp) rfl
      | awaitResponse =>
          simp only [Task.lookUp] at hstep
          split at hstep
          · exact hshelves (shelves_goto rfl rfl) hstep
          · cases hstep
      | send =>
          refine hshelves (.aside rfl (fun entries hmem => ?_) rfl rfl) hstep
          simpa [Task.did] using hmem
      | enterRequestDeadline | enterUpstreamDeadline =>
          exact hshelves (shelves_goto rfl rfl) hstep
  · next w r result p hpc =>
      refine hshelves ?_ hstep
      cases p with
      | leaveSlot => exact shelves_did (by simp) (by simp) rfl
      | upsertRecords => exact .upserts hpc
      | settle =>
          simp only [Task.finish]
          split
          · exact t.raise_shelves cfg s _
          · next hsettle => exact shelves_did (Store.settle_records hsettle) (by simp) rfl
      | leaveConnection =>
          simp only [Task.finish]
          split
          · exact shelves_goto rfl rfl
          · exact shelves_goto rfl rfl
      | _ => exact shelves_goto rfl rfl
  · next w r attempted exc p hpc =>
      refine hshelves ?_ hstep
      cases p with
      | close =>
          simp only [Task.handle, Store.release]
          split <;> split
          all_goals first
            | exact t.raise_shelves cfg s _
            | next hsettle => exact shelves_did (Store.settle_records hsettle) (by simp) rfl
      | _ => exact shelves_goto rfl rfl
  · next w r result jobId p hpc =>
      refine hshelves ?_ hstep
      cases p with
      | insertJob =>
          simp only [Task.record]
          split
          · exact t.raise_shelves cfg s _
          · next hinsert => exact shelves_did (Store.insertJob_posted hinsert).2 (by simp) rfl
      | _ => exact shelves_goto rfl rfl
  · next u n p hpc =>
      refine hshelves ?_ hstep
      cases p with
      | takeConnection => exact .connects hpc
      | readRecords => exact .reads hpc
      | leaveConnection page => exact .shows hpc
  · cases hstep

/-! ## Records -/

/-- The row is as an upsert for its tenant leaves it: its name has its identifier, and its number is
the one of the name. -/
structure StoredRecord.Enriched (cfg : Config) (row : StoredRecord) : Prop where
  name : row.recordId = enrichedRecordId cfg row.tenantId row.companyName
  number : row.registryNumber = some (registryNumberFor row.companyName)
  enriched : row.enrichedAt.isSome = true

/-- Such a row of the tenant is in the store. -/
def Store.HasRecord (cfg : Config) (s : Store) (u : TenantId) (id : String) : Prop :=
  ∃ row, s.records.find? id = some row ∧ row.tenantId = u ∧ row.Enriched cfg

/-- The entries of a lookup call of the tenant that has been answered. -/
def lookupEntries (cfg : Config) (payload : LookupRequest) : List RecordEntry :=
  recordEntries cfg payload.tenantId (payload.response cfg.providerPriceCents)

section
variable {s : Store} {payload : LookupRequest} {u : TenantId} {id : String} {e : RecordEntry}
  {at' : Timestamp}

theorem mem_lookupEntries (h : e ∈ lookupEntries cfg payload) :
    e.recordId = enrichedRecordId cfg payload.tenantId e.companyName ∧
      e.registryNumber = registryNumberFor e.companyName := by
  obtain ⟨item, hitem, rfl⟩ := List.mem_map.mp h
  simp only [LookupRequest.response, LookupRequest.results] at hitem
  split at hitem
  · obtain ⟨name, -, rfl⟩ := List.mem_map.mp hitem
    exact ⟨rfl, rfl⟩
  · cases hitem

theorem mem_of_lastEntry {entries : List RecordEntry}
    (h : Keyed.lastEntry RecordEntry.recordId entries id = some e) :
    e ∈ entries ∧ e.recordId = id := by
  obtain ⟨hid, earlier, later, rfl, -⟩ := Keyed.lastEntry_eq_some.mp h
  exact ⟨List.mem_append_right _ List.mem_cons_self, hid⟩

/-- Whoever upserts, a record of the tenant stays one. -/
theorem Store.HasRecord.upsert (h : s.HasRecord cfg u id) (hdigest : cfg.HexDigests)
    (payload : LookupRequest) (at' : Timestamp) :
    (s.upsertRecords payload.tenantId (lookupEntries cfg payload) at').HasRecord cfg u id := by
  obtain ⟨row, hrow, rfl, hrecord⟩ := h
  have hfind := s.find?_upsertRecords payload.tenantId (lookupEntries cfg payload) at' id
  rw [hrow] at hfind
  cases hlast : lastEntry RecordEntry.recordId (lookupEntries cfg payload) id with
  | none =>
      rw [hlast] at hfind
      exact ⟨row, hfind, rfl, hrecord⟩
  | some e =>
      rw [hlast] at hfind
      obtain ⟨hmem, rfl⟩ := mem_of_lastEntry hlast
      obtain ⟨hname, hnumber⟩ := mem_lookupEntries hmem
      -- the identifier is of one tenant, so the upsert is for that tenant
      have hid : row.recordId = e.recordId := find?_key hrow
      have htenant : row.tenantId = payload.tenantId := by
        refine enrichedRecordId_tenant hdigest (x := row.companyName) (y := e.companyName) ?_
        rw [← hrecord.name, hid, hname]
      refine ⟨_, hfind, rfl, ?_, congrArg some hnumber, rfl⟩
      show row.recordId = enrichedRecordId cfg row.tenantId e.companyName
      rw [hid, hname, htenant]

/-- What has been upserted for a tenant is there. -/
theorem Owned.hasRecord (h : Owned cfg s.records) (hdigest : cfg.HexDigests)
    (he : e ∈ lookupEntries cfg payload) (at' : Timestamp) :
    (s.upsertRecords payload.tenantId (lookupEntries cfg payload) at').HasRecord cfg
      payload.tenantId e.recordId := by
  have hfind := s.find?_upsertRecords payload.tenantId (lookupEntries cfg payload) at' e.recordId
  cases hlast : lastEntry RecordEntry.recordId (lookupEntries cfg payload) e.recordId with
  | none => exact absurd rfl (lastEntry_eq_none.mp hlast e he)
  | some e' =>
      rw [hlast] at hfind
      obtain ⟨hmem, hid⟩ := mem_of_lastEntry hlast
      obtain ⟨hname, hnumber⟩ := mem_lookupEntries hmem
      cases hrow : s.records.find? e.recordId with
      | none =>
          rw [hrow] at hfind
          exact ⟨_, hfind, rfl, hname, congrArg some hnumber, rfl⟩
      | some row =>
          rw [hrow] at hfind
          have htenant := h.tenantId_eq hdigest (mem_lookupEntries he).1 hrow
          refine ⟨_, hfind, htenant, ?_, congrArg some hnumber, rfl⟩
          show row.recordId = enrichedRecordId cfg row.tenantId e'.companyName
          rw [find?_key hrow, htenant, ← hid, hname]

end

/-! ## Pages -/

/-- A page is the tenant's: as many records as it may have at the most, in the order of the
identifiers, under identifiers issued to the tenant. -/
structure RecordPage.Proper (cfg : Config) (page : RecordPage) : Prop where
  length_le : page.records.length ≤ page.pageSize
  ascending : page.records.Pairwise fun a b => a.recordId < b.recordId
  issued : ∀ r ∈ page.records, IssuedTo cfg page.tenantId r.recordId

/-- A page shows an enriched record, or is full before it. -/
def RecordPage.Covers (cfg : Config) (page : RecordPage) (id : String) : Prop :=
  (∃ r ∈ page.records, r.recordId = id ∧ id = enrichedRecordId cfg page.tenantId r.companyName ∧
      r.registryNumber = some (registryNumberFor r.companyName) ∧ r.enrichedAt.isSome = true) ∨
    page.records.length = page.pageSize ∧ ∀ r ∈ page.records, r.recordId < id

namespace Store

/-- The tenant's rows, in the order of the identifiers. -/
def rowsOf (s : Store) (u : TenantId) : List StoredRecord :=
  (s.records.entries.filter (·.tenantId = u)).mergeSort fun a b => a.recordId ≤ b.recordId

variable {s : Store} {u : TenantId} {n : Nat} {id : String}

theorem rowsOf_pairwise (s : Store) (u : TenantId) :
    (s.rowsOf u).Pairwise fun a b => a.recordId < b.recordId := by
  let rows : Keyed StoredRecord.recordId :=
    ⟨s.records.entries.filter (·.tenantId = u), s.records.nodup.sublist (List.filter_sublist.map _)⟩
  exact pairwise_sort (fun _ _ => decide_eq_true_iff) rows

theorem mem_rowsOf {row : StoredRecord} :
    row ∈ s.rowsOf u ↔ row ∈ s.records.entries ∧ row.tenantId = u := by
  rw [rowsOf, List.mem_mergeSort, List.mem_filter, decide_eq_true_iff]

theorem readRecords_proper (h : Owned cfg s.records) (u : TenantId) (n : Nat) :
    (s.readRecords u n).Proper cfg := by
  refine ⟨?_, List.pairwise_map.mpr ((s.rowsOf_pairwise u).sublist (List.take_sublist n _)), ?_⟩
  · simp [readRecords]
  · intro r hr
    obtain ⟨row, hrow, rfl⟩ := List.mem_map.mp hr
    obtain ⟨hmem, htenant⟩ := mem_rowsOf.mp (List.mem_of_mem_take hrow)
    have hissued := h row hmem
    rwa [htenant] at hissued

/-- A page of a store that has a record covers it. -/
theorem HasRecord.covered (h : s.HasRecord cfg u id) (n : Nat) :
    (s.readRecords u n).Covers cfg id := by
  obtain ⟨row, hfind, rfl, hrecord⟩ := h
  obtain rfl : row.recordId = id := find?_key hfind
  have hmem : row ∈ s.rowsOf row.tenantId := mem_rowsOf.mpr ⟨find?_mem hfind, rfl⟩
  rcases mem_take_or_full (s.rowsOf_pairwise row.tenantId) hmem n with htake | ⟨hfull, hbefore⟩
  · exact .inl ⟨_, List.mem_map_of_mem htake, rfl, hrecord.name, hrecord.number, hrecord.enriched⟩
  · refine .inr ⟨(List.length_map _).trans hfull, fun r hr => ?_⟩
    obtain ⟨row', hrow', rfl⟩ := List.mem_map.mp hr
    exact hbefore row' hrow'

end Store

/-! ## In a run -/

/-- A request that lists records was sent to, for its tenant, and its page is `read_records` of a
world of this kind. -/
structure Task.Listed (J : World → Prop) (t : Task) : Prop where
  lists : ∀ u n p, t.pc = .listing u n p →
    t.request.principal = some u ∧ t.request.payload = .listRecords (.ok n)
  page : ∀ page, t.pc.page? = some page → ∃ u n w, t.request.principal = some u ∧
    t.request.payload = .listRecords (.ok n) ∧ J w ∧ page = w.service.store.readRecords u n

variable {w w' : World} {e : Event} {J : World → Prop}

theorem Task.listed_of_not_lists (h : t.pc.lists = false) : t.Listed J := by
  refine ⟨fun u n p hpc => ?_, fun page hpage => ?_⟩
  · rw [hpc] at h
    cases h
  · cases hpc : t.pc with
    | listing => rw [hpc] at h; cases h
    | ended ending =>
        cases ending with
        | responded response =>
            cases response with
            | page => rw [hpc] at h; cases h
            | _ => rw [hpc] at hpage; cases hpage
        | raised => rw [hpc] at hpage; cases hpage
    | _ => rw [hpc] at hpage; cases hpage

/-- **Step lemma.** A step of a request, in such a world. -/
theorem Shelves.listed (hshelves : Shelves cfg w.service t (s', t')) (h : t.Listed J)
    (hasked : t.Asked) (hw : J w) : t'.Listed J := by
  cases hshelves with
  | upserts => exact Task.listed_of_not_lists rfl
  | bounds hpc hpayload =>
      refine ⟨fun u n p hlisting => ?_, fun page hpage => ?_⟩
      · cases hlisting
        exact ⟨hasked.reads _ hpc, hpayload⟩
      · cases hpage
  | connects hpc =>
      refine ⟨fun u n p hlisting => ?_, fun page hpage => ?_⟩
      · cases hlisting
        exact h.lists _ _ _ hpc
      · cases hpage
  | @reads u n hpc =>
      obtain ⟨hprincipal, hpayload⟩ := h.lists _ _ _ hpc
      refine ⟨fun v m p hlisting => ?_, fun page hpage => ?_⟩
      · cases hlisting
        exact ⟨hprincipal, hpayload⟩
      · cases hpage
        exact ⟨u, n, w, hprincipal, hpayload, hw, rfl⟩
  | @shows u n page hpc =>
      refine ⟨fun v m p hlisting => ?_, fun page' hpage => ?_⟩
      · cases hlisting
      · cases hpage
        exact h.page page (by rw [hpc]; rfl)
  | aside _ _ _ hlists => exact Task.listed_of_not_lists hlists

theorem Task.fault_shelves {f : Fault} (h : t.fault s f = some (s', t')) :
    Shelves cfg s t (s', t') := by
  unfold Task.fault at h
  split at h
  · cases h
  · split at h
    · cases h
      exact t.raise_shelves cfg s _
    · cases h
      exact t.raise_shelves cfg s _
    · split at h
      · cases h
        exact t.raise_shelves cfg s _
      · cases h

/-- **Run lemma.** The page of a request that arrives during a run through worlds of a kind is
`read_records` of one of them. -/
theorem World.listed_of_run {es : List Event} (hrun : Run (Steps (World.next cfg)) w es w')
    (hw : J w) (hstep : ∀ a e b, J a → a.next cfg e = some b → J b)
    (hasked : ∀ a, J a → ∀ t ∈ a.tasks, t.Asked) {k : Nat} (ht : w'.tasks[k]? = some t)
    (hlater : w.tasks.length ≤ k) : t.Listed J := by
  have hall : J w' ∧ ∀ k t, w'.tasks[k]? = some t → w.tasks.length ≤ k → t.Listed J := by
    refine hrun.invariant (I := fun a => J a ∧
      ∀ k t, a.tasks[k]? = some t → w.tasks.length ≤ k → t.Listed J) ?_
      ⟨hw, fun k t ht hk => ?_⟩
    · rintro a e b ⟨ha, h⟩ hnext
      refine ⟨hstep a e b ha hnext, ?_⟩
      have hset : ∀ {i : Nat} {x x' : Task}, a.tasks[i]? = some x →
          (x.Listed J → x'.Listed J) →
          ∀ k t, (a.tasks.set i x')[k]? = some t → w.tasks.length ≤ k → t.Listed J := by
        intro i x x' hi hx k t ht hk
        rcases getElem?_set_cases ht with ⟨rfl, rfl⟩ | ⟨-, ht⟩
        · exact hx (h _ x hi hk)
        · exact h k t ht hk
      cases moves_of_next hnext with
      | arrived =>
          intro k t ht hk
          rcases getElem?_concat_cases ht with ht | ⟨-, rfl⟩
          · exact h k t ht hk
          · exact Task.listed_of_not_lists rfl
      | advanced hi hadvance =>
          exact hset hi fun hx => (shelves_of_advance hadvance).listed hx
            (hasked a ha _ (List.mem_of_getElem? hi)) ha
      | struck hi hfault =>
          exact hset hi fun hx => (@Task.fault_shelves cfg _ _ _ _ _ hfault).listed hx
            (hasked a ha _ (List.mem_of_getElem? hi)) ha
      | served _ hi => exact hset hi fun hx => ⟨hx.lists, hx.page⟩
      | woke =>
          intro k t ht hk
          simp only [List.getElem?_map, Option.map_eq_some_iff] at ht
          obtain ⟨x, hx, rfl⟩ := ht
          exact ⟨(h k x hx hk).lists, (h k x hx hk).page⟩
      | reset | quiet => exact h
    · have hlt := (List.getElem?_eq_some_iff.mp ht).1
      omega
  exact hall.2 k t ht hlater

/-- What a request has upserted is what it asked for, and is there. -/
def Task.Shelved (cfg : Config) (s : Store) (t : Task) : Prop :=
  ∀ entries, .upserted entries ∈ t.trail → ∃ payload, t.request.Asks payload ∧
    entries = lookupEntries cfg payload ∧
    ∀ e ∈ entries, s.HasRecord cfg payload.tenantId e.recordId

/-- Every row is its tenant's, every request works on what it asked for, and what has been upserted
is there. -/
structure World.Shelved (cfg : Config) (w : World) : Prop where
  owned : Owned cfg w.service.store.records
  asked : ∀ t ∈ w.tasks, t.Asked
  shelved : ∀ t ∈ w.tasks, t.Shelved cfg w.service.store

theorem Task.Shelved.keep {st st' : Store} (h : t.Shelved cfg st)
    (hkeeps : ∀ u id, st.HasRecord cfg u id → st'.HasRecord cfg u id)
    (htrail : ∀ entries, .upserted entries ∈ t'.trail → .upserted entries ∈ t.trail)
    (hrequest : t'.request = t.request) : t'.Shelved cfg st' := by
  intro entries hmem
  obtain ⟨payload, hasks, hentries, hrecords⟩ := h entries (htrail entries hmem)
  exact ⟨payload, hrequest ▸ hasks, hentries, fun e he => hkeeps _ _ (hrecords e he)⟩

/-- The records stay as they are. -/
theorem Store.HasRecord.congr {st st' : Store} {u : TenantId} {id : String}
    (h : st.HasRecord cfg u id) (hrecords : st'.records = st.records) : st'.HasRecord cfg u id := by
  obtain ⟨row, hrow, hrecord⟩ := h
  exact ⟨row, hrecords ▸ hrow, hrecord⟩

/-- What `perform_lookups` upserts is what it has looked up. -/
theorem Task.Sound.upserts (h : t.Sound cfg) {w : Work} {r : Reservation} {result : LookupResponse}
    (hpc : t.pc = .finishing w r result .upsertRecords) :
    recordEntries cfg w.tenantId result = lookupEntries cfg w.lookupRequest := by
  have hlive := h.live (by rw [hpc]; rfl)
  rw [hpc] at hlive
  obtain ⟨-, ⟨-, rfl⟩, -, -⟩ := hlive
  rfl

/-- A step of a request keeps every tenant's records. -/
theorem Shelves.keeps (hshelves : Shelves cfg s t (s', t')) (hdigest : cfg.HexDigests)
    (hs : t.Sound cfg) (u : TenantId) (id : String) (h : s.store.HasRecord cfg u id) :
    s'.store.HasRecord cfg u id := by
  cases hshelves with
  | upserts hpc =>
      rw [hs.upserts hpc]
      exact h.upsert hdigest _ _
  | bounds | connects | reads | shows => exact h
  | aside hrecords => exact h.congr hrecords

/-- It keeps them their tenants'. -/
theorem Shelves.owned (hshelves : Shelves cfg s t (s', t')) (h : Owned cfg s.store.records) :
    Owned cfg s'.store.records := by
  cases hshelves with
  | @upserts w r result hpc =>
      rw [Store.upsertRecords_records]
      exact h.after (u := ⟨w.tenantId, result, s.clock⟩) fun _ he => he
  | bounds | connects | reads | shows => exact h
  | aside hrecords =>
      show Owned cfg s'.store.records
      rwa [hrecords]

/-- What it upserts is there. -/
theorem Shelves.shelved (hshelves : Shelves cfg s t (s', t')) (hdigest : cfg.HexDigests)
    (hs : t.Sound cfg) (hasked : t.Asked) (howned : Owned cfg s.store.records)
    (h : t.Shelved cfg s.store) : t'.Shelved cfg s'.store := by
  have hkeeps := hshelves.keeps hdigest hs
  cases hshelves with
  | @upserts w r result hpc =>
      intro entries hmem
      rcases List.mem_append.mp hmem with hmem | hmem
      · obtain ⟨payload, hasks, hentries, hrecords⟩ := h entries hmem
        exact ⟨payload, hasks, hentries, fun e he => hkeeps _ _ (hrecords e he)⟩
      · cases List.mem_singleton.mp hmem
        refine ⟨w.lookupRequest, hasked.works w (by rw [hpc]; rfl), hs.upserts hpc, fun e he => ?_⟩
        rw [hs.upserts hpc] at he ⊢
        exact howned.hasRecord hdigest he s.clock
  | bounds | connects | reads | shows => exact h.keep hkeeps (fun _ hmem => hmem) rfl
  | aside _ htrail hrequest => exact h.keep hkeeps htrail hrequest

/-- A step of the world keeps every tenant's records. -/
theorem World.keeps_records (hdigest : cfg.HexDigests) (hsound : ∀ t ∈ w.tasks, t.Sound cfg)
    (hnext : w.next cfg e = some w') (u : TenantId) (id : String)
    (h : w.service.store.HasRecord cfg u id) : w'.service.store.HasRecord cfg u id := by
  cases moves_of_next hnext with
  | advanced hi hadvance =>
      exact (shelves_of_advance hadvance).keeps hdigest (hsound _ (List.mem_of_getElem? hi)) u id h
  | struck hi hfault =>
      exact (Task.fault_shelves hfault).keeps hdigest (hsound _ (List.mem_of_getElem? hi)) u id h
  | arrived | served | woke | reset | quiet => exact h

/-- **Step lemma.** Whatever happens, what has been upserted stays there. -/
theorem World.Shelved.step (h : w.Shelved cfg) (hdigest : cfg.HexDigests)
    (hsound : ∀ t ∈ w.tasks, t.Sound cfg) (hnext : w.next cfg e = some w') : w'.Shelved cfg := by
  have hasked := World.asked_step h.asked hnext
  have hkeeps := World.keeps_records hdigest hsound hnext
  have hothers : ∀ t ∈ w.tasks, t.Shelved cfg w'.service.store := fun t ht =>
    (h.shelved t ht).keep hkeeps (fun _ hmem => hmem) rfl
  have hacts : ∀ {i : Nat} {t t' : Task} {s' : Service}, w.tasks[i]? = some t →
      Shelves cfg w.service t (s', t') →
      Owned cfg s'.store.records ∧ t'.Shelved cfg s'.store := by
    intro i t t' s' hi hshelves
    have hmem := List.mem_of_getElem? hi
    exact ⟨hshelves.owned h.owned, hshelves.shelved hdigest (hsound t hmem) (h.asked t hmem) h.owned
      (h.shelved t hmem)⟩
  cases moves_of_next hnext with
  | arrived =>
      refine ⟨h.owned, hasked, forall_mem_concat hothers fun entries hmem => ?_⟩
      cases hmem
  | advanced hi hadvance =>
      obtain ⟨howned, hshelved⟩ := hacts hi (shelves_of_advance hadvance)
      exact ⟨howned, hasked, forall_mem_set hshelved hothers⟩
  | struck hi hfault =>
      obtain ⟨howned, hshelved⟩ := hacts hi (Task.fault_shelves hfault)
      exact ⟨howned, hasked, forall_mem_set hshelved hothers⟩
  | served _ hi =>
      have hserved := hothers _ (List.mem_of_getElem? hi)
      exact ⟨h.owned, hasked, forall_mem_set (fun _ hmem => hserved _ hmem) hothers⟩
  | woke =>
      exact ⟨h.owned, hasked, List.forall_mem_map.mpr fun t ht _ hmem => hothers t ht _ hmem⟩
  | reset | quiet => exact ⟨h.owned, hasked, hothers⟩

variable {s₀ : Store} {replicas : Nat} {limiter : InFlightLimiter} {es es' : List Event}

/-- What a step of the world keeps. -/
theorem World.sound_shelved_step (hdigest : cfg.HexDigests) (a : World) (e : Event) (b : World)
    (h : a.Sound cfg s₀ replicas ∧ a.Shelved cfg) (hnext : a.next cfg e = some b) :
    b.Sound cfg s₀ replicas ∧ b.Shelved cfg :=
  ⟨h.1.step (moves_of_next hnext), h.2.step hdigest h.1.task hnext⟩

/-- **Run lemma.** From a store whose rows are their tenants'. -/
theorem World.shelved_of_run (hdigest : cfg.HexDigests) (howned : Owned cfg s₀.records)
    (hl : InFlightLimiter.make cfg.maxInFlightUpstream = .ok limiter)
    (hrun : Run (Steps (World.next cfg)) (.start cfg s₀ replicas limiter) es w) :
    w.Sound cfg s₀ replicas ∧ w.Shelved cfg := by
  refine hrun.invariant (I := fun w => World.Sound cfg s₀ replicas w ∧ w.Shelved cfg)
    (World.sound_shelved_step hdigest) ?_
  exact ⟨World.start_sound hl s₀ replicas, howned, fun t ht => absurd ht List.not_mem_nil,
    fun t ht => absurd ht List.not_mem_nil⟩

/-- A `201` has upserted every name that was asked for. -/
theorem Task.Asked.upserted {response : Response} {u : TenantId} {names : List String}
    (hasked : t.Asked) (hs : t.Sound cfg) (hlisted : t.Listed J)
    (hpc : t.pc = .ended (.responded response)) (hu : t.request.principal = some u)
    (hnames : t.request.payload.names? = some names) :
    .upserted (lookupEntries cfg ⟨u, names, true⟩) ∈ t.trail := by
  obtain ⟨e, hpc', last, before, hlive, hexit⟩ := hs.left (by rw [hpc]; rfl)
  cases hpc.symm.trans hpc'
  have hpayload : ∀ w : Work, t.request.Asks w.lookupRequest →
      w.lookupRequest = ⟨u, names, true⟩ := by
    intro w hasks
    rw [Work.lookupRequest, LookupRequest.mk.injEq]
    exact ⟨Option.some.inj (hasks.principal.symm.trans hu),
      Option.some.inj (hasks.names.symm.trans hnames), rfl⟩
  rcases hexit with ⟨hexit, -⟩ | ⟨exc, hraised, -⟩
  · cases hexit with
    | @enriched w r result hjob =>
        obtain ⟨-, ⟨-, rfl⟩, -, htrail⟩ := hlive
        have hasks := hasked.sends w.lookupRequest (by
          rw [htrail]
          simp [Pc.trail, FinishPoint.trail])
        rw [← hpayload w hasks, htrail]
        simp [Pc.trail, FinishPoint.trail, lookupEntries, Work.lookupRequest]
    | @imported w r result jobId =>
        obtain ⟨-, ⟨-, rfl⟩, -, htrail⟩ := hlive
        have hasks := hasked.sends w.lookupRequest (by
          rw [htrail]
          simp [Pc.trail, FinishPoint.trail])
        rw [← hpayload w hasks, htrail]
        simp [Pc.trail, FinishPoint.trail, lookupEntries, Work.lookupRequest]
    | @page v n page =>
        obtain ⟨v, n, -, -, hlist, -⟩ := hlisted.page page (by rw [hpc]; rfl)
        rw [hlist] at hnames
        cases hnames
  · cases hraised

/-- **Every page is its tenant's.** From a store whose rows are their tenants', in every run of any
number of replicas, whatever else goes on: a page that `list_records` answers is for the tenant of
the request, as large as was asked for at the most, in the order of the identifiers, and shows no
identifier that was not issued to that tenant; so none that enriching made for another. -/
theorem pages_are_the_tenants {page : RecordPage} (hdigest : cfg.HexDigests)
    (howned : Owned cfg s₀.records)
    (hl : InFlightLimiter.make cfg.maxInFlightUpstream = .ok limiter)
    (hrun : Run (Steps (World.next cfg)) (.start cfg s₀ replicas limiter) es w) (ht : t ∈ w.tasks)
    (hpage : t.pc = .ended (.responded (.page page))) :
    t.request.principal = some page.tenantId ∧
      t.request.payload = .listRecords (.ok page.pageSize) ∧ page.Proper cfg ∧
      ∀ v name, v ≠ page.tenantId → ∀ r ∈ page.records,
        r.recordId ≠ enrichedRecordId cfg v name := by
  obtain ⟨k, hk⟩ := List.getElem?_of_mem ht
  have hlisted : t.Listed fun w => w.Sound cfg s₀ replicas ∧ w.Shelved cfg :=
    World.listed_of_run hrun (World.shelved_of_run hdigest howned hl .nil)
      (World.sound_shelved_step hdigest) (fun a h => h.2.asked) hk (Nat.zero_le k)
  obtain ⟨u, n, a, hprincipal, hpayload, ⟨-, ha⟩, rfl⟩ := hlisted.page page (by rw [hpage]; rfl)
  have hproper := a.service.store.readRecords_proper ha.owned u n
  refine ⟨hprincipal, hpayload, hproper, fun v name hv r hr heq => hv ?_⟩
  have hissued := hproper.issued r hr
  rw [heq] at hissued
  exact (eq_of_issuedTo hdigest hissued).symm

/-- An enrichment of one name, served. -/
def oneEnrichment : List Event :=
  .arrive (.demo 0) :: List.replicate 9 (.advance 0) ++ List.replicate 2 (.resume 0) ++
    List.replicate 9 (.advance 0)

/-- Its tenant asks for a page of five records. -/
def thenListed : List Event :=
  .arrive ⟨0, some Fixtures.attackerTenantId, .listRecords (.ok 5)⟩ ::
    List.replicate 5 (.advance 1)

theorem Config.demo_hexDigests (c : Nat) : (Config.demo c).HexDigests := by
  have hdigits : "334dab899b8f".toList.length = 12 ∧
      "334dab899b8f".toList.all isHexDigit = true := by decide
  exact fun _ => hdigits

theorem Store.demo_owned (c : Nat) : Owned (.demo c) Store.demo.records := by
  intro row hrow
  cases hrow

theorem one_page_is_the_tenants :
    ∃ w t page, replay (World.next (.demo 1)) (.demo 1) (oneEnrichment ++ thenListed) = some w ∧
      w.tasks[1]? = some t ∧ t.pc = .ended (.responded (.page page)) ∧ page.Proper (.demo 1) := by
  have hrun : ∃ w t page, replay (World.next (.demo 1)) (.demo 1) (oneEnrichment ++ thenListed) =
      some w ∧ w.tasks[1]? = some t ∧ t.pc = .ended (.responded (.page page)) :=
    ⟨_, _, _, rfl, rfl, rfl⟩
  obtain ⟨w, t, page, hw, ht, hpc⟩ := hrun
  obtain ⟨-, -, hproper, -⟩ := pages_are_the_tenants (Config.demo_hexDigests 1)
    (Store.demo_owned 1) rfl (World.run_demo hw) (List.mem_of_getElem? ht) hpc
  exact ⟨w, t, page, hw, ht, hpc, hproper⟩

/-- **Read your records.** From a store whose rows are their tenants', in every run of any number of
replicas: once a tenant has been answered an enrichment or an import with a `201`, every page that
the tenant asks for afterwards, at any replica and whatever else goes on, shows the record of each
name, enriched, unless the page is full with records before it. -/
theorem answered_then_listed {response : Response} {u : TenantId} {names : List String} {k : Nat}
    {page : RecordPage} (hdigest : cfg.HexDigests) (howned : Owned cfg s₀.records)
    (hl : InFlightLimiter.make cfg.maxInFlightUpstream = .ok limiter)
    (hrun : Run (Steps (World.next cfg)) (.start cfg s₀ replicas limiter) es w) (ht : t ∈ w.tasks)
    (hpc : t.pc = .ended (.responded response)) (hu : t.request.principal = some u)
    (hnames : t.request.payload.names? = some names)
    (hafter : Run (Steps (World.next cfg)) w es' w') (hk : w'.tasks[k]? = some t')
    (hlater : w.tasks.length ≤ k) (hu' : t'.request.principal = some u)
    (hpage : t'.pc = .ended (.responded (.page page))) :
    ∀ name ∈ names, page.Covers cfg (enrichedRecordId cfg u name) := by
  obtain ⟨hsound, hshelved⟩ := World.shelved_of_run hdigest howned hl hrun
  obtain ⟨j, hj⟩ := List.getElem?_of_mem ht
  have hlisted := World.listed_of_run hrun (World.shelved_of_run hdigest howned hl .nil)
    (World.sound_shelved_step hdigest) (fun a h => h.2.asked) hj (Nat.zero_le j)
  have hupserted := (hshelved.asked t ht).upserted (hsound.task t ht) hlisted hpc hu hnames
  obtain ⟨payload, hasks, hentries, hrecords⟩ := hshelved.shelved t ht _ hupserted
  have htenant : payload.tenantId = u := Option.some.inj (hasks.principal.symm.trans hu)
  intro name hname
  -- the record is there, and stays
  have hmem : ⟨enrichedRecordId cfg u name, name, registryNumberFor name⟩ ∈
      lookupEntries cfg ⟨u, names, true⟩ := by
    refine List.mem_map.mpr ⟨⟨name, registryNumberFor name⟩, ?_, rfl⟩
    exact List.mem_map.mpr ⟨name, hname, rfl⟩
  have hrecord := hrecords _ hmem
  rw [htenant] at hrecord
  have hlisted' := World.listed_of_run (J := fun a => (World.Sound cfg s₀ replicas a ∧
      a.Shelved cfg) ∧ a.service.store.HasRecord cfg u (enrichedRecordId cfg u name))
    hafter ⟨⟨hsound, hshelved⟩, hrecord⟩
    (fun a e b h hnext => ⟨World.sound_shelved_step hdigest a e b h.1 hnext,
      World.keeps_records hdigest h.1.1.task hnext u _ h.2⟩) (fun a h => h.1.2.asked) hk hlater
  obtain ⟨v, n, a, hprincipal, -, ⟨-, ha⟩, rfl⟩ := hlisted'.page page (by rw [hpage]; rfl)
  obtain rfl : v = u := Option.some.inj (hprincipal.symm.trans hu')
  exact ha.covered n

theorem one_name_then_listed :
    ∃ w w' page, replay (World.next (.demo 1)) (.demo 1) oneEnrichment = some w ∧
      replay (World.next (.demo 1)) w thenListed = some w' ∧
      (∃ t, w'.tasks[1]? = some t ∧ t.pc = .ended (.responded (.page page))) ∧
      page.Covers (.demo 1)
        (enrichedRecordId (.demo 1) Fixtures.attackerTenantId (Fixtures.companyName 1)) := by
  have hrun : ∃ w t response w' t' page,
      (replay (World.next (.demo 1)) (.demo 1) oneEnrichment = some w ∧ w.tasks = [t] ∧
        t.request = .demo 0 ∧ t.pc = .ended (.responded response)) ∧
      replay (World.next (.demo 1)) w thenListed = some w' ∧ w'.tasks[1]? = some t' ∧
        t'.request.principal = some Fixtures.attackerTenantId ∧
        t'.pc = .ended (.responded (.page page)) :=
    ⟨_, _, _, _, _, _, ⟨rfl, rfl, rfl, rfl⟩, rfl, rfl, rfl, rfl⟩
  obtain ⟨w, t, response, w', t', page, ⟨hw, htasks, hrequest, hpc⟩, hw', ht', hu', hpage⟩ := hrun
  refine ⟨w, w', page, hw, hw', ⟨t', ht', hpage⟩, ?_⟩
  exact answered_then_listed (Config.demo_hexDigests 1) (Store.demo_owned 1) rfl
    (World.run_demo hw) (by simp [htasks]) hpc (by rw [hrequest]; rfl) (by rw [hrequest]; rfl)
    (run_of_replay hw') ht' (by simp [htasks]) hu' hpage _ List.mem_cons_self

end Limitless
