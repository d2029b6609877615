import Limitless.Secure.Solo
import Limitless.Store.Upsert
import Mathlib.Tactic.Ring

/-!
# What an enrichment leaves of the store

`Charged` is what a settled enrichment leaves: its charge committed and its lookups performed, on
the tenant's row and the period's, and the last entry for each record stored, at some time. Each
part is additive: charging for some names and then for others is charging for all of them
(`Charged.append`). And it says all there is to say of the rows, up to the times of the records
(`Charged.unique`).
-/

namespace Limitless

open Keyed

/-- A record without the time of its enrichment. -/
def StoredRecord.untimed (row : StoredRecord) : StoredRecord := { row with enrichedAt := none }

/-- The row of a record, up to that time. -/
def Store.untimed? (st : Store) (id : String) : Option StoredRecord :=
  (st.records.find? id).map StoredRecord.untimed

/-- The entries for the names of an enrichment. -/
def nameEntries (cfg : Config) (tenantId : TenantId) (names : List String) : List RecordEntry :=
  names.map fun name => ⟨enrichedRecordId cfg tenantId name, name, registryNumberFor name⟩

/-- What the last of the entries for a record makes of its row, up to the time. -/
def rewritten (tenantId : TenantId) (entries : List RecordEntry) (id : String)
    (o : Option StoredRecord) : Option StoredRecord :=
  ((lastEntry RecordEntry.recordId entries id).map fun e =>
    (upsertedRecord tenantId 0 e o).untimed).or o

/-- The names have been charged for and their records stored. -/
structure Store.Charged (cfg : Config) (tenantId : TenantId) (names : List String) (cents : Int)
    (st₀ st : Store) : Prop where
  posted : st₀.Posted (Posting.amount ⟨tenantId, 0, cents, names.length⟩) st
  periodId : ∀ t, (st.allowance? t).map TenantAllowance.periodId =
    (st₀.allowance? t).map TenantAllowance.periodId
  records : ∀ id, st.untimed? id =
    rewritten tenantId (nameEntries cfg tenantId names) id (st₀.untimed? id)

variable {cfg : Config} {tenantId : TenantId} {names names' : List String} {st₀ st st' : Store}
  {cents cents' : Int} {entries entries' : List RecordEntry} {id : String}

/-! ## Records -/

/-- An upsert looks at neither its time nor that of the row. -/
theorem untimed_upsertedRecord (t : TenantId) (at' : Timestamp) (e : RecordEntry)
    (o : Option StoredRecord) : (upsertedRecord t at' e o).untimed =
      (upsertedRecord t 0 e (o.map StoredRecord.untimed)).untimed := by
  cases o <;> rfl

/-- A batch at any time, up to the time. -/
theorem Store.untimed?_upsertRecords (st : Store) (t : TenantId) (entries : List RecordEntry)
    (at' : Timestamp) (id : String) :
    (st.upsertRecords t entries at').untimed? id = rewritten t entries id (st.untimed? id) := by
  rw [untimed?, find?_upsertRecords, rewritten]
  cases lastEntry RecordEntry.recordId entries id with
  | none => rfl
  | some e => exact congrArg some (untimed_upsertedRecord t at' e _)

/-- One batch after another is the batch of both. -/
theorem rewritten_append (t : TenantId) (entries entries' : List RecordEntry) (id : String)
    (o : Option StoredRecord) :
    rewritten t entries' id (rewritten t entries id o) =
      rewritten t (entries ++ entries') id o := by
  simp only [rewritten, lastEntry_append]
  cases hlast' : lastEntry RecordEntry.recordId entries' id with
  | none => rfl
  | some e' =>
      cases hlast : lastEntry RecordEntry.recordId entries id with
      | none => rfl
      | some e =>
          have hkey := (lastEntry_key hlast).trans (lastEntry_key hlast').symm
          have hforgets := upsertedRecord_forgets t 0 0 o hkey
          have huntimed := untimed_upsertedRecord t 0 e' (some (upsertedRecord t 0 e o))
          rw [hforgets] at huntimed
          exact congrArg some huntimed.symm

/-- The entries of the provider's answer. -/
theorem recordEntries_answer (cfg : Config) (t : TenantId) (names : List String) (price : Int) :
    recordEntries cfg t ((Work.lookupRequest ⟨t, names, none⟩).response price) =
      nameEntries cfg t names := by
  simp [recordEntries, LookupRequest.response, LookupRequest.results, Work.lookupRequest,
    nameEntries]

/-! ## Rows -/

namespace Store

theorem reserve_periodId {t : TenantId} {l price : Int} {r : Reservation}
    (h : st.reserve t l price = .ok (st', r)) (u : TenantId) :
    (st'.allowance? u).map TenantAllowance.periodId =
      (st.allowance? u).map TenantAllowance.periodId := by
  rw [reserve_eq] at h
  split_ifs at h with hl
  split at h
  · cases h
  · cases h
  · next row' hrow' =>
      split at h
      · cases h
      · cases h
      · cases h
        obtain ⟨row, hrow, -, hset, hkey⟩ := Update.touch_eq_some hrow'
        rw [← find?_key hrow, ← hkey] at hrow
        exact map_find?_put st.tenantAllowances hrow
          (TenantAllowance.withFigures_periodId hset) u

theorem settle_periodId {r : Reservation} {l charged : Int} (h : st.settle r l charged = .ok st')
    (u : TenantId) : (st'.allowance? u).map TenantAllowance.periodId =
      (st.allowance? u).map TenantAllowance.periodId := by
  rw [settle_eq] at h
  split at h
  · cases h
  · next row hrow =>
      split at h
      · cases h
      · cases h
        cases row with
        | none => rfl
        | some row' =>
            obtain ⟨row, hold, -, hset, hkey⟩ := Update.touch_eq_some hrow
            rw [← find?_key hold, ← hkey] at hold
            exact map_find?_put st.tenantAllowances hold
              (TenantAllowance.withFigures_periodId hset) u

/-- A posting and another add up. -/
theorem Posted.trans {δ δ' ε : Account → Int} (h : st₀.Posted δ st) (h' : st.Posted δ' st')
    (hadd : ∀ a, δ a + δ' a = ε a) : st₀.Posted ε st' where
  balance a := by rw [h'.balance, h.balance, add_assoc, hadd]
  allowance t := (h'.allowance t).trans (h.allowance t)
  cap := h'.cap.trans h.cap

end Store

/-- Holding money and closing it with a charge is the charge. -/
theorem Reservation.amount_closed (r : Reservation) (lookups cents : Int) (a : Account) :
    r.held.amount a + (r.closed lookups cents).amount a =
      Posting.amount ⟨r.tenantId, 0, cents, lookups⟩ a := by
  rcases a with ⟨u, m⟩ | u | m | m
  · cases m with
    | reserved =>
        rw [closed_reserved rfl]
        simp [Posting.amount, Posting.cents]
    | committed => rw [committed_of_closed]; rfl
  · rw [lookups_of_closed]; rfl
  · cases m <;> simp [Posting.amount, Posting.cents, held, closed]
  · cases m <;> simp [Posting.amount, Posting.cents, held, closed]

/-- A settled enrichment has charged for its names. -/
theorem Store.charged_of_settled {price : Int}
    (h : Store.Settled cfg ⟨tenantId, names, none⟩
      ((Work.lookupRequest ⟨tenantId, names, none⟩).response price) st₀ st) :
    Store.Charged cfg tenantId names (names.length * price) st₀ st ∧
      (st₀.allowance? tenantId).isSome ∧ st₀.period?.isSome := by
  obtain ⟨_, ⟨held, at', hheld, rfl⟩, hsettle⟩ := h
  have hreserve : st₀.reserve tenantId names.length cfg.priceCents =
      .ok (held, Work.reservation ⟨tenantId, names, none⟩ cfg.priceCents) := hheld
  obtain ⟨-, -, hmoved, ⟨row, hrow, -⟩, ⟨per, hper, -⟩⟩ := reserve_ok hreserve
  obtain ⟨row', hrow', -⟩ := hmoved.allowance_some hrow
  obtain ⟨per', hper', -⟩ := hmoved.period_some hper
  -- the upserts are of the records alone
  rw [recordEntries_answer] at hsettle
  have hrows : ∀ t,
      (held.upsertRecords tenantId (nameEntries cfg tenantId names) at').allowance? t =
        held.allowance? t := by
    intro t
    simp only [allowance?, (held.upsertRecords_upsertsInOrder tenantId
      (nameEntries cfg tenantId names) at').tables.1]
  have hperiod : (held.upsertRecords tenantId (nameEntries cfg tenantId names) at').period? =
      held.period? := by
    simp only [period?, (held.upsertRecords_upsertsInOrder tenantId
      (nameEntries cfg tenantId names) at').tables.2.1]
  have hclosed := settle_ok hsettle ((hrows tenantId).trans hrow') (hperiod.trans hper')
  refine ⟨⟨?_, fun t => ?_, fun id => ?_⟩, by rw [hrow]; rfl, by rw [hper]; rfl⟩
  · have hheldPosted := hmoved.posted.trans (held.upsertRecords_posted tenantId
      (nameEntries cfg tenantId names) at') fun a => add_zero _
    exact hheldPosted.trans hclosed.posted fun a => Reservation.amount_closed _ _ _ a
  · rw [settle_periodId hsettle, hrows, reserve_periodId hreserve]
  · have hrecords : ∀ {s s' : Store}, s'.records = s.records → s'.untimed? id = s.untimed? id := by
      intro s s' h
      rw [untimed?, untimed?, h]
    rw [hrecords hclosed.records, untimed?_upsertRecords, hrecords hmoved.records]

/-! ## Charges add up -/

namespace Store

/-- **Charges are additive**: for some names, and then for others. -/
theorem Charged.append (h : Charged cfg tenantId names cents st₀ st)
    (h' : Charged cfg tenantId names' cents' st st') :
    Charged cfg tenantId (names ++ names') (cents + cents') st₀ st' where
  posted := h.posted.trans h'.posted fun a => by
    rcases a with ⟨u, m⟩ | u | m | m
    · by_cases hu : u = tenantId <;> cases m <;> simp [Posting.amount, Posting.cents, hu]
    · by_cases hu : u = tenantId <;> simp [Posting.amount, hu]
    · cases m <;> simp [Posting.amount, Posting.cents]
    · cases m <;> simp [Posting.amount, Posting.cents]
  periodId t := (h'.periodId t).trans (h.periodId t)
  records id := by
    rw [h'.records, h.records, rewritten_append, nameEntries, nameEntries, nameEntries,
      List.map_append]

/-- A row is its identifiers, its budget and its figures. -/
theorem allowance?_ext {s s' : Store} (t : TenantId) (hbalance : ∀ a, s.balance a = s'.balance a)
    (hcents : (s.allowance? t).map TenantAllowance.allowanceCents =
      (s'.allowance? t).map TenantAllowance.allowanceCents)
    (hperiod : (s.allowance? t).map TenantAllowance.periodId =
      (s'.allowance? t).map TenantAllowance.periodId) : s.allowance? t = s'.allowance? t := by
  have hreserved := hbalance (.tenant t .reserved)
  have hcommitted := hbalance (.tenant t .committed)
  have hlookups := hbalance (.lookups t)
  simp only [balance] at hreserved hcommitted hlookups
  cases hrow : s.allowance? t with
  | none =>
      rw [hrow] at hcents
      exact (Option.map_eq_none_iff.mp hcents.symm).symm
  | some row =>
      rw [hrow, Option.map_some, eq_comm, Option.map_eq_some_iff] at hcents
      obtain ⟨row', hrow', hcents⟩ := hcents
      have hkey := (find?_key hrow).trans (find?_key hrow').symm
      rw [hrow, hrow'] at hreserved hcommitted hlookups hperiod
      obtain ⟨⟩ := row
      obtain ⟨⟩ := row'
      simp_all [TenantAllowance.cents]

theorem period?_ext {s s' : Store} (hbalance : ∀ a, s.balance a = s'.balance a)
    (hcap : s.period?.map SpendPeriod.capCents = s'.period?.map SpendPeriod.capCents) :
    s.period? = s'.period? := by
  have hreserved := hbalance (.period .reserved)
  have hcommitted := hbalance (.period .committed)
  simp only [balance] at hreserved hcommitted
  cases hper : s.period? with
  | none =>
      rw [hper] at hcap
      exact (Option.map_eq_none_iff.mp hcap.symm).symm
  | some per =>
      rw [hper, Option.map_some, eq_comm, Option.map_eq_some_iff] at hcap
      obtain ⟨per', hper', hcap⟩ := hcap
      have hkey := (find?_key hper).trans (find?_key hper').symm
      rw [hper, hper'] at hreserved hcommitted
      obtain ⟨⟩ := per
      obtain ⟨⟩ := per'
      simp_all [SpendPeriod.cents]

/-- **A charge says what is left**: two stores charged alike have the same rows, and the same
records up to their times. -/
theorem Charged.unique (h : Charged cfg tenantId names cents st₀ st)
    (h' : Charged cfg tenantId names cents st₀ st') :
    (∀ t, st.allowance? t = st'.allowance? t) ∧ st.period? = st'.period? ∧
      ∀ id, st.untimed? id = st'.untimed? id := by
  have hbalance : ∀ a, st.balance a = st'.balance a := fun a => by
    rw [h.posted.balance, h'.posted.balance]
  refine ⟨fun t => allowance?_ext t hbalance ?_ ?_, period?_ext hbalance ?_, fun id => ?_⟩
  · exact (h.posted.allowance t).trans (h'.posted.allowance t).symm
  · exact (h.periodId t).trans (h'.periodId t).symm
  · exact h.posted.cap.trans h'.posted.cap.symm
  · rw [h.records, h'.records]

end Store

end Limitless
