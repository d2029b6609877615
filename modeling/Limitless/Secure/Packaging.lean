import Limitless.Secure.Charge

/-!
# However the names are packaged

A list of names can be enriched in one batch or in many. `Packaged` is a sequence of enrichments of
one tenant, each taken from its arrival to its response while nothing else happens, from any world
and at any replicas. What each leaves adds up (`Packaged.charged`), so two packagings of the same
names leave the same charge. And a packaging that fits leaves room for exactly its own charge, which
is that of any other: one is admitted where the other is (`exists_packaged`). Here the names of a
batch have been read; what a posted body is read as is `Secure.Posted`.
-/

namespace Limitless

open Runs

/-- The names, cut into batches. -/
def IsCut (batches : List (List String)) (names : List String) : Prop :=
  batches ≠ [] ∧ batches.flatten = names

/-- Enrichments of the batches, one after the other: each arrives, and is responded to, before the
next, and nothing else happens. -/
inductive Packaged (cfg : Config) (tenantId : TenantId) : World → List (List String) → World → Prop
  | nil {w : World} : Packaged cfg tenantId w [] w
  | cons {w arrived responded w' : World} {replica : Nat} {names : List String}
      {rest : List (List String)} {es : List TaskEvent} {t : Task} {response : Response} :
      w.next cfg (.arrive (.enrichment replica tenantId names)) = some arrived →
      Run (Steps (World.next cfg)) arrived (es.map (TaskEvent.event w.tasks.length)) responded →
      responded.tasks[w.tasks.length]? = some t → t.pc = .ended (.responded response) →
      Packaged cfg tenantId responded rest w' → Packaged cfg tenantId w (names :: rest) w'

/-- The same has been charged for: the tenant's row, the period's, the provider's ledger, and the
records up to their times. -/
structure SameCharge (tenantId : TenantId) (w w' : World) : Prop where
  tenant : w.service.store.allowance? tenantId = w'.service.store.allowance? tenantId
  period : w.service.store.period? = w'.service.store.period?
  ledger : w.service.provider.ledger = w'.service.provider.ledger
  records : ∀ id, w.service.store.untimed? id = w'.service.store.untimed? id

variable {cfg : Config} {tenantId : TenantId} {names names' : List String} {replica : Nat}
  {batches batches' rest : List (List String)} {w w' arrived responded : World}
  {es : List TaskEvent} {t : Task} {response : Response}

/-! ## One batch -/

/-- A request arrives at a replica there is, as the last of the world. -/
theorem World.next_arrive {request : Request} (h : w.next cfg (.arrive request) = some arrived) :
    arrived = World.last w.tasks (w.service, .arrived request) ∧
      request.replica < w.service.limiters.length := by
  simp only [World.next] at h
  split at h
  · next hlt =>
      cases h
      exact ⟨rfl, hlt⟩
  · cases h

/-- The services when a batch has been responded to. -/
theorem alone_of_responded
    (harrive : w.next cfg (.arrive (.enrichment replica tenantId names)) = some arrived)
    (hrun : Run (Steps (World.next cfg)) arrived (es.map (TaskEvent.event w.tasks.length))
      responded)
    (ht : responded.tasks[w.tasks.length]? = some t) (hpc : t.pc = .ended (.responded response)) :
    w.service.HasSlot replica ∧
      w.service.Billed ⟨tenantId, names, none⟩ responded.service.provider.ledger ∧
      responded.service.provider.released = w.service.provider.released ∧
      Store.Settled cfg ⟨tenantId, names, none⟩ (w.service.answerTo ⟨tenantId, names, none⟩)
        w.service.store responded.service.store := by
  obtain ⟨rfl, -⟩ := World.next_arrive harrive
  obtain ⟨⟨s, t'⟩, hsolo, rfl⟩ := (run_map_iff (World.next_last cfg w.tasks)).mp hrun
  have hlast : t' = t := by simpa [World.last] using ht
  subst hlast
  exact alone_of_run hsolo hpc

/-! ## The provider's ledger -/

/-- The ledger with more lookups on a tenant's line. -/
def Ledger.charged (l : Ledger) (tenantId : TenantId) (n : Int) : Ledger :=
  { l with lookups := l.lookups.put ⟨tenantId, l.lookupsOf tenantId + n⟩ }

theorem Ledger.charge_natCast (l : Ledger) (u : TenantId) (n : Nat) :
    l.charge u n = .ok (l.charged u n, n * l.priceCentsPerLookup) := if_neg (by omega)

/-- One charge after another is the charge of both. -/
theorem Ledger.charged_charged (l : Ledger) (u : TenantId) (m n : Int) :
    (l.charged u m).charged u n = l.charged u (m + n) := by
  have hline : (l.charged u m).lookupsOf u = l.lookupsOf u + m := by
    have hfind := l.lookups.find?_put_self ⟨u, l.lookupsOf u + m⟩
    simp only [Ledger.lookupsOf, Ledger.charged] at hfind ⊢
    rw [hfind]
    rfl
  have hput : (l.lookups.put ⟨u, l.lookupsOf u + m⟩).put ⟨u, l.lookupsOf u + m + n⟩ =
      l.lookups.put ⟨u, l.lookupsOf u + m + n⟩ := Keyed.put_put _ rfl
  simp only [Ledger.charged] at hline ⊢
  rw [hline, hput, add_assoc]

/-! ## What the batches leave -/

/-- What has been charged for some names, from a world where the provider's price is `price`. -/
structure World.Charged (cfg : Config) (tenantId : TenantId) (names : List String) (w w' : World) :
    Prop where
  store : Store.Charged cfg tenantId names
    (names.length * w.service.provider.ledger.priceCentsPerLookup) w.service.store w'.service.store
  ledger : w'.service.provider.ledger = w.service.provider.ledger.charged tenantId names.length
  released : w'.service.provider.released = w.service.provider.released

theorem World.Charged.append {w'' : World} (h : World.Charged cfg tenantId names w w')
    (h' : World.Charged cfg tenantId names' w' w'') :
    World.Charged cfg tenantId (names ++ names') w w'' := by
  have hprice : w'.service.provider.ledger.priceCentsPerLookup =
      w.service.provider.ledger.priceCentsPerLookup := by
    rw [h.ledger]
    rfl
  refine ⟨?_, ?_, h'.released.trans h.released⟩
  · have hstore := h.store.append h'.store
    rwa [hprice, ← add_mul, ← Nat.cast_add, ← List.length_append] at hstore
  · rw [h'.ledger, h.ledger, Ledger.charged_charged, ← Nat.cast_add, List.length_append]

/-- A batch that has been responded to. -/
theorem charged_of_responded
    (harrive : w.next cfg (.arrive (.enrichment replica tenantId names)) = some arrived)
    (hrun : Run (Steps (World.next cfg)) arrived (es.map (TaskEvent.event w.tasks.length))
      responded)
    (ht : responded.tasks[w.tasks.length]? = some t) (hpc : t.pc = .ended (.responded response)) :
    World.Charged cfg tenantId names w responded ∧
      (w.service.store.allowance? tenantId).isSome ∧ w.service.store.period?.isSome := by
  obtain ⟨-, hbilled, hreleased, hsettled⟩ := alone_of_responded harrive hrun ht hpc
  obtain ⟨hstore, hrows⟩ := Store.charged_of_settled hsettled
  refine ⟨⟨hstore, ?_, hreleased⟩, hrows⟩
  have hcharge := hbilled.charge
  rw [Ledger.charge_natCast] at hcharge
  exact (Prod.mk.inj (Except.ok.inj hcharge)).1.symm

/-- **What batches leave adds up.** -/
theorem Packaged.charged (h : Packaged cfg tenantId w batches w') (hne : batches ≠ []) :
    World.Charged cfg tenantId batches.flatten w w' ∧
      (w.service.store.allowance? tenantId).isSome ∧ w.service.store.period?.isSome := by
  induction h with
  | nil => exact absurd rfl hne
  | @cons w arrived responded w' replica names rest es t response harrive hrun ht hpc hrest ih =>
      obtain ⟨hbatch, hrows⟩ := charged_of_responded harrive hrun ht hpc
      rw [List.flatten_cons]
      refine ⟨?_, hrows⟩
      by_cases hnil : rest = []
      · subst hnil
        cases hrest
        rwa [List.flatten_nil, List.append_nil]
      · exact hbatch.append (ih hnil).1

/-- Two packagings of the same names leave the same. -/
theorem Packaged.sameCharge (h : Packaged cfg tenantId w batches w')
    (h' : Packaged cfg tenantId w batches' responded) (hcut : IsCut batches names)
    (hcut' : IsCut batches' names) : SameCharge tenantId w' responded := by
  obtain ⟨hne, rfl⟩ := hcut
  obtain ⟨hne', hflatten⟩ := hcut'
  have hcharged := (h.charged hne).1
  have hcharged' := (h'.charged hne').1
  rw [hflatten] at hcharged'
  obtain ⟨hrows, hperiod, hrecords⟩ := hcharged.store.unique hcharged'.store
  exact ⟨hrows tenantId, hperiod, hcharged.ledger.trans hcharged'.ledger.symm, hrecords⟩

/-! ## Which packagings are admitted -/

/-- There is room for a charge in the tenant's row and in the period's. -/
def Store.HasRoom (st : Store) (tenantId : TenantId) (cents : Int) : Prop :=
  (∃ row, st.allowance? tenantId = some row ∧
    row.committedCents + row.reservedCents + cents ≤ row.allowanceCents) ∧
  ∃ per, st.period? = some per ∧
    per.committedCents + per.reservedCents + cents ≤ per.capCents

variable {st₀ st : Store} {cents cents' : Int}

/-- The rows after a charge, in figures. -/
theorem Store.Charged.rows (h : Store.Charged cfg tenantId names cents st₀ st)
    (hrow : (st₀.allowance? tenantId).isSome) (hper : st₀.period?.isSome) :
    (∃ row row', st₀.allowance? tenantId = some row ∧ st.allowance? tenantId = some row' ∧
      row'.allowanceCents = row.allowanceCents ∧ row'.reservedCents = row.reservedCents ∧
      row'.committedCents = row.committedCents + cents) ∧
    ∃ per per', st₀.period? = some per ∧ st.period? = some per' ∧
      per'.capCents = per.capCents ∧ per'.reservedCents = per.reservedCents ∧
      per'.committedCents = per.committedCents + cents := by
  obtain ⟨row, hrow⟩ := Option.isSome_iff_exists.mp hrow
  obtain ⟨per, hper⟩ := Option.isSome_iff_exists.mp hper
  constructor
  · have hall := h.posted.allowance tenantId
    rw [hrow, Option.map_some, Option.map_eq_some_iff] at hall
    obtain ⟨row', hrow', hall⟩ := hall
    have hres := h.posted.balance (.tenant tenantId .reserved)
    have hcom := h.posted.balance (.tenant tenantId .committed)
    rw [balance_tenant hrow, balance_tenant hrow'] at hres hcom
    refine ⟨row, row', hrow, hrow', hall, ?_, ?_⟩
    · simpa [TenantAllowance.cents, Posting.amount, Posting.cents] using hres
    · simpa [TenantAllowance.cents, Posting.amount, Posting.cents] using hcom
  · have hcap := h.posted.cap
    rw [hper, Option.map_some, Option.map_eq_some_iff] at hcap
    obtain ⟨per', hper', hcap⟩ := hcap
    have hres := h.posted.balance (.period .reserved)
    have hcom := h.posted.balance (.period .committed)
    rw [balance_period hper, balance_period hper'] at hres hcom
    refine ⟨per, per', hper, hper', hcap, ?_, ?_⟩
    · simpa [SpendPeriod.cents, Posting.amount, Posting.cents] using hres
    · simpa [SpendPeriod.cents, Posting.amount, Posting.cents] using hcom

/-- What has been charged had room: the rows it left pass their constraints. -/
theorem Store.Charged.hasRoom (h : Store.Charged cfg tenantId names cents st₀ st)
    (hrow : (st₀.allowance? tenantId).isSome) (hper : st₀.period?.isSome) :
    st₀.HasRoom tenantId cents := by
  obtain ⟨⟨row, row', hrow, -, hall, hres, hcom⟩, per, per', hper, -, hcap, hpres, hpcom⟩ :=
    h.rows hrow hper
  have hw := row'.within_allowance
  have hpw := per'.within_cap
  exact ⟨⟨row, hrow, by omega⟩, per, hper, by omega⟩

/-- Of the room for more, a charge leaves the rest. -/
theorem Store.Charged.hasRoom_rest (h : Store.Charged cfg tenantId names cents st₀ st)
    (hroom : st₀.HasRoom tenantId (cents + cents')) : st.HasRoom tenantId cents' := by
  obtain ⟨⟨row₀, hrow₀, hle⟩, per₀, hper₀, hple⟩ := hroom
  obtain ⟨⟨row, row', hrow, hrow', hall, hres, hcom⟩, per, per', hper, hper', hcap, hpres, hpcom⟩ :=
    h.rows (by rw [hrow₀]; rfl) (by rw [hper₀]; rfl)
  cases hrow₀.symm.trans hrow
  cases hper₀.symm.trans hper
  exact ⟨⟨row', hrow', by omega⟩, per', hper', by omega⟩

theorem Store.HasRoom.mono (h : st.HasRoom tenantId cents) (hle : cents' ≤ cents) :
    st.HasRoom tenantId cents' := by
  obtain ⟨⟨row, hrow, hroom⟩, per, hper, hproom⟩ := h
  exact ⟨⟨row, hrow, by omega⟩, per, hper, by omega⟩

/-- Where there is room, the money is held. -/
theorem Store.exists_held (hroom : st.HasRoom tenantId (names.length * cfg.priceCents)) :
    ∃ held, Store.Held cfg ⟨tenantId, names, none⟩ st held := by
  obtain ⟨⟨row, hrow, hle⟩, per, hper, hple⟩ := hroom
  cases hreserve : st.reserve tenantId names.length cfg.priceCents with
  | error e =>
      obtain ⟨-, hfull | hfull⟩ := reserve_error hrow hper (Int.natCast_nonneg _)
        (Int.natCast_nonneg _) hreserve
      · omega
      · omega
  | ok p =>
      obtain ⟨held, r⟩ := p
      obtain ⟨-, rfl, -⟩ := reserve_ok hreserve
      exact ⟨held, hreserve⟩

/-- Money that is held is settled at its price, whatever records are stored. -/
theorem Store.exists_settled {held : Store} (hheld : Store.Held cfg ⟨tenantId, names, none⟩ st held)
    (entries : List RecordEntry) (at' : Timestamp) :
    ∃ settled, (held.upsertRecords tenantId entries at').settle
      (Work.reservation ⟨tenantId, names, none⟩ cfg.priceCents) names.length
      (names.length * cfg.priceCents : Int) = .ok settled := by
  obtain ⟨-, -, hmoved, ⟨row, hrow, -⟩, ⟨per, hper, -⟩⟩ := reserve_ok hheld
  obtain ⟨row', hrow', -⟩ := hmoved.allowance_some hrow
  obtain ⟨per', hper', -⟩ := hmoved.period_some hper
  have hres := hmoved.balance (.tenant tenantId .reserved)
  have hpres := hmoved.balance (.period .reserved)
  rw [balance_tenant hrow, balance_tenant hrow'] at hres
  rw [balance_period hper, balance_period hper'] at hpres
  have hrow₀ := row.reserved_nonneg
  have hper₀ := per.reserved_nonneg
  have hcents : (0 : Int) ≤ names.length * cfg.priceCents := by positivity
  obtain ⟨htenants, hperiods, -⟩ := (held.upsertRecords_upsertsInOrder tenantId entries at').tables
  have hrow'' : (held.upsertRecords tenantId entries at').allowance? tenantId = some row' := by
    rw [allowance?, htenants]
    exact hrow'
  have hper'' : (held.upsertRecords tenantId entries at').period? = some per' := by
    rw [period?, hperiods]
    exact hper'
  refine settle_isOk names.length (r := Work.reservation ⟨tenantId, names, none⟩ cfg.priceCents)
    hrow'' hper'' ?_ ?_ hcents le_rfl
  · simp only [TenantAllowance.cents, Posting.amount, Posting.cents, Reservation.held,
      Work.reservation, if_true] at hres ⊢
    omega
  · simp only [SpendPeriod.cents, Posting.amount, Posting.cents, Reservation.held,
      Work.reservation] at hpres ⊢
    omega

/-- A batch whose money can be held gets to its response, and leaves a slot. -/
theorem exists_solo_of_held {s : Service} {held : Store} (hslot : s.HasSlot replica)
    (hreleased : s.provider.released = true)
    (hprice : s.provider.ledger.priceCentsPerLookup = cfg.priceCents)
    (hnames : names.length ≤ cfg.maxBatchItems)
    (hheld : Store.Held cfg ⟨tenantId, names, none⟩ s.store held) :
    ∃ es s' t response, Run (Steps (Task.next cfg))
      (s, .arrived (.enrichment replica tenantId names)) es (s', t) ∧
      t.request = .enrichment replica tenantId names ∧ t.pc = .ended (.responded response) ∧
      t.raised = [] ∧ s'.HasSlot replica := by
  have hcents : (s.answerTo ⟨tenantId, names, none⟩).centsCharged =
      names.length * cfg.priceCents := by
    rw [← hprice]
    rfl
  have hsettle : ∀ entries at', ∃ settled, (held.upsertRecords tenantId entries at').settle
      (Work.reservation ⟨tenantId, names, none⟩ cfg.priceCents)
      (s.answerTo ⟨tenantId, names, none⟩).lookups
      (s.answerTo ⟨tenantId, names, none⟩).centsCharged = .ok settled := by
    rw [hcents]
    exact Store.exists_settled hheld
  exact exists_solo_run hslot hreleased hnames hheld hsettle

/-- One batch that fits gets to its response, and leaves a slot. -/
theorem exists_responded (hslot : w.service.HasSlot replica)
    (hreleased : w.service.provider.released = true)
    (hprice : w.service.provider.ledger.priceCentsPerLookup = cfg.priceCents)
    (hnames : names.length ≤ cfg.maxBatchItems)
    (hroom : w.service.store.HasRoom tenantId (names.length * cfg.priceCents)) :
    ∃ (arrived : World) (es : List TaskEvent) (responded : World) (t : Task) (response : Response),
      w.next cfg (.arrive (.enrichment replica tenantId names)) = some arrived ∧
      Run (Steps (World.next cfg)) arrived (es.map (TaskEvent.event w.tasks.length)) responded ∧
      responded.tasks[w.tasks.length]? = some t ∧ t.pc = .ended (.responded response) ∧
      responded.service.HasSlot replica := by
  obtain ⟨held, hheld⟩ : ∃ held, Store.Held cfg ⟨tenantId, names, none⟩ w.service.store held :=
    Store.exists_held hroom
  obtain ⟨es, s', t, response, hsolo, -, hpc, -, hslot'⟩ :=
    exists_solo_of_held hslot hreleased hprice hnames hheld
  have harrive : w.next cfg (.arrive (.enrichment replica tenantId names)) =
      some (World.last w.tasks (w.service, .arrived (.enrichment replica tenantId names))) := by
    obtain ⟨l, hl, -⟩ := hslot
    exact if_pos (List.getElem?_eq_some_iff.mp hl).1
  have hrun := (run_map_iff (World.next_last cfg w.tasks)).mpr ⟨_, hsolo, rfl⟩
  exact ⟨_, es, _, t, response, harrive, hrun, by simp [World.last], hpc, hslot'⟩

/-- **What fits is admitted.** With a slot, a provider that is not held, batches within their bound
and room for all of the names, every batch gets to its response. -/
theorem exists_packaged (hslot : w.service.HasSlot replica)
    (hreleased : w.service.provider.released = true)
    (hprice : w.service.provider.ledger.priceCentsPerLookup = cfg.priceCents)
    (hbound : ∀ names ∈ batches, names.length ≤ cfg.maxBatchItems)
    (hroom : w.service.store.HasRoom tenantId (batches.flatten.length * cfg.priceCents)) :
    ∃ w', Packaged cfg tenantId w batches w' := by
  induction batches generalizing w with
  | nil => exact ⟨w, .nil⟩
  | cons names rest ih =>
      obtain ⟨hnames, hrest⟩ := List.forall_mem_cons.mp hbound
      rw [List.flatten_cons, List.length_append, Nat.cast_add, add_mul] at hroom
      have hrestCents : (0 : Int) ≤ rest.flatten.length * cfg.priceCents := by positivity
      obtain ⟨arrived, es, responded, t, response, harrive, hrun, ht, hpc, hslot'⟩ :=
        exists_responded hslot hreleased hprice hnames (hroom.mono (by omega))
      obtain ⟨hcharged, -⟩ := charged_of_responded harrive hrun ht hpc
      -- the services are as ready for the rest
      have hprice' : responded.service.provider.ledger.priceCentsPerLookup = cfg.priceCents := by
        rw [hcharged.ledger, ← hprice]
        rfl
      have hstore := hcharged.store
      rw [hprice] at hstore
      obtain ⟨w', hpackaged⟩ := ih hslot' (hcharged.released.trans hreleased) hprice' hrest
        (hstore.hasRoom_rest hroom)
      exact ⟨w', .cons harrive hrun ht hpc hpackaged⟩

/-- A packaging finds a slot, a provider that is not held, and room for all of its names. -/
theorem Packaged.ready (h : Packaged cfg tenantId w batches w') (hne : batches ≠ []) :
    (∃ replica, w.service.HasSlot replica) ∧ w.service.provider.released = true ∧
      w.service.store.HasRoom tenantId
        (batches.flatten.length * w.service.provider.ledger.priceCentsPerLookup) := by
  obtain ⟨hcharged, hrow, hper⟩ := h.charged hne
  cases h with
  | nil => exact absurd rfl hne
  | cons harrive hrun ht hpc hrest =>
      obtain ⟨hslot, hbilled, -⟩ := alone_of_responded harrive hrun ht hpc
      exact ⟨⟨_, hslot⟩, hbilled.released, hcharged.store.hasRoom hrow hper⟩

/-- One packaging is admitted where another is. -/
theorem exists_packaged_of_packaged (h : Packaged cfg tenantId w batches w')
    (hcut : IsCut batches names) (hcut' : IsCut batches' names)
    (hprice : w.service.provider.ledger.priceCentsPerLookup = cfg.priceCents)
    (hbound : ∀ names ∈ batches', names.length ≤ cfg.maxBatchItems) :
    ∃ w'', Packaged cfg tenantId w batches' w'' := by
  obtain ⟨⟨replica, hslot⟩, hreleased, hroom⟩ := h.ready hcut.1
  rw [hprice, hcut.2, ← hcut'.2] at hroom
  exact exists_packaged hslot hreleased hprice hbound hroom

end Limitless
