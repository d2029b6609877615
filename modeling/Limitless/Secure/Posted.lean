import Limitless.Secure.Admission
import Limitless.Secure.Bounds
import Limitless.Secure.Packaging

/-!
# Batches as they are posted

An enrichment is posted as a body, which `read_bounded_body` reads within `max_body_bytes` before
anything is parsed. `PostedBody.input` is what `enrich` makes of a body, and `Posted` is `Packaged`
with bodies in the place of names: a body that is refused gets no response (`input_of_responded`),
and one that is not is the enrichment of its names (`posted_iff`). So the charge does not depend on
the packaging, and neither does the admission, as long as every batch is within both of its bounds:
on the number of its items, and on the size of its body.
-/

namespace Limitless

open Runs

/-! ## Bodies -/

/-- A valid Unicode `str`, as a `String`. -/
def PyStr.toString (s : PyStr) : String := .ofList (s.map fun c => Char.ofNat c.val)

/-- The company names `enrich` takes from its payload. -/
def EnrichRequest.companyNames (p : EnrichRequest) : List String :=
  p.records.map fun record => record.companyName.toString

/-- A posted body: the declared `Content-Length`, and the chunks of the stream. -/
structure PostedBody where
  declared : Option HeaderValue
  stream : List Bytes

/-- What `enrich` makes of a body, up to `require_batch_within`. -/
def PostedBody.input (loads : Loads) (maxBodyBytes : ℕ) (b : PostedBody) :
    Except InputRefusal (List String) :=
  match (readBoundedBody maxBodyBytes .enrich b.declared b.stream).outcome with
  | .error (.limitReached _ _) => .error .tooLarge
  | .error (.valueError _) => .error .failed
  | .ok body => (enrichPayload loads body).map EnrichRequest.companyNames

/-- The request that a body makes, at a replica. -/
def PostedBody.request (loads : Loads) (maxBodyBytes replica : ℕ) (tenantId : TenantId)
    (b : PostedBody) : Request :=
  ⟨replica, some tenantId, .enrich (b.input loads maxBodyBytes)⟩

/-- The body is an `EnrichRequest` of these names. -/
def PostedBody.Carries (loads : Loads) (b : PostedBody) (names : List String) : Prop :=
  (enrichPayload loads b.stream.flatten).map EnrichRequest.companyNames = .ok names

/-- The names, cut into batches, each in a body of its own. -/
def IsPosting (loads : Loads) (bodies : List PostedBody) (names : List String) : Prop :=
  ∃ batches, IsCut batches names ∧ List.Forall₂ (PostedBody.Carries loads) bodies batches

/-- The body is within its bound: the reader of bodies returns it. -/
def PostedBody.WithinBody (maxBodyBytes : ℕ) (b : PostedBody) : Prop :=
  ∃ body, (readBoundedBody maxBodyBytes .enrich b.declared b.stream).outcome = .ok body

/-- The batch in it is within the bound on its items. -/
def PostedBody.WithinBatch (loads : Loads) (maxBatchItems : ℕ) (b : PostedBody) : Prop :=
  ∀ names, b.Carries loads names → names.length ≤ maxBatchItems

/-- Enrichments of the bodies, one after the other: each arrives, and is responded to, before the
next, and nothing else happens. -/
inductive Posted (cfg : Config) (loads : Loads) (maxBodyBytes : ℕ) (tenantId : TenantId) :
    World → List PostedBody → World → Prop
  | nil {w : World} : Posted cfg loads maxBodyBytes tenantId w [] w
  | cons {w arrived responded w' : World} {replica : ℕ} {body : PostedBody}
      {rest : List PostedBody} {es : List TaskEvent} {t : Task} {response : Response} :
      w.next cfg (.arrive (body.request loads maxBodyBytes replica tenantId)) = some arrived →
      Run (Steps (World.next cfg)) arrived (es.map (TaskEvent.event w.tasks.length)) responded →
      responded.tasks[w.tasks.length]? = some t → t.pc = .ended (.responded response) →
      Posted cfg loads maxBodyBytes tenantId responded rest w' →
      Posted cfg loads maxBodyBytes tenantId w (body :: rest) w'

variable {cfg : Config} {loads : Loads} {maxBodyBytes replica : ℕ} {tenantId : TenantId}
  {names : List String} {bodies bodies' : List PostedBody} {body : PostedBody}
  {batches : List (List String)} {w w' arrived responded : World} {es : List TaskEvent} {t : Task}
  {response : Response}

/-! ## What is read of a body -/

/-- The reader returns the whole body, or nothing. -/
theorem eq_of_readBoundedBody {declared : Option HeaderValue} {stream : List Bytes} {text : Bytes}
    {operation : RefusedOperation}
    (h : (readBoundedBody maxBodyBytes operation declared stream).outcome = .ok text) :
    text = stream.flatten := by
  by_cases hconvertible : Convertible declared
  · have hkeeps : KeepsBound maxBodyBytes operation declared stream _ :=
      readBoundedBody_keepsBound operation stream hconvertible
    by_cases hmore : AdmitsMore maxBodyBytes declared
    · cases h.symm.trans (hkeeps.admitted hmore).1
    by_cases hfits : stream.flatten.length ≤ maxBodyBytes
    · exact Except.ok.inj (h.symm.trans ((hkeeps.returned hmore).mpr hfits))
    · cases h.symm.trans (hkeeps.refused hmore (by omega)).1
  · obtain ⟨e, he⟩ := readBoundedBody_of_not_convertible maxBodyBytes operation stream hconvertible
    rw [he] at h
    cases h

/-- What is read of a body is the names it carries. -/
theorem PostedBody.carries_of_input (h : body.input loads maxBodyBytes = .ok names) :
    body.Carries loads names := by
  unfold input at h
  split at h
  · cases h
  · cases h
  · next text hread =>
      rw [eq_of_readBoundedBody hread] at h
      exact h

/-- A body within its bound is read. -/
theorem PostedBody.input_of_within (hwithin : body.WithinBody maxBodyBytes)
    (h : body.Carries loads names) : body.input loads maxBodyBytes = .ok names := by
  obtain ⟨text, hread⟩ := hwithin
  unfold input
  rw [hread]
  obtain rfl := eq_of_readBoundedBody hread
  exact h

/-! ## A body that is refused -/

/-- Where a request stands whose body is refused. -/
structure Task.Unread (request : Request) (t : Task) : Prop where
  request : t.request = request
  pc : t.pc = .authenticating ∨ (∃ u, t.pc = .reading u) ∨ ∃ exc, t.pc = .ended (.raised exc)
  call : t.call = none

theorem Task.Unread.raise {request : Request} (h : t.Unread request) (s : Service)
    (exc : Exception) : (t.raise s exc).2.Unread request := by
  have hframe : t.pc.frame? = none := by
    rcases h.pc with hpc | ⟨u, hpc⟩ | ⟨e, hpc⟩ <;> rw [hpc] <;> rfl
  refine ⟨h.request, .inr (.inr ⟨exc, ?_⟩), h.call⟩
  simp only [Task.raise, hframe]

/-- It goes no further. -/
theorem Task.Unread.next {e : InputRefusal} {s s' : Service} {t' : Task} {event : TaskEvent}
    (h : t.Unread ⟨replica, some tenantId, .enrich (.error e)⟩)
    (hstep : Task.next cfg (s, t) event = some (s', t')) :
    t'.Unread ⟨replica, some tenantId, .enrich (.error e)⟩ := by
  cases event with
  | tick =>
      cases hstep
      exact h
  | resume | abort => simp [Task.next, Task.serve, h.call] at hstep
  | fault f =>
      simp only [Task.next, Task.fault] at hstep
      split at hstep
      · cases hstep
      · cases f with
        | cancelled | failed => cases hstep; exact h.raise s _
        | deadline =>
            simp only at hstep
            split at hstep
            · cases hstep
              exact h.raise s _
            · cases hstep
  | advance =>
      simp only [Task.next, Task.advance] at hstep
      rcases h.pc with hpc | ⟨u, hpc⟩ | ⟨exc, hpc⟩
      · simp only [hpc, h.request, Option.some.injEq] at hstep
        cases hstep
        exact ⟨h.request, .inr (.inl ⟨tenantId, rfl⟩), h.call⟩
      · simp only [hpc, Task.read, h.request] at hstep
        cases hstep
        exact h.raise s _
      · simp [hpc] at hstep

/-- A body that has been responded to was read. -/
theorem input_of_responded {input : Except InputRefusal (List String)}
    (harrive : w.next cfg (.arrive ⟨replica, some tenantId, .enrich input⟩) = some arrived)
    (hrun : Run (Steps (World.next cfg)) arrived (es.map (TaskEvent.event w.tasks.length))
      responded)
    (ht : responded.tasks[w.tasks.length]? = some t) (hpc : t.pc = .ended (.responded response)) :
    ∃ names, input = .ok names := by
  cases input with
  | ok names => exact ⟨names, rfl⟩
  | error e =>
      obtain ⟨rfl, -⟩ := World.next_arrive harrive
      obtain ⟨⟨s, t'⟩, hsolo, rfl⟩ := (run_map_iff (World.next_last cfg w.tasks)).mp hrun
      have hlast : t' = t := by simpa [World.last] using ht
      subst hlast
      have hunread := hsolo.invariant
        (I := fun p => p.2.Unread ⟨replica, some tenantId, .enrich (.error e)⟩)
        (fun _ _ _ ha hab => ha.next hab) ⟨rfl, .inl rfl, rfl⟩
      rcases hunread.pc with hother | ⟨u, hother⟩ | ⟨exc, hother⟩ <;>
        cases hpc.symm.trans hother

/-! ## Bodies and names -/

/-- Bodies that have been responded to are the enrichments of the names that were read of them. -/
theorem posted_iff : Posted cfg loads maxBodyBytes tenantId w bodies w' ↔
    ∃ batches, List.Forall₂ (fun b names => b.input loads maxBodyBytes = .ok names) bodies batches ∧
      Packaged cfg tenantId w batches w' := by
  constructor
  · intro h
    induction h with
    | nil => exact ⟨[], .nil, .nil⟩
    | @cons w arrived responded w' replica body rest es t response harrive hrun ht hpc _ ih =>
        obtain ⟨names, hnames⟩ := input_of_responded harrive hrun ht hpc
        obtain ⟨batches, hall, hpackaged⟩ := ih
        rw [PostedBody.request, hnames] at harrive
        exact ⟨names :: batches, .cons hnames hall, .cons harrive hrun ht hpc hpackaged⟩
  · rintro ⟨batches, hall, h⟩
    induction h generalizing bodies with
    | nil =>
        cases hall
        exact .nil
    | @cons w arrived responded w' replica names rest es t response harrive hrun ht hpc _ ih =>
        cases hall with
        | @cons body _ _ _ hnames hall =>
            have hrequest : body.request loads maxBodyBytes replica tenantId =
                .enrichment replica tenantId names := by
              rw [PostedBody.request, hnames]
              rfl
            rw [← hrequest] at harrive
            exact .cons harrive hrun ht hpc (ih hall)

/-- Bodies that carry these batches are read as them, whatever their bounds. -/
theorem eq_of_carries {batches' : List (List String)}
    (hcarries : List.Forall₂ (PostedBody.Carries loads) bodies batches)
    (hread : List.Forall₂ (fun b names => b.input loads maxBodyBytes = .ok names) bodies
      batches') : batches' = batches := by
  induction hcarries generalizing batches' with
  | nil =>
      cases hread
      rfl
  | cons hbody _ ih =>
      cases hread with
      | cons hinput hrest =>
          have hnames := (PostedBody.carries_of_input hinput).symm.trans hbody
          rw [Except.ok.inj hnames, ih hrest]

/-- Bodies within their bound are read. -/
theorem inputs_of_within (hcarries : List.Forall₂ (PostedBody.Carries loads) bodies batches)
    (hwithin : ∀ b ∈ bodies, b.WithinBody maxBodyBytes) :
    List.Forall₂ (fun b names => b.input loads maxBodyBytes = .ok names) bodies batches := by
  induction hcarries with
  | nil => exact .nil
  | cons hbody _ ih =>
      obtain ⟨hfirst, hrest⟩ := List.forall_mem_cons.mp hwithin
      exact .cons (PostedBody.input_of_within hfirst hbody) (ih hrest)

/-- Batches in bodies within the bound on their items. -/
theorem batches_within {maxBatchItems : ℕ}
    (hcarries : List.Forall₂ (PostedBody.Carries loads) bodies batches)
    (hwithin : ∀ b ∈ bodies, b.WithinBatch loads maxBatchItems) :
    ∀ names ∈ batches, names.length ≤ maxBatchItems := by
  induction hcarries with
  | nil => exact fun _ hnames => absurd hnames List.not_mem_nil
  | cons hbody _ ih =>
      obtain ⟨hfirst, hrest⟩ := List.forall_mem_cons.mp hwithin
      exact List.forall_mem_cons.mpr ⟨hfirst _ hbody, ih hrest⟩

/-- One posting of some names is admitted where another is. -/
theorem exists_posted_of_posted (h : Posted cfg loads maxBodyBytes tenantId w bodies w')
    (hcut : IsPosting loads bodies names) (hcut' : IsPosting loads bodies' names)
    (hprice : w.service.provider.ledger.priceCentsPerLookup = cfg.priceCents)
    (hbody : ∀ b ∈ bodies', b.WithinBody maxBodyBytes)
    (hbatch : ∀ b ∈ bodies', b.WithinBatch loads cfg.maxBatchItems) :
    ∃ w'', Posted cfg loads maxBodyBytes tenantId w bodies' w'' := by
  obtain ⟨batches, hcut, hcarries⟩ := hcut
  obtain ⟨batches', hcut', hcarries'⟩ := hcut'
  obtain ⟨read, hread, hpackaged⟩ := posted_iff.mp h
  obtain rfl := eq_of_carries hcarries hread
  obtain ⟨w'', h'⟩ := exists_packaged_of_packaged hpackaged hcut hcut' hprice
    (batches_within hcarries' hbatch)
  exact ⟨w'', posted_iff.mpr ⟨batches', inputs_of_within hcarries' hbody, h'⟩⟩

/-- **The charge does not depend on the packaging.** Two ways of posting a list of names leave the
same charge, whenever both are admitted and responded to. Where the provider's price is the one
money is held at, and every batch is within its bound and its body within its own, one is if and
only if the other is. -/
theorem packaging_invariant (cfg : Config) (loads : Loads) (maxBodyBytes : ℕ)
    (tenantId : TenantId) (w : World) (hcut : IsPosting loads bodies names)
    (hcut' : IsPosting loads bodies' names) :
    (∀ w₁ w₂, Posted cfg loads maxBodyBytes tenantId w bodies w₁ →
      Posted cfg loads maxBodyBytes tenantId w bodies' w₂ → SameCharge tenantId w₁ w₂) ∧
    (w.service.provider.ledger.priceCentsPerLookup = cfg.priceCents →
      (∀ b ∈ bodies ++ bodies', b.WithinBody maxBodyBytes ∧ b.WithinBatch loads cfg.maxBatchItems) →
      ((∃ w₁, Posted cfg loads maxBodyBytes tenantId w bodies w₁) ↔
        ∃ w₂, Posted cfg loads maxBodyBytes tenantId w bodies' w₂)) := by
  constructor
  · intro w₁ w₂ h h'
    obtain ⟨batches, hcut, hcarries⟩ := hcut
    obtain ⟨batches', hcut', hcarries'⟩ := hcut'
    obtain ⟨read, hread, hpackaged⟩ := posted_iff.mp h
    obtain ⟨read', hread', hpackaged'⟩ := posted_iff.mp h'
    obtain rfl := eq_of_carries hcarries hread
    obtain rfl := eq_of_carries hcarries' hread'
    exact hpackaged.sameCharge hpackaged' hcut hcut'
  · intro hprice hbound
    obtain ⟨hbounds, hbounds'⟩ := List.forall_mem_append.mp hbound
    exact ⟨fun ⟨_, h⟩ => exists_posted_of_posted h hcut hcut' hprice (fun b hb => (hbounds' b hb).1)
        fun b hb => (hbounds' b hb).2,
      fun ⟨_, h⟩ => exists_posted_of_posted h hcut' hcut hprice (fun b hb => (hbounds b hb).1)
        fun b hb => (hbounds b hb).2⟩

/-! ## A list that one body is too small for -/

/-- A name of two hundred letters. -/
def longName : PyStr := List.replicate 200 ⟨65, by decide⟩

/-- Its record, as it is posted. -/
def longRecord : Bytes :=
  [123, 34, 99, 111, 109, 112, 97, 110, 121, 95, 110, 97, 109, 101, 34, 58, 34] ++
    List.replicate 200 65 ++ [34, 125]

/-- The text of an `EnrichRequest` of `n + 1` such records. -/
def longText (n : ℕ) : Bytes :=
  [123, 34, 114, 101, 99, 111, 114, 100, 115, 34, 58, 91] ++
    (List.replicate n (longRecord ++ [44])).flatten ++ longRecord ++ [93, 125]

/-- What that text parses to. -/
def longRequest (n : ℕ) : Json :=
  .object [(recordsKey,
    .array (List.replicate (n + 1) (.object [(companyNameKey, .string longName)])))]

/-- `json.loads` on such texts. -/
def longLoads : Loads := fun text =>
  if text = longText ((text.length - 233) / 220) then
    .value (longRequest ((text.length - 233) / 220))
  else .valueError

/-- Such a text, posted in one chunk. -/
def longBody (n : ℕ) : PostedBody := ⟨none, [longText n]⟩

theorem length_longText (n : ℕ) : (longText n).length = 220 * n + 233 := by
  have hrecord : longRecord.length = 219 := by
    simp only [longRecord, List.length_append, List.length_replicate, List.length_cons,
      List.length_nil]
  simp only [longText, List.length_append, List.length_flatten, List.map_replicate,
    List.sum_replicate_nat, hrecord, List.length_cons, List.length_nil]
  omega

theorem longLoads_longText (n : ℕ) : longLoads (longText n) = .value (longRequest n) := by
  have hn : ((longText n).length - 233) / 220 = n := by
    rw [length_longText]
    omega
  unfold longLoads
  rw [hn, if_pos rfl]

theorem longName_field : StrField 1 200 longName where
  unicode c hc := by
    rw [List.eq_of_mem_replicate hc]
    rfl
  min_length := by
    rw [longName, List.length_replicate]
    decide
  max_length := by rw [longName, List.length_replicate]

/-- The names of such a text. -/
def longNames (n : ℕ) : List String := List.replicate (n + 1) longName.toString

/-- It validates to them. -/
theorem carries_longBody (n : ℕ) : (longBody n).Carries longLoads (longNames n) := by
  have hrecord : RecordInput.validate (.object [(companyNameKey, .string longName)]) =
      some ⟨longName, longName_field⟩ := by
    have hname : Json.companyName? (.object [(companyNameKey, .string longName)]) =
        some longName := by simp [Json.companyName?, Json.get?]
    unfold RecordInput.validate
    rw [hname]
    exact dif_pos longName_field
  have hrecords : (List.replicate (n + 1) (Json.object [(companyNameKey, .string longName)])).mapM
      RecordInput.validate = some (List.replicate (n + 1) ⟨longName, longName_field⟩) := by
    generalize n + 1 = k
    refine mapM_eq_some.mpr ?_
    induction k with
    | zero => exact .nil
    | succ k ih => exact .cons hrecord ih
  have htext : (longBody n).stream.flatten = longText n := List.flatten_singleton
  simp only [PostedBody.Carries, htext, enrichPayload, parseJsonObject, longLoads_longText,
    longRequest, EnrichRequest.validate, Json.get?, List.find?_cons, decide_true, Option.map_some, hrecords,
    Except.map, EnrichRequest.companyNames, List.map_replicate, longNames]

/-- Such a body is read where it is within the bound, and refused where it is not. -/
theorem read_longBody (maxBodyBytes n : ℕ) :
    (220 * n + 233 ≤ maxBodyBytes → (longBody n).WithinBody maxBodyBytes) ∧
      (maxBodyBytes < 220 * n + 233 →
        (longBody n).input longLoads maxBodyBytes = .error .tooLarge) := by
  rw [← length_longText]
  constructor
  · intro hle
    have hread : (readBoundedBody maxBodyBytes .enrich none [longText n]).outcome =
        .ok [longText n].flatten := by
      rw [readBoundedBody, declaresMore, readLoop, if_neg (by omega)]
      rfl
    exact ⟨_, hread⟩
  · intro hlt
    have hread : (readBoundedBody maxBodyBytes .enrich none [longText n]).outcome =
        .error (.tooLarge .enrich) := by
      rw [readBoundedBody, declaresMore, readLoop, if_pos (by omega)]
    simp only [PostedBody.input, longBody, hread, BodyError.tooLarge]

/-- Two postings of four hundred such names: in halves, and with the second half in two. -/
theorem isPosting_longBody : IsPosting longLoads [longBody 199, longBody 199] (longNames 399) ∧
    IsPosting longLoads [longBody 199, longBody 99, longBody 99] (longNames 399) := by
  have hhalves : longNames 199 ++ longNames 199 = longNames 399 := List.replicate_append_replicate
  have hquarters : longNames 99 ++ longNames 99 = longNames 199 := List.replicate_append_replicate
  have hhalf := carries_longBody 199
  have hquarter := carries_longBody 99
  refine ⟨⟨[longNames 199, longNames 199], ⟨List.cons_ne_nil _ _, ?_⟩,
      .cons hhalf (.cons hhalf .nil)⟩,
    ⟨[longNames 199, longNames 99, longNames 99], ⟨List.cons_ne_nil _ _, ?_⟩,
      .cons hhalf (.cons hquarter (.cons hquarter .nil))⟩⟩
  · rw [List.flatten_cons, List.flatten_singleton, hhalves]
  · rw [List.flatten_cons, List.flatten_cons, List.flatten_singleton, hquarters, hhalves]

/-- The seeded deployment, with one replica. -/
def World.seeded : World :=
  .start (.demo 1) .resetFixtures 1 ⟨1, 0, 0, by decide⟩

/-- There is room in it for four hundred names, in halves. -/
theorem exists_posted_halves :
    ∃ w', Posted (.demo 1) longLoads SecureBounds.shipped.maxBodyBytes
      Fixtures.attackerTenantId .seeded [longBody 199, longBody 199] w' := by
  have hread := PostedBody.input_of_within
    ((read_longBody SecureBounds.shipped.maxBodyBytes 199).1 (by decide)) (carries_longBody 199)
  have hslot : World.seeded.service.HasSlot 0 := ⟨_, rfl, by decide⟩
  have hlength : [longNames 199, longNames 199].flatten.length = 400 := by
    rw [List.flatten_cons, List.flatten_singleton, List.length_append, longNames,
      List.length_replicate]
  obtain ⟨w', h⟩ : ∃ w', Packaged (.demo 1) Fixtures.attackerTenantId .seeded
      [longNames 199, longNames 199] w' := by
    refine exists_packaged hslot rfl rfl (fun names hmem => ?_) ?_
    · obtain rfl : names = longNames 199 := by
        simpa only [List.mem_cons, List.not_mem_nil, or_false, or_self] using hmem
      rw [longNames, List.length_replicate]
      decide
    · rw [hlength]
      exact ⟨⟨_, rfl, by decide⟩, _, rfl, by decide⟩
  exact ⟨w', posted_iff.mpr ⟨_, .cons hread (.cons hread .nil), h⟩⟩

/-- Four hundred names, in two bodies or three: both postings are admitted, and charge alike. -/
theorem packaging_invariant_of_long_names :
    ∃ w₁ w₂,
      Posted (.demo 1) longLoads SecureBounds.shipped.maxBodyBytes Fixtures.attackerTenantId
        .seeded [longBody 199, longBody 199] w₁ ∧
      Posted (.demo 1) longLoads SecureBounds.shipped.maxBodyBytes Fixtures.attackerTenantId
        .seeded [longBody 199, longBody 99, longBody 99] w₂ ∧
      SameCharge Fixtures.attackerTenantId w₁ w₂ := by
  obtain ⟨hcut, hcut'⟩ := isPosting_longBody
  obtain ⟨hsame, hadmits⟩ := packaging_invariant (.demo 1) longLoads
    SecureBounds.shipped.maxBodyBytes Fixtures.attackerTenantId .seeded hcut hcut'
  have hsmall : ∀ n, n ≤ 199 → (longBody n).WithinBody SecureBounds.shipped.maxBodyBytes ∧
      (longBody n).WithinBatch longLoads (Config.demo 1).maxBatchItems := by
    intro n hn
    have hmax : SecureBounds.shipped.maxBodyBytes = 65536 := rfl
    refine ⟨(read_longBody _ n).1 (by omega), fun names hnames => ?_⟩
    obtain rfl := Except.ok.inj ((carries_longBody n).symm.trans hnames)
    rw [longNames, List.length_replicate]
    exact le_trans (Nat.succ_le_succ hn) (by decide)
  have hhalf := hsmall 199 le_rfl
  have hquarter := hsmall 99 (by decide)
  obtain ⟨w₁, h₁⟩ := exists_posted_halves
  obtain ⟨w₂, h₂⟩ := (hadmits rfl fun b hb => by
    simp only [List.cons_append, List.nil_append, List.mem_cons, List.not_mem_nil, or_false] at hb
    rcases hb with rfl | rfl | rfl | rfl | rfl
    exacts [hhalf, hhalf, hhalf, hquarter, hquarter]).mp ⟨w₁, h₁⟩
  exact ⟨w₁, w₂, h₁, h₂, hsame w₁ w₂ h₁ h₂⟩

/-- In one body they are refused, and every batch is inside the bound on its items. -/
theorem one_body_is_too_small :
    IsPosting longLoads [longBody 399] (longNames 399) ∧
    IsPosting longLoads [longBody 199, longBody 199] (longNames 399) ∧
    (longNames 399).length ≤ (Config.demo 1).maxBatchItems ∧
    World.seeded.service.provider.ledger.priceCentsPerLookup = (Config.demo 1).priceCents ∧
    (¬ ∃ w₁, Posted (.demo 1) longLoads SecureBounds.shipped.maxBodyBytes
      Fixtures.attackerTenantId .seeded [longBody 399] w₁) ∧
    ∃ w₂, Posted (.demo 1) longLoads SecureBounds.shipped.maxBodyBytes
      Fixtures.attackerTenantId .seeded [longBody 199, longBody 199] w₂ := by
  have hlarge := (read_longBody SecureBounds.shipped.maxBodyBytes 399).2 (by decide)
  refine ⟨⟨[longNames 399], ⟨List.cons_ne_nil _ _, List.flatten_singleton⟩,
    .cons (carries_longBody 399) .nil⟩, isPosting_longBody.1, ?_, rfl, ?_, exists_posted_halves⟩
  · rw [longNames, List.length_replicate]
    decide
  · rintro ⟨w₁, h⟩
    obtain ⟨batches, hread, -⟩ := posted_iff.mp h
    cases hread with
    | cons hinput => cases hlarge.symm.trans hinput

end Limitless
