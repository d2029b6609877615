import Limitless.Expansion.Records
import Limitless.Lib.Inflate
import Limitless.Lib.Runs
import Limitless.Secure.Capacity
import Limitless.Settings

/-!
# Reading a bundle

`secure/expansion.py`'s `read_bounded_bundle`, one step for each chunk it reads and each call it
makes of the decompressor, which is a parameter. A step is labelled with the block it hands to the
line assembler, so a run is labelled with everything that reached the assembler, in order.

The function's loops end or not as the decompressor lets them: `Reads` is the outcome of a run that
has ended. `step_cases` lists what a step can be, and every invariant is read off it.
-/

namespace Limitless

open Inflate Runs

/-- `OUTPUT_CHUNK_BYTES`: how much output a call is asked for. -/
def outputChunkBytes : ℕ := 65536

/-- `RATIO_EVALUATION_FLOOR_BYTES`: below this much output the ratio is not evaluated. -/
def ratioEvaluationFloorBytes : ℕ := 65536

/-- `BundleResult`. -/
structure BundleResult where
  compressedBytes : ℕ
  decompressedBytes : ℕ
  records : List ImportedRecord
  deriving DecidableEq, Repr

/-- The names `import_bundle` sends to the provider. -/
def BundleResult.companyNames (b : BundleResult) : List PyStr :=
  b.records.map ImportedRecord.companyName

/-- What `read_bounded_bundle` raises. -/
inductive BundleError
  | limitReached (kind : RefusalKind) (operation : RefusedOperation)
  | valueError (message : String)
  /-- Out of the line assembler: a line is nested too deeply. -/
  | recursionError
  deriving DecidableEq, Repr

namespace BundleError

/-- `refuse()`. -/
def refuse (operation : RefusedOperation) : BundleError := .limitReached .inputTooLarge operation

/-- What an error of the decompressor is raised as. -/
def notGzip : BundleError := .valueError "bundle is not a valid gzip stream"

/-- What is raised for a stream that has not ended. -/
def truncated : BundleError := .valueError "bundle is a truncated gzip stream"

end BundleError

/-- Where `read_bounded_bundle` stands. -/
inductive ReaderPoint
  /-- At `async for chunk in request.stream()`. -/
  | receiving
  /-- At `decompressor.decompress`, in the inner loop. -/
  | decompressing (pending : Bytes)
  | returned (result : BundleResult)
  | raised (error : BundleError)
  deriving DecidableEq, Repr

/-- The locals of `read_bounded_bundle`, and the chunks it has not read. -/
structure Reader (D : Decompressor UInt8) where
  decompressor : D.State
  assembler : LineAssembler
  compressedBytes : ℕ
  decompressedBytes : ℕ
  stream : List Bytes
  point : ReaderPoint

/-- Output past a ceiling: `total` bytes of it, from the compressed bytes received so far. -/
def SecureBounds.Exceeded (bounds : SecureBounds) (compressed total : ℕ) : Prop :=
  total > bounds.maxDecompressedBytes ∨
    total ≥ ratioEvaluationFloorBytes ∧ total > compressed * bounds.maxExpansionRatio

instance (bounds : SecureBounds) (compressed total : ℕ) :
    Decidable (bounds.Exceeded compressed total) :=
  inferInstanceAs (Decidable (_ ∨ _ ∧ _))

namespace Reader

variable (D : Decompressor UInt8) (loads : Loads) (bounds : SecureBounds)
  (operation : RefusedOperation)

/-- Before the first chunk. -/
def start (chunks : List Bytes) : Reader D where
  decompressor := D.start
  assembler := .empty
  compressedBytes := 0
  decompressedBytes := 0
  stream := chunks
  point := .receiving

variable {D}

/-- How `account` ends. -/
inductive Accounted (D : Decompressor UInt8)
  /-- Before the assembler has the block. -/
  | refused (error : BundleError)
  /-- The assembler has the block, and has raised a `RecursionError`. -/
  | tooDeep (r : Reader D)
  | handed (r : Reader D)

/-- `account`: both ceilings, then the assembler. -/
def account (r : Reader D) (produced : Bytes) : Accounted D :=
  let r := { r with decompressedBytes := r.decompressedBytes + produced.length }
  if r.decompressedBytes > bounds.maxDecompressedBytes then .refused (.refuse operation) else
  if r.decompressedBytes ≥ ratioEvaluationFloorBytes ∧
      r.decompressedBytes > r.compressedBytes * bounds.maxExpansionRatio then
    .refused (.refuse operation)
  else
  match r.assembler.feed loads produced with
  | .error a => .tooDeep { r with assembler := a }
  | .ok a => .handed { r with assembler := a }

/-- The end of the function, after the flush. -/
def conclude (r : Reader D) : ReaderPoint :=
  if D.eof r.decompressor then
    match r.assembler.finish loads with
    | .error _ => .raised .recursionError
    | .ok a =>
      .returned
        { compressedBytes := r.compressedBytes
          decompressedBytes := r.decompressedBytes
          records := a.records }
  else .raised .truncated

/-- The test that ends the inner loop. -/
def afterCall (r : Reader D) : ReaderPoint :=
  if D.unconsumedTail r.decompressor = [] then .receiving
  else .decompressing (D.unconsumedTail r.decompressor)

/-- One step, with the block it hands to the assembler. -/
def step (r : Reader D) : Option (Bytes × Reader D) :=
  match r.point with
  | .receiving =>
    match r.stream with
    | chunk :: rest =>
      let r := { r with compressedBytes := r.compressedBytes + chunk.length, stream := rest }
      if r.compressedBytes > bounds.maxImportBodyBytes then
        some ([], { r with point := .raised (.refuse operation) })
      else some ([], { r with point := .decompressing chunk })
    | [] =>
      match D.flush r.decompressor with
      | none => some ([], { r with point := .raised .notGzip })
      | some (produced, o) =>
        match account loads bounds operation { r with decompressor := o } produced with
        | .refused e => some ([], { r with decompressor := o, point := .raised e })
        | .tooDeep r => some (produced, { r with point := .raised .recursionError })
        | .handed r => some (produced, { r with point := r.conclude loads })
  | .decompressing pending =>
    match D.decompress r.decompressor pending outputChunkBytes with
    | none => some ([], { r with point := .raised .notGzip })
    | some (produced, o) =>
      match account loads bounds operation { r with decompressor := o } produced with
      | .refused e => some ([], { r with decompressor := o, point := .raised e })
      | .tooDeep r => some (produced, { r with point := .raised .recursionError })
      | .handed r => some (produced, { r with point := r.afterCall })
  | .returned _ | .raised _ => none

/-- The steps, labelled with what they hand to the assembler. -/
def Steps : Reader D → Bytes → Reader D → Prop :=
  fun r handed r' => r.step loads bounds operation = some (handed, r')

/-- So many steps, or all there are: what is handed to the assembler, and where they lead. -/
def run : ℕ → Reader D → List Bytes × Reader D
  | 0, r => ([], r)
  | n + 1, r =>
    match r.step loads bounds operation with
    | none => ([], r)
    | some (handed, r') => (handed :: (run n r').1, (run n r').2)

/-- The outcome at a point where the function has ended. -/
def outcome? (r : Reader D) : Option (Except BundleError BundleResult) :=
  match r.point with
  | .returned result => some (.ok result)
  | .raised e => some (.error e)
  | .receiving | .decompressing _ => none

end Reader

/-- `read_bounded_bundle` on a stream of chunks ends so. -/
def Reads (D : Decompressor UInt8) (loads : Loads) (bounds : SecureBounds)
    (operation : RefusedOperation) (chunks : List Bytes)
    (outcome : Except BundleError BundleResult) : Prop :=
  ∃ handed r, Run (Reader.Steps loads bounds operation) (Reader.start D chunks) handed r ∧
    r.outcome? = some outcome

namespace Reader

variable {D : Decompressor UInt8} {loads : Loads} {bounds : SecureBounds}
  {operation : RefusedOperation} {r r' : Reader D} {handed produced : Bytes} {o : D.State}

theorem outcome?_eq_ok {result : BundleResult} :
    r.outcome? = some (.ok result) ↔ r.point = .returned result := by
  unfold outcome?
  split <;> simp [*]

theorem outcome?_eq_error {e : BundleError} :
    r.outcome? = some (.error e) ↔ r.point = .raised e := by
  unfold outcome?
  split <;> simp [*]

/-! ## What a step can be -/

/-- `account` refuses past a ceiling, and otherwise hands the block over. -/
theorem account_eq (r : Reader D) (produced : Bytes) :
    r.account loads bounds operation produced =
      if bounds.Exceeded r.compressedBytes (r.decompressedBytes + produced.length) then
        .refused (.refuse operation)
      else match r.assembler.feed loads produced with
        | .error a => .tooDeep { r with
            decompressedBytes := r.decompressedBytes + produced.length
            assembler := a }
        | .ok a => .handed { r with
            decompressedBytes := r.decompressedBytes + produced.length
            assembler := a } := by
  by_cases hx : bounds.Exceeded r.compressedBytes (r.decompressedBytes + produced.length)
  · rw [if_pos hx]
    unfold account
    rcases hx with hmax | hratio
    · exact if_pos hmax
    · exact (ite_congr rfl (fun _ => rfl) fun _ => if_pos hratio).trans (ite_self _)
  · rw [if_neg hx]
    unfold account
    exact (if_neg fun hmax => hx (.inl hmax)).trans (if_neg fun hratio => hx (.inr hratio))

theorem afterCall_cases (r : Reader D) :
    r.afterCall = .receiving ∧ D.unconsumedTail r.decompressor = [] ∨
      r.afterCall = .decompressing (D.unconsumedTail r.decompressor) ∧
        D.unconsumedTail r.decompressor ≠ [] := by
  unfold afterCall
  split
  · exact .inl ⟨rfl, ‹_›⟩
  · exact .inr ⟨rfl, ‹_›⟩

theorem conclude_cases (loads : Loads) (r : Reader D) :
    D.eof r.decompressor = true ∧ (∃ a, r.assembler.finish loads = .ok a ∧
        r.conclude loads = .returned ⟨r.compressedBytes, r.decompressedBytes, a.records⟩) ∨
      D.eof r.decompressor = true ∧ (∃ a, r.assembler.finish loads = .error a) ∧
        r.conclude loads = .raised .recursionError ∨
      D.eof r.decompressor = false ∧ r.conclude loads = .raised .truncated := by
  unfold conclude
  cases D.eof r.decompressor
  · exact .inr (.inr ⟨rfl, rfl⟩)
  · cases r.assembler.finish loads with
    | ok a => exact .inl ⟨rfl, a, rfl, rfl⟩
    | error a => exact .inr (.inl ⟨rfl, ⟨a, rfl⟩, rfl⟩)

/-- The block that the next step of a reader produces, and the object it leaves. -/
inductive Produces : Reader D → Bytes → D.State → Prop
  | decompress {r : Reader D} {pending produced : Bytes} {o : D.State} :
      r.point = .decompressing pending →
        D.decompress r.decompressor pending outputChunkBytes = some (produced, o) →
        Produces r produced o
  | flush {r : Reader D} {produced : Bytes} {o : D.State} :
      r.point = .receiving → r.stream = [] → D.flush r.decompressor = some (produced, o) →
        Produces r produced o

/-- The reader after a block that the ceilings allow. -/
def fed (loads : Loads) (r : Reader D) (produced : Bytes) (o : D.State) : Reader D :=
  { r with
    decompressor := o
    decompressedBytes := r.decompressedBytes + produced.length
    assembler := .left (r.assembler.feed loads produced) }

/-- Everything one step can be. -/
inductive Advance (loads : Loads) (bounds : SecureBounds) (operation : RefusedOperation) :
    Reader D → Bytes → Reader D → Prop
  | oversized {r : Reader D} {chunk : Bytes} {rest : List Bytes} :
      r.point = .receiving → r.stream = chunk :: rest →
      r.compressedBytes + chunk.length > bounds.maxImportBodyBytes →
      Advance loads bounds operation r [] { r with
        compressedBytes := r.compressedBytes + chunk.length
        stream := rest
        point := .raised (.refuse operation) }
  | received {r : Reader D} {chunk : Bytes} {rest : List Bytes} :
      r.point = .receiving → r.stream = chunk :: rest →
      r.compressedBytes + chunk.length ≤ bounds.maxImportBodyBytes →
      Advance loads bounds operation r [] { r with
        compressedBytes := r.compressedBytes + chunk.length
        stream := rest
        point := .decompressing chunk }
  | corruptFlush {r : Reader D} :
      r.point = .receiving → r.stream = [] → D.flush r.decompressor = none →
      Advance loads bounds operation r [] { r with point := .raised .notGzip }
  | corrupt {r : Reader D} {pending : Bytes} :
      r.point = .decompressing pending →
      D.decompress r.decompressor pending outputChunkBytes = none →
      Advance loads bounds operation r [] { r with point := .raised .notGzip }
  | refused {r : Reader D} {produced : Bytes} {o : D.State} :
      Produces r produced o →
      bounds.Exceeded r.compressedBytes (r.decompressedBytes + produced.length) →
      Advance loads bounds operation r []
        { r with decompressor := o, point := .raised (.refuse operation) }
  | tooDeep {r : Reader D} {produced : Bytes} {o : D.State} {a : LineAssembler} :
      Produces r produced o →
      ¬ bounds.Exceeded r.compressedBytes (r.decompressedBytes + produced.length) →
      r.assembler.feed loads produced = .error a →
      Advance loads bounds operation r produced
        { r.fed loads produced o with point := .raised .recursionError }
  | flushed {r : Reader D} {produced : Bytes} {o : D.State} {a : LineAssembler} :
      r.point = .receiving → r.stream = [] → D.flush r.decompressor = some (produced, o) →
      ¬ bounds.Exceeded r.compressedBytes (r.decompressedBytes + produced.length) →
      r.assembler.feed loads produced = .ok a →
      Advance loads bounds operation r produced
        { r.fed loads produced o with point := (r.fed loads produced o).conclude loads }
  | decompressed {r : Reader D} {pending produced : Bytes} {o : D.State} {a : LineAssembler} :
      r.point = .decompressing pending →
      D.decompress r.decompressor pending outputChunkBytes = some (produced, o) →
      ¬ bounds.Exceeded r.compressedBytes (r.decompressedBytes + produced.length) →
      r.assembler.feed loads produced = .ok a →
      Advance loads bounds operation r produced
        { r.fed loads produced o with point := (r.fed loads produced o).afterCall }

/-- A block past a ceiling is refused. -/
theorem step_refused (h : Produces r produced o)
    (hx : bounds.Exceeded r.compressedBytes (r.decompressedBytes + produced.length)) :
    r.step loads bounds operation =
      some ([], { r with decompressor := o, point := .raised (.refuse operation) }) := by
  cases h with
  | decompress hpoint hcall =>
      simp only [step, hpoint, hcall, account_eq]
      rw [if_pos hx]
  | flush hpoint hstream hcall =>
      simp only [step, hpoint, hstream, hcall, account_eq]
      rw [if_pos hx]

/-- A block that the ceilings allow, with a line that is too deep. -/
theorem step_tooDeep (h : Produces r produced o)
    (hx : ¬ bounds.Exceeded r.compressedBytes (r.decompressedBytes + produced.length))
    {a : LineAssembler} (hfeed : r.assembler.feed loads produced = .error a) :
    r.step loads bounds operation =
      some (produced, { r.fed loads produced o with point := .raised .recursionError }) := by
  cases h with
  | decompress hpoint hcall =>
      simp only [step, hpoint, hcall, account_eq]
      rw [if_neg hx, hfeed]
      simp only [fed, hfeed, LineAssembler.left]
  | flush hpoint hstream hcall =>
      simp only [step, hpoint, hstream, hcall, account_eq]
      rw [if_neg hx, hfeed]
      simp only [fed, hfeed, LineAssembler.left, hstream]

/-- A call whose block the assembler takes. -/
theorem step_decompressed {pending : Bytes} (hpoint : r.point = .decompressing pending)
    (hcall : D.decompress r.decompressor pending outputChunkBytes = some (produced, o))
    (hx : ¬ bounds.Exceeded r.compressedBytes (r.decompressedBytes + produced.length))
    {a : LineAssembler} (hfeed : r.assembler.feed loads produced = .ok a) :
    r.step loads bounds operation = some (produced,
      { r.fed loads produced o with point := (r.fed loads produced o).afterCall }) := by
  simp only [step, hpoint, hcall, account_eq]
  rw [if_neg hx, hfeed]
  simp only [fed, hfeed, LineAssembler.left, hpoint]

/-- A flush whose block the assembler takes. -/
theorem step_flushed (hpoint : r.point = .receiving) (hstream : r.stream = [])
    (hcall : D.flush r.decompressor = some (produced, o))
    (hx : ¬ bounds.Exceeded r.compressedBytes (r.decompressedBytes + produced.length))
    {a : LineAssembler} (hfeed : r.assembler.feed loads produced = .ok a) :
    r.step loads bounds operation = some (produced,
      { r.fed loads produced o with point := (r.fed loads produced o).conclude loads }) := by
  simp only [step, hpoint, hstream, hcall, account_eq]
  rw [if_neg hx, hfeed]
  simp only [fed, hfeed, LineAssembler.left, hstream, hpoint]

/-- A block within the ceilings is handed over; only a line that is too deep, or the end of the
stream, can still be in the way. -/
theorem step_handed (h : Produces r produced o)
    (hx : ¬ bounds.Exceeded r.compressedBytes (r.decompressedBytes + produced.length)) :
    ∃ p, r.step loads bounds operation =
        some (produced, { r.fed loads produced o with point := p }) ∧
      ∀ e, p = .raised e → e = .truncated ∨ e = .recursionError := by
  cases hfeed : r.assembler.feed loads produced with
  | error a => exact ⟨_, step_tooDeep h hx hfeed, fun e he => by cases he; exact .inr rfl⟩
  | ok a =>
      cases h with
      | decompress hpoint hcall =>
          refine ⟨_, step_decompressed hpoint hcall hx hfeed, fun e he => ?_⟩
          rcases afterCall_cases (r.fed loads produced o) with ⟨hafter, -⟩ | ⟨hafter, -⟩ <;>
            (rw [hafter] at he; cases he)
      | flush hpoint hstream hcall =>
          refine ⟨_, step_flushed hpoint hstream hcall hx hfeed, fun e he => ?_⟩
          rcases conclude_cases loads (r.fed loads produced o) with
            ⟨-, a, -, hend⟩ | ⟨-, -, hend⟩ | ⟨-, hend⟩
          · rw [hend] at he
            cases he
          · rw [hend] at he
            cases he
            exact .inr rfl
          · rw [hend] at he
            cases he
            exact .inl rfl

/-- The executable form is a run. -/
theorem run_spec (loads : Loads) (bounds : SecureBounds) (operation : RefusedOperation) (n : ℕ)
    (r : Reader D) : Run (Steps loads bounds operation) r (r.run loads bounds operation n).1
      (r.run loads bounds operation n).2 := by
  induction n generalizing r with
  | zero => exact .nil
  | succ n ih =>
      unfold run
      split
      · exact .nil
      · next hstep => exact .cons hstep (ih _)

/-- A step that produces a block is one of four. -/
theorem advance_of_produces (hp : Produces r produced o)
    (hstep : r.step loads bounds operation = some (handed, r')) :
    Advance loads bounds operation r handed r' := by
  by_cases hx : bounds.Exceeded r.compressedBytes (r.decompressedBytes + produced.length)
  · cases (step_refused hp hx).symm.trans hstep
    exact .refused hp hx
  · cases hfeed : r.assembler.feed loads produced with
    | error a =>
        cases (step_tooDeep hp hx hfeed).symm.trans hstep
        exact .tooDeep hp hx hfeed
    | ok a =>
        cases hp with
        | decompress hpoint hcall =>
            cases (step_decompressed hpoint hcall hx hfeed).symm.trans hstep
            exact .decompressed hpoint hcall hx hfeed
        | flush hpoint hstream hcall =>
            cases (step_flushed hpoint hstream hcall hx hfeed).symm.trans hstep
            exact .flushed hpoint hstream hcall hx hfeed

/-- A step is one of these. -/
theorem step_cases (hstep : r.step loads bounds operation = some (handed, r')) :
    Advance loads bounds operation r handed r' := by
  have h := hstep
  unfold step at h
  split at h
  · next hpoint =>
      split at h
      · next chunk rest hstream =>
          dsimp only at h
          split at h
          · next hover => cases h; exact .oversized hpoint hstream hover
          · next hover => cases h; exact .received hpoint hstream (Nat.le_of_not_gt hover)
      · next hstream =>
          cases hflush : D.flush r.decompressor with
          | none =>
              rw [hflush] at h
              cases h
              exact .corruptFlush hpoint hstream hflush
          | some answer => exact advance_of_produces (.flush hpoint hstream hflush) hstep
  · next pending hpoint =>
      cases hcall : D.decompress r.decompressor pending outputChunkBytes with
      | none =>
          rw [hcall] at h
          cases h
          exact .corrupt hpoint hcall
      | some answer => exact advance_of_produces (.decompress hpoint hcall) hstep
  · cases h
  · cases h

/-- A block is refused or handed over. -/
theorem step_produces (h : Produces r produced o) :
    ∃ block r', r.step loads bounds operation = some (block, r') := by
  by_cases hx : bounds.Exceeded r.compressedBytes (r.decompressedBytes + produced.length)
  · exact ⟨_, _, step_refused h hx⟩
  · obtain ⟨p, hstep, -⟩ := step_handed h hx
    exact ⟨_, _, hstep⟩

/-- A reader that has not ended has a next step. -/
theorem exists_step (h : r.outcome? = none) :
    ∃ block r', r.step loads bounds operation = some (block, r') := by
  cases hpoint : r.point with
  | receiving =>
      cases hstream : r.stream with
      | cons chunk rest =>
          simp only [step, hpoint, hstream]
          split <;> exact ⟨_, _, rfl⟩
      | nil =>
          cases hflush : D.flush r.decompressor with
          | none =>
              simp only [step, hpoint, hstream, hflush]
              exact ⟨_, _, rfl⟩
          | some answer => exact step_produces (.flush hpoint hstream hflush)
  | decompressing pending =>
      cases hcall : D.decompress r.decompressor pending outputChunkBytes with
      | none =>
          simp only [step, hpoint, hcall]
          exact ⟨_, _, rfl⟩
      | some answer => exact step_produces (.decompress hpoint hcall)
  | returned | raised => simp [outcome?, hpoint] at h

/-- One that has ended has none. -/
theorem step_of_outcome {outcome : Except BundleError BundleResult}
    (h : r.outcome? = some outcome) : r.step loads bounds operation = none := by
  unfold outcome? at h
  unfold step
  split at h <;> simp_all

end Reader

/-- There is one outcome. -/
theorem Reads.unique {D : Decompressor UInt8} {loads : Loads} {bounds : SecureBounds}
    {operation : RefusedOperation} {chunks : List Bytes}
    {outcome outcome' : Except BundleError BundleResult}
    (h : Reads D loads bounds operation chunks outcome)
    (h' : Reads D loads bounds operation chunks outcome') : outcome = outcome' := by
  obtain ⟨_, r, hrun, hr⟩ := h
  obtain ⟨_, r', hrun', hr'⟩ := h'
  have hfinal : ∀ {q : Reader D} {o}, q.outcome? = some o →
      ∀ e b, ¬ Reader.Steps loads bounds operation q e b := by
    intro q o hq e b hstep
    rw [Reader.Steps, Reader.step_of_outcome hq] at hstep
    cases hstep
  obtain ⟨-, rfl⟩ := hrun.unique (fun a e b e' b' hb hb' => by
    have := hb.symm.trans hb'
    cases this
    exact ⟨rfl, rfl⟩) hrun' (hfinal hr) (hfinal hr')
  exact Option.some.inj (hr.symm.trans hr')

end Limitless
