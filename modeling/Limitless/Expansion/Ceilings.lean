import Limitless.Expansion.Reader

/-!
# The ceilings on a bundle

What holds of a reader whatever its decompressor does. `Tracks` relates a reader to the chunks it
was given and to what it has handed to the assembler: the counters count these, the ceilings are
kept, and a result is what has been handed over. One case for each step keeps it (`Tracks.step`),
and `Tracks.of_run` has it after any run.
-/

namespace Limitless

open Inflate Runs

/-- More compressed bytes leave more room. -/
theorem SecureBounds.Exceeded.mono {bounds : SecureBounds} {c c' total : ℕ}
    (h : bounds.Exceeded c' total) (hc : c ≤ c') : bounds.Exceeded c total := by
  rcases h with h | ⟨hfloor, hratio⟩
  · exact .inl h
  · exact .inr ⟨hfloor, lt_of_le_of_lt (Nat.mul_le_mul_right _ hc) hratio⟩

namespace Reader

variable {D : Decompressor UInt8} {loads : Loads} {bounds : SecureBounds}
  {operation : RefusedOperation} {chunks : List Bytes} {text block : Bytes} {r r' : Reader D}

/-- A reader of `chunks` that has handed `text` to its assembler. -/
structure Tracks (loads : Loads) (bounds : SecureBounds) (chunks : List Bytes) (text : Bytes)
    (r : Reader D) : Prop where
  received : ∃ read, chunks = read ++ r.stream ∧ r.compressedBytes = read.flatten.length
  counted : r.decompressedBytes = text.length
  assembled : r.point ≠ .raised .recursionError → r.assembler.Assembled loads text
  /-- What has been handed over was within both ceilings. -/
  within : ¬ bounds.Exceeded r.compressedBytes text.length
  compressed : (∀ e, r.point ≠ .raised e) → r.compressedBytes ≤ bounds.maxImportBodyBytes
  returned : ∀ result, r.point = .returned result →
    r.stream = [] ∧ D.eof r.decompressor = true ∧
      result = ⟨r.compressedBytes, r.decompressedBytes, recordsOf loads text⟩ ∧
      ∀ line ∈ text.splitOn newline, ¬ TooDeep loads line

theorem start_tracks (chunks : List Bytes) : (start D chunks).Tracks loads bounds chunks [] where
  received := ⟨[], rfl, rfl⟩
  counted := rfl
  assembled _ := LineAssembler.empty_assembled loads
  within := by
    rintro (h | ⟨h, -⟩)
    · exact Nat.not_lt_zero _ h
    · exact absurd h (by decide)
  compressed _ := Nat.zero_le _
  returned _ h := by cases h

/-- A chunk has been read. -/
theorem Tracks.received_chunk (h : r.Tracks loads bounds chunks text) {chunk : Bytes}
    {rest : List Bytes} (hstream : r.stream = chunk :: rest) :
    ∃ read, chunks = read ++ rest ∧ r.compressedBytes + chunk.length = read.flatten.length := by
  obtain ⟨read, hchunks, hcompressed⟩ := h.received
  refine ⟨read ++ [chunk], ?_, ?_⟩
  · rw [hchunks, hstream, List.append_assoc, List.singleton_append]
  · rw [hcompressed, List.flatten_append, List.length_append, List.flatten_singleton]

/-- A reader that goes on has met no line that is too deep. -/
theorem Tracks.fed_assembled (h : r.Tracks loads bounds chunks text)
    (hpoint : ∀ e, r.point ≠ .raised e) {o : D.State} {a : LineAssembler}
    (hfeed : r.assembler.feed loads block = .ok a) :
    (r.fed loads block o).assembler.Assembled loads (text ++ block) := by
  rcases LineAssembler.feed_spec (h.assembled (hpoint _)) block with
    ⟨a', ha', hassembled⟩ | ⟨-, a', ha'⟩
  · simp only [Reader.fed, ha', LineAssembler.left]
    exact hassembled
  · cases hfeed.symm.trans ha'

/-- A block has been handed over. -/
theorem Tracks.fed (h : r.Tracks loads bounds chunks text)
    (hpoint : ∀ e, r.point ≠ .raised e) {o : D.State} {p : ReaderPoint}
    (hx : ¬ bounds.Exceeded r.compressedBytes (r.decompressedBytes + block.length))
    (hassembled : p ≠ .raised .recursionError →
      (r.fed loads block o).assembler.Assembled loads (text ++ block))
    (hreturned : ∀ result, p = .returned result → r.stream = [] ∧ D.eof o = true ∧
      result = ⟨r.compressedBytes, r.decompressedBytes + block.length,
        recordsOf loads (text ++ block)⟩ ∧
      ∀ line ∈ (text ++ block).splitOn newline, ¬ TooDeep loads line) :
    Tracks loads bounds chunks (text ++ block) { r.fed loads block o with point := p } where
  received := h.received
  counted := by
    rw [List.length_append, ← h.counted]
    rfl
  assembled := hassembled
  within := by
    rw [List.length_append, ← h.counted]
    exact hx
  compressed _ := h.compressed hpoint
  returned := hreturned

/-- **One step.** A reader keeps track of what it hands over. -/
theorem Tracks.step (h : r.Tracks loads bounds chunks text)
    (hstep : r.step loads bounds operation = some (block, r')) :
    r'.Tracks loads bounds chunks (text ++ block) := by
  have hrunning : ∀ e, r.point ≠ .raised e := by
    intro e he
    simp [Reader.step, he] at hstep
  have hassembled := h.assembled (hrunning _)
  cases step_cases hstep with
  | oversized _ hstream _ =>
      rw [List.append_nil]
      exact ⟨h.received_chunk hstream, h.counted, fun _ => hassembled,
        fun hx => h.within (hx.mono (Nat.le_add_right _ _)), fun hne => absurd rfl (hne _),
        fun _ hret => by cases hret⟩
  | received _ hstream hle =>
      rw [List.append_nil]
      exact ⟨h.received_chunk hstream, h.counted, fun _ => hassembled,
        fun hx => h.within (hx.mono (Nat.le_add_right _ _)), fun _ => hle,
        fun _ hret => by cases hret⟩
  | corruptFlush | corrupt | refused =>
      rw [List.append_nil]
      exact ⟨h.received, h.counted, fun _ => hassembled, h.within, fun hne => absurd rfl (hne _),
        fun _ hret => by cases hret⟩
  | tooDeep _ hx _ =>
      exact h.fed hrunning hx (fun hne => absurd rfl hne) fun _ hret => by cases hret
  | @flushed _ o _ hpoint hstream _ hx hfeed =>
      have hfed := h.fed_assembled hrunning (o := o) hfeed
      refine h.fed hrunning hx (fun _ => hfed) fun result hresult => ?_
      rcases conclude_cases loads (r.fed loads block o) with
        ⟨heof, a, hfinish, hend⟩ | ⟨-, -, hend⟩ | ⟨-, hend⟩
      · rw [hend] at hresult
        cases hresult
        rcases LineAssembler.finish_spec hfed with ⟨hshallow, hrecords⟩ | ⟨-, a', herror⟩
        · cases hfinish.symm.trans hrecords
          exact ⟨hstream, heof, rfl, hshallow⟩
        · cases hfinish.symm.trans herror
      · rw [hend] at hresult
        cases hresult
      · rw [hend] at hresult
        cases hresult
  | @decompressed _ _ o _ hpoint _ hx hfeed =>
      refine h.fed hrunning hx (fun _ => h.fed_assembled hrunning hfeed) fun result hresult => ?_
      rcases afterCall_cases (r.fed loads block o) with ⟨hafter, -⟩ | ⟨hafter, -⟩ <;>
        (rw [hafter] at hresult; cases hresult)

/-- A reader has kept track after any run. -/
theorem Tracks.of_run {handed : List Bytes}
    (hrun : Run (Steps loads bounds operation) (start D chunks) handed r) :
    r.Tracks loads bounds chunks handed.flatten := by
  refine hrun.invariant_trace (I := fun gs r => Tracks loads bounds chunks gs.flatten r)
    (fun gs a e b ha hab => ?_) (start_tracks chunks)
  rw [List.flatten_append, List.flatten_singleton]
  exact ha.step hab

theorem Tracks.length_le (h : r.Tracks loads bounds chunks text) :
    text.length ≤ bounds.maxDecompressedBytes :=
  Nat.le_of_not_gt fun hgt => h.within (.inl hgt)

/-- A result is within every bound. -/
theorem Tracks.result_le (h : r.Tracks loads bounds chunks text) {result : BundleResult}
    (hresult : r.point = .returned result) :
    result.compressedBytes ≤ bounds.maxImportBodyBytes ∧
      result.decompressedBytes ≤ bounds.maxDecompressedBytes ∧
      (result.decompressedBytes < ratioEvaluationFloorBytes ∨
        result.decompressedBytes ≤ bounds.maxExpansionRatio * result.compressedBytes) := by
  obtain ⟨-, -, rfl, -⟩ := h.returned result hresult
  refine ⟨h.compressed (by simp [hresult]), h.counted.trans_le h.length_le, ?_⟩
  by_contra! hneither
  refine h.within (.inr ?_)
  rw [← h.counted, mul_comm]
  exact hneither

/-- **The ceilings hold at every step.** Whatever the decompressor does, after any run the assembler
has been handed no more than the ceiling. The next block is refused before it reaches the assembler
exactly when it would take the output past a ceiling, and then no further chunk is read. A chunk
past the bound on the compressed body is not decompressed, and a result is within all three. -/
theorem ceilings_hold {handed : List Bytes}
    (hrun : Run (Steps loads bounds operation) (start D chunks) handed r) :
    handed.flatten.length ≤ bounds.maxDecompressedBytes ∧
    (∃ read, chunks = read ++ r.stream ∧ r.compressedBytes = read.flatten.length) ∧
    (∀ produced o, r.Produces produced o →
      (bounds.Exceeded r.compressedBytes (handed.flatten.length + produced.length) →
        r.step loads bounds operation =
          some ([], { r with decompressor := o, point := .raised (.refuse operation) })) ∧
      (¬ bounds.Exceeded r.compressedBytes (handed.flatten.length + produced.length) →
        ∃ p, r.step loads bounds operation =
            some (produced, { r.fed loads produced o with point := p }) ∧
          ∀ e, p = .raised e → e = .truncated ∨ e = .recursionError)) ∧
    (∀ chunk rest, r.point = .receiving → r.stream = chunk :: rest →
      bounds.maxImportBodyBytes < r.compressedBytes + chunk.length →
        ∃ r', r.step loads bounds operation = some ([], r') ∧
          r'.point = .raised (.refuse operation)) ∧
    (∀ pending, r.point = .decompressing pending →
      r.compressedBytes ≤ bounds.maxImportBodyBytes) ∧
    (∀ e, r.point = .raised e → r.step loads bounds operation = none) ∧
    ∀ result, r.point = .returned result →
      result.compressedBytes ≤ bounds.maxImportBodyBytes ∧
      result.decompressedBytes ≤ bounds.maxDecompressedBytes ∧
      (result.decompressedBytes < ratioEvaluationFloorBytes ∨
        result.decompressedBytes ≤ bounds.maxExpansionRatio * result.compressedBytes) := by
  have h := Tracks.of_run hrun
  refine ⟨h.length_le, h.received, fun produced o hp => ?_,
    fun chunk rest hpoint hstream hover => ?_,
    fun pending hpoint => h.compressed (by simp [hpoint]), fun e he => by simp [step, he],
    fun result => h.result_le⟩
  · rw [← h.counted]
    exact ⟨step_refused hp, step_handed hp⟩
  · simp only [step, hpoint, hstream]
    rw [if_pos hover]
    exact ⟨_, rfl, rfl⟩

/-- A bundle of one record. -/
def oneRecordBundle : Bytes :=
  [31, 139, 8, 0, 0, 0, 0, 0, 2, 3, 171, 86, 74, 206, 207, 45, 72, 204, 171, 140, 207, 75, 204, 77,
    85, 178, 82, 114, 84, 170, 229, 2, 0, 114, 251, 14, 98, 21, 0, 0, 0]

/-- Its line. -/
def oneRecordLine : Bytes :=
  [123, 34, 99, 111, 109, 112, 97, 110, 121, 95, 110, 97, 109, 101, 34, 58, 34, 65, 34, 125]

/-- What it decodes to. -/
def oneRecordDecoding : Decoding UInt8 :=
  .known oneRecordBundle (oneRecordLine ++ [newline]) [] (by decide)

/-- What its line parses to. -/
def oneRecordLoads : Loads := fun text =>
  if text = oneRecordLine then .value (.object [(companyNameKey, .string (.ofString "A"))])
  else .valueError

/-- The shipped bounds, with a ceiling one byte below the output of that bundle. -/
def tightBounds : SecureBounds := { SecureBounds.shipped with maxDecompressedBytes := 20 }

/-- The only block of that bundle, refused before it reaches the assembler. -/
theorem ceilings_hold_of_one_record :
    ∃ r o, Run (Steps oneRecordLoads tightBounds .importBundle)
        (start (.ofDecoding oneRecordDecoding) [oneRecordBundle]) [[]] r ∧
      r.Produces (oneRecordLine ++ [newline]) o ∧
      r.step oneRecordLoads tightBounds .importBundle =
        some ([], { r with decompressor := o, point := .raised (.refuse .importBundle) }) := by
  have hrun := run_spec oneRecordLoads tightBounds .importBundle 1
    (start (.ofDecoding oneRecordDecoding) [oneRecordBundle])
  have hproduces : (run oneRecordLoads tightBounds .importBundle 1
      (start (.ofDecoding oneRecordDecoding) [oneRecordBundle])).2.Produces
        (oneRecordLine ++ [newline]) _ :=
    .decompress (show _ = ReaderPoint.decompressing oneRecordBundle from rfl) rfl
  exact ⟨_, _, hrun, hproduces, ((ceilings_hold hrun).2.2.1 _ _ hproduces).1 (by decide)⟩

end Reader

end Limitless
