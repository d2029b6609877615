import Limitless.Expansion.Ceilings

/-!
# What the outcome of a bundle says about it

A reader whose decompressor decodes `dec`. `Follows` says where the decoding stands: what has been
read is what the decompressor has consumed and what is pending, and what it has answered has been
handed over. So an ended reader explains itself. A result is the whole output of a body that has
ended; a `ValueError` is a body that is corrupt, or has not ended; a refusal is an overrun of what
had been read by then; and a `RecursionError` is a line of the output that is too deep.

`exists_reads` is termination: every step that does not end the function lowers `Reader.rank`.
-/

namespace Limitless

open Inflate Runs

/-- What is pending of a chunk. -/
def ReaderPoint.pending : ReaderPoint → Bytes
  | decompressing p => p
  | receiving | returned _ | raised _ => []

/-- Some first chunks are past the bound on the body, or decode past a ceiling. -/
def Overrun (dec : Decoding UInt8) (bounds : SecureBounds) (chunks : List Bytes) : Prop :=
  ∃ read, read <+: chunks ∧ (bounds.maxImportBodyBytes < read.flatten.length ∨
    ∃ out, out <+: dec.output read.flatten ∧ bounds.Exceeded read.flatten.length out.length)

/-- What a reader of `chunks` raises, with what the body is that it is raised on. -/
inductive Explains (dec : Decoding UInt8) (loads : Loads) (bounds : SecureBounds)
    (operation : RefusedOperation) (chunks : List Bytes) : BundleError → Prop
  | notGzip : dec.status chunks.flatten = .corrupt →
      Explains dec loads bounds operation chunks .notGzip
  | truncated : dec.status chunks.flatten = .reading →
      (∀ line ∈ Lines.complete newline (dec.output chunks.flatten), ¬ TooDeep loads line) →
      Explains dec loads bounds operation chunks .truncated
  /-- The flush does not raise what is wrong with the stream. -/
  | flushed : dec.status chunks.flatten = .corrupt →
      Explains dec loads bounds operation chunks .truncated
  | overrun : Overrun dec bounds chunks →
      Explains dec loads bounds operation chunks (.refuse operation)
  | tooDeep {line : Bytes} : line ∈ Lines.complete newline (dec.output chunks.flatten) →
      TooDeep loads line → Explains dec loads bounds operation chunks .recursionError
  | lastTooDeep {unused : Bytes} : dec.status chunks.flatten = .ended unused →
      TooDeep loads (Lines.rest newline (dec.output chunks.flatten)) →
      Explains dec loads bounds operation chunks .recursionError

namespace Reader

variable {D : Decompressor UInt8} {dec : Decoding UInt8} {loads : Loads} {bounds : SecureBounds}
  {operation : RefusedOperation} {chunks : List Bytes} {text block : Bytes} {r r' : Reader D}

/-- A reader of `chunks` that has handed over `text` has decoded so far, or explains itself. -/
structure Follows (dec : Decoding UInt8) (loads : Loads) (bounds : SecureBounds)
    (operation : RefusedOperation) (chunks : List Bytes) (text : Bytes) (r : Reader D) :
    Prop where
  tracks : r.Tracks loads bounds chunks text
  active : r.outcome? = none → ∃ read consumed, chunks = read ++ r.stream ∧
    r.compressedBytes = read.flatten.length ∧ r.decompressedBytes = text.length ∧
    read.flatten = consumed ++ r.point.pending ∧ D.Reached r.decompressor consumed text
  tail : r.point = .receiving → D.unconsumedTail r.decompressor = []
  returned : ∀ result, r.point = .returned result →
    dec.status chunks.flatten = .ended (D.unusedData r.decompressor) ∧
      text = dec.output chunks.flatten ∧ r.compressedBytes = chunks.flatten.length
  raised : ∀ e, r.point = .raised e → Explains dec loads bounds operation chunks e

theorem start_follows (hD : D.Decodes dec) (chunks : List Bytes) :
    (start D chunks).Follows dec loads bounds operation chunks [] where
  tracks := start_tracks chunks
  active _ := ⟨[], [], rfl, rfl, rfl, rfl, .start⟩
  tail _ := hD.tail_start
  returned _ h := by cases h
  raised _ h := by cases h

/-- What has been read of a body is the beginning of it. -/
theorem flatten_append_stream {read rest : List Bytes} (h : chunks = read ++ rest) :
    chunks.flatten = read.flatten ++ rest.flatten := by rw [h, List.flatten_append]

/-- The block of the next step is what the decoding has next. -/
theorem Follows.produces (h : r.Follows dec loads bounds operation chunks text) (hD : D.Decodes dec)
    (hactive : r.outcome? = none) {o : D.State} (hp : r.Produces block o) :
    ∃ read, read <+: chunks ∧ r.compressedBytes = read.flatten.length ∧
      r.decompressedBytes = text.length ∧ text ++ block <+: dec.output read.flatten := by
  obtain ⟨read, consumed, hchunks, hcompressed, hdecompressed, hread, hreached⟩ := h.active hactive
  refine ⟨read, ⟨_, hchunks.symm⟩, hcompressed, hdecompressed, ?_⟩
  cases hp with
  | decompress hpoint hcall =>
      obtain ⟨c, rfl, hreached'⟩ := hD.reached_call hreached hcall
      rw [hread, hpoint]
      show _ <+: dec.output (consumed ++ (c ++ D.unconsumedTail o))
      rw [← List.append_assoc]
      exact (hD.produced hreached').trans (dec.output_append _ _)
  | flush hpoint hstream hcall =>
      have hout := hD.flush_produced hreached hcall
      rw [h.tail hpoint] at hout
      rw [hread, hpoint]
      exact hout

/-- A refusal is an overrun. -/
theorem Follows.overrun (h : r.Follows dec loads bounds operation chunks text) (hD : D.Decodes dec)
    (hactive : r.outcome? = none) {o : D.State} (hp : r.Produces block o)
    (hx : bounds.Exceeded r.compressedBytes (r.decompressedBytes + block.length)) :
    Overrun dec bounds chunks := by
  obtain ⟨read, hread, hcompressed, hdecompressed, hout⟩ := h.produces hD hactive hp
  refine ⟨read, hread, .inr ⟨text ++ block, hout, ?_⟩⟩
  rwa [List.length_append, ← hcompressed, ← hdecompressed]

/-- A reader that has raised has only its error to explain. -/
theorem follows_of_raised {e : BundleError} (ht : r.Tracks loads bounds chunks text)
    (hpoint : r.point = .raised e) (h : Explains dec loads bounds operation chunks e) :
    r.Follows dec loads bounds operation chunks text where
  tracks := ht
  active hactive := by simp [outcome?, hpoint] at hactive
  tail hp := by simp [hpoint] at hp
  returned _ hp := by simp [hpoint] at hp
  raised e' hp := by
    rw [hpoint] at hp
    cases hp
    exact h

/-- One that has not ended has only where it stands. -/
theorem follows_of_active (ht : r.Tracks loads bounds chunks text) (hactive : r.outcome? = none)
    (read : List Bytes) (consumed : Bytes) (hchunks : chunks = read ++ r.stream)
    (hcompressed : r.compressedBytes = read.flatten.length)
    (hdecompressed : r.decompressedBytes = text.length)
    (hread : read.flatten = consumed ++ r.point.pending)
    (hreached : D.Reached r.decompressor consumed text)
    (htail : r.point = .receiving → D.unconsumedTail r.decompressor = []) :
    r.Follows dec loads bounds operation chunks text where
  tracks := ht
  active _ := ⟨read, consumed, hchunks, hcompressed, hdecompressed, hread, hreached⟩
  tail := htail
  returned _ hp := by simp [outcome?, hp] at hactive
  raised _ hp := by simp [outcome?, hp] at hactive

/-- The complete lines of what a body begins with are complete lines of its output. -/
theorem mem_complete_of_read {read : List Bytes} {line : Bytes} (hread : read <+: chunks)
    (hout : text <+: dec.output read.flatten) (hline : line ∈ Lines.complete newline text) :
    line ∈ Lines.complete newline (dec.output chunks.flatten) := by
  obtain ⟨rest, rfl⟩ := hread
  obtain ⟨more, hmore⟩ := hout.trans (dec.output_append read.flatten rest.flatten)
  rw [List.flatten_append, ← hmore, Lines.complete_append]
  exact List.mem_append_left _ hline

/-- The end of the function, after a flush whose block the assembler has taken. -/
theorem Follows.flushed (h : r.Follows dec loads bounds operation chunks text)
    (hD : D.Decodes dec) (hpoint : r.point = .receiving) (hstream : r.stream = []) {o : D.State}
    (hcall : D.flush r.decompressor = some (block, o)) {a : LineAssembler}
    (hfeed : r.assembler.feed loads block = .ok a)
    (ht : Tracks loads bounds chunks (text ++ block)
      { r.fed loads block o with point := (r.fed loads block o).conclude loads }) :
    Follows dec loads bounds operation chunks (text ++ block)
      { r.fed loads block o with point := (r.fed loads block o).conclude loads } := by
  obtain ⟨read, consumed, hchunks, hcompressed, -, hread, hreached⟩ :=
    h.active (by simp [outcome?, hpoint])
  have hfed := h.tracks.fed_assembled (o := o) (by simp [hpoint]) hfeed
  -- the flush answers what is missing, and says whether the stream has ended
  have hout := hD.flush_output hreached hcall
  have hstatus := hD.flush_status hreached hcall
  rw [h.tail hpoint] at hout hstatus
  rw [hstream, List.append_nil] at hchunks
  subst hchunks
  have hall : chunks.flatten = consumed ++ [] := by
    rw [hread, hpoint]
    rfl
  rw [← hall] at hout hstatus
  rcases hstatus with ⟨hreading, heof⟩ | ⟨hended, heof⟩ | ⟨hcorrupt, heof⟩
  · refine follows_of_raised ht (if_neg (by simpa [fed] using heof)) (.truncated hreading ?_)
    rw [← hout (by simp [hreading])]
    exact hfed.shallow
  · have hwhole := hout (by simp [hended])
    rw [hwhole] at hfed ht ⊢
    rcases conclude_cases loads (r.fed loads block o) with
      ⟨-, a', hfinish, hend⟩ | ⟨-, ⟨a', hfinish⟩, hend⟩ | ⟨hopen, -⟩
    · exact ⟨ht, fun hne => by simp [outcome?, hend] at hne, fun hp => by simp [hend] at hp,
        fun _ _ => ⟨hended, rfl, hcompressed⟩, fun e hp => by simp [hend] at hp⟩
    · rcases LineAssembler.finish_spec hfed with ⟨-, hok⟩ | ⟨hdeep, -⟩
      · cases hfinish.symm.trans hok
      · exact follows_of_raised ht hend (.lastTooDeep hended hdeep)
    · cases hopen.symm.trans heof
  · exact follows_of_raised ht (if_neg (by simpa [fed] using heof)) (.flushed hcorrupt)

/-- **One step.** A reader follows the decoding, and explains itself when it ends. -/
theorem Follows.step (h : r.Follows dec loads bounds operation chunks text)
    (hD : D.Decodes dec) (hstep : r.step loads bounds operation = some (block, r')) :
    r'.Follows dec loads bounds operation chunks (text ++ block) := by
  have hactive : r.outcome? = none := by
    cases hout : r.outcome? with
    | none => rfl
    | some o =>
        rw [step_of_outcome hout] at hstep
        cases hstep
  obtain ⟨read, consumed, hchunks, hcompressed, hdecompressed, hread, hreached⟩ := h.active hactive
  have hbody := flatten_append_stream hchunks
  have ht := h.tracks.step hstep
  cases step_cases hstep with
  | @oversized chunk rest hpoint hstream hover =>
      refine follows_of_raised ht rfl (.overrun ⟨read ++ [chunk], ?_, .inl ?_⟩)
      · rw [hchunks, hstream]
        exact ⟨_, by rw [List.append_assoc, List.singleton_append]⟩
      · rw [List.flatten_append, List.length_append, List.flatten_singleton, ← hcompressed]
        exact hover
  | @received chunk rest hpoint hstream hle =>
      rw [hpoint] at hread
      rw [List.append_nil] at ht ⊢
      refine follows_of_active ht rfl (read ++ [chunk]) consumed ?_ ?_ hdecompressed ?_ hreached
        (by simp)
      · rw [hchunks, hstream, List.append_assoc, List.singleton_append]
      · rw [List.flatten_append, List.length_append, List.flatten_singleton, ← hcompressed]
      · rw [List.flatten_append, List.flatten_singleton, hread]
        exact congrArg (· ++ chunk) (List.append_nil consumed)
  | corruptFlush hpoint hstream hcall =>
      have hcorrupt := hD.flush_none hreached hcall
      rw [h.tail hpoint] at hcorrupt
      rw [hpoint] at hread
      refine follows_of_raised ht rfl (.notGzip ?_)
      rw [hbody, hread]
      exact dec.corrupt_append hcorrupt _
  | corrupt hpoint hcall =>
      have hcorrupt := hD.decompress_none hreached hcall
      rw [hpoint] at hread
      refine follows_of_raised ht rfl (.notGzip ?_)
      rw [hbody, hread]
      exact dec.corrupt_append hcorrupt _
  | refused hp hx => exact follows_of_raised ht rfl (.overrun (h.overrun hD hactive hp hx))
  | tooDeep hp hx hfeed =>
      obtain ⟨read, hread, -, -, hout⟩ := h.produces hD hactive hp
      have hassembled := h.tracks.assembled fun he => by simp [outcome?, he] at hactive
      rcases LineAssembler.feed_spec hassembled block with
        ⟨a, hok, -⟩ | ⟨⟨line, hline, hdeep⟩, -⟩
      · cases hfeed.symm.trans hok
      · exact follows_of_raised ht rfl (.tooDeep (mem_complete_of_read hread hout hline) hdeep)
  | flushed hpoint hstream hcall _ hfeed => exact h.flushed hD hpoint hstream hcall hfeed ht
  | @decompressed pending _ o _ hpoint hcall hx _ =>
      obtain ⟨c, rfl, hreached'⟩ := hD.reached_call hreached hcall
      rw [hpoint] at hread
      have hlength : r.decompressedBytes + block.length = (text ++ block).length := by
        rw [List.length_append, ← hdecompressed]
      have hsplit : read.flatten = (consumed ++ c) ++ D.unconsumedTail o := by
        rw [hread, List.append_assoc]
        rfl
      rcases afterCall_cases (r.fed loads block o) with ⟨hafter, htail⟩ | ⟨hafter, -⟩
      · refine follows_of_active ht ?_ read (consumed ++ c) hchunks hcompressed hlength ?_ hreached'
          fun _ => htail
        · simp [outcome?, hafter]
        · have hnil : D.unconsumedTail o = [] := htail
          rw [hsplit, hnil, hafter]
          rfl
      · refine follows_of_active ht ?_ read (consumed ++ c) hchunks hcompressed hlength ?_
          hreached' ?_
        · simp [outcome?, hafter]
        · rw [hsplit, hafter]
          rfl
        · simp [hafter]

/-- A reader has followed the decoding after any run. -/
theorem Follows.of_run (hD : D.Decodes dec) {handed : List Bytes}
    (hrun : Run (Steps loads bounds operation) (start D chunks) handed r) :
    r.Follows dec loads bounds operation chunks handed.flatten := by
  refine hrun.invariant_trace
    (I := fun gs r => Follows dec loads bounds operation chunks gs.flatten r)
    (fun gs a e b ha hab => ?_) (start_follows hD chunks)
  rw [List.flatten_append, List.flatten_singleton]
  exact ha.step hD hab

/-! ## Every reader ends -/

/-- What a point has still to do with its chunk. -/
def weight : ReaderPoint → ℕ
  | .decompressing pending => pending.length + 1
  | .receiving | .returned _ | .raised _ => 0

/-- What is left of the body, and of the output that the ceiling allows. -/
def rank (bounds : SecureBounds) (r : Reader D) : ℕ :=
  r.stream.flatten.length + 2 * r.stream.length + weight r.point +
    (bounds.maxDecompressedBytes + 1 - r.decompressedBytes)

/-- A step that does not end the function lowers the rank: output is bounded, and a call that gives
none consumes some of its input. -/
theorem Follows.rank_lt (h : r.Follows dec loads bounds operation chunks text) (hD : D.Decodes dec)
    (hstep : r.step loads bounds operation = some (block, r')) :
    r'.outcome?.isSome ∨ rank bounds r' < rank bounds r := by
  cases step_cases hstep with
  | oversized | corruptFlush | corrupt | refused | tooDeep => exact .inl rfl
  | received hpoint hstream _ =>
      right
      simp only [rank, hpoint, hstream, weight, List.flatten_cons, List.length_append,
        List.length_cons]
      omega
  | @flushed _ o =>
      left
      rcases conclude_cases loads (r.fed loads block o) with
        ⟨-, _, -, hend⟩ | ⟨-, -, hend⟩ | ⟨-, hend⟩ <;> simp [outcome?, hend]
  | @decompressed pending _ o _ hpoint hcall hx _ =>
      right
      obtain ⟨_, consumed, -, -, -, -, hreached⟩ := h.active (by simp [outcome?, hpoint])
      have hmax : r.decompressedBytes + block.length ≤ bounds.maxDecompressedBytes :=
        Nat.le_of_not_gt fun hgt => hx (.inl hgt)
      have htail := (hD.tail_suffix hcall).length_le
      have hweight : weight (r.fed loads block o).afterCall ≤ (D.unconsumedTail o).length + 1 ∧
          (D.unconsumedTail o = [] → weight (r.fed loads block o).afterCall = 0) := by
        rcases afterCall_cases (r.fed loads block o) with ⟨hafter, -⟩ | ⟨hafter, hne⟩
        · rw [hafter]
          exact ⟨Nat.zero_le _, fun _ => rfl⟩
        · rw [hafter]
          exact ⟨le_rfl, fun hnil => absurd hnil hne⟩
      have hrank : weight (r.fed loads block o).afterCall +
          (bounds.maxDecompressedBytes + 1 - (r.decompressedBytes + block.length)) <
          pending.length + 1 + (bounds.maxDecompressedBytes + 1 - r.decompressedBytes) := by
        rcases eq_or_ne pending [] with rfl | hne
        · have hnil : D.unconsumedTail o = [] := List.suffix_nil.mp (hD.tail_suffix hcall)
          have := hweight.2 hnil
          omega
        · rcases hD.progress hreached (by decide) hne hcall with hblock | hlt
          · have := List.length_pos_iff.mpr hblock
            omega
          · omega
      simp only [rank, hpoint, weight, fed] at hrank ⊢
      omega

end Reader

variable {D : Decompressor UInt8} {dec : Decoding UInt8} {loads : Loads} {bounds : SecureBounds}
  {operation : RefusedOperation} {chunks : List Bytes}

/-- **Termination.** Every body has an outcome, however it is cut. -/
theorem exists_reads (hD : D.Decodes dec) (loads : Loads) (bounds : SecureBounds)
    (operation : RefusedOperation) (chunks : List Bytes) :
    ∃ outcome, Reads D loads bounds operation chunks outcome := by
  have hstep : ∀ r : Reader D, (∃ text, r.Follows dec loads bounds operation chunks text) →
      ¬ r.outcome?.isSome → ∃ block r', Reader.Steps loads bounds operation r block r' ∧
        (∃ text, r'.Follows dec loads bounds operation chunks text) ∧
        (r'.outcome?.isSome ∨ Reader.rank bounds r' < Reader.rank bounds r) := by
    rintro r ⟨text, hr⟩ hopen
    obtain ⟨block, r', hstep⟩ := Reader.exists_step (r := r) (by simpa using hopen)
    exact ⟨block, r', hstep, ⟨_, hr.step hD hstep⟩, hr.rank_lt hD hstep⟩
  obtain ⟨handed, r, hrun, -, hdone⟩ := exists_run_of_measure _ _ _ (Reader.rank bounds) hstep
    ⟨[], Reader.start_follows hD chunks⟩
  obtain ⟨outcome, hout⟩ := Option.isSome_iff_exists.mp hdone
  exact ⟨outcome, handed, r, hrun, hout⟩

/-- A result is the whole output of a body that has ended, and no line of it is too deep. -/
theorem reads_ok (hD : D.Decodes dec) {result : BundleResult}
    (h : Reads D loads bounds operation chunks (.ok result)) :
    (∃ unused, dec.status chunks.flatten = .ended unused) ∧
      result = ⟨chunks.flatten.length, (dec.output chunks.flatten).length,
        recordsOf loads (dec.output chunks.flatten)⟩ ∧
      ∀ line ∈ (dec.output chunks.flatten).splitOn newline, ¬ TooDeep loads line := by
  obtain ⟨handed, r, hrun, hout⟩ := h
  have hpoint := Reader.outcome?_eq_ok.mp hout
  have hfollows := Reader.Follows.of_run hD hrun
  obtain ⟨hended, htext, hcompressed⟩ := hfollows.returned result hpoint
  obtain ⟨-, -, rfl, hshallow⟩ := hfollows.tracks.returned result hpoint
  rw [htext] at hshallow
  exact ⟨⟨_, hended⟩, by rw [hcompressed, hfollows.tracks.counted, htext], hshallow⟩

/-- An error explains itself. -/
theorem reads_error (hD : D.Decodes dec) {e : BundleError}
    (h : Reads D loads bounds operation chunks (.error e)) :
    Explains dec loads bounds operation chunks e := by
  obtain ⟨handed, r, hrun, hout⟩ := h
  exact (Reader.Follows.of_run hD hrun).raised e (Reader.outcome?_eq_error.mp hout)

end Limitless
