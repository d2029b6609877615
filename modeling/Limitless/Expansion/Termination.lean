import Limitless.Expansion.Chunking
import Mathlib.Data.Prod.Lex
import Mathlib.Order.WithBot

/-!
# The decompression loop ends

Nothing bounds how much an input may expand to, and a call that gives output need not consume any
of its input. What ends the inner loop of `read_bounded_bundle` is that output is counted against
`max_decompressed_bytes`: a call lowers what is left of that, or it leaves less of its input, or it
ends the function. `loopRank` orders the three, and `step_descends` is the step.

Of the decompressor only `Decompressor.Progresses` is used: not that it decodes anything, nor that a
stream ever ends.

How the function ends is another matter. `Unpacks` is the decompression alone, within the bounds,
and `Readable` says that none of its lines is too deep. A reader follows it until it meets such a
line (`unpacks_of_run`, `run_of_unpacks`), and so `Readable` is exactly when the end is a result, a
refusal or a `ValueError`, and not a `RecursionError`.
-/

namespace Limitless

open Inflate Runs

namespace Reader

variable {D : Decompressor UInt8} {loads : Loads} {bounds : SecureBounds}
  {operation : RefusedOperation} {r r' : Reader D} {block : Bytes}

/-- The function has ended with a result, a refusal or a `ValueError`. -/
def Ended (operation : RefusedOperation) (r : Reader D) : Prop :=
  (∃ result, r.point = .returned result) ∨ r.point = .raised (.refuse operation) ∨
    ∃ message, r.point = .raised (.valueError message)

/-- What a call has to consume. An empty chunk is given to the decompressor once, and nothing is
asked of that call. -/
def toConsume : ReaderPoint → WithTop ℕ
  | .decompressing [] => ⊤
  | .decompressing (b :: pending) => ((b :: pending).length : ℕ)
  | .receiving | .returned _ | .raised _ => 0

/-- The chunks to read, then the output that the ceiling still allows, then the input of the next
call. -/
def loopRank (bounds : SecureBounds) (r : Reader D) : ℕ ×ₗ ℕ ×ₗ WithTop ℕ :=
  toLex (r.stream.length,
    toLex (bounds.maxDecompressedBytes + 1 - r.decompressedBytes, toConsume r.point))

/-- A loop that goes on has some of its input left. -/
theorem toConsume_afterCall {n : ℕ} (h : (D.unconsumedTail r.decompressor).length < n) :
    toConsume r.afterCall < n := by
  have hn : ((0 : ℕ) : WithTop ℕ) < n := WithTop.coe_lt_coe.mpr (Nat.zero_lt_of_lt h)
  rcases afterCall_cases r with ⟨hafter, -⟩ | ⟨hafter, hne⟩
  · rw [hafter]
    exact hn
  · rw [hafter]
    cases htail : D.unconsumedTail r.decompressor with
    | nil => exact absurd htail hne
    | cons b tail =>
        rw [htail] at h
        exact WithTop.coe_lt_coe.mpr h

/-- An empty chunk is gone after one call. -/
theorem toConsume_afterCall_lt_top (r : Reader D) : toConsume r.afterCall < ⊤ := by
  obtain ⟨n, hn⟩ := exists_gt (D.unconsumedTail r.decompressor).length
  exact (toConsume_afterCall hn).trans (WithTop.coe_lt_top n)

/-- **One step.** It ends the function or descends. -/
theorem step_descends (hD : D.Progresses)
    (hstep : r.step loads bounds operation = some (block, r')) :
    r'.outcome?.isSome ∨ loopRank bounds r' < loopRank bounds r := by
  cases step_cases hstep with
  | oversized | refused | corruptFlush | corrupt | tooDeep => exact .inl rfl
  | received hpoint hstream _ =>
      right
      rw [loopRank, loopRank, Prod.Lex.toLex_lt_toLex, hstream]
      exact .inl (Nat.lt_succ_self _)
  | @flushed _ o =>
      left
      rcases conclude_cases loads (r.fed loads block o) with
        ⟨-, _, -, hend⟩ | ⟨-, -, hend⟩ | ⟨-, hend⟩ <;> simp [outcome?, hend]
  | @decompressed pending _ o _ hpoint hcall hx _ =>
      right
      have hmax : r.decompressedBytes + block.length ≤ bounds.maxDecompressedBytes :=
        Nat.le_of_not_gt fun hgt => hx (.inl hgt)
      rw [loopRank, loopRank, Prod.Lex.toLex_lt_toLex, Prod.Lex.toLex_lt_toLex, hpoint]
      refine .inr ⟨rfl, ?_⟩
      simp only [fed]
      -- output lowers what the ceiling allows; without any, the input gets shorter
      rcases eq_or_ne block [] with rfl | hblock
      · refine .inr ⟨rfl, ?_⟩
        cases pending with
        | nil => exact toConsume_afterCall_lt_top (r.fed loads [] o)
        | cons b pending =>
            have hprogress := hD _ _ _ _ _ (List.cons_ne_nil b pending) (by decide) hcall
            have hshorter := hprogress.resolve_left fun h => h rfl
            exact toConsume_afterCall (r := r.fed loads [] o) hshorter
      · have := List.length_pos_iff.mpr hblock
        exact .inl (by omega)

/-- A call reads no chunk. -/
theorem stream_of_decompressing {pending : Bytes} (hpoint : r.point = .decompressing pending)
    (hstep : r.step loads bounds operation = some (block, r')) :
    r'.stream = r.stream ∧
      ((∃ rest, r'.point = .decompressing rest) ∨ r'.point = .receiving ∨ r'.outcome?.isSome) := by
  cases step_cases hstep with
  | oversized h | received h | corruptFlush h | flushed h => rw [h] at hpoint; cases hpoint
  | corrupt | refused | tooDeep => exact ⟨rfl, .inr (.inr rfl)⟩
  | @decompressed _ _ o =>
      refine ⟨rfl, ?_⟩
      rcases afterCall_cases (r.fed loads block o) with ⟨hafter, -⟩ | ⟨hafter, -⟩
      exacts [.inr (.inl hafter), .inl ⟨_, hafter⟩]

/-- **The inner loop ends.** -/
theorem inner_loop_ends (hD : D.Progresses) (loads : Loads) (bounds : SecureBounds)
    (operation : RefusedOperation) {pending : Bytes} (hpoint : r.point = .decompressing pending) :
    ∃ blocks r', Run (Steps loads bounds operation) r blocks r' ∧ r'.stream = r.stream ∧
      (r'.point = .receiving ∨ r'.outcome?.isSome) := by
  have hstep : ∀ a : Reader D, (a.stream = r.stream ∧
        ((∃ rest, a.point = .decompressing rest) ∨ a.point = .receiving ∨ a.outcome?.isSome)) →
      ¬ (a.point = .receiving ∨ a.outcome?.isSome) →
      ∃ block b, Steps loads bounds operation a block b ∧
        (b.stream = r.stream ∧
          ((∃ rest, b.point = .decompressing rest) ∨ b.point = .receiving ∨ b.outcome?.isSome)) ∧
        ((b.point = .receiving ∨ b.outcome?.isSome) ∨ loopRank bounds b < loopRank bounds a) := by
    rintro a ⟨hstream, hloop⟩ hopen
    obtain ⟨rest, hrest⟩ := hloop.resolve_right hopen
    have hrunning : a.outcome? = none := by simp [outcome?, hrest]
    obtain ⟨block, b, hab⟩ : ∃ block b, a.step loads bounds operation = some (block, b) :=
      exists_step hrunning
    obtain ⟨hsame, hnext⟩ := stream_of_decompressing hrest hab
    exact ⟨block, b, hab, ⟨hsame.trans hstream, hnext⟩, (step_descends hD hab).imp_left .inr⟩
  obtain ⟨blocks, r', hrun, ⟨hstream, -⟩, hdone⟩ := exists_run_of_wf
    (InvImage.wf (loopRank bounds) wellFounded_lt) (Steps loads bounds operation) _ _ hstep
    ⟨rfl, .inl ⟨pending, hpoint⟩⟩
  exact ⟨blocks, r', hrun, hstream, hdone⟩

/-- **The function ends.** -/
theorem exists_outcome (hD : D.Progresses) (loads : Loads) (bounds : SecureBounds)
    (operation : RefusedOperation) (chunks : List Bytes) :
    ∃ outcome, Reads D loads bounds operation chunks outcome := by
  have hstep : ∀ a : Reader D, True → ¬ a.outcome?.isSome →
      ∃ block b, Steps loads bounds operation a block b ∧ True ∧
        (b.outcome?.isSome ∨ loopRank bounds b < loopRank bounds a) := by
    intro a _ hopen
    obtain ⟨block, b, hab⟩ := exists_step (by simpa using hopen)
    exact ⟨block, b, hab, trivial, step_descends hD hab⟩
  obtain ⟨handed, r, hrun, -, hdone⟩ := exists_run_of_wf
    (InvImage.wf (loopRank bounds) wellFounded_lt) (Steps loads bounds operation) _ _ hstep
    (s := start D chunks) trivial
  obtain ⟨outcome, hout⟩ := Option.isSome_iff_exists.mp hdone
  exact ⟨outcome, handed, r, hrun, hout⟩

/-- There is one more way to end than the three. -/
theorem step_ended (hstep : r.step loads bounds operation = some (block, r')) :
    r'.outcome? = none ∨ r'.Ended operation ∨ r'.point = .raised .recursionError := by
  cases step_cases hstep with
  | oversized | refused => exact .inr (.inl (.inr (.inl rfl)))
  | corruptFlush | corrupt => exact .inr (.inl (.inr (.inr ⟨_, rfl⟩)))
  | tooDeep => exact .inr (.inr rfl)
  | received => exact .inl rfl
  | @flushed _ o =>
      right
      rcases conclude_cases loads (r.fed loads block o) with
        ⟨-, _, -, hend⟩ | ⟨-, -, hend⟩ | ⟨-, hend⟩
      exacts [.inl (.inl ⟨_, hend⟩), .inr hend, .inl (.inr (.inr ⟨_, hend⟩))]
  | @decompressed _ _ o =>
      left
      rcases afterCall_cases (r.fed loads block o) with ⟨hafter, -⟩ | ⟨hafter, -⟩ <;>
        simp [outcome?, hafter]

end Reader

/-! ## The decompression alone -/

/-- What a call leaves to give to the next. -/
def remaining (D : Decompressor UInt8) (o : D.State) : Option Bytes :=
  if D.unconsumedTail o = [] then none else some (D.unconsumedTail o)

/-- Decompressing the chunks `read`, within the bounds, comes to the object `o` with `text` given so
far, and with `pending` of the last chunk still to give it. Nothing is said of lines. -/
inductive Unpacks (D : Decompressor UInt8) (bounds : SecureBounds) :
    List Bytes → Option Bytes → D.State → Bytes → Prop
  | start : Unpacks D bounds [] none D.start []
  | chunk {read : List Bytes} {o : D.State} {text : Bytes} (chunk : Bytes) :
      Unpacks D bounds read none o text →
      read.flatten.length + chunk.length ≤ bounds.maxImportBodyBytes →
      Unpacks D bounds (read ++ [chunk]) (some chunk) o text
  | call {read : List Bytes} {pending text block : Bytes} {o o' : D.State} :
      Unpacks D bounds read (some pending) o text →
      D.decompress o pending outputChunkBytes = some (block, o') →
      ¬ bounds.Exceeded read.flatten.length (text.length + block.length) →
      Unpacks D bounds read (remaining D o') o' (text ++ block)

/-- No line that the body decompresses to within the bounds is nested too deeply for `json.loads`;
what follows the last newline is a line where the stream has ended. -/
structure Readable (D : Decompressor UInt8) (loads : Loads) (bounds : SecureBounds)
    (chunks : List Bytes) : Prop where
  called : ∀ read pending o text, read <+: chunks → Unpacks D bounds read pending o text →
    ∀ line ∈ Lines.complete newline text, ¬ TooDeep loads line
  flushed : ∀ o text block o', Unpacks D bounds chunks none o text →
    D.flush o = some (block, o') →
    ¬ bounds.Exceeded chunks.flatten.length (text.length + block.length) →
    (∀ line ∈ Lines.complete newline (text ++ block), ¬ TooDeep loads line) ∧
      (D.eof o' = true → ∀ line ∈ (text ++ block).splitOn newline, ¬ TooDeep loads line)

namespace Reader

variable {D : Decompressor UInt8} {loads : Loads} {bounds : SecureBounds}
  {operation : RefusedOperation} {chunks read : List Bytes} {text block : Bytes}
  {pending : Option Bytes} {o : D.State} {r r' : Reader D}

/-- A reader stands where the decompression does. -/
structure At (read : List Bytes) (pending : Option Bytes) (o : D.State) (text : Bytes)
    (chunks : List Bytes) (r : Reader D) : Prop where
  decompressor : r.decompressor = o
  point : r.point = pending.elim .receiving .decompressing
  stream : chunks = read ++ r.stream
  compressed : r.compressedBytes = read.flatten.length
  decompressed : r.decompressedBytes = text.length

/-- After a call, a reader stands at what the call leaves. -/
theorem afterCall_eq (r : Reader D) :
    r.afterCall = (remaining D r.decompressor).elim .receiving .decompressing := by
  unfold afterCall remaining
  split <;> rfl

/-- One step of a reader that goes on is one of the decompression. -/
theorem At.step (h : r.At read pending o text chunks) (hu : Unpacks D bounds read pending o text)
    (hstep : r.step loads bounds operation = some (block, r')) (hopen : r'.outcome? = none) :
    ∃ read' pending' o', r'.At read' pending' o' (text ++ block) chunks ∧
      Unpacks D bounds read' pending' o' (text ++ block) := by
  obtain ⟨rfl, hat, hstream, hcompressed, hdecompressed⟩ := h
  cases step_cases hstep with
  | oversized | refused | corruptFlush | corrupt | tooDeep => cases hopen
  | @received chunk rest hpoint hnext hle =>
      cases pending with
      | some pending => rw [hat] at hpoint; cases hpoint
      | none =>
          rw [hcompressed] at hle
          rw [List.append_nil]
          refine ⟨_, _, _, ⟨rfl, rfl, ?_, ?_, hdecompressed⟩, hu.chunk chunk hle⟩
          · rw [hstream, hnext, List.append_assoc, List.singleton_append]
          · rw [List.flatten_append, List.length_append, List.flatten_singleton, ← hcompressed]
  | @flushed _ o' =>
      rcases conclude_cases loads (r.fed loads block o') with
        ⟨-, _, -, hend⟩ | ⟨-, -, hend⟩ | ⟨-, hend⟩ <;> simp [outcome?, hend] at hopen
  | @decompressed rest _ o' _ hpoint hcall hx _ =>
      cases pending with
      | none => rw [hat] at hpoint; cases hpoint
      | some pending =>
          cases hat.symm.trans hpoint
          rw [hcompressed, hdecompressed] at hx
          refine ⟨_, _, _, ⟨rfl, afterCall_eq _, hstream, hcompressed, ?_⟩, hu.call hcall hx⟩
          rw [List.length_append, ← hdecompressed]
          rfl

/-- A reader that has not ended has only decompressed, so far. -/
theorem unpacks_of_run {handed : List Bytes}
    (hrun : Run (Steps loads bounds operation) (start D chunks) handed r)
    (hopen : r.outcome? = none) :
    ∃ read pending o, r.At read pending o handed.flatten chunks ∧
      Unpacks D bounds read pending o handed.flatten := by
  refine hrun.invariant_trace (I := fun gs r => r.outcome? = none →
    ∃ read pending o, r.At read pending o gs.flatten chunks ∧
      Unpacks D bounds read pending o gs.flatten) (fun gs a e b ha hab hb => ?_) (fun _ => ?_) hopen
  · have hrunning : a.outcome? = none := by
      cases hout : a.outcome? with
      | none => rfl
      | some outcome =>
          rw [Steps, step_of_outcome hout] at hab
          cases hab
    obtain ⟨read, pending, o, hat, hu⟩ := ha hrunning
    rw [List.flatten_append, List.flatten_singleton]
    exact hat.step hu hab hb
  · exact ⟨[], none, D.start, ⟨rfl, rfl, rfl, rfl, rfl⟩, .start⟩

/-- A `RecursionError` at the end of a run. -/
theorem reads_recursionError {handed : List Bytes}
    (hrun : Run (Steps loads bounds operation) (start D chunks) handed r)
    (hstep : r.step loads bounds operation = some (block, r'))
    (hpoint : r'.point = .raised .recursionError) :
    Reads D loads bounds operation chunks (.error .recursionError) :=
  ⟨_, r', hrun.snoc hstep, outcome?_eq_error.mpr hpoint⟩

/-- A reader gets as far as the decompression does, or it meets a line that is too deep. -/
theorem run_of_unpacks (hu : Unpacks D bounds read pending o text) (hread : read <+: chunks) :
    (∃ handed r, Run (Steps loads bounds operation) (start D chunks) handed r ∧
        handed.flatten = text ∧ r.At read pending o text chunks) ∨
      Reads D loads bounds operation chunks (.error .recursionError) := by
  induction hu with
  | start => exact .inl ⟨[], _, .nil, rfl, rfl, rfl, rfl, rfl, rfl⟩
  | @chunk read o text chunk hu hle ih =>
      rcases ih ((List.prefix_append read [chunk]).trans hread) with
        ⟨handed, r, hrun, rfl, rfl, hpoint, hstream, hcompressed, hdecompressed⟩ | hreads
      · obtain ⟨rest, hrest⟩ := hread
        rw [List.append_assoc, List.singleton_append, hstream] at hrest
        have hnext : r.stream = chunk :: rest := (List.append_cancel_left hrest).symm
        have hstep : r.step loads bounds operation = some ([], { r with
            compressedBytes := r.compressedBytes + chunk.length
            stream := rest
            point := .decompressing chunk }) := by
          simp only [step, show r.point = .receiving from hpoint, hnext]
          exact if_neg (by omega)
        refine .inl ⟨_, _, hrun.snoc hstep, by simp, rfl, rfl, ?_, ?_, hdecompressed⟩
        · rw [hstream, hnext, List.append_assoc, List.singleton_append]
        · rw [List.flatten_append, List.length_append, List.flatten_singleton, ← hcompressed]
      · exact .inr hreads
  | @call read pending text block o o' hu hcall hx ih =>
      rcases ih hread with
        ⟨handed, r, hrun, rfl, rfl, hpoint, hstream, hcompressed, hdecompressed⟩ | hreads
      · rw [← hcompressed, ← hdecompressed] at hx
        cases hfeed : r.assembler.feed loads block with
        | error a =>
            exact .inr (reads_recursionError hrun (step_tooDeep (.decompress hpoint hcall) hx hfeed)
              rfl)
        | ok a =>
            refine .inl ⟨_, _, hrun.snoc (step_decompressed hpoint hcall hx hfeed), by simp, rfl,
              afterCall_eq _, hstream, hcompressed, ?_⟩
            rw [List.length_append, ← hdecompressed]
            rfl
      · exact .inr hreads

/-- A body that ends otherwise than with a `RecursionError` has no line that is too deep. -/
theorem readable_of_reads {outcome : Except BundleError BundleResult}
    (h : Reads D loads bounds operation chunks outcome) (hne : outcome ≠ .error .recursionError) :
    Readable D loads bounds chunks := by
  have hnot : ¬ Reads D loads bounds operation chunks (.error .recursionError) :=
    fun hdeep => hne (h.unique hdeep)
  have hrunning : ∀ {pending : Option Bytes} {r : Reader D},
      r.point = pending.elim .receiving .decompressing → r.point ≠ .raised .recursionError := by
    intro pending r hpoint
    rw [hpoint]
    cases pending <;> simp
  constructor
  · intro read pending o text hread hu
    obtain ⟨handed, r, hrun, rfl, hat⟩ := (run_of_unpacks hu hread).resolve_right hnot
    exact ((Tracks.of_run hrun).assembled (hrunning hat.point)).shallow
  · intro o text block o' hu hcall hx
    obtain ⟨handed, r, hrun, rfl, hat⟩ :=
      (run_of_unpacks hu List.prefix_rfl).resolve_right hnot
    obtain ⟨rfl, hpoint, hstream, hcompressed, hdecompressed⟩ := hat
    have hnil : r.stream = [] := List.append_right_eq_self.mp hstream.symm
    rw [← hcompressed, ← hdecompressed] at hx
    have htracks := Tracks.of_run hrun
    cases hfeed : r.assembler.feed loads block with
    | error a =>
        exact absurd (reads_recursionError hrun
          (step_tooDeep (.flush hpoint hnil hcall) hx hfeed) rfl) hnot
    | ok a =>
        have hstep : r.step loads bounds operation = _ := step_flushed hpoint hnil hcall hx hfeed
        have hfed := htracks.fed_assembled (o := o')
          (by simp [show r.point = .receiving from hpoint]) hfeed
        refine ⟨hfed.shallow, fun heof => ?_⟩
        rcases LineAssembler.finish_spec hfed with ⟨hshallow, -⟩ | ⟨-, a', hfinish⟩
        · exact hshallow
        · refine absurd (reads_recursionError hrun hstep ?_) hnot
          rcases conclude_cases loads (r.fed loads block o') with
            ⟨-, ⟨a'', hok, -⟩⟩ | ⟨-, -, hend⟩ | ⟨hopen, -⟩
          · cases hok.symm.trans hfinish
          · exact hend
          · cases heof.symm.trans hopen

/-- One step of a reader of a body without such a line. -/
theorem step_readable (h : Readable D loads bounds chunks) {handed : List Bytes}
    (hrun : Run (Steps loads bounds operation) (start D chunks) handed r)
    (hstep : r.step loads bounds operation = some (block, r')) :
    r'.point ≠ .raised .recursionError := by
  intro hraised
  have hopen : r.outcome? = none := by
    cases hout : r.outcome? with
    | none => rfl
    | some outcome => cases (step_of_outcome hout).symm.trans hstep
  obtain ⟨read, pending, o, ⟨rfl, hpoint, hstream, hcompressed, hdecompressed⟩, hu⟩ :=
    unpacks_of_run hrun hopen
  have htracks := Tracks.of_run hrun
  have hassembled := htracks.assembled fun he => by simp [outcome?, he] at hopen
  cases step_cases hstep with
  | oversized | refused | corruptFlush | corrupt | received => cases hraised
  | @tooDeep _ o' _ hp hx hfeed =>
      rcases LineAssembler.feed_spec hassembled block with ⟨a, hok, -⟩ | ⟨⟨line, hline, hdeep⟩, -⟩
      · cases hfeed.symm.trans hok
      rw [hcompressed, hdecompressed] at hx
      cases hp with
      | decompress hat hcall =>
          cases pending with
          | none => cases hpoint.symm.trans hat
          | some pending =>
              cases hpoint.symm.trans hat
              exact h.called _ _ _ _ ⟨_, hstream.symm⟩ (hu.call hcall hx) line hline hdeep
      | flush hat hnil hcall =>
          cases pending with
          | some pending => cases hpoint.symm.trans hat
          | none =>
              rw [hnil, List.append_nil] at hstream
              subst hstream
              exact (h.flushed _ _ _ _ hu hcall hx).1 line hline hdeep
  | @flushed _ o' _ hat hnil hcall hx hfeed =>
      rcases conclude_cases loads (r.fed loads block o') with
        ⟨-, _, -, hend⟩ | ⟨heof, ⟨a, hfinish⟩, -⟩ | ⟨-, hend⟩
      · cases hend.symm.trans hraised
      · have hfed := htracks.fed_assembled (o := o') (by simp [hat]) hfeed
        rcases LineAssembler.finish_spec hfed with ⟨-, hok⟩ | ⟨hdeep, -⟩
        · cases hfinish.symm.trans hok
        cases pending with
        | some pending => cases hpoint.symm.trans hat
        | none =>
            rw [hnil, List.append_nil] at hstream
            subst hstream
            rw [hcompressed, hdecompressed] at hx
            exact (h.flushed _ _ _ _ hu hcall hx).2 heof _ (List.getLast_mem _) hdeep
      · cases hend.symm.trans hraised
  | @decompressed _ _ o' =>
      rcases afterCall_cases (r.fed loads block o') with ⟨hafter, -⟩ | ⟨hafter, -⟩ <;>
        cases hafter.symm.trans hraised

/-- A reader of a body without such a line goes on, or ends in one of the three ways. -/
theorem ended_of_readable (h : Readable D loads bounds chunks) {handed : List Bytes}
    (hrun : Run (Steps loads bounds operation) (start D chunks) handed r) :
    r.outcome? = none ∨ r.Ended operation := by
  rcases hrun.eq_or_snoc with ⟨-, rfl⟩ | ⟨gs, e, a, rfl, hbefore, hlast⟩
  · exact .inl rfl
  · rcases step_ended hlast with hopen | hended | hraised
    · exact .inl hopen
    · exact .inr hended
    · exact absurd hraised (step_readable h hbefore hlast)

end Reader

variable {D : Decompressor UInt8} {loads : Loads} {bounds : SecureBounds}

/-- **Termination, and how.** For every decompressor that makes progress, every chunk sequence and
every ceiling, the inner loop ends for each chunk it is entered for, and the function ends. It is
with a result, a refusal or a `ValueError` exactly when no line that the body decompresses to is too
deep. -/
theorem decompression_terminates_iff (hD : D.Progresses) (loads : Loads) (bounds : SecureBounds)
    (operation : RefusedOperation) (chunks : List Bytes) :
    ((∀ handed r pending,
      Run (Reader.Steps loads bounds operation) (Reader.start D chunks) handed r →
      r.point = .decompressing pending →
        ∃ blocks r', Run (Reader.Steps loads bounds operation) r blocks r' ∧ r'.stream = r.stream ∧
          (r'.point = .receiving ∨ r'.Ended operation)) ∧
    ∃ outcome, Reads D loads bounds operation chunks outcome ∧
      ((∃ result, outcome = .ok result) ∨ outcome = .error (.refuse operation) ∨
        ∃ message, outcome = .error (.valueError message))) ↔
    Readable D loads bounds chunks := by
  constructor
  · rintro ⟨-, outcome, hreads, hkind⟩
    refine Reader.readable_of_reads hreads ?_
    rintro rfl
    rcases hkind with ⟨_, hkind⟩ | hkind | ⟨_, hkind⟩ <;> cases hkind
  · intro h
    refine ⟨fun handed r pending hrun hpoint => ?_, ?_⟩
    · obtain ⟨blocks, r', hloop, hstream, hend⟩ :=
        Reader.inner_loop_ends hD loads bounds operation hpoint
      refine ⟨blocks, r', hloop, hstream, hend.imp_right fun hsome => ?_⟩
      refine (Reader.ended_of_readable h (hrun.append hloop)).resolve_left fun hopen => ?_
      simp [hopen] at hsome
    · obtain ⟨outcome, handed, r, hrun, hout⟩ :=
        Reader.exists_outcome hD loads bounds operation chunks
      refine ⟨outcome, ⟨handed, r, hrun, hout⟩, ?_⟩
      rcases (Reader.ended_of_readable h hrun).resolve_left (by simp [hout]) with
        ⟨result, hpoint⟩ | hpoint | ⟨message, hpoint⟩
      · cases hout.symm.trans (Reader.outcome?_eq_ok.mpr hpoint)
        exact .inl ⟨result, rfl⟩
      · cases hout.symm.trans (Reader.outcome?_eq_error.mpr hpoint)
        exact .inr (.inl rfl)
      · cases hout.symm.trans (Reader.outcome?_eq_error.mpr hpoint)
        exact .inr (.inr ⟨message, rfl⟩)

/-- Where `json.loads` raises no `RecursionError`, no line is too deep. -/
theorem readable_of_loads (h : ∀ text, loads text ≠ .recursionError) (chunks : List Bytes) :
    Readable D loads bounds chunks where
  called _ _ _ _ _ _ _ _ hdeep := h _ hdeep.2
  flushed _ _ _ _ _ _ _ := ⟨fun _ _ hdeep => h _ hdeep.2, fun _ _ _ hdeep => h _ hdeep.2⟩

/-- The bundle of one record. -/
theorem decompression_terminates_of_one_record :
    (∃ blocks r', Run (Reader.Steps Reader.oneRecordLoads .shipped .importBundle)
        ((Reader.start (.ofDecoding Reader.oneRecordDecoding) [Reader.oneRecordBundle]).run
          Reader.oneRecordLoads .shipped .importBundle 1).2 blocks r' ∧ r'.stream = [] ∧
        (r'.point = .receiving ∨ r'.Ended .importBundle)) ∧
      ∃ outcome, Reads (.ofDecoding Reader.oneRecordDecoding) Reader.oneRecordLoads .shipped
        .importBundle [Reader.oneRecordBundle] outcome := by
  have hrun := Reader.run_spec Reader.oneRecordLoads .shipped .importBundle 1
    (Reader.start (.ofDecoding Reader.oneRecordDecoding) [Reader.oneRecordBundle])
  have hloads : ∀ text, Reader.oneRecordLoads text ≠ .recursionError := by
    intro text
    unfold Reader.oneRecordLoads
    split <;> simp
  obtain ⟨hloop, outcome, hreads, -⟩ := (decompression_terminates_iff
    (ofDecoding_progresses Reader.oneRecordDecoding) Reader.oneRecordLoads .shipped .importBundle
    [Reader.oneRecordBundle]).mpr (readable_of_loads hloads _)
  exact ⟨hloop _ _ Reader.oneRecordBundle hrun rfl, outcome, hreads⟩

/-! ## A body with a line that is too deep -/

/-- The bundle of sixty thousand brackets and a newline. -/
def nestedBundle : Bytes :=
  [31, 139, 8, 0, 0, 0, 0, 0, 2, 3, 237, 193, 33, 1, 0, 0, 0, 2, 160, 238, 69, 255, 255, 240, 134,
    1, 104, 1] ++ List.replicate 57 0 ++ [190, 100, 205, 140, 149, 231, 97, 234, 0, 0]

/-- Its decoding. -/
def nestedDecoding : Decoding UInt8 :=
  .known nestedBundle (nested 60000 ++ [newline]) [] (by decide)

/-- Its only line raises a `RecursionError`, and the import ends with that. -/
theorem nested_bundle_is_not_read :
    (Decompressor.ofDecoding nestedDecoding).Progresses ∧
    Reads (.ofDecoding nestedDecoding) (nestedLoads 60000) .shipped .importBundle [nestedBundle]
      (.error .recursionError) ∧
    ¬ ∃ outcome, Reads (.ofDecoding nestedDecoding) (nestedLoads 60000) .shipped .importBundle
        [nestedBundle] outcome ∧
      ((∃ result, outcome = .ok result) ∨ outcome = .error (.refuse .importBundle) ∨
        ∃ message, outcome = .error (.valueError message)) := by
  have hlength : nestedBundle.length = 95 := by decide
  have hknown := known_cons_append nestedBundle (nested 60000 ++ [newline]) [] []
  rw [List.append_nil, knownOutput_nil, List.append_nil, knownStatus_nil] at hknown
  have hstatus : nestedDecoding.status nestedBundle = .ended [] := hknown.2
  have hout : nestedDecoding.output nestedBundle = nested 60000 ++ [newline] := hknown.1
  have houtLength : (nestedDecoding.output nestedBundle).length = 60001 := by
    rw [hout, List.length_append, nested, List.length_replicate]
    rfl
  have hreads := reads_whole (ofDecoding_decodes nestedDecoding) (nestedLoads 60000) .shipped
    .importBundle nestedBundle (by simp [hstatus]) (by rw [hlength]; decide)
    (by rw [hlength, houtLength]; decide)
  have hverdict : verdict nestedDecoding (nestedLoads 60000) nestedBundle =
      .error .recursionError := by
    unfold verdict
    simp only [hstatus, hout]
    refine if_pos ⟨nested 60000, ?_, tooDeep_nested 59999⟩
    rw [← Lines.complete_append_rest]
    exact List.mem_append_left _ (mem_complete_nested 60000)
  rw [hverdict] at hreads
  refine ⟨ofDecoding_progresses nestedDecoding, hreads, ?_⟩
  rintro ⟨outcome, hother, hkind⟩
  cases hreads.unique hother
  rcases hkind with ⟨_, hkind⟩ | hkind | ⟨_, hkind⟩ <;> cases hkind

end Limitless
