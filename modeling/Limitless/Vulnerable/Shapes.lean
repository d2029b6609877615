import Limitless.Expansion.Members
import Limitless.Lib.Splitlines

/-!
# The same bundle, counted by the other variant

`vulnerable/shapes.py`'s `decompress_completely` decompresses a whole bundle and counts the pieces
of `bytes.splitlines()` that are not blank. `_LineAssembler` cuts at newlines only, so the two agree
on what a line is except at a carriage return. JSON allows one between its tokens: a record laid out
over a carriage return is one record of the secure variant and two of this one
(`counts_agree_iff`).
-/

namespace Limitless

open Inflate

/-- The carriage return byte. -/
def carriageReturn : UInt8 := 13

/-- `bytes.splitlines()`: the breaks are a newline, a carriage return, and the pair of them. -/
def bytesSplitlines (data : Bytes) : List Bytes :=
  Lines.splitlines (fun b => b == newline || b == carriageReturn) carriageReturn newline data

/-- `DecompressedBundle`. -/
structure DecompressedBundle where
  compressedBytes : ℕ
  decompressedBytes : ℕ
  /-- Counted, not collected. -/
  records : ℕ
  deriving DecidableEq, Repr

/-- `decompress_completely`; `none` is an exception: a `ValueError`, or the `EOFError` of a file
that stops early, which goes through it. -/
def decompressCompletely (dec : Decoding UInt8) (compressed : Bytes) : Option DecompressedBundle :=
  (gzipDecompress dec compressed).map fun raw =>
    ⟨compressed.length, raw.length, (bytesSplitlines raw).countP fun line => strip line ≠ []⟩

/-- Every line of a text that is not blank is a record. -/
def WellFormed (loads : Loads) (text : Bytes) : Prop :=
  ∀ line ∈ text.splitOn newline, strip line ≠ [] → (recordOf loads line).isSome

variable {D : Decompressor UInt8} {dec : Decoding UInt8} {loads : Loads} {bounds : SecureBounds}
  {operation : RefusedOperation} {chunks : List Bytes} {result : BundleResult} {text : Bytes}

/-- A line is blank where it holds no text. -/
theorem strip_ne_nil (line : Bytes) :
    decide (strip line ≠ []) = Lines.hasText isSpace line := by
  have htrim : strip line = [] ↔ Lines.hasText isSpace line = false := Lines.trim_eq_nil
  cases h : Lines.hasText isSpace line <;> simp [htrim, h]

/-- A well-formed text has a record for each line that is not blank. -/
theorem length_recordsOf (h : WellFormed loads text) :
    (recordsOf loads text).length =
      (text.splitOn newline).countP (Lines.hasText isSpace) := by
  rw [recordsOf, List.length_filterMap_eq_countP]
  refine List.countP_congr fun line hline => ?_
  rw [← strip_ne_nil, decide_eq_true_eq]
  constructor
  · intro hrecord hblank
    simp [recordOf, hblank] at hrecord
  · exact h line hline

/-- **The variants count alike**, for a well-formed bundle of one member that the secure reader
accepts, exactly when no line of it has a carriage return inside, white space at its ends aside. -/
theorem counts_agree_iff (hD : D.Decodes dec)
    (hreads : Reads D loads bounds operation chunks (.ok result))
    (hone : dec.status chunks.flatten = .ended [])
    (hwell : WellFormed loads (dec.output chunks.flatten)) :
    (∃ bundle, decompressCompletely dec chunks.flatten = some bundle ∧
      result.records.length = bundle.records) ↔
      ∀ line ∈ (dec.output chunks.flatten).splitOn newline, carriageReturn ∉ strip line := by
  obtain ⟨-, rfl, -⟩ := reads_ok hD hreads
  have hcount : (bytesSplitlines (dec.output chunks.flatten)).countP (Lines.hasText isSpace) =
      ((dec.output chunks.flatten).splitOn newline).countP (Lines.hasText isSpace) ↔
      ∀ line ∈ (dec.output chunks.flatten).splitOn newline, carriageReturn ∉ strip line :=
    Lines.countP_splitlines_eq_iff rfl _
  simp only [decompressCompletely, gzipDecompress_of_one hone, Option.map_some, Option.some.injEq,
    exists_eq_left', length_recordsOf hwell, strip_ne_nil]
  exact eq_comm.trans hcount

theorem counts_agree_iff_of_one_record :
    (∃ bundle, decompressCompletely Reader.oneRecordDecoding [Reader.oneRecordBundle].flatten =
        some bundle ∧ [(⟨.ofString "A"⟩ : ImportedRecord)].length = bundle.records) ↔
      ∀ line ∈ (Reader.oneRecordDecoding.output [Reader.oneRecordBundle].flatten).splitOn newline,
        carriageReturn ∉ strip line := by
  obtain ⟨handed, r, hrun, hout⟩ := reads_one_record
  have hwell : WellFormed Reader.oneRecordLoads
      (Reader.oneRecordDecoding.output Reader.oneRecordBundle) := by
    rw [one_member.2]
    unfold WellFormed
    decide
  exact counts_agree_iff (ofDecoding_decodes _) ⟨handed, r, hrun, hout⟩ one_member.1 hwell

/-- A bundle whose record has a carriage return between two tokens. -/
def returnBundle : Bytes :=
  [31, 139, 8, 0, 0, 0, 0, 0, 2, 3, 171, 86, 74, 206, 207, 45, 72, 204, 171, 140, 207, 75, 204, 77,
    85, 178, 226, 85, 114, 84, 170, 229, 2, 0, 87, 124, 219, 138, 22, 0, 0, 0]

/-- Its line. -/
def returnLine : Bytes :=
  [123, 34, 99, 111, 109, 112, 97, 110, 121, 95, 110, 97, 109, 101, 34, 58, 13, 34, 65, 34, 125]

/-- What it decodes to. -/
def returnDecoding : Decoding UInt8 :=
  .known returnBundle (returnLine ++ [newline]) [] (by decide)

/-- What its line parses to. -/
def returnLoads : Loads := fun text =>
  if text = returnLine then .value (.object [(companyNameKey, .string (.ofString "A"))])
  else .valueError

theorem return_member : returnDecoding.status returnBundle = .ended [] ∧
    returnDecoding.output returnBundle = returnLine ++ [newline] := by
  decide

/-- The record is imported once by the one variant, and counted twice by the other. -/
theorem return_counted_twice :
    (Decompressor.ofDecoding returnDecoding).Decodes returnDecoding ∧
    Reads (.ofDecoding returnDecoding) returnLoads .shipped .importBundle [returnBundle]
      (.ok ⟨42, 22, [⟨.ofString "A"⟩]⟩) ∧
    returnDecoding.status returnBundle = .ended [] ∧
    WellFormed returnLoads (returnDecoding.output returnBundle) ∧
    decompressCompletely returnDecoding returnBundle = some ⟨42, 22, 2⟩ := by
  have hD := ofDecoding_decodes returnDecoding
  obtain ⟨hstatus, hout⟩ := return_member
  have hreads := reads_whole hD returnLoads .shipped .importBundle returnBundle
    (by simp [hstatus]) (by decide) (by rw [hout]; decide)
  have hverdict : verdict returnDecoding returnLoads returnBundle =
      .ok ⟨42, 22, [⟨.ofString "A"⟩]⟩ := by
    unfold verdict
    rw [hstatus, hout]
    decide
  rw [hverdict] at hreads
  refine ⟨hD, hreads, hstatus, ?_, ?_⟩
  · rw [hout]
    unfold WellFormed
    decide
  · rw [decompressCompletely, gzipDecompress_of_one hstatus, hout]
    decide

end Limitless
