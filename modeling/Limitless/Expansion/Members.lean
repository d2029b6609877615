import Limitless.Expansion.Chunking

/-!
# What follows the first member

A gzip file is any number of members, one after the other, and `gzip.decompress` gives the output of
all of them (`gzipDecompress`). A decompression object decodes one member: it puts what follows into
its `unused_data` and answers no more output. `read_bounded_bundle` does not look there. So an
accepted bundle was imported whole exactly when its body is one member and nothing else.
-/

namespace Limitless

open Inflate Runs

/-- `gzip.decompress`: the output of every member, zero bytes between them skipped; `none` is an
exception. -/
def gzipDecompress (dec : Decoding UInt8) (data : Bytes) : Option Bytes :=
  if data = [] then some [] else
  match _h : dec.status data with
  | .ended unused =>
    (gzipDecompress dec (unused.dropWhile (· = 0))).map fun more => dec.output data ++ more
  | .reading | .corrupt => none
termination_by data.length
decreasing_by
  exact lt_of_le_of_lt (List.dropWhile_suffix _).length_le (Decoding.unused_length_lt _h)

variable {D : Decompressor UInt8} {dec : Decoding UInt8} {loads : Loads} {bounds : SecureBounds}
  {operation : RefusedOperation} {chunks handed : List Bytes} {r : Reader D}
  {result : BundleResult} {data unused : Bytes}

@[simp] theorem gzipDecompress_nil (dec : Decoding UInt8) : gzipDecompress dec [] = some [] := by
  rw [gzipDecompress, if_pos rfl]

/-- The first member of a file, and the rest of it. -/
theorem gzipDecompress_of_ended (h : dec.status data = .ended unused) :
    gzipDecompress dec data =
      (gzipDecompress dec (unused.dropWhile (· = 0))).map fun more => dec.output data ++ more := by
  have hne : data ≠ [] := by
    rintro rfl
    cases dec.status_nil.symm.trans h
  rw [gzipDecompress, if_neg hne]
  split
  · next hended =>
      rw [h] at hended
      cases hended
      rfl
  all_goals next hother => cases h.symm.trans hother

/-- A file of one member. -/
theorem gzipDecompress_of_one (h : dec.status data = .ended []) :
    gzipDecompress dec data = some (dec.output data) := by
  rw [gzipDecompress_of_ended h, List.dropWhile_nil, gzipDecompress_nil, Option.map_some,
    List.append_nil]

/-- **What an accepted bundle holds.** The records of the lines of its first member, and whatever
follows that member is in `unused_data`. -/
theorem accepted_first_member (hD : D.Decodes dec)
    (hrun : Run (Reader.Steps loads bounds operation) (Reader.start D chunks) handed r)
    (hresult : r.point = .returned result) :
    dec.status chunks.flatten = .ended (D.unusedData r.decompressor) ∧
      result.records = recordsOf loads (dec.output chunks.flatten) := by
  obtain ⟨hended, htext, -⟩ := (Reader.Follows.of_run hD hrun).returned result hresult
  obtain ⟨-, -, rfl, -⟩ := (Reader.Tracks.of_run hrun).returned result hresult
  exact ⟨hended, by rw [← htext]⟩

/-- **Imported whole.** For every body that is accepted, however it is cut: all of it was part of
the decoded data, and the records are those of its complete decompression, if and only if the body
is one gzip member with nothing after it. -/
theorem imported_whole_iff (hD : D.Decodes dec)
    (hrun : Run (Reader.Steps loads bounds operation) (Reader.start D chunks) handed r)
    (hresult : r.point = .returned result) :
    (D.unusedData r.decompressor = [] ∧ ∃ text, gzipDecompress dec chunks.flatten = some text ∧
      result.records = recordsOf loads text) ↔ dec.status chunks.flatten = .ended [] := by
  obtain ⟨hended, hrecords⟩ := accepted_first_member hD hrun hresult
  constructor
  · rintro ⟨hunused, -⟩
    rwa [hunused] at hended
  · intro hone
    exact ⟨Status.ended.inj (hended.symm.trans hone), _, gzipDecompress_of_one hone, hrecords⟩

/-- A body of two members, each the bundle of one record. -/
def twoMembers : Bytes := Reader.oneRecordBundle ++ Reader.oneRecordBundle

theorem one_member : Reader.oneRecordDecoding.status Reader.oneRecordBundle = .ended [] ∧
    Reader.oneRecordDecoding.output Reader.oneRecordBundle = Reader.oneRecordLine ++ [newline] := by
  decide

/-- The second member is what is left over. -/
theorem two_members : Reader.oneRecordDecoding.status twoMembers = .ended Reader.oneRecordBundle ∧
    Reader.oneRecordDecoding.output twoMembers = Reader.oneRecordLine ++ [newline] := by
  obtain ⟨hstatus, hout⟩ := one_member
  obtain ⟨hstatus', hout'⟩ := Reader.oneRecordDecoding.ended_append hstatus Reader.oneRecordBundle
  exact ⟨hstatus', hout'.trans hout⟩

theorem imported_whole_iff_of_one_member :
    ∃ handed r, Run (Reader.Steps Reader.oneRecordLoads .shipped .importBundle)
        (Reader.start (.ofDecoding Reader.oneRecordDecoding) [Reader.oneRecordBundle]) handed r ∧
      r.point = .returned ⟨41, 21, [⟨.ofString "A"⟩]⟩ ∧
      (((Decompressor.ofDecoding Reader.oneRecordDecoding).unusedData r.decompressor = [] ∧
        ∃ text, gzipDecompress Reader.oneRecordDecoding [Reader.oneRecordBundle].flatten =
          some text ∧ [⟨.ofString "A"⟩] = recordsOf Reader.oneRecordLoads text) ↔
        Reader.oneRecordDecoding.status [Reader.oneRecordBundle].flatten = .ended []) := by
  obtain ⟨handed, r, hrun, hout⟩ := reads_one_record
  have hresult := Reader.outcome?_eq_ok.mp hout
  exact ⟨handed, r, hrun, hresult, imported_whole_iff (ofDecoding_decodes _) hrun hresult⟩

/-- The import answers with the record of the first member, and the second is lost. -/
theorem second_member_is_lost :
    (Decompressor.ofDecoding Reader.oneRecordDecoding).Decodes Reader.oneRecordDecoding ∧
    Reads (.ofDecoding Reader.oneRecordDecoding) Reader.oneRecordLoads .shipped .importBundle
      [twoMembers] (.ok ⟨82, 21, [⟨.ofString "A"⟩]⟩) ∧
    gzipDecompress Reader.oneRecordDecoding twoMembers =
      some (Reader.oneRecordLine ++ [newline] ++ (Reader.oneRecordLine ++ [newline])) ∧
    recordsOf Reader.oneRecordLoads
      (Reader.oneRecordLine ++ [newline] ++ (Reader.oneRecordLine ++ [newline])) =
      [⟨.ofString "A"⟩, ⟨.ofString "A"⟩] := by
  have hD := ofDecoding_decodes Reader.oneRecordDecoding
  obtain ⟨hstatus, hout⟩ := two_members
  have hreads := reads_whole hD Reader.oneRecordLoads .shipped .importBundle twoMembers
    (by simp [hstatus]) (by decide) (by rw [hout]; decide)
  have hverdict : verdict Reader.oneRecordDecoding Reader.oneRecordLoads twoMembers =
      .ok ⟨82, 21, [⟨.ofString "A"⟩]⟩ := by
    unfold verdict
    rw [hstatus, hout]
    decide
  rw [hverdict] at hreads
  refine ⟨hD, hreads, ?_, by decide⟩
  have hrest : Reader.oneRecordBundle.dropWhile (· = 0) = Reader.oneRecordBundle := by decide
  rw [gzipDecompress_of_ended hstatus, hrest, gzipDecompress_of_one one_member.1, hout,
    one_member.2, Option.map_some]

end Limitless
