import Limitless.Expansion.Chunking

/-!
# What a bundle can cost

An accepted bundle is paid for by the record, and every record took bytes of output: the shortest
line that parses to an object with a `company_name` is nineteen bytes, and its newline. So the
ceilings on the bytes bound what an import reserves and sends upstream.
-/

namespace Limitless

open Inflate Runs

/-- The lookups `import_bundle` reserves. -/
def BundleResult.lookups (b : BundleResult) : ℕ := b.records.length

variable {D : Decompressor UInt8} {loads : Loads} {bounds : SecureBounds}
  {operation : RefusedOperation} {chunks : List Bytes} {result : BundleResult}

/-- A line with a record is at least as long as the shortest object with a name. -/
theorem length_of_recordOf {n : ℕ}
    (hloads : ∀ text parsed name, loads text = .value parsed → parsed.companyName? = some name →
      n ≤ text.length)
    {line : Bytes} {record : ImportedRecord} (h : recordOf loads line = some record) :
    n ≤ line.length := by
  unfold recordOf at h
  split at h
  · cases h
  · split at h
    · next parsed hparsed =>
        obtain ⟨name, hname, -⟩ := Option.map_eq_some_iff.mp h
        calc n ≤ (strip line).length := hloads _ _ _ hparsed hname
          _ ≤ (line.dropWhile isSpace).length := (List.rdropWhile_prefix isSpace _).length_le
          _ ≤ line.length := (List.dropWhile_suffix isSpace).length_le
    · cases h
    · cases h

/-- **An import is bounded by its bytes.** Every record of an accepted bundle took at least twenty
bytes of output, so the lookups it reserves and pays for are bounded by each of the ceilings. -/
theorem lookups_bounded
    (hloads : ∀ text parsed name, loads text = .value parsed → parsed.companyName? = some name →
      19 ≤ text.length)
    (h : Reads D loads bounds operation chunks (.ok result)) :
    20 * result.records.length ≤ result.decompressedBytes + 1 ∧
      result.companyNames.length = result.lookups ∧
      20 * result.lookups ≤
        max (ratioEvaluationFloorBytes - 1) (bounds.maxExpansionRatio * result.compressedBytes) + 1 ∧
      20 * result.lookups ≤ bounds.maxDecompressedBytes + 1 := by
  obtain ⟨handed, r, hrun, hout⟩ := h
  have hpoint := Reader.outcome?_eq_ok.mp hout
  have htracks := Reader.Tracks.of_run hrun
  obtain ⟨-, hdecompressed, hratio⟩ := htracks.result_le hpoint
  have hcount : 20 * result.records.length ≤ result.decompressedBytes + 1 := by
    obtain ⟨-, -, rfl, -⟩ := htracks.returned result hpoint
    show 20 * (recordsOf loads handed.flatten).length ≤ r.decompressedBytes + 1
    rw [htracks.counted, ← Lines.sum_length_splitOn newline]
    exact Lines.mul_length_filterMap_le (fun _ _ => length_of_recordOf hloads) _
  refine ⟨hcount, List.length_map _, ?_, ?_⟩
  · unfold BundleResult.lookups
    omega
  · unfold BundleResult.lookups
    omega

/-- The bundle of one record reserves one lookup. -/
theorem lookups_bounded_of_one_record :
    Reads (.ofDecoding Reader.oneRecordDecoding) Reader.oneRecordLoads .shipped .importBundle
      [Reader.oneRecordBundle] (.ok ⟨41, 21, [⟨.ofString "A"⟩]⟩) ∧
    20 * 1 ≤ 21 + 1 := by
  refine ⟨reads_one_record,
    (lookups_bounded (fun text parsed name htext _ => ?_) reads_one_record).1⟩
  -- the only line that parses is one byte longer than the shortest
  unfold Reader.oneRecordLoads at htext
  split at htext
  · next hline =>
      rw [hline]
      decide
  · cases htext

end Limitless
