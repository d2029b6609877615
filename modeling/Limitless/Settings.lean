import Mathlib.Data.Nat.Notation

/-!
# The documented bounds

`config.py`'s `SecureBounds`: every maximum the secure application enforces, with its default. The
two deadlines and the constant `Retry-After` are left out: they are times.
-/

namespace Limitless

/-- The documented maxima, in one place. -/
structure SecureBounds where
  maxBodyBytes : ℕ := 65536
  maxImportBodyBytes : ℕ := 262144
  maxBatchItems : ℕ := 500
  maxPageSize : ℕ := 200
  maxDecompressedBytes : ℕ := 4194304
  maxExpansionRatio : ℕ := 25
  maxInFlightUpstream : ℕ := 48
  deriving DecidableEq, Repr

/-- `BOUNDS`: the bounds the secure application runs with. -/
def SecureBounds.shipped : SecureBounds := {}

end Limitless
