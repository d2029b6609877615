import Limitless.Settings
import Mathlib.Data.List.DropRight

/-!
# The configuration of a load run

`config.py`'s `HarnessConfig`. A parameter of a run is a `BoundedInt`: it carries that it is inside
its documented range, which is what `_bounded_int` checks, so a configuration outside the ceilings
cannot be built. `RunnerConfig` keeps the replicas addressed, of which there is at least one; its
URLs and its timeout are not read by what is modelled. Python's `int` of a string is a parameter.
-/

namespace Limitless

/-- `DEFAULT_CONCURRENCY`. -/
def defaultConcurrency : ℕ := 24

/-- `MAX_CONCURRENCY`: a hard ceiling on concurrency. -/
def maxConcurrency : ℕ := 32

/-- `DEFAULT_ROUNDS`. -/
def defaultRounds : ℕ := 3

/-- `MAX_ROUNDS`: a hard ceiling on how many times a burst may be repeated. -/
def maxRounds : ℕ := 20

/-- `DEFAULT_BATCH_RECORDS`: records named by one ordinary concurrent request. -/
def defaultBatchRecords : ℕ := 20

/-- `MAX_LOOKUPS_PER_ROUND`: a hard ceiling on the work one round may name. -/
def maxLookupsPerRound : ℕ := 2000

/-- How a run reproduces what it reports. -/
inductive ReproductionMode
  | deterministic
  | natural
  deriving DecidableEq, Repr

/-- The value of a member of the enumeration. -/
def ReproductionMode.value : ReproductionMode → String
  | .deterministic => "deterministic"
  | .natural => "natural"

/-- What `str.strip` takes away: Unicode white space. -/
def isStripped (c : Char) : Bool :=
  let n := c.toNat
  9 ≤ n ∧ n ≤ 13 ∨ 28 ≤ n ∧ n ≤ 32 ∨ n = 0x85 ∨ n = 0xA0 ∨ n = 0x1680 ∨
    0x2000 ≤ n ∧ n ≤ 0x200A ∨ n = 0x2028 ∨ n = 0x2029 ∨ n = 0x202F ∨ n = 0x205F ∨ n = 0x3000

/-- `parse_reproduction_mode`: the default for an absent or empty name, none for a bad one. No
letter outside ASCII has a lower case that is in either name. -/
def parseReproductionMode : Option String → Option ReproductionMode
  | none => some .deterministic
  | some raw =>
    if raw = "" then some .deterministic else
    let name := (String.ofList ((raw.toList.dropWhile isStripped).rdropWhile isStripped)).toLower
    if name = ReproductionMode.deterministic.value then some .deterministic
    else if name = ReproductionMode.natural.value then some .natural
    else none

/-- A `ValueError` of the configuration. -/
inductive ConfigError
  | unknownMode (raw : Option String)
  | notAnInteger (name raw : String)
  | outOfRange (name : String) (ceiling : ℕ) (value : Int)
  | runner (detail : String)
  deriving DecidableEq, Repr

/-- A run parameter inside its documented range. -/
abbrev BoundedInt (ceiling : ℕ) := {n : ℕ // 1 ≤ n ∧ n ≤ ceiling}

/-- `_bounded_int`: read a run parameter, refusing anything outside its documented range. -/
def boundedInt (int : String → Option Int) (source : String → Option String) (name : String)
    (default ceiling : ℕ) : Except ConfigError (BoundedInt ceiling) :=
  let raw := (source name).getD (toString default)
  match int raw with
  | none => .error (.notAnInteger name raw)
  | some value =>
    if h : 1 ≤ value ∧ value ≤ ceiling then .ok ⟨value.toNat, by omega⟩
    else .error (.outOfRange name ceiling value)

/-- `RunnerConfig`: the replicas actually addressed. -/
structure RunnerConfig where
  replicaUrls : List String
  /-- `LIMITLESS_REPLICAS` is at least one. -/
  addressed : replicaUrls ≠ []
  deriving DecidableEq, Repr

/-- Configuration for the concurrent load harness. -/
structure HarnessConfig where
  runner : RunnerConfig
  mode : ReproductionMode
  concurrency : BoundedInt maxConcurrency
  rounds : BoundedInt maxRounds
  batchRecords : BoundedInt SecureBounds.shipped.maxBatchItems
  vulnerablePoolMaxSize : BoundedInt 64
  transcriptPath : String

namespace HarnessConfig

/-- `in_flight_capacity`: the capacity the addressed replicas have between them. -/
def inFlightCapacity (config : HarnessConfig) : Int :=
  SecureBounds.shipped.maxInFlightUpstream * config.runner.replicaUrls.length

/-- `from_env`, with what `RunnerConfig.from_env` made of the same environment. -/
def fromEnv (int : String → Option Int) (runner : Except String RunnerConfig)
    (source : String → Option String) : Except ConfigError HarnessConfig :=
  match parseReproductionMode (source "LIMITLESS_MODE") with
  | none => .error (.unknownMode (source "LIMITLESS_MODE"))
  | some mode => do
    let runner ← runner.mapError .runner
    let concurrency ←
      boundedInt int source "LIMITLESS_CONCURRENCY" defaultConcurrency maxConcurrency
    let rounds ← boundedInt int source "LIMITLESS_ROUNDS" defaultRounds maxRounds
    let batchRecords ← boundedInt int source "LIMITLESS_BATCH_RECORDS" defaultBatchRecords
      SecureBounds.shipped.maxBatchItems
    let vulnerablePoolMaxSize ← boundedInt int source "LIMITLESS_VULNERABLE_POOL_MAX_SIZE" 8 64
    let transcriptPath :=
      (source "LIMITLESS_TRANSCRIPT_PATH").getD "/artifacts/harness-transcript.txt"
    return ⟨runner, mode, concurrency, rounds, batchRecords, vulnerablePoolMaxSize,
      transcriptPath⟩

end HarnessConfig

end Limitless
