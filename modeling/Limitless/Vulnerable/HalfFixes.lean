import Limitless.Fixtures
import Limitless.Harness.Config
import Limitless.Lib.SlidingWindow
import Mathlib.Algebra.Group.Basic
import Mathlib.Logic.Function.Basic

/-!
# The repairs that fail

`vulnerable/halffixes.py`: a limiter that counts requests, and an allowance that each process
keeps for itself. `RequestRateLimiter.allow` and `InProcessAllowance.charge` are one atomic step
each, with no `await` inside. Times are numbers of an ordered group, which the caller gives: the
source takes them from a clock that never goes back.

The lists of `defaultdict` are total functions, empty where no key has been written.
-/

namespace Limitless.Vulnerable

/-- Which repair is in effect. Selected for each request. -/
inductive HalfFix
  | none
  | requestRateLimit
  | inProcessAllowance
  | callerKeyedAllowance
  | nonCancellingDeadline
  deriving DecidableEq, Repr

/-- The value of a member of the enumeration. -/
def HalfFix.value : HalfFix → String
  | none => "none"
  | requestRateLimit => "request_rate_limit"
  | inProcessAllowance => "in_process_allowance"
  | callerKeyedAllowance => "caller_keyed_allowance"
  | nonCancellingDeadline => "non_cancelling_deadline"

/-- The members of the enumeration. -/
def HalfFix.members : List HalfFix :=
  [none, requestRateLimit, inProcessAllowance, callerKeyedAllowance, nonCancellingDeadline]

/-- `parse_half_fix`: an absent or empty name is no repair, an unknown one is an error. A header
holds characters up to `U+00FF`, and no such letter outside ASCII has a lower case in a name. -/
def parseHalfFix : Option String → Option HalfFix
  | .none => some .none
  | some raw =>
    if raw = "" then some .none else
    let name := (String.ofList ((raw.toList.dropWhile isStripped).rdropWhile isStripped)).toLower
    HalfFix.members.find? (·.value = name)

/-- The name of a repair is read back. -/
theorem parseHalfFix_value (halfFix : HalfFix) :
    parseHalfFix (some halfFix.value) = some halfFix := by
  have hne : halfFix.value ≠ "" := by cases halfFix <;> decide
  have hstrip : (halfFix.value.toList.dropWhile isStripped).rdropWhile isStripped =
      halfFix.value.toList := by cases halfFix <;> decide
  have hlower : halfFix.value.toLower = halfFix.value := by
    rw [← String.toList_inj]
    unfold String.toLower
    rw [String.toList_map]
    cases halfFix <;> decide
  simp only [parseHalfFix, if_neg hne, hstrip, String.ofList_toList, hlower]
  cases halfFix <;> decide

/-- `REQUESTS_PER_WINDOW`. -/
def requestsPerWindow : ℕ := 60

/-- `WINDOW_SECONDS`. -/
def windowSeconds : ℕ := 60

/-! ## The rate limiter -/

/-- What the limiter believes about itself. -/
structure RateLimiterReport where
  allowed : ℕ
  refused : ℕ
  deriving DecidableEq, Repr

/-- Half-fix 1: so many requests in a window of time for each key. -/
structure RequestRateLimiter (T : Type*) where
  maxRequests : ℕ
  windowSeconds : T
  report : RateLimiterReport
  /-- `_seen`. -/
  seen : String → List T

namespace RequestRateLimiter

variable {T : Type*}

/-- The limiter as it is constructed. -/
def make (maxRequests : ℕ) (windowSeconds : T) : RequestRateLimiter T :=
  ⟨maxRequests, windowSeconds, ⟨0, 0⟩, fun _ => []⟩

/-- `allow`: whether this request is inside the limit. -/
def allow [AddCommGroup T] [LinearOrder T] (l : RequestRateLimiter T) (key : String) (moment : T) :
    Bool × RequestRateLimiter T :=
  let recent := (l.seen key).filter fun at' => moment - at' < l.windowSeconds
  if recent.length ≥ l.maxRequests then
    (false, { l with
      seen := Function.update l.seen key recent
      report := { l.report with refused := l.report.refused + 1 } })
  else
    (true, { l with
      seen := Function.update l.seen key (recent ++ [moment])
      report := { l.report with allowed := l.report.allowed + 1 } })

end RequestRateLimiter

/-! ## The in-process allowance -/

/-- Half-fixes 2 and 3: the right allowance, in the wrong place, on the wrong key. -/
structure InProcessAllowance where
  allowanceCents : ℕ
  spent : String → ℕ

namespace InProcessAllowance

/-- The allowance as it is constructed. -/
def make (allowanceCents : ℕ) : InProcessAllowance := ⟨allowanceCents, fun _ => 0⟩

/-- `charge`: spend against this process's own idea of the allowance. -/
def charge (a : InProcessAllowance) (key : String) (cents : ℕ) : Bool × InProcessAllowance :=
  if a.spent key + cents > a.allowanceCents then (false, a)
  else (true, { a with spent := Function.update a.spent key (a.spent key + cents) })

end InProcessAllowance

/-! ## What the repairs remember -/

/-- Everything the repairs of one process remember. Its clock counts whole seconds. -/
structure HalfFixState where
  rateLimiter : RequestRateLimiter ℤ
  inProcess : InProcessAllowance
  callerKeyed : InProcessAllowance

namespace HalfFixState

/-- The state of a process that has just started, at an allowance. -/
def fresh (allowanceCents : ℕ) : HalfFixState where
  rateLimiter := .make requestsPerWindow windowSeconds
  inProcess := .make allowanceCents
  callerKeyed := .make allowanceCents

/-- `key_for`: the key a repair counts against. -/
def keyFor (halfFix : HalfFix) (tenantId : TenantId) (clientId : Option String) : String :=
  if halfFix = .callerKeyedAllowance then
    match clientId with
    | some id => if id = "" then tenantId else id
    | none => tenantId
  else tenantId

end HalfFixState

end Limitless.Vulnerable
