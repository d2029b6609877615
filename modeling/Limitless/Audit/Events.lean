import Limitless.Audit.Json
import Limitless.Lib.Splitlines
import Limitless.Secure.Capacity
import Mathlib.Data.List.Infix

/-!
# The audit event and its gate

`audit.py`'s `emit_refusal`, and `auditcheck.py`'s `_events` and `check`. A log is what its writers
wrote, one after the other: refusal events, and lines of others. The messages of `check` are its
failures with the data they name.
-/

namespace Limitless

open JsonString

/-! ## `audit.py` -/

/-- `EVENT_NAME`. -/
def eventName : PyStr := .ofString "limit_refusal"

/-- `REFUSAL_REASON`. -/
def refusalReason : PyStr := .ofString "limit_reached"

/-- The value of a `RefusedOperation`. -/
def RefusedOperation.value : RefusedOperation → PyStr
  | enrich => .ofString "enrich"
  | listRecords => .ofString "list_records"
  | importBundle => .ofString "import_bundle"

/-- The key of an event's name. -/
def eventKey : PyStr := .ofString "event"

/-- The key of its outcome. -/
def outcomeKey : PyStr := .ofString "outcome"

/-- The key of its reason. -/
def reasonKey : PyStr := .ofString "reason"

/-- The key of the replica that refused. -/
def replicaKey : PyStr := .ofString "replica"

/-- The outcome of a refusal. -/
def refusedOutcome : PyStr := .ofString "refused"

/-- A call of `emit_refusal`. -/
structure Refusal where
  requestId : PyStr
  replica : PyStr
  operation : RefusedOperation
  tenantId : PyStr
  deriving DecidableEq, Repr

/-- The `event` of the call, a `dict`. -/
def Refusal.event (r : Refusal) : List (PyStr × PyStr) :=
  [(eventKey, eventName), (.ofString "request_id", r.requestId), (replicaKey, r.replica),
    (.ofString "operation", r.operation.value), (.ofString "tenant_id", r.tenantId),
    (outcomeKey, refusedOutcome), (reasonKey, refusalReason)]

/-- The newline of a text. -/
def lineFeed : CodePoint := point 10

/-- `emit_refusal`: what is written on standard output. -/
def Refusal.emit (r : Refusal) : PyStr := dumps r.event ++ [lineFeed]

/-! ## Lines of a text -/

/-- A line boundary of `str.splitlines`. -/
def isLineBreak (c : CodePoint) : Bool :=
  c.val ∈ [0x0A, 0x0B, 0x0C, 0x0D, 0x1C, 0x1D, 0x1E, 0x85, 0x2028, 0x2029]

/-- `str.splitlines()`. -/
def PyStr.splitlines (s : PyStr) : List PyStr := Lines.splitlines isLineBreak (point 13) lineFeed s

/-- A character that `str.strip()` takes away. -/
def isStrSpace (c : CodePoint) : Bool :=
  9 ≤ c.val ∧ c.val ≤ 13 ∨ 0x1C ≤ c.val ∧ c.val ≤ 0x20 ∨ 0x2000 ≤ c.val ∧ c.val ≤ 0x200A ∨
    c.val ∈ [0x85, 0xA0, 0x1680, 0x2028, 0x2029, 0x202F, 0x205F, 0x3000]

/-- `str.strip()`. -/
def PyStr.strip (s : PyStr) : PyStr := Lines.trim isStrSpace s

/-! ## `auditcheck.py` -/

/-- `ALLOWED_KEYS`. -/
def allowedKeys : List PyStr :=
  [eventKey, .ofString "request_id", replicaKey, .ofString "operation", .ofString "tenant_id",
    outcomeKey, reasonKey]

/-- `TOKEN_PREFIX`. -/
def tokenPrefix : PyStr := .ofString "limitless-demo-token-"

/-- A value that is a `str`. -/
def Json.str? : Json → Option PyStr
  | .string s => some s
  | .object _ | .array _ | .other => none

/-- The event on a line, if it has one. -/
def eventOf (line : PyStr) : Option (List (PyStr × Json)) :=
  let stripped := PyStr.strip line
  if stripped.head? ≠ some openBrace then none else
  match loads stripped with
  | some (.object members) =>
    if (Json.get? members eventKey).bind Json.str? = some eventName then some members else none
  | some (.array _) | some (.string _) | some .other | none => none

/-- `_events`. -/
def auditEvents (lines : List PyStr) : List (List (PyStr × Json)) := lines.filterMap eventOf

/-- A failure of the gate. An event is named by its number, from one. -/
inductive AuditFailure
  /-- Expected exactly so many events, found so many. -/
  | count (expected : ℤ) (found : ℕ)
  /-- An event discloses unexpected fields. -/
  | unexpectedFields (index : ℕ) (extra : List PyStr)
  /-- An event is missing required fields. -/
  | missingFields (index : ℕ) (missing : List PyStr)
  /-- The reason of an event distinguishes refusals that must be indistinguishable. -/
  | reason (index : ℕ) (value : Option Json)
  /-- The outcome of an event is not that of a refusal. -/
  | outcome (index : ℕ) (value : Option Json)
  /-- A demonstration bearer token appeared in the captured log stream. -/
  | token

/-- The failures of one event. -/
def eventFailures (index : ℕ) (event : List (PyStr × Json)) : List AuditFailure :=
  let keys := event.map Prod.fst
  let extra := (keys.filter (· ∉ allowedKeys)).insertionSort (· ≤ ·)
  let missing := (allowedKeys.filter (· ∉ keys)).insertionSort (· ≤ ·)
  let reason := Json.get? event reasonKey
  let outcome := Json.get? event outcomeKey
  (if extra = [] then [] else [.unexpectedFields index extra]) ++
    (if missing = [] then [] else [.missingFields index missing]) ++
    (if reason.bind Json.str? = some refusalReason then [] else [.reason index reason]) ++
    (if outcome.bind Json.str? = some refusedOutcome then [] else [.outcome index outcome])

/-- `check`. -/
def check (stream : PyStr) (expected : ℤ) : List AuditFailure :=
  let events := auditEvents (PyStr.splitlines stream)
  (if events.length = expected then [] else [.count expected events.length]) ++
    (events.zipIdx 1).flatMap (fun e => eventFailures e.2 e.1) ++
    (if tokenPrefix <:+: stream then [.token] else [])

/-! ## Logs -/

/-- A write to the log: a refusal event, or a whole line of something else. -/
inductive LogWrite
  | refusal (r : Refusal)
  | line (text : PyStr)
  deriving DecidableEq, Repr

namespace LogWrite

/-- What is written. -/
def text : LogWrite → PyStr
  | refusal r => r.emit
  | line text => text ++ [lineFeed]

/-- The call of `emit_refusal` it is. -/
def refusal? : LogWrite → Option Refusal
  | refusal r => some r
  | line _ => none

/-- The lines it contributes. -/
def lines : LogWrite → List PyStr
  | refusal r => [dumps r.event]
  | line text => PyStr.splitlines (text ++ [lineFeed])

/-- A line of something else does not begin with a brace, stripped. If its text is more lines than
one under `str.splitlines`, none does. -/
def Ordinary : LogWrite → Prop
  | refusal _ => True
  | line text =>
    ∀ piece ∈ PyStr.splitlines (text ++ [lineFeed]), (PyStr.strip piece).head? ≠ some openBrace

/-- Neither a string of a refusal nor a line holds the prefix of the tokens. -/
def Tokenless : LogWrite → Prop
  | refusal r => ¬ tokenPrefix <:+: r.requestId ∧ ¬ tokenPrefix <:+: r.replica ∧
      ¬ tokenPrefix <:+: r.tenantId
  | line text => ¬ tokenPrefix <:+: text

end LogWrite

/-- The captured log. -/
def logStream (writes : List LogWrite) : PyStr := writes.flatMap LogWrite.text

/-- The calls of `emit_refusal` in it. -/
def refusals (writes : List LogWrite) : List Refusal := writes.filterMap LogWrite.refusal?

end Limitless
