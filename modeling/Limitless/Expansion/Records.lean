import Limitless.Lib.Splitlines
import Mathlib.Data.List.ReduceOption

/-!
# The records of a bundle

`secure/expansion.py`'s `_LineAssembler`: decompressed bytes come in blocks, and each whole line is
a record where it parses to an object with a string `company_name`. `json.loads` is a parameter.
What it answers is a Python value, and its strings are sequences of code points: a lone surrogate is
one, unlike in a Lean `String`. It can also raise: `_take` skips a line for a `ValueError`, but the
`RecursionError` of a line that is nested too deeply leaves the assembler, and so every function
that calls it.

`Assembled` says what an assembler holds after the blocks of a text: the records of the lines that
are complete, and the rest. `feed_spec` keeps it from block to block, until a line is too deep. What
a text should come to is said apart from that, by `Segment`; `assembles_iff` compares the two.
-/

namespace Limitless

/-- Bytes on the wire. -/
abbrev Bytes := List UInt8

/-- A Python `str`: its code points. -/
abbrev PyStr := List (Fin 0x110000)

/-- A Python literal. -/
def PyStr.ofString (s : String) : PyStr := s.toList.map fun c => Fin.ofNat 0x110000 c.toNat

/-- A value of `json.loads`, as far as the application looks at it. -/
inductive Json
  /-- A `dict`: its keys are distinct. -/
  | object (members : List (PyStr × Json))
  | array (items : List Json)
  | string (value : PyStr)
  /-- A number, a boolean or `None`. -/
  | other

/-- `members.get(key)`. -/
def Json.get? (members : List (PyStr × Json)) (key : PyStr) : Option Json :=
  (members.find? fun m => m.1 = key).map Prod.snd

/-- The key of a record's name. -/
def companyNameKey : PyStr := .ofString "company_name"

/-- The name of a record: a `dict` whose `company_name` is a `str` has one. -/
def Json.companyName? : Json → Option PyStr
  | .object members =>
    match Json.get? members companyNameKey with
    | some (.string name) => some name
    | some (.object _) | some (.array _) | some .other | none => none
  | .array _ | .string _ | .other => none

/-- How `json.loads` ends. -/
inductive Loaded
  | value (parsed : Json)
  /-- A `ValueError`: the text is not JSON. -/
  | valueError
  /-- A `RecursionError`: the text is nested too deeply. -/
  | recursionError

instance (l : Loaded) : Decidable (l = .recursionError) :=
  match l with
  | .value _ | .valueError => isFalse (by simp)
  | .recursionError => isTrue rfl

/-- `json.loads` on bytes. -/
abbrev Loads := Bytes → Loaded

/-- One record of a bundle. -/
structure ImportedRecord where
  companyName : PyStr
  deriving DecidableEq, Repr

/-- The newline byte. -/
def newline : UInt8 := 10

/-- A byte that `bytes.strip()` takes away. -/
def isSpace (b : UInt8) : Bool := b = 32 ∨ 9 ≤ b ∧ b ≤ 13

/-- `bytes.strip()`. -/
def strip (line : Bytes) : Bytes := (line.dropWhile isSpace).rdropWhile isSpace

/-- The record on a line, if it has one. -/
def recordOf (loads : Loads) (line : Bytes) : Option ImportedRecord :=
  if strip line = [] then none else
  match loads (strip line) with
  | .value parsed => parsed.companyName?.map ImportedRecord.mk
  | .valueError | .recursionError => none

/-- The records of a whole text, in order. -/
def recordsOf (loads : Loads) (text : Bytes) : List ImportedRecord :=
  (text.splitOn newline).filterMap (recordOf loads)

/-- `json.loads` raises a `RecursionError` on the line. -/
def TooDeep (loads : Loads) (line : Bytes) : Prop :=
  strip line ≠ [] ∧ loads (strip line) = .recursionError

instance (loads : Loads) (line : Bytes) : Decidable (TooDeep loads line) :=
  inferInstanceAs (Decidable (_ ∧ _))

/-- `_LineAssembler`. -/
structure LineAssembler where
  buffer : Bytes
  records : List ImportedRecord
  deriving DecidableEq, Repr

namespace LineAssembler

/-- `__init__`. -/
def empty : LineAssembler := ⟨[], []⟩

/-- `_take`. An error is a `RecursionError`, with the assembler that it leaves. -/
def take (loads : Loads) (a : LineAssembler) (line : Bytes) : Except LineAssembler LineAssembler :=
  let stripped := strip line
  if stripped = [] then .ok a else
  match loads stripped with
  | .valueError => .ok a
  | .recursionError => .error a
  | .value parsed =>
    match parsed.companyName? with
    | some companyName => .ok { a with records := a.records ++ [⟨companyName⟩] }
    | none => .ok a

/-- What `_take` does: it keeps the record of the line, unless the line is too deep. -/
theorem take_eq (loads : Loads) (a : LineAssembler) (line : Bytes) : a.take loads line =
    if TooDeep loads line then .error a
    else .ok { a with records := a.records ++ (recordOf loads line).toList } := by
  by_cases hblank : strip line = []
  · rw [if_neg fun hdeep => hdeep.1 hblank]
    simp [take, recordOf, hblank]
  · obtain ⟨loaded, hloads⟩ : ∃ loaded, loads (strip line) = loaded := ⟨_, rfl⟩
    cases loaded with
    | recursionError =>
        rw [if_pos ⟨hblank, hloads⟩]
        simp [take, hblank, hloads]
    | valueError =>
        rw [if_neg (by simp [TooDeep, hloads])]
        simp [take, recordOf, hblank, hloads]
    | value parsed =>
        rw [if_neg (by simp [TooDeep, hloads])]
        cases hname : parsed.companyName? <;> simp [take, recordOf, hblank, hloads, hname]

theorem take_buffer {loads : Loads} {a a' : LineAssembler} {line : Bytes}
    (h : a.take loads line = .ok a') : a'.buffer = a.buffer := by
  rw [take_eq] at h
  split at h
  · cases h
  · cases h
    rfl

/-- The loop of `feed`: take the lines of the buffer, up to its last newline. -/
def drain (loads : Loads) (a : LineAssembler) : Except LineAssembler LineAssembler :=
  match _h : a.buffer.idxOf? newline with
  | none => .ok a
  | some n =>
    match _htake : { a with buffer := a.buffer.drop (n + 1) }.take loads (a.buffer.take n) with
    | .error a' => .error a'
    | .ok a' => drain loads a'
termination_by a.buffer.length
decreasing_by
  obtain ⟨hn, -⟩ := List.idxOf?_eq_some_iff.mp _h
  rw [take_buffer _htake, List.length_drop]
  omega

/-- The assembler that a call leaves, whether it returned or raised. -/
def left : Except LineAssembler LineAssembler → LineAssembler
  | .ok a | .error a => a

/-- `feed`. -/
def feed (loads : Loads) (a : LineAssembler) (chunk : Bytes) : Except LineAssembler LineAssembler :=
  { a with buffer := a.buffer ++ chunk }.drain loads

/-- `finish`. -/
def finish (loads : Loads) (a : LineAssembler) : Except LineAssembler LineAssembler :=
  if a.buffer = [] then .ok a else
  match a.take loads a.buffer with
  | .error a' => .error a'
  | .ok a' => .ok { a' with buffer := [] }

/-! ## What an assembler holds -/

variable {loads : Loads} {a : LineAssembler} {text : Bytes}

theorem recordOf_nil (loads : Loads) : recordOf loads [] = none := if_pos rfl

/-- The loop takes the complete lines of the buffer and leaves the rest, unless one is too deep. -/
theorem drain_spec (loads : Loads) (a : LineAssembler) :
    ((∀ line ∈ Lines.complete newline a.buffer, ¬ TooDeep loads line) ∧ a.drain loads =
        .ok ⟨Lines.rest newline a.buffer,
          a.records ++ (Lines.complete newline a.buffer).filterMap (recordOf loads)⟩) ∨
      (∃ line ∈ Lines.complete newline a.buffer, TooDeep loads line) ∧
        ∃ a', a.drain loads = .error a' := by
  fun_induction drain loads a with
  | case1 a hfind =>
      obtain ⟨hcomplete, hrest⟩ :=
        Lines.complete_of_not_mem (List.idxOf?_eq_none_iff.mp hfind)
      left
      rw [hcomplete, hrest, List.filterMap_nil, List.append_nil]
      exact ⟨fun _ hline => absurd hline List.not_mem_nil, rfl⟩
  | case2 a n hfind a' htake =>
      obtain ⟨hsplit, hline⟩ := Lines.eq_of_idxOf? hfind
      obtain ⟨hcomplete, -⟩ := Lines.complete_append_cons (m := a.buffer.drop (n + 1)) hline
      rw [← hsplit] at hcomplete
      rw [take_eq] at htake
      split at htake
      · next hdeep =>
          rw [hcomplete]
          exact .inr ⟨⟨_, List.mem_cons_self, hdeep⟩, _, rfl⟩
      · cases htake
  | case3 a n hfind a' htake ih =>
      -- the buffer is a line, its newline, and what follows
      obtain ⟨hsplit, hline⟩ := Lines.eq_of_idxOf? hfind
      obtain ⟨hcomplete, hrest⟩ := Lines.complete_append_cons (m := a.buffer.drop (n + 1)) hline
      rw [← hsplit] at hcomplete hrest
      rw [take_eq] at htake
      split at htake
      · cases htake
      · next hshallow =>
          cases htake
          rw [hcomplete, hrest]
          rcases ih with ⟨hlines, hdrain⟩ | ⟨⟨line, hmem, hdeep⟩, a', hdrain⟩
          · refine .inl ⟨List.forall_mem_cons.mpr ⟨hshallow, hlines⟩, ?_⟩
            rw [hdrain, List.filterMap_cons]
            cases recordOf loads (a.buffer.take n) with
            | none => rw [Option.toList_none, List.append_nil]
            | some r => rw [Option.toList_some, List.append_assoc, List.singleton_append]
          · exact .inr ⟨⟨line, List.mem_cons_of_mem _ hmem, hdeep⟩, a', hdrain⟩

/-- What an assembler holds after the blocks of a text, however the text is cut. -/
structure Assembled (loads : Loads) (text : Bytes) (a : LineAssembler) : Prop where
  buffer : a.buffer = Lines.rest newline text
  records : a.records = (Lines.complete newline text).filterMap (recordOf loads)
  shallow : ∀ line ∈ Lines.complete newline text, ¬ TooDeep loads line

theorem empty_assembled (loads : Loads) : Assembled loads [] empty :=
  ⟨rfl, rfl, fun _ hline => absurd hline List.not_mem_nil⟩

/-- One more block: an assembler holds the longer text, or has met a line that is too deep. -/
theorem feed_spec (h : Assembled loads text a) (chunk : Bytes) :
    (∃ a', a.feed loads chunk = .ok a' ∧ Assembled loads (text ++ chunk) a') ∨
      (∃ line ∈ Lines.complete newline (text ++ chunk), TooDeep loads line) ∧
        ∃ a', a.feed loads chunk = .error a' := by
  have hcomplete : Lines.complete newline (text ++ chunk) = _ := Lines.complete_append text chunk
  rw [← h.buffer] at hcomplete
  rcases drain_spec loads { a with buffer := a.buffer ++ chunk } with
    ⟨hlines, hdrain⟩ | ⟨⟨line, hmem, hdeep⟩, a', hdrain⟩
  · refine .inl ⟨_, hdrain, ?_, ?_, ?_⟩
    · rw [Lines.rest_append text, ← h.buffer]
    · rw [hcomplete, List.filterMap_append, ← h.records]
    · rw [hcomplete]
      exact List.forall_mem_append.mpr ⟨h.shallow, hlines⟩
  · refine .inr ⟨⟨line, ?_, hdeep⟩, a', hdrain⟩
    rw [hcomplete]
    exact List.mem_append_right _ hmem

/-- **Whole lines.** `finish` leaves the records of the text, unless its last line is too deep. -/
theorem finish_spec (h : Assembled loads text a) :
    ((∀ line ∈ text.splitOn newline, ¬ TooDeep loads line) ∧
        a.finish loads = .ok ⟨[], recordsOf loads text⟩) ∨
      TooDeep loads (Lines.rest newline text) ∧ ∃ a', a.finish loads = .error a' := by
  obtain ⟨buffer, records⟩ := a
  obtain ⟨rfl, rfl, hshallow⟩ := h
  unfold finish recordsOf
  rw [← Lines.complete_append_rest, List.filterMap_append]
  by_cases hdeep : TooDeep loads (Lines.rest newline text)
  · have hne : Lines.rest newline text ≠ [] := fun hnil => hdeep.1 (by rw [hnil]; rfl)
    rw [if_neg hne, take_eq, if_pos hdeep]
    exact .inr ⟨hdeep, _, rfl⟩
  · refine .inl ⟨List.forall_mem_append.mpr ⟨hshallow, by simpa using hdeep⟩, ?_⟩
    split
    · next hnil =>
        simp only at hnil
        rw [hnil, List.filterMap_cons_none (recordOf_nil loads), List.filterMap_nil,
          List.append_nil]
    · rw [take_eq, if_neg hdeep, List.filterMap_cons]
      cases recordOf loads (Lines.rest newline text) <;> rfl

/-- The chunks of a text, fed in order to a fresh assembler. -/
def feedAll (loads : Loads) (chunks : List Bytes) : Except LineAssembler LineAssembler :=
  chunks.foldlM (feed loads) empty

theorem feedAll_spec (loads : Loads) (chunks : List Bytes) :
    (∃ a, feedAll loads chunks = .ok a ∧ Assembled loads chunks.flatten a) ∨
      (∃ line ∈ Lines.complete newline chunks.flatten, TooDeep loads line) ∧
        ∃ a, feedAll loads chunks = .error a := by
  induction chunks using List.reverseRecOn with
  | nil => exact .inl ⟨_, rfl, empty_assembled loads⟩
  | append_singleton chunks chunk ih =>
      have hstep : feedAll loads (chunks ++ [chunk]) =
          (feedAll loads chunks).bind fun a => a.feed loads chunk := by
        simp only [feedAll, List.foldlM_append, List.foldlM_cons, List.foldlM_nil, bind_pure]
        rfl
      rw [hstep, List.flatten_append, List.flatten_singleton]
      rcases ih with ⟨a, ha, hassembled⟩ | ⟨⟨line, hline, hdeep⟩, a, ha⟩
      · rw [ha]
        exact feed_spec hassembled chunk
      · rw [ha, Lines.complete_append]
        exact .inr ⟨⟨line, List.mem_append_left _ hline, hdeep⟩, a, rfl⟩

end LineAssembler

/-! ## What a text should come to -/

/-- The white space of `bytes.strip()`: a space, and the bytes from the tab to the return. -/
def whiteSpace : Bytes := [32, 9, 10, 11, 12, 13]

/-- A segment is `core` between white space, and `core` neither begins nor ends with any. -/
def Strips (segment core : Bytes) : Prop :=
  ∃ before after, segment = before ++ core ++ after ∧ (∀ b ∈ before ++ after, b ∈ whiteSpace) ∧
    (∀ b, core.head? = some b → b ∉ whiteSpace) ∧ ∀ b, core.getLast? = some b → b ∉ whiteSpace

/-- What a segment of a text should come to. There is nothing that one should come to for which
`json.loads` raises a `RecursionError`. -/
inductive Segment (loads : Loads) (segment : Bytes) : Option ImportedRecord → Prop
  | blank : Strips segment [] → Segment loads segment none
  | unparsable {core : Bytes} : Strips segment core → core ≠ [] → loads core = .valueError →
      Segment loads segment none
  | record {core : Bytes} {members : List (PyStr × Json)} {companyName : PyStr} :
      Strips segment core → core ≠ [] → loads core = .value (.object members) →
      Json.get? members companyNameKey = some (.string companyName) →
      Segment loads segment (some ⟨companyName⟩)
  | other {core : Bytes} {parsed : Json} : Strips segment core → core ≠ [] →
      loads core = .value parsed →
      (∀ members companyName, parsed = .object members →
        Json.get? members companyNameKey ≠ some (.string companyName)) →
      Segment loads segment none

/-- Streaming is splitting: between feeds the buffer is what follows the last newline so far, and
`finish` leaves an empty buffer and what the segments of the whole text come to, in order. -/
def Assembles (loads : Loads) (chunks : List Bytes) : Prop :=
  (∀ fed, fed <+: chunks → ∃ a, LineAssembler.feedAll loads fed = .ok a ∧
    a.buffer = fed.flatten.rtakeWhile (· != newline)) ∧
  ∃ a a' taken, LineAssembler.feedAll loads chunks = .ok a ∧ a.finish loads = .ok a' ∧
    a'.buffer = [] ∧ a'.records = taken.reduceOption ∧
    List.Forall₂ (Segment loads) (chunks.flatten.splitOn newline) taken

section
variable {loads : Loads} {chunks : List Bytes} {segment core : Bytes}
  {taken : Option ImportedRecord}

theorem isSpace_iff (b : UInt8) : isSpace b = true ↔ b ∈ whiteSpace := by
  simp only [isSpace, whiteSpace, decide_eq_true_eq, List.mem_cons, List.not_mem_nil, or_false,
    ← UInt8.toNat_inj, UInt8.le_iff_toNat_le]
  simp only [UInt8.reduceToNat]
  omega

/-- A segment strips to what `strip` leaves of it. -/
theorem strips_iff : Strips segment core ↔ strip segment = core := by
  have htrim : strip segment = core ↔ _ := Lines.trim_eq_iff
  rw [htrim]
  simp only [Strips, ← isSpace_iff, Bool.not_eq_true]

theorem strips_strip (segment : Bytes) : Strips segment (strip segment) := strips_iff.mpr rfl

/-- **One segment.** It comes to the record that is on it, unless it is too deep. -/
theorem segment_iff : Segment loads segment taken ↔
    ¬ TooDeep loads segment ∧ taken = recordOf loads segment := by
  constructor
  · intro h
    cases h with
    | blank hstrips =>
        have hblank := strips_iff.mp hstrips
        exact ⟨fun hdeep => hdeep.1 hblank, by simp [recordOf, hblank]⟩
    | unparsable hstrips hne hloads =>
        obtain rfl := strips_iff.mp hstrips
        refine ⟨fun hdeep => ?_, by simp [recordOf, hloads]⟩
        rw [hdeep.2] at hloads
        cases hloads
    | record hstrips hne hloads hname =>
        obtain rfl := strips_iff.mp hstrips
        refine ⟨fun hdeep => ?_, by simp [recordOf, hne, hloads, Json.companyName?, hname]⟩
        rw [hdeep.2] at hloads
        cases hloads
    | @other _ parsed hstrips hne hloads hother =>
        obtain rfl := strips_iff.mp hstrips
        have hnone : parsed.companyName? = none := by
          unfold Json.companyName?
          split
          · next members =>
              split
              · next name hname => exact absurd hname (hother members name rfl)
              all_goals rfl
          all_goals rfl
        refine ⟨fun hdeep => ?_, by simp [recordOf, hne, hloads, hnone]⟩
        rw [hdeep.2] at hloads
        cases hloads
  · rintro ⟨hshallow, rfl⟩
    by_cases hblank : strip segment = []
    · rw [recordOf, if_pos hblank]
      exact .blank (strips_iff.mpr hblank)
    · rw [recordOf, if_neg hblank]
      have hstrips := strips_strip segment
      cases hloads : loads (strip segment) with
      | valueError => exact .unparsable hstrips hblank hloads
      | recursionError => exact absurd ⟨hblank, hloads⟩ hshallow
      | value parsed =>
          simp only
          cases hname : parsed.companyName? with
          | none =>
              refine .other hstrips hblank hloads fun members name hobject hget => ?_
              rw [hobject, Json.companyName?, hget] at hname
              cases hname
          | some name =>
              unfold Json.companyName? at hname
              split at hname
              · next members =>
                  split at hname
                  · next hget =>
                      cases hname
                      exact .record hstrips hblank hloads hget
                  all_goals cases hname
              all_goals cases hname

/-- The segments of a text, one by one. -/
theorem forall₂_segment_iff {segments : List Bytes} {taken : List (Option ImportedRecord)} :
    List.Forall₂ (Segment loads) segments taken ↔
      (∀ segment ∈ segments, ¬ TooDeep loads segment) ∧ taken = segments.map (recordOf loads) := by
  induction segments generalizing taken with
  | nil => simp
  | cons segment segments ih =>
      cases taken with
      | nil => simp
      | cons record taken =>
          rw [List.forall₂_cons, ih, segment_iff, List.forall_mem_cons, List.map_cons,
            List.cons.injEq]
          exact and_and_and_comm

theorem recordsOf_eq (loads : Loads) (text : Bytes) :
    recordsOf loads text = ((text.splitOn newline).map (recordOf loads)).reduceOption := by
  rw [List.reduceOption, List.filterMap_map]
  rfl

/-- **Streaming is splitting, exactly when no line is too deep.** -/
theorem assembles_iff (loads : Loads) (chunks : List Bytes) :
    Assembles loads chunks ↔ ∀ segment ∈ chunks.flatten.splitOn newline, ∀ core,
      Strips segment core → core ≠ [] → loads core ≠ .recursionError := by
  have hdeep : (∀ segment ∈ chunks.flatten.splitOn newline, ∀ core,
      Strips segment core → core ≠ [] → loads core ≠ .recursionError) ↔
      ∀ segment ∈ chunks.flatten.splitOn newline, ¬ TooDeep loads segment := by
    refine forall₂_congr fun segment _ => ⟨fun h hdeep => ?_, fun h core hstrips hne hloads => ?_⟩
    · exact h _ (strips_strip segment) hdeep.1 hdeep.2
    · obtain rfl := strips_iff.mp hstrips
      exact h ⟨hne, hloads⟩
  rw [hdeep]
  constructor
  · rintro ⟨-, -, -, taken, -, -, -, -, hall⟩
    exact (forall₂_segment_iff.mp hall).1
  · intro hshallow
    refine ⟨fun fed hfed => ?_, ?_⟩
    · -- the complete lines of what has been fed are lines of the whole text
      obtain ⟨rest, rfl⟩ := hfed
      rcases LineAssembler.feedAll_spec loads fed with ⟨a, ha, hassembled⟩ | ⟨⟨line, hline, hd⟩, -⟩
      · exact ⟨a, ha, hassembled.buffer.trans (Lines.rest_eq_rtakeWhile _)⟩
      · refine absurd hd (hshallow line ?_)
        rw [List.flatten_append, Lines.splitOn_append]
        exact List.mem_append_left _ hline
    · rcases LineAssembler.feedAll_spec loads chunks with
        ⟨a, ha, hassembled⟩ | ⟨⟨line, hline, hd⟩, -⟩
      · rcases LineAssembler.finish_spec hassembled with ⟨-, hfinish⟩ | ⟨hd, -⟩
        · exact ⟨a, _, _, ha, hfinish, rfl, recordsOf_eq loads _,
            forall₂_segment_iff.mpr ⟨hshallow, rfl⟩⟩
        · refine absurd hd (hshallow _ ?_)
          rw [← Lines.complete_append_rest]
          exact List.mem_append_right _ List.mem_cons_self
      · refine absurd hd (hshallow line ?_)
        rw [← Lines.complete_append_rest]
        exact List.mem_append_left _ hline

end

/-- A text of `n` opening brackets. -/
def nested (n : ℕ) : Bytes := List.replicate n 91

/-- `json.loads` on brackets alone: so many of them are too deep. -/
def nestedLoads (n : ℕ) : Loads := fun text =>
  if text = nested n then .recursionError else .valueError

theorem newline_not_mem_nested (n : ℕ) : newline ∉ nested n := by
  intro h
  cases List.eq_of_mem_replicate h

theorem strip_nested (n : ℕ) : strip (nested n) = nested n := by
  refine strips_iff.mp ⟨[], [], by simp, by simp, fun b hb => ?_, fun b hb => ?_⟩
  · rw [List.eq_of_mem_replicate (List.mem_of_head? hb)]
    decide
  · rw [List.eq_of_mem_replicate (List.mem_of_getLast? hb)]
    decide

theorem tooDeep_nested (n : ℕ) : TooDeep (nestedLoads (n + 1)) (nested (n + 1)) := by
  rw [TooDeep, strip_nested]
  exact ⟨List.cons_ne_nil _ _, if_pos rfl⟩

/-- A line of brackets, and its newline. -/
theorem mem_complete_nested (n : ℕ) :
    nested n ∈ Lines.complete newline (nested n ++ [newline]) := by
  rw [(Lines.complete_append_cons (newline_not_mem_nested n)).1]
  exact List.mem_cons_self

/-- Sixty thousand brackets and a newline raise a `RecursionError`. -/
theorem nested_is_not_assembled :
    ¬ Assembles (nestedLoads 60000) [nested 60000 ++ [newline]] := by
  rintro ⟨-, a, a', taken, hfeed, -⟩
  rcases LineAssembler.feedAll_spec (nestedLoads 60000) [nested 60000 ++ [newline]] with
    ⟨a', -, hassembled⟩ | ⟨-, a', herror⟩
  · exact hassembled.shallow _ (by simpa using mem_complete_nested 60000) (tooDeep_nested 59999)
  · cases hfeed.symm.trans herror

end Limitless
