import Limitless.Expansion.Records
import Limitless.Secure.Capacity

/-!
# Reading a body within its bound

`secure/bounds.py`'s `read_bounded_body`: a declared `Content-Length` is looked at first, and then
the bytes are counted as they arrive. `BodyRead` is how a reading ends, with the chunks it holds by
then and those it has not read. `readLoop_fits` and `readLoop_exceeds` are the loop, whatever has
come before.

A header value is a string of code points up to U+00FF. `str.isdigit` and `int` do not agree on
those: a superscript is a digit that `int` does not convert, and neither does it convert more digits
than the interpreter's limit. The declared length is guarded by the one and converted by the other,
so the reader keeps its promise exactly for the headers that are `Convertible`.
-/

namespace Limitless

/-! ## The declared length -/

/-- A header value, decoded as Latin-1: each byte is a code point. -/
abbrev HeaderValue := List UInt8

/-- A decimal digit up to U+00FF. -/
def isAsciiDigit (c : UInt8) : Bool := 48 ≤ c ∧ c ≤ 57

/-- A digit up to U+00FF: a decimal one, or one of the superscripts two, three and one. -/
def isDigitCharacter (c : UInt8) : Bool := isAsciiDigit c ∨ c = 0xB2 ∨ c = 0xB3 ∨ c = 0xB9

/-- `str.isdigit`. -/
def isdigit (s : HeaderValue) : Bool := s ≠ [] ∧ s.all isDigitCharacter

/-- The value of decimal digits. -/
def decimalValue (s : HeaderValue) : ℕ := s.foldl (fun n c => 10 * n + (c.toNat - 48)) 0

/-- `sys.int_info.default_max_str_digits`. -/
def intMaxStrDigits : ℕ := 4300

/-- The `ValueError`s of `int`. -/
inductive IntError
  | invalidLiteral (literal : HeaderValue)
  | tooManyDigits (digits : ℕ)
  deriving DecidableEq, Repr

/-- `int`, on a string that `isdigit` accepts. -/
def int (s : HeaderValue) : Except IntError ℕ :=
  if s.all isAsciiDigit then
    if s.length > intMaxStrDigits then .error (.tooManyDigits s.length) else .ok (decimalValue s)
  else .error (.invalidLiteral s)

/-- `declared is not None and declared.isdigit() and int(declared) > max_bytes`. -/
def declaresMore (maxBytes : ℕ) : Option HeaderValue → Except IntError Bool
  | none => .ok false
  | some declared =>
    if isdigit declared then (int declared).map fun n => n > maxBytes else .ok false

/-! ## The reader -/

/-- What `read_bounded_body` raises. -/
inductive BodyError
  | limitReached (kind : RefusalKind) (operation : RefusedOperation)
  | valueError (error : IntError)
  deriving DecidableEq, Repr

/-- The refusal of a body that is too large. -/
def BodyError.tooLarge (operation : RefusedOperation) : BodyError :=
  .limitReached .inputTooLarge operation

/-- How a reading ends. -/
structure BodyRead where
  outcome : Except BodyError Bytes
  /-- The local `chunks`. -/
  chunks : List Bytes
  /-- What has not been read of the stream. -/
  unread : List Bytes
  deriving DecidableEq

/-- The loop over the stream, with the locals `chunks` and `total`. -/
def readLoop (maxBytes : ℕ) (operation : RefusedOperation) (chunks : List Bytes) (total : ℕ) :
    List Bytes → BodyRead
  | [] => ⟨.ok chunks.flatten, chunks, []⟩
  | chunk :: rest =>
    if total + chunk.length > maxBytes then ⟨.error (.tooLarge operation), chunks, rest⟩
    else readLoop maxBytes operation (chunks ++ [chunk]) (total + chunk.length) rest

/-- `read_bounded_body`. -/
def readBoundedBody (maxBytes : ℕ) (operation : RefusedOperation) (declared : Option HeaderValue)
    (stream : List Bytes) : BodyRead :=
  match declaresMore maxBytes declared with
  | .error e => ⟨.error (.valueError e), [], stream⟩
  | .ok true => ⟨.error (.tooLarge operation), [], stream⟩
  | .ok false => readLoop maxBytes operation [] 0 stream

variable {maxBytes total : ℕ} {operation : RefusedOperation} {chunks stream : List Bytes}
  {declared : Option HeaderValue} {s : HeaderValue}

/-! ## The loop -/

/-- What fits is returned whole. -/
theorem readLoop_fits (htotal : total = chunks.flatten.length)
    (h : total + stream.flatten.length ≤ maxBytes) :
    readLoop maxBytes operation chunks total stream =
      ⟨.ok (chunks ++ stream).flatten, chunks ++ stream, []⟩ := by
  induction stream generalizing chunks total with
  | nil => rw [readLoop, List.append_nil]
  | cons chunk rest ih =>
      rw [List.flatten_cons, List.length_append] at h
      rw [readLoop, if_neg (by omega), ih (by simp [htotal]) (by omega), List.append_assoc,
        List.singleton_append]

/-- What does not fit is refused at the first chunk that goes over, which is not kept. -/
theorem readLoop_exceeds (htotal : total = chunks.flatten.length) (hfits : total ≤ maxBytes)
    (h : maxBytes < total + stream.flatten.length) :
    ∃ fits chunk rest, stream = fits ++ chunk :: rest ∧
      (chunks ++ fits).flatten.length ≤ maxBytes ∧
      maxBytes < (chunks ++ (fits ++ [chunk])).flatten.length ∧
      readLoop maxBytes operation chunks total stream =
        ⟨.error (.tooLarge operation), chunks ++ fits, rest⟩ := by
  induction stream generalizing chunks total with
  | nil =>
      rw [List.flatten_nil, List.length_nil] at h
      omega
  | cons chunk rest ih =>
      by_cases hover : total + chunk.length > maxBytes
      · refine ⟨[], chunk, rest, rfl, ?_, ?_, ?_⟩
        · rwa [List.append_nil, ← htotal]
        · rwa [List.nil_append, List.flatten_append, List.length_append, ← htotal,
            List.flatten_singleton]
        · rw [readLoop, if_pos hover, List.append_nil]
      · rw [List.flatten_cons, List.length_append] at h
        have hnext : total + chunk.length = (chunks ++ [chunk]).flatten.length := by simp [htotal]
        obtain ⟨fits, last, rest', rfl, hle, hlt, hread⟩ := ih hnext (by omega) (by omega)
        rw [List.append_assoc, List.singleton_append] at hle hlt
        refine ⟨chunk :: fits, last, rest', rfl, hle, hlt, ?_⟩
        rw [readLoop, if_neg hover, hread, List.append_assoc, List.singleton_append]

/-! ## What the guard lets through -/

/-- A declared length that `int` converts if it is asked to. -/
def Convertible (declared : Option HeaderValue) : Prop :=
  ∀ s, declared = some s → isdigit s = true → s.all isAsciiDigit = true ∧ s.length ≤ intMaxStrDigits

/-- The header is an ASCII digit string above the bound. -/
def AdmitsMore (maxBytes : ℕ) (declared : Option HeaderValue) : Prop :=
  ∃ s, declared = some s ∧ s.all isAsciiDigit = true ∧ maxBytes < decimalValue s

/-- Decimal digits are digits. -/
theorem isdigit_of_decimal (hne : s ≠ []) (h : s.all isAsciiDigit = true) : isdigit s = true := by
  simp only [isdigit, decide_eq_true_eq]
  refine ⟨hne, List.all_eq_true.mpr fun c hc => ?_⟩
  simp [isDigitCharacter, List.all_eq_true.mp h c hc]

/-- A declared length that converts is compared with the bound. -/
theorem declaresMore_of_convertible (maxBytes : ℕ) (h : Convertible declared) :
    ∃ more, declaresMore maxBytes declared = .ok more ∧
      (more = true ↔ AdmitsMore maxBytes declared) := by
  cases declared with
  | none => exact ⟨false, rfl, by simp [AdmitsMore]⟩
  | some s =>
      by_cases hdigit : isdigit s = true
      · obtain ⟨hall, hlength⟩ := h s rfl hdigit
        refine ⟨decide (decimalValue s > maxBytes), ?_, ?_⟩
        · simp only [declaresMore, hdigit, if_true, int, hall, if_neg (Nat.not_lt.mpr hlength)]
          rfl
        · simpa [AdmitsMore] using fun _ => List.all_eq_true.mp hall
      · refine ⟨false, if_neg hdigit, ?_⟩
        simp only [Bool.false_eq_true, false_iff]
        rintro ⟨s', hs', hall, hlt⟩
        cases hs'
        refine hdigit (isdigit_of_decimal ?_ hall)
        rintro rfl
        exact absurd hlt (Nat.not_lt_zero _)

/-- One that does not is an error. -/
theorem declaresMore_of_not_convertible (maxBytes : ℕ) (h : ¬ Convertible declared) :
    ∃ e, declaresMore maxBytes declared = .error e := by
  simp only [Convertible, not_forall, not_and, Nat.not_le] at h
  obtain ⟨s, rfl, hdigit, hbad⟩ := h
  simp only [declaresMore, hdigit, if_true, int]
  by_cases hall : s.all isAsciiDigit = true
  · rw [if_pos hall, if_pos (hbad hall)]
    exact ⟨_, rfl⟩
  · rw [if_neg hall]
    exact ⟨_, rfl⟩

/-- More digits than `int` converts. -/
theorem not_convertible_of_length (hall : s.all isAsciiDigit = true)
    (hlength : intMaxStrDigits < s.length) : ¬ Convertible (some s) := by
  intro h
  have hdigit : isdigit s = true := isdigit_of_decimal (by rintro rfl; cases hlength) hall
  exact absurd (h s rfl hdigit).2 (Nat.not_le.mpr hlength)

/-- Zeros are worth nothing. -/
theorem decimalValue_replicate_zero (n : ℕ) : decimalValue (List.replicate n 48) = 0 := by
  unfold decimalValue
  induction n with
  | zero => rfl
  | succ n ih => rwa [List.replicate_succ, List.foldl_cons]

/-! ## The promise -/

/-- What is promised of a reading: a header that admits too much costs no chunk, and otherwise the
body is returned exactly when it fits, and is refused at the shortest prefix that does not. -/
structure KeepsBound (maxBytes : ℕ) (operation : RefusedOperation) (declared : Option HeaderValue)
    (stream : List Bytes) (read : BodyRead) : Prop where
  admitted : AdmitsMore maxBytes declared →
    read.outcome = .error (.tooLarge operation) ∧ read.unread = stream
  returned : ¬ AdmitsMore maxBytes declared →
    (read.outcome = .ok stream.flatten ↔ stream.flatten.length ≤ maxBytes)
  refused : ¬ AdmitsMore maxBytes declared → maxBytes < stream.flatten.length →
    read.outcome = .error (.tooLarge operation) ∧
      ∃ consumed, stream = consumed ++ read.unread ∧ maxBytes < consumed.flatten.length ∧
        ∀ p, p <+: stream → maxBytes < p.flatten.length → consumed <+: p
  held : read.chunks.flatten.length ≤ maxBytes

/-- A longer prefix of a stream has no fewer bytes. -/
theorem length_flatten_le {p q : List Bytes} (h : p <+: q) :
    p.flatten.length ≤ q.flatten.length := by
  obtain ⟨r, rfl⟩ := h
  rw [List.flatten_append, List.length_append]
  omega

theorem readLoop_keepsBound (h : ¬ AdmitsMore maxBytes declared) :
    KeepsBound maxBytes operation declared stream (readLoop maxBytes operation [] 0 stream) := by
  have hzero : 0 = ([] : List Bytes).flatten.length := rfl
  by_cases hfits : stream.flatten.length ≤ maxBytes
  · have hread : readLoop maxBytes operation [] 0 stream = ⟨.ok stream.flatten, stream, []⟩ :=
      readLoop_fits hzero (by rwa [Nat.zero_add])
    rw [hread]
    exact ⟨fun hmore => absurd hmore h, fun _ => ⟨fun _ => hfits, fun _ => rfl⟩,
      fun _ hlt => absurd hfits (by omega), hfits⟩
  · have hover : maxBytes < 0 + stream.flatten.length := by omega
    obtain ⟨fits, chunk, rest, hstream, hle, hlt, hread⟩ : ∃ fits chunk rest,
        stream = fits ++ chunk :: rest ∧ fits.flatten.length ≤ maxBytes ∧
        maxBytes < (fits ++ [chunk]).flatten.length ∧ readLoop maxBytes operation [] 0 stream =
          ⟨.error (.tooLarge operation), fits, rest⟩ :=
      readLoop_exceeds hzero (Nat.zero_le maxBytes) hover
    rw [hread]
    refine ⟨fun hmore => absurd hmore h, fun _ => ⟨fun hok => (by cases hok), fun hle => ?_⟩,
      fun _ _ => ⟨rfl, fits ++ [chunk], by simp [hstream], hlt, fun p hp hover => ?_⟩, hle⟩
    · exact absurd hle hfits
    · -- a prefix that is over the bound is longer than the chunks that fit
      have hchunk : fits ++ [chunk] <+: stream := ⟨rest, by simp [hstream]⟩
      refine List.prefix_of_prefix_length_le hchunk hp ?_
      rw [List.length_append, List.length_singleton]
      by_contra hshort
      have hfit : p <+: fits :=
        List.prefix_of_prefix_length_le hp ⟨chunk :: rest, hstream.symm⟩ (by omega)
      exact absurd (length_flatten_le hfit) (by simpa using hle.trans_lt hover)

/-- What cannot be converted is raised, whatever the body. -/
theorem readBoundedBody_of_not_convertible (maxBytes : ℕ) (operation : RefusedOperation)
    (stream : List Bytes) (h : ¬ Convertible declared) :
    ∃ e, readBoundedBody maxBytes operation declared stream =
      ⟨.error (.valueError e), [], stream⟩ := by
  obtain ⟨e, he⟩ := declaresMore_of_not_convertible maxBytes h
  exact ⟨e, by rw [readBoundedBody, he]⟩

/-- What can be is refused, or leaves the reading to the loop. -/
theorem readBoundedBody_of_convertible (maxBytes : ℕ) (operation : RefusedOperation)
    (stream : List Bytes) (h : Convertible declared) :
    AdmitsMore maxBytes declared ∧ readBoundedBody maxBytes operation declared stream =
        ⟨.error (.tooLarge operation), [], stream⟩ ∨
      ¬ AdmitsMore maxBytes declared ∧ readBoundedBody maxBytes operation declared stream =
        readLoop maxBytes operation [] 0 stream := by
  obtain ⟨more, hmore, hiff⟩ := declaresMore_of_convertible maxBytes h
  rw [readBoundedBody, hmore]
  cases more with
  | true => exact .inl ⟨hiff.mp rfl, rfl⟩
  | false => exact .inr ⟨fun h => (by cases hiff.mpr h), rfl⟩

/-- A header that converts leaves the promise to the early refusal and the loop. -/
theorem readBoundedBody_keepsBound (operation : RefusedOperation) (stream : List Bytes)
    (h : Convertible declared) :
    KeepsBound maxBytes operation declared stream
      (readBoundedBody maxBytes operation declared stream) := by
  rcases readBoundedBody_of_convertible maxBytes operation stream h with
    ⟨hmore, hread⟩ | ⟨hmore, hread⟩
  · rw [hread]
    exact ⟨fun _ => ⟨rfl, rfl⟩, fun h => absurd hmore h, fun h => absurd hmore h, Nat.zero_le _⟩
  · rw [hread]
    exact readLoop_keepsBound hmore

/-- An unexpected error breaks the promise. -/
theorem not_keepsBound_of_valueError {e : IntError} {unread : List Bytes} :
    ¬ KeepsBound maxBytes operation declared stream ⟨.error (.valueError e), chunks, unread⟩ := by
  intro hkeeps
  by_cases hmore : AdmitsMore maxBytes declared
  · cases (hkeeps.admitted hmore).1
  by_cases hfits : stream.flatten.length ≤ maxBytes
  · cases (hkeeps.returned hmore).mpr hfits
  · cases (hkeeps.refused hmore (by omega)).1

/-- **A body is read within its bound**, whatever the chunks and whatever the header claims, if and
only if the header is one that `int` converts when it is asked to. -/
theorem keepsBound_iff (maxBytes : ℕ) (operation : RefusedOperation)
    (declared : Option HeaderValue) (stream : List Bytes) :
    KeepsBound maxBytes operation declared stream
      (readBoundedBody maxBytes operation declared stream) ↔ Convertible declared := by
  constructor
  · intro hkeeps
    by_contra hnot
    obtain ⟨e, he⟩ := readBoundedBody_of_not_convertible maxBytes operation stream hnot
    rw [he] at hkeeps
    exact not_keepsBound_of_valueError hkeeps
  · exact readBoundedBody_keepsBound operation stream

/-- A declared length of zero, written with one digit more than `int` converts, is not above any
bound. The body is not returned. -/
theorem not_keepsBound_of_leading_zeros :
    ¬ AdmitsMore 64 (some (List.replicate 4301 48)) ∧
      ¬ KeepsBound 64 .enrich (some (List.replicate 4301 48)) [[97, 98, 99]]
        (readBoundedBody 64 .enrich (some (List.replicate 4301 48)) [[97, 98, 99]]) := by
  constructor
  · rintro ⟨s, hs, -, hmore⟩
    cases hs
    rw [decimalValue_replicate_zero] at hmore
    exact absurd hmore (by decide)
  · have hnot : ¬ Convertible (some (List.replicate 4301 48)) := not_convertible_of_length
      (List.all_eq_true.mpr fun c hc => by rw [List.eq_of_mem_replicate hc]; rfl)
      (by rw [List.length_replicate]; decide)
    obtain ⟨e, he⟩ := readBoundedBody_of_not_convertible 64 .enrich [[97, 98, 99]] hnot
    rw [he]
    exact not_keepsBound_of_valueError

/-! ## What escapes the reader -/

/-- A body within the bound is returned, or a `LimitReachedError` is raised. -/
def ReturnsOrRefuses (maxBytes : ℕ) (outcome : Except BodyError Bytes) : Prop :=
  (∃ body, outcome = .ok body ∧ body.length ≤ maxBytes) ∨
    ∃ kind operation, outcome = .error (.limitReached kind operation)

/-- What keeps the bound returns or refuses. -/
theorem KeepsBound.returnsOrRefuses {read : BodyRead}
    (h : KeepsBound maxBytes operation declared stream read) :
    ReturnsOrRefuses maxBytes read.outcome := by
  by_cases hmore : AdmitsMore maxBytes declared
  · exact .inr ⟨_, _, (h.admitted hmore).1⟩
  by_cases hfits : stream.flatten.length ≤ maxBytes
  · exact .inl ⟨_, (h.returned hmore).mpr hfits, hfits⟩
  · exact .inr ⟨_, _, (h.refused hmore (by omega)).1⟩

/-- **The reader returns or refuses**, and no other exception escapes it, if and only if the header
is one that `int` converts when it is asked to. -/
theorem returnsOrRefuses_iff (maxBytes : ℕ) (operation : RefusedOperation)
    (declared : Option HeaderValue) (stream : List Bytes) :
    ReturnsOrRefuses maxBytes (readBoundedBody maxBytes operation declared stream).outcome ↔
      Convertible declared := by
  constructor
  · intro hends
    by_contra hnot
    obtain ⟨e, he⟩ := readBoundedBody_of_not_convertible maxBytes operation stream hnot
    rw [he] at hends
    rcases hends with ⟨body, hbody, -⟩ | ⟨kind, op, hrefused⟩
    · cases hbody
    · cases hrefused
  · intro hconvertible
    exact (readBoundedBody_keepsBound operation stream hconvertible).returnsOrRefuses

/-- A superscript two passes the guard and is not converted: the `ValueError` escapes. -/
theorem not_returnsOrRefuses_of_superscript :
    ¬ ReturnsOrRefuses 64 (readBoundedBody 64 .enrich (some [0xB2]) [[97, 98, 99]]).outcome := by
  have hread : (readBoundedBody 64 .enrich (some [0xB2]) [[97, 98, 99]]).outcome =
      .error (.valueError (.invalidLiteral [0xB2])) := by decide
  rw [hread]
  rintro (⟨body, hbody, -⟩ | ⟨kind, op, hrefused⟩)
  · cases hbody
  · cases hrefused

end Limitless
