import Mathlib.Data.Fin.Basic
import Mathlib.Data.List.Chain
import Mathlib.Data.Nat.Notation

/-!
# JSON string literals

A text is a list of code points, among which may be surrogates. `escape` writes what stands between
the quotation marks of its literal in ASCII: those of a table by a letter, other printable characters
as they are, and the rest by UTF-16 units in hexadecimal. `scanString` reads a literal back.

A reader cannot tell a code point beyond the basic plane from the two surrogates that stand for it,
and takes it for the former. So `scanString_escape` gives back `joinSurrogates` of the text, which
is the text where no high surrogate comes right before a low one (`joinSurrogates_eq_self_iff`).
What is written is printable, so it breaks no line (`printable_of_mem_escape`), and it holds no word
that the text does not hold, if no escape can spell the word's first letter
(`isInfix_of_isInfix_escape`).
-/

namespace JsonString

/-- A code point, which may be a surrogate. -/
abbrev CodePoint := Fin 0x110000

/-- The code point of a number below `0x110000`. -/
def point (n : ℕ) : CodePoint := ⟨n % 0x110000, Nat.mod_lt n (Nat.succ_pos _)⟩

@[simp] theorem point_val (c : CodePoint) : point c.val = c :=
  Fin.ext (Nat.mod_eq_of_lt c.isLt)

theorem val_point {n : ℕ} (h : n < 0x110000) : (point n).val = n := Nat.mod_eq_of_lt h

/-! ## Surrogates -/

/-- A high surrogate. -/
def isHigh (n : ℕ) : Bool := 0xD800 ≤ n ∧ n ≤ 0xDBFF

/-- A low surrogate. -/
def isLow (n : ℕ) : Bool := 0xDC00 ≤ n ∧ n ≤ 0xDFFF

/-- The code point that a high and a low surrogate stand for. -/
def pairOf (high low : ℕ) : ℕ := 0x10000 + (high - 0xD800) * 0x400 + (low - 0xDC00)

/-- The high surrogate of a code point beyond the basic plane. -/
def highOf (n : ℕ) : ℕ := 0xD800 + (n - 0x10000) / 0x400

/-- The low surrogate of a code point beyond the basic plane. -/
def lowOf (n : ℕ) : ℕ := 0xDC00 + (n - 0x10000) % 0x400

theorem pairOf_highOf_lowOf {n : ℕ} (h : 0x10000 ≤ n) : pairOf (highOf n) (lowOf n) = n := by
  unfold pairOf highOf lowOf
  omega

theorem isHigh_highOf {n : ℕ} (h : n < 0x110000) : isHigh (highOf n) = true := by
  unfold isHigh highOf
  simp only [decide_eq_true_eq]
  omega

theorem isLow_lowOf (n : ℕ) : isLow (lowOf n) = true := by
  unfold isLow lowOf
  simp only [decide_eq_true_eq]
  omega

theorem isLow_highOf {n : ℕ} (h : n < 0x110000) : isLow (highOf n) = false := by
  unfold isLow highOf
  simp only [decide_eq_false_iff_not]
  omega

section
variable {α β : Type*} (fits : α → α → Bool) (merge : α → α → β) (one : α → β)

/-- From left to right, two neighbours that fit become one. -/
def mergePairs : List α → List β
  | [] => []
  | [a] => [one a]
  | a :: b :: l =>
    if fits a b then merge a b :: mergePairs l else one a :: mergePairs (b :: l)

variable {fits merge one} {a b : α} {l : List α}

theorem mergePairs_of_fits (h : fits a b = true) :
    mergePairs fits merge one (a :: b :: l) = merge a b :: mergePairs fits merge one l := by
  rw [mergePairs, if_pos h]

theorem mergePairs_of_not_fits (h : ∀ b ∈ l.head?, fits a b = false) :
    mergePairs fits merge one (a :: l) = one a :: mergePairs fits merge one l := by
  cases l with
  | nil => rfl
  | cons b l => rw [mergePairs, if_neg (by simp [h b rfl])]

theorem length_mergePairs_le (l : List α) : (mergePairs fits merge one l).length ≤ l.length := by
  fun_induction mergePairs fits merge one l <;> simp only [List.length_cons, List.length_nil] at *
  all_goals omega

/-- The length stays where no neighbours fit. -/
theorem length_mergePairs_eq_iff (l : List α) :
    (mergePairs fits merge one l).length = l.length ↔
      l.IsChain (fun a b => fits a b = false) := by
  fun_induction mergePairs fits merge one l with
  | case1 => simp
  | case2 => simp
  | case3 a b l h ih =>
      have hle : (mergePairs fits merge one l).length ≤ l.length := length_mergePairs_le l
      rw [List.isChain_cons_cons, h]
      simp only [List.length_cons]
      constructor
      · omega
      · rintro ⟨⟨⟩, -⟩
  | case4 a b l h ih =>
      rw [List.isChain_cons_cons, ← ih]
      simp only [List.length_cons, Nat.add_right_cancel_iff]
      exact ⟨fun hlength => ⟨by simpa using h, hlength⟩, And.right⟩

theorem mergePairs_of_isChain (h : l.IsChain (fun a b => fits a b = false)) :
    mergePairs fits merge one l = l.map one := by
  induction l with
  | nil => rfl
  | cons a l ih =>
      obtain ⟨hhead, htail⟩ := List.isChain_cons.mp h
      rw [mergePairs_of_not_fits hhead, ih htail, List.map_cons]

end

/-- A high surrogate and a low one. -/
def isPair (a b : CodePoint) : Bool := isHigh a.val && isLow b.val

/-- A text with each pair of surrogates as the code point it stands for. -/
def joinSurrogates : List CodePoint → List CodePoint :=
  mergePairs isPair (fun a b => point (pairOf a.val b.val)) id

/-- A text without a pair of surrogates. -/
def Unpaired (s : List CodePoint) : Prop := s.IsChain fun a b => isPair a b = false

theorem joinSurrogates_eq_self_iff {s : List CodePoint} : joinSurrogates s = s ↔ Unpaired s := by
  constructor
  · intro h
    exact (length_mergePairs_eq_iff s).mp (congrArg List.length h)
  · intro h
    exact (mergePairs_of_isChain h).trans s.map_id

/-- A text without a high surrogate has no pair. -/
theorem Unpaired.of_forall {s : List CodePoint} (h : ∀ c ∈ s, isHigh c.val = false) :
    Unpaired s := by
  induction s with
  | nil => exact List.IsChain.nil
  | cons c s ih =>
      obtain ⟨hc, hs⟩ := List.forall_mem_cons.mp h
      exact List.isChain_cons.mpr ⟨fun b _ => by rw [isPair, hc, Bool.false_and], ih hs⟩

/-! ## Writing -/

/-- A hexadecimal digit, in lower case. -/
def hexDigit (d : ℕ) : CodePoint := if d < 10 then point (48 + d) else point (87 + d)

/-- A UTF-16 unit in four hexadecimal digits. -/
def hex4 (v : ℕ) : List CodePoint :=
  [hexDigit (v / 4096 % 16), hexDigit (v / 256 % 16), hexDigit (v / 16 % 16), hexDigit (v % 16)]

/-- The quotation mark, `U+0022`. -/
def quotationMark : CodePoint := point 34

/-- The reverse solidus, `U+005C`. -/
def reverseSolidus : CodePoint := point 92

/-- The letter `u`. -/
def letterU : CodePoint := point 117

/-- The characters that have a letter, each with its letter: the quotation mark and the reverse
solidus, newline, carriage return, tab, form feed and backspace. -/
def shortEscapes : List (ℕ × ℕ) :=
  [(34, 34), (92, 92), (10, 110), (13, 114), (9, 116), (12, 102), (8, 98)]

/-- The letter of a character. -/
def letter? (n : ℕ) : Option ℕ := (shortEscapes.find? fun e => e.1 = n).map Prod.snd

/-- A UTF-16 unit as an escape. -/
def escapeUnit (v : ℕ) : List CodePoint := reverseSolidus :: letterU :: hex4 v

/-- A code point, written in ASCII. -/
def escapePoint (c : CodePoint) : List CodePoint :=
  match letter? c.val with
  | some letter => [reverseSolidus, point letter]
  | none =>
    if 32 ≤ c.val ∧ c.val ≤ 126 then [c]
    else if c.val < 0x10000 then escapeUnit c.val
    else escapeUnit (highOf c.val) ++ escapeUnit (lowOf c.val)

/-- What stands between the quotation marks of the literal of a text. -/
def escape (s : List CodePoint) : List CodePoint := s.flatMap escapePoint

/-- The literal of a text. -/
def quote (s : List CodePoint) : List CodePoint := quotationMark :: escape s ++ [quotationMark]

/-! ## Reading -/

/-- The value of a hexadecimal digit, in either case. -/
def hexValue? (c : CodePoint) : Option ℕ :=
  if 48 ≤ c.val ∧ c.val ≤ 57 then some (c.val - 48)
  else if 97 ≤ c.val ∧ c.val ≤ 102 then some (c.val - 87)
  else if 65 ≤ c.val ∧ c.val ≤ 70 then some (c.val - 55)
  else none

/-- The value of four hexadecimal digits. -/
def readHex4 (a b c d : CodePoint) : Option ℕ :=
  match hexValue? a, hexValue? b, hexValue? c, hexValue? d with
  | some a, some b, some c, some d => some (((a * 16 + b) * 16 + c) * 16 + d)
  | _, _, _, _ => none

/-- The character of a letter. The solidus may be escaped too. -/
def unletter? (letter : ℕ) : Option ℕ :=
  (((47, 47) :: shortEscapes).find? fun e => e.2 = letter).map Prod.fst

/-- A piece of a literal: a character, or a UTF-16 unit by its number. -/
structure Piece where
  escaped : Bool
  value : ℕ
  deriving DecidableEq, Repr

/-- The pieces of a literal up to its closing quotation mark, and what follows that. -/
def readPieces : List CodePoint → Option (List Piece × List CodePoint)
  | [] => none
  | c :: s =>
    if c = quotationMark then some ([], s)
    else if c = reverseSolidus then
      match s with
      | [] => none
      | e :: s =>
        if e = letterU then
          match s with
          | a :: b :: c :: d :: s =>
            match readHex4 a b c d with
            | none => none
            | some v => (readPieces s).map fun r => (⟨true, v⟩ :: r.1, r.2)
          | _ => none
        else
          match unletter? e.val with
          | none => none
          | some n => (readPieces s).map fun r => (⟨false, n⟩ :: r.1, r.2)
    -- a control character
    else if c.val < 32 then none
    else (readPieces s).map fun r => (⟨false, c.val⟩ :: r.1, r.2)

/-- Two units that stand for one code point. -/
def Piece.isPair (p q : Piece) : Bool :=
  p.escaped && q.escaped && isHigh p.value && isLow q.value

/-- The text of the pieces of a literal. -/
def decodePieces : List Piece → List CodePoint :=
  mergePairs Piece.isPair (fun p q => point (pairOf p.value q.value)) fun p => point p.value

/-- The text of a literal after its opening quotation mark, and what follows the literal. -/
def scanString (s : List CodePoint) : Option (List CodePoint × List CodePoint) :=
  (readPieces s).map fun r => (decodePieces r.1, r.2)

/-! ## Round trip -/

variable {c : CodePoint} {s t u : List CodePoint}

theorem hexDigit_val {d : ℕ} (h : d < 16) :
    (hexDigit d).val = if d < 10 then 48 + d else 87 + d := by
  unfold hexDigit
  split <;> exact val_point (by omega)

theorem hexValue?_hexDigit {d : ℕ} (h : d < 16) : hexValue? (hexDigit d) = some d := by
  unfold hexValue?
  rw [hexDigit_val h]
  split_ifs <;> first | omega | exact congrArg some (by omega)

theorem readHex4_hex4 {v : ℕ} (h : v < 0x10000) :
    readHex4 (hexDigit (v / 4096 % 16)) (hexDigit (v / 256 % 16)) (hexDigit (v / 16 % 16))
      (hexDigit (v % 16)) = some v := by
  have hv : ((v / 4096 % 16 * 16 + v / 256 % 16) * 16 + v / 16 % 16) * 16 + v % 16 = v := by omega
  simp only [readHex4, hexValue?_hexDigit (Nat.mod_lt _ (by decide : 16 > 0)), hv]

/-- A letter is read as the character it was written for, and it is not the one of a unit. -/
theorem unletter?_of_letter? {n letter : ℕ} (h : letter? n = some letter) :
    unletter? letter = some n ∧ letter ≠ 117 ∧ 32 ≤ letter ∧ letter ≤ 126 ∧ n < 0xD800 := by
  obtain ⟨e, he, rfl⟩ := Option.map_eq_some_iff.mp h
  have hn : e.1 = n := by simpa using List.find?_some he
  have htable : ∀ e ∈ shortEscapes, unletter? e.2 = some e.1 ∧ e.2 ≠ 117 ∧ 32 ≤ e.2 ∧ e.2 ≤ 126 ∧
      e.1 < 0xD800 := by decide
  exact hn ▸ htable e (List.mem_of_find?_eq_some he)

theorem letter?_eq_none {n : ℕ} (h : letter? n = none) : n ≠ 34 ∧ n ≠ 92 := by
  constructor <;> (rintro rfl; cases h)

/-- The pieces a code point is written as. -/
def piecesOf (c : CodePoint) : List Piece :=
  if (letter? c.val).isSome ∨ 32 ≤ c.val ∧ c.val ≤ 126 then [⟨false, c.val⟩]
  else if c.val < 0x10000 then [⟨true, c.val⟩]
  else [⟨true, highOf c.val⟩, ⟨true, lowOf c.val⟩]

/-- Pieces before the ones that are read. -/
def prepend (ps : List Piece) (r : List Piece × List CodePoint) :
    List Piece × List CodePoint := (ps ++ r.1, r.2)

theorem readPieces_quotationMark (s : List CodePoint) :
    readPieces (quotationMark :: s) = some ([], s) := by
  rw [readPieces.eq_def]
  exact if_pos rfl

theorem readPieces_raw (hquote : c ≠ quotationMark) (hsolidus : c ≠ reverseSolidus)
    (h : 32 ≤ c.val) (s : List CodePoint) :
    readPieces (c :: s) = (readPieces s).map (prepend [⟨false, c.val⟩]) := by
  rw [readPieces.eq_def]
  simp only [if_neg hquote, if_neg hsolidus, if_neg (Nat.not_lt.mpr h)]
  rfl

theorem readPieces_letter {n : ℕ} (hu : c ≠ letterU) (h : unletter? c.val = some n)
    (s : List CodePoint) :
    readPieces (reverseSolidus :: c :: s) = (readPieces s).map (prepend [⟨false, n⟩]) := by
  have hquote : reverseSolidus ≠ quotationMark := by decide
  rw [readPieces.eq_def]
  simp only [if_neg hquote, if_true, if_neg hu, h]
  rfl

/-- A unit is read back. -/
theorem readPieces_escapeUnit {v : ℕ} (h : v < 0x10000) (s : List CodePoint) :
    readPieces (escapeUnit v ++ s) = (readPieces s).map (prepend [⟨true, v⟩]) := by
  have hquote : reverseSolidus ≠ quotationMark := by decide
  rw [escapeUnit, hex4, readPieces.eq_def]
  simp only [List.cons_append, List.nil_append, if_neg hquote, if_true, readHex4_hex4 h]
  rfl

/-- A code point is read back as its pieces. -/
theorem readPieces_escapePoint (c : CodePoint) (s : List CodePoint) :
    readPieces (escapePoint c ++ s) = (readPieces s).map (prepend (piecesOf c)) := by
  unfold escapePoint piecesOf
  cases hletter : letter? c.val with
  | some letter =>
      obtain ⟨hun, hne, -, hle, -⟩ := unletter?_of_letter? hletter
      have hval : (point letter).val = letter := val_point (by omega)
      have hu : point letter ≠ letterU := fun h =>
        hne (hval.symm.trans ((congrArg Fin.val h).trans rfl))
      rw [← hval] at hun
      simp only [Option.isSome_some, true_or, if_true]
      exact readPieces_letter hu hun s
  | none =>
      obtain ⟨h34, h92⟩ := letter?_eq_none hletter
      simp only [Option.isSome_none, Bool.false_eq_true, false_or]
      split_ifs with hprint hbasic
      · exact readPieces_raw (fun h => h34 (congrArg Fin.val h))
          (fun h => h92 (congrArg Fin.val h)) hprint.1 s
      · exact readPieces_escapeUnit (Nat.lt_of_not_le fun h => absurd hbasic (by omega)) s
      · have hhigh : highOf c.val < 0x10000 := by
          have := c.isLt
          unfold highOf
          omega
        have hlow : lowOf c.val < 0x10000 := by
          unfold lowOf
          omega
        rw [List.append_assoc, readPieces_escapeUnit hhigh, readPieces_escapeUnit hlow,
          Option.map_map]
        rfl

theorem readPieces_escape (s t : List CodePoint) :
    readPieces (escape s ++ quotationMark :: t) = some (s.flatMap piecesOf, t) := by
  induction s with
  | nil => exact readPieces_quotationMark t
  | cons c s ih =>
      rw [escape, List.flatMap_cons, List.append_assoc, readPieces_escapePoint, ← escape, ih]
      rfl

/-- A low surrogate leads the pieces of itself only. -/
theorem isLow_of_head_piecesOf {p : Piece} (hp : p ∈ (piecesOf c).head?)
    (hescaped : p.escaped = true) (hlow : isLow p.value = true) : isLow c.val = true := by
  unfold piecesOf at hp
  split_ifs at hp
  all_goals cases hp
  · cases hescaped
  · exact hlow
  · rw [isLow_highOf c.isLt] at hlow
    cases hlow

/-- The first piece of a text is the first of its first code point. -/
theorem head_flatMap_piecesOf (c : CodePoint) (s : List CodePoint) :
    ((c :: s).flatMap piecesOf).head? = (piecesOf c).head? := by
  obtain ⟨p, ps, hps⟩ : ∃ p ps, piecesOf c = p :: ps := by
    unfold piecesOf
    split_ifs <;> exact ⟨_, _, rfl⟩
  rw [List.flatMap_cons, hps]
  rfl

/-- The pieces of a surrogate. -/
theorem piecesOf_of_surrogate (h : 0xD800 ≤ c.val) (h' : c.val < 0x10000) :
    piecesOf c = [⟨true, c.val⟩] := by
  have hletter : letter? c.val = none := by
    cases hl : letter? c.val with
    | none => rfl
    | some l =>
        obtain ⟨-, -, -, -, hlt⟩ := unletter?_of_letter? hl
        omega
  unfold piecesOf
  rw [hletter, if_neg (by simp; omega), if_pos h']

/-- The pieces of a code point stand for it, where they do not pair with what follows. -/
theorem decodePieces_piecesOf_append {ps : List Piece}
    (h : ∀ q ∈ ps.head?, (isHigh c.val && (q.escaped && isLow q.value)) = false) :
    decodePieces (piecesOf c ++ ps) = c :: decodePieces ps := by
  unfold piecesOf
  split_ifs with hraw hbasic
  · rw [List.singleton_append, decodePieces, mergePairs_of_not_fits fun _ _ => rfl, point_val]
  · have hfits : ∀ q ∈ ps.head?, Piece.isPair ⟨true, c.val⟩ q = false := by
      intro q hq
      have := h q hq
      simp only [Piece.isPair, Bool.true_and]
      grind
    rw [List.singleton_append, decodePieces, mergePairs_of_not_fits hfits, point_val]
  · have hfits : Piece.isPair ⟨true, highOf c.val⟩ ⟨true, lowOf c.val⟩ = true := by
      simp [Piece.isPair, isHigh_highOf c.isLt, isLow_lowOf]
    rw [List.cons_append, List.singleton_append, decodePieces, mergePairs_of_fits hfits,
      pairOf_highOf_lowOf (Nat.not_lt.mp hbasic), point_val]

/-- **Pieces stand for code points.** What a text is written as reads as its code points, with its
pairs of surrogates joined. -/
theorem decodePieces_flatMap (s : List CodePoint) :
    decodePieces (s.flatMap piecesOf) = joinSurrogates s := by
  unfold joinSurrogates
  induction s using mergePairs.induct isPair with
  | case1 => rfl
  | case2 c =>
      rw [List.flatMap_cons, List.flatMap_nil, decodePieces_piecesOf_append (by simp)]
      rfl
  | case3 a b l h ih =>
      obtain ⟨ha, hb⟩ := Bool.and_eq_true_iff.mp h
      have hab := And.intro ha hb
      simp only [isHigh, isLow, decide_eq_true_eq] at hab
      have hfits : Piece.isPair ⟨true, a.val⟩ ⟨true, b.val⟩ = true := by
        simp [Piece.isPair, ha, hb]
      rw [List.flatMap_cons, List.flatMap_cons, piecesOf_of_surrogate (by omega) (by omega),
        piecesOf_of_surrogate (by omega) (by omega), List.singleton_append, List.singleton_append,
        decodePieces, mergePairs_of_fits hfits, mergePairs_of_fits h, ← decodePieces, ih]
  | case4 a b l h ih =>
      have hhead : ∀ q ∈ ((b :: l).flatMap piecesOf).head?,
          (isHigh a.val && (q.escaped && isLow q.value)) = false := by
        intro q hq
        rw [head_flatMap_piecesOf] at hq
        rw [Bool.eq_false_iff]
        intro hpair
        simp only [Bool.and_eq_true] at hpair
        obtain ⟨ha, hescaped, hlow⟩ := hpair
        exact h (Bool.and_eq_true_iff.mpr ⟨ha, isLow_of_head_piecesOf hq hescaped hlow⟩)
      have hnot : ∀ d ∈ (b :: l).head?, isPair a d = false := by
        rintro d ⟨⟩
        exact Bool.eq_false_iff.mpr h
      rw [List.flatMap_cons, decodePieces_piecesOf_append hhead, mergePairs_of_not_fits hnot, ih]
      rfl

theorem quote_append (s t : List CodePoint) :
    quote s ++ t = quotationMark :: (escape s ++ quotationMark :: t) := by
  simp [quote]

/-- **Round trip.** A literal is read as its text, with pairs of surrogates joined. -/
theorem scanString_escape (s t : List CodePoint) :
    scanString (escape s ++ quotationMark :: t) = some (joinSurrogates s, t) := by
  rw [scanString, readPieces_escape, Option.map_some, decodePieces_flatMap]

/-! ## What is written -/

/-- A printable ASCII character. -/
def isPrintable (c : CodePoint) : Bool := 32 ≤ c.val ∧ c.val ≤ 126

theorem isPrintable_point {n : ℕ} (h : 32 ≤ n) (h' : n ≤ 126) : isPrintable (point n) = true := by
  rw [isPrintable, val_point (by omega)]
  simp [h, h']

/-- The characters after the reverse solidus of an escape. -/
def isEscapeLetter (c : CodePoint) : Bool :=
  c = letterU ∨ (hexValue? c).isSome ∨ (unletter? c.val).isSome

/-- An escape is a reverse solidus and letters. -/
def IsEscape (t : List CodePoint) : Prop :=
  ∃ l, t = reverseSolidus :: l ∧ ∀ c ∈ l, isPrintable c = true ∧ isEscapeLetter c = true

theorem isPrintable_hexDigit {d : ℕ} (h : d < 16) :
    isPrintable (hexDigit d) = true ∧ isEscapeLetter (hexDigit d) = true := by
  constructor
  · rw [isPrintable, hexDigit_val h]
    split <;> simp <;> omega
  · simp [isEscapeLetter, hexValue?_hexDigit h]

theorem isEscape_escapeUnit (v : ℕ) : IsEscape (escapeUnit v) := by
  refine ⟨letterU :: hex4 v, rfl, List.forall_mem_cons.mpr ⟨by decide, ?_⟩⟩
  intro c hc
  simp only [hex4, List.mem_cons, List.not_mem_nil, or_false] at hc
  rcases hc with rfl | rfl | rfl | rfl <;> exact isPrintable_hexDigit (Nat.mod_lt _ (by decide))

/-- A code point is written as itself, as one escape or as two. -/
theorem escapePoint_cases (c : CodePoint) :
    (escapePoint c = [c] ∧ isPrintable c = true) ∨
      ∃ e l, escapePoint c = e ++ l ∧ IsEscape e ∧ (l = [] ∨ IsEscape l) := by
  unfold escapePoint
  cases hletter : letter? c.val with
  | some letter =>
      obtain ⟨hun, hne, hge, hle, -⟩ := unletter?_of_letter? hletter
      refine .inr ⟨_, [], (List.append_nil _).symm, ⟨[point letter], rfl, ?_⟩, .inl rfl⟩
      rintro d hd
      obtain rfl := List.mem_singleton.mp hd
      refine ⟨isPrintable_point hge hle, ?_⟩
      simp [isEscapeLetter, val_point (by omega : letter < 0x110000), hun]
  | none =>
      simp only
      split_ifs with hprint hbasic
      · exact .inl ⟨rfl, by simpa [isPrintable] using hprint⟩
      · exact .inr ⟨_, [], (List.append_nil _).symm, isEscape_escapeUnit _, .inl rfl⟩
      · exact .inr ⟨_, _, rfl, isEscape_escapeUnit _, .inr (isEscape_escapeUnit _)⟩

theorem IsEscape.isPrintable (h : IsEscape t) : ∀ c ∈ t, isPrintable c = true := by
  obtain ⟨l, rfl, hl⟩ := h
  exact List.forall_mem_cons.mpr ⟨by decide, fun c hc => (hl c hc).1⟩

/-- What is written is printable. -/
theorem printable_of_mem_escape (s : List CodePoint) : ∀ c ∈ escape s, isPrintable c = true := by
  intro c hc
  obtain ⟨d, -, hcd⟩ := List.mem_flatMap.mp hc
  rcases escapePoint_cases d with ⟨hself, hprint⟩ | ⟨e, l, hel, he, hl⟩
  · rw [hself] at hcd
    rwa [List.mem_singleton.mp hcd]
  · rw [hel] at hcd
    rcases List.mem_append.mp hcd with hce | hcl
    · exact he.isPrintable c hce
    · rcases hl with rfl | hl
      · cases hcl
      · exact hl.isPrintable c hcl

/-! ## Words -/

/-- A word does not begin where its first letter does not stand. -/
theorem isInfix_of_head_not_mem {v : List CodePoint} {a : CodePoint} (ha : a ∈ t.head?)
    (hu : a ∉ u) (h : t <:+: u ++ v) : t <:+: v := by
  induction u with
  | nil => exact h
  | cons b u ih =>
      obtain ⟨hab, hu⟩ := not_or.mp (List.mem_cons.not.mp hu)
      rcases List.infix_cons_iff.mp h with hprefix | h
      · obtain ⟨t', rfl⟩ := List.head?_eq_some_iff.mp ha
        exact absurd (List.cons_prefix_cons.mp hprefix).1 hab
      · exact ih hu h

/-- A word does not stand on both sides of what it does not hold. -/
theorem isInfix_append_cons {v : List CodePoint} {sep : CodePoint} (ht : sep ∉ t)
    (h : t <:+: u ++ sep :: v) : t <:+: u ∨ t <:+: v := by
  induction u with
  | nil =>
      rcases List.infix_cons_iff.mp h with hprefix | h
      · cases t with
        | nil => exact .inl List.nil_infix
        | cons a t =>
            exact absurd (List.cons_prefix_cons.mp hprefix).1.symm
              (not_or.mp (List.mem_cons.not.mp ht)).1
      · exact .inr h
  | cons b u ih =>
      rcases List.infix_cons_iff.mp h with hprefix | h
      · rcases List.prefix_or_prefix_of_prefix hprefix (List.prefix_append (b :: u) (sep :: v))
          with h | h
        · exact .inl h.isInfix
        · obtain ⟨t', rfl⟩ := h
          cases t' with
          | nil => exact .inl (by simp)
          | cons a t' =>
              have := (List.prefix_append_right_inj (b :: u)).mp hprefix
              obtain ⟨rfl, -⟩ := List.cons_prefix_cons.mp this
              exact absurd (List.mem_append_right (b :: u) List.mem_cons_self) ht
      · exact (ih h).imp_left List.infix_cons

/-- A word that no literal adds: it has no reverse solidus and no quotation mark, and its first
letter is not one of an escape. -/
def IsPlainWord (t : List CodePoint) : Prop :=
  reverseSolidus ∉ t ∧ quotationMark ∉ t ∧ ∃ a, t.head? = some a ∧ isEscapeLetter a = false

/-- Before a reverse solidus there is only what is written as itself. -/
theorem isPrefix_of_isPrefix_escape (ht : reverseSolidus ∉ t) (h : t <+: escape s) : t <+: s := by
  induction t generalizing s with
  | nil => exact List.nil_prefix
  | cons a t ih =>
      obtain ⟨hne, ht⟩ := not_or.mp (List.mem_cons.not.mp ht)
      cases s with
      | nil => cases List.prefix_nil.mp h
      | cons c s =>
          rw [escape, List.flatMap_cons] at h
          rcases escapePoint_cases c with ⟨hself, -⟩ | ⟨e, l, hel, ⟨m, rfl, -⟩, -⟩
          · rw [hself, List.singleton_append] at h
            obtain ⟨rfl, hrest⟩ := List.cons_prefix_cons.mp h
            exact List.cons_prefix_cons.mpr ⟨rfl, ih ht hrest⟩
          · rw [hel, List.append_assoc, List.cons_append] at h
            exact absurd (List.cons_prefix_cons.mp h).1.symm hne

/-- A word does not begin in an escape. -/
theorem IsPlainWord.of_isInfix_append {v : List CodePoint} (ht : IsPlainWord t) (hu : IsEscape u)
    (h : t <:+: u ++ v) : t <:+: v := by
  obtain ⟨hsolidus, -, a, ha, hletter⟩ := ht
  obtain ⟨l, rfl, hl⟩ := hu
  refine isInfix_of_head_not_mem ha (fun hmem => ?_) h
  rcases List.mem_cons.mp hmem with rfl | hmem
  · exact hsolidus (List.mem_of_mem_head? ha)
  · exact Bool.noConfusion ((hl a hmem).2.symm.trans hletter)

/-- **No new words.** A word that no escape can spell is in what is written only if it is in the
text. -/
theorem isInfix_of_isInfix_escape (ht : IsPlainWord t) (h : t <:+: escape s) : t <:+: s := by
  induction s with
  | nil => exact h
  | cons c s ih =>
      have hcons : escape (c :: s) = escapePoint c ++ escape s := List.flatMap_cons
      rcases escapePoint_cases c with ⟨hself, -⟩ | ⟨e, l, hel, he, hl⟩
      · have hescape : escape (c :: s) = c :: escape s := by
          rw [hcons, hself, List.singleton_append]
        rw [hescape] at h
        rcases List.infix_cons_iff.mp h with hprefix | h
        · rw [← hescape] at hprefix
          exact (isPrefix_of_isPrefix_escape ht.1 hprefix).isInfix
        · exact List.infix_cons (ih h)
      · rw [hcons, hel, List.append_assoc] at h
        have h := ht.of_isInfix_append he h
        rcases hl with rfl | hl
        · exact List.infix_cons (ih h)
        · exact List.infix_cons (ih (ht.of_isInfix_append hl h))

/-- A word that is in a literal and what follows it is in the text or in what follows. -/
theorem IsPlainWord.of_isInfix_quote {v : List CodePoint} (ht : IsPlainWord t)
    (h : t <:+: quote s ++ v) : t <:+: s ∨ t <:+: v := by
  obtain ⟨-, hquote, a, ha, -⟩ := id ht
  rw [quote_append, ← List.singleton_append] at h
  have hfirst : a ∉ [quotationMark] := by
    rintro hmem
    obtain rfl := List.mem_singleton.mp hmem
    exact hquote (List.mem_of_mem_head? ha)
  exact (isInfix_append_cons hquote (isInfix_of_head_not_mem ha hfirst h)).imp_left
    (isInfix_of_isInfix_escape ht)

end JsonString
