import Limitless.Expansion.Records
import Limitless.Lib.JsonString
import Limitless.Lib.Keyed
import Mathlib.Data.List.Sort

/-!
# `json.dumps` and `json.loads` on a `str`

`dumps` is the writer as `audit.py` calls it: on a `dict` of strings, with sorted keys, no white
space and everything escaped to ASCII. `loads` is the whole reader. A number is read for its extent
only (`Json.other`). The reader gives up at a depth no text of its length can reach, so that the
recursion limit of the interpreter is left out, and so is its limit on the digits of an integer.

`loads_dumps` is the round trip: keys and values come back with their pairs of surrogates joined.
-/

namespace Limitless

open JsonString

/-! ## Punctuation -/

/-- `{`. -/
def openBrace : CodePoint := point 123

/-- `}`. -/
def closeBrace : CodePoint := point 125

/-- `[`. -/
def openBracket : CodePoint := point 91

/-- `]`. -/
def closeBracket : CodePoint := point 93

/-- `,`. -/
def comma : CodePoint := point 44

/-- `:`. -/
def colon : CodePoint := point 58

/-! ## Writing -/

/-- The order of `sort_keys=True`, where the keys are distinct. -/
def sortKeys (members : List (PyStr × PyStr)) : List (PyStr × PyStr) :=
  members.insertionSort fun m m' => m.1 ≤ m'.1

/-- A key and its value. -/
def dumpMember (m : PyStr × PyStr) : PyStr := quote m.1 ++ colon :: quote m.2

/-- Members between the braces. -/
def dumpMembers : List (PyStr × PyStr) → PyStr
  | [] => []
  | [m] => dumpMember m
  | m :: ms => dumpMember m ++ comma :: dumpMembers ms

/-- `json.dumps(members, sort_keys=True, separators=(",", ":"))`. -/
def dumps (members : List (PyStr × PyStr)) : PyStr :=
  openBrace :: dumpMembers (sortKeys members) ++ [closeBrace]

/-! ## Reading -/

/-- Space, tab, newline and carriage return. -/
def isJsonSpace (c : CodePoint) : Bool := c.val = 32 ∨ c.val = 9 ∨ c.val = 10 ∨ c.val = 13

/-- Skip white space. -/
def skipSpace (s : PyStr) : PyStr := s.dropWhile isJsonSpace

/-- `0` to `9`. -/
def isJsonDigit (c : CodePoint) : Bool := 48 ≤ c.val ∧ c.val ≤ 57

/-- What follows a word. -/
def afterWord (word : String) (s : PyStr) : Option PyStr :=
  let w := PyStr.ofString word
  if w.isPrefixOf s then some (s.drop w.length) else none

/-- What follows a point and its digits, which a number need not have. -/
def afterFraction (s : PyStr) : PyStr :=
  match s with
  | c :: d :: rest => if c.val = 46 ∧ isJsonDigit d then rest.dropWhile isJsonDigit else s
  | _ => s

/-- What follows a first character of a kind, which there need not be. -/
def skipOne (p : CodePoint → Bool) : PyStr → PyStr
  | [] => []
  | c :: s => if p c then s else c :: s

/-- What follows an exponent, which a number need not have. -/
def afterExponent (s : PyStr) : PyStr :=
  match s with
  | [] => s
  | e :: rest =>
    if e.val = 101 ∨ e.val = 69 then
      match skipOne (fun sign => sign.val = 43 ∨ sign.val = 45) rest with
      | [] => s
      | d :: digits => if isJsonDigit d then digits.dropWhile isJsonDigit else s
    else s

/-- What follows a number. -/
def afterNumber (s : PyStr) : Option PyStr :=
  match skipOne (fun sign => sign.val = 45) s with
  | [] => none
  | d :: rest =>
    if d.val = 48 then some (afterExponent (afterFraction rest))
    else if isJsonDigit d then
      some (afterExponent (afterFraction (rest.dropWhile isJsonDigit)))
    else none

/-- What follows a constant or a number. -/
def afterAtom (s : PyStr) : Option PyStr :=
  (["null", "true", "false", "NaN", "Infinity", "-Infinity"].findSome? fun word =>
    afterWord word s).or (afterNumber s)

/-- The loop of `JSONArray`, at an item. -/
def scanItems (value : PyStr → Option (Json × PyStr)) :
    ℕ → List Json → PyStr → Option (Json × PyStr)
  | 0, _, _ => none
  | n + 1, items, s =>
    match value s with
    | none => none
    | some (item, s) =>
      match skipSpace s with
      | [] => none
      | c :: s =>
        if c = closeBracket then some (.array (items ++ [item]), s)
        else if c = comma then scanItems value n (items ++ [item]) (skipSpace s)
        else none

/-- The loop of `JSONObject`, at a key. A later value of a key takes the place of an earlier one. -/
def scanMembers (value : PyStr → Option (Json × PyStr)) :
    ℕ → List (PyStr × Json) → PyStr → Option (Json × PyStr)
  | 0, _, _ => none
  | _ + 1, _, [] => none
  | n + 1, members, q :: s =>
    if q ≠ quotationMark then none else
    match scanString s with
    | none => none
    | some (key, s) =>
      match skipSpace s with
      | [] => none
      | c :: s =>
        if c ≠ colon then none else
        match value (skipSpace s) with
        | none => none
        | some (v, s) =>
          let members := Keyed.putEntry Prod.fst (key, v) members
          match skipSpace s with
          | [] => none
          | c :: s =>
            if c = closeBrace then some (.object members, s)
            else if c = comma then scanMembers value n members (skipSpace s)
            else none

/-- `scan_once`, to a depth. A loop takes a character a round. -/
def scanOnce : ℕ → PyStr → Option (Json × PyStr)
  | 0, _ => none
  | _ + 1, [] => none
  | depth + 1, c :: s =>
    if c = quotationMark then (scanString s).map fun r => (.string r.1, r.2)
    else if c = openBrace then
      match skipSpace s with
      | [] => none
      | c :: s =>
        if c = closeBrace then some (.object [], s)
        else scanMembers (scanOnce depth) s.length [] (c :: s)
    else if c = openBracket then
      match skipSpace s with
      | [] => none
      | c :: s =>
        if c = closeBracket then some (.array [], s)
        else scanItems (scanOnce depth) s.length [] (c :: s)
    else (afterAtom (c :: s)).map fun s => (.other, s)

/-- `json.loads` on a `str`; `none` is a `JSONDecodeError`. -/
def loads (s : PyStr) : Option Json :=
  -- a byte order mark
  if s.head? = some (point 0xFEFF) then none else
  match scanOnce s.length (skipSpace s) with
  | none => none
  | some (value, rest) => if skipSpace rest = [] then some value else none

/-! ## Round trip -/

/-- A member as it is read back. -/
def readMember (m : PyStr × PyStr) : PyStr × Json :=
  (joinSurrogates m.1, .string (joinSurrogates m.2))

variable {ms : List (PyStr × PyStr)} {members : List (PyStr × Json)} {c : CodePoint}
  {s rest : PyStr}

/-- White space is only skipped where it stands. -/
theorem skipSpace_cons (h : isJsonSpace c = false) (s : PyStr) : skipSpace (c :: s) = c :: s :=
  List.dropWhile_cons_of_neg (by simp [h])

theorem scanOnce_quote (depth : ℕ) (s rest : PyStr) :
    scanOnce (depth + 1) (quote s ++ rest) = some (.string (joinSurrogates s), rest) := by
  rw [quote_append, scanOnce, if_pos rfl, scanString_escape]
  rfl

/-- One round of the loop, at a member that is written. -/
theorem scanMembers_dumpMember (depth n : ℕ) (members : List (PyStr × Json)) (m : PyStr × PyStr)
    (h : isJsonSpace c = false) (rest : PyStr) :
    scanMembers (scanOnce (depth + 1)) (n + 1) members (dumpMember m ++ c :: rest) =
      if c = closeBrace then some (.object (Keyed.putEntry Prod.fst (readMember m) members), rest)
      else if c = comma then
        scanMembers (scanOnce (depth + 1)) n (Keyed.putEntry Prod.fst (readMember m) members)
          (skipSpace rest)
      else none := by
  have hcolon : isJsonSpace colon = false := by decide
  have hquote : isJsonSpace quotationMark = false := by decide
  have hvalue : skipSpace (quote m.2 ++ c :: rest) = quote m.2 ++ c :: rest :=
    skipSpace_cons hquote _
  rw [dumpMember, List.append_assoc, quote_append, scanMembers, if_neg (by simp),
    scanString_escape]
  simp only [List.cons_append, skipSpace_cons hcolon, ne_eq, not_true_eq_false, if_false, hvalue,
    scanOnce_quote, skipSpace_cons h]
  rfl

/-- The loop reads all members that are written. -/
theorem scanMembers_dumpMembers (depth : ℕ) {n : ℕ} (hne : ms ≠ []) (hn : ms.length ≤ n)
    (members : List (PyStr × Json)) (rest : PyStr) :
    scanMembers (scanOnce (depth + 1)) n members (dumpMembers ms ++ closeBrace :: rest) =
      some (.object ((ms.map readMember).foldl (fun ms m => Keyed.putEntry Prod.fst m ms) members),
        rest) := by
  induction ms generalizing n members with
  | nil => exact absurd rfl hne
  | cons m ms ih =>
      obtain ⟨n, rfl⟩ : ∃ n', n = n' + 1 := ⟨n - 1, by simp at hn; omega⟩
      cases ms with
      | nil =>
          rw [dumpMembers, scanMembers_dumpMember _ _ _ _ (by decide), if_pos rfl]
          rfl
      | cons m' ms =>
          have hquote : isJsonSpace quotationMark = false := by decide
          have hskip : skipSpace (dumpMembers (m' :: ms) ++ closeBrace :: rest) =
              dumpMembers (m' :: ms) ++ closeBrace :: rest := by
            cases ms <;> exact skipSpace_cons hquote _
          have hcomma : comma ≠ closeBrace := by decide
          rw [dumpMembers, List.append_assoc, List.cons_append,
            scanMembers_dumpMember _ _ _ _ (by decide), if_neg hcomma, if_pos rfl, hskip,
            ih (List.cons_ne_nil _ _) (by simpa using hn)]
          rfl
          simp

/-- Members come to a character each, and more. -/
theorem length_le_dumpMembers (ms : List (PyStr × PyStr)) :
    ms.length ≤ (dumpMembers ms).length := by
  fun_induction dumpMembers ms with
  | case1 => exact Nat.le_refl _
  | case2 m => simp [dumpMember]; omega
  | case3 m ms hms ih => simp; omega

theorem sortKeys_perm (ms : List (PyStr × PyStr)) : (sortKeys ms).Perm ms :=
  List.perm_insertionSort _ ms

/-- **Round trip.** What is written of distinct keys is read as the same members, in sorted order,
with pairs of surrogates joined. -/
theorem loads_dumps (hkeys : (ms.map fun m => joinSurrogates m.1).Nodup) (hne : ms ≠ []) :
    loads (dumps ms) = some (.object ((sortKeys ms).map readMember)) := by
  have hsorted : ((sortKeys ms).map fun m => joinSurrogates m.1).Nodup :=
    ((sortKeys_perm ms).map _).nodup_iff.mpr hkeys
  have hsortedne : sortKeys ms ≠ [] := fun h => hne ((h ▸ sortKeys_perm ms).nil_eq).symm
  obtain ⟨t, ht⟩ : ∃ t, dumpMembers (sortKeys ms) ++ [closeBrace] = quotationMark :: t := by
    cases hms : sortKeys ms with
    | nil => exact absurd hms hsortedne
    | cons m ms => cases ms <;> exact ⟨_, rfl⟩
  have hlength : (sortKeys ms).length ≤ t.length := by
    have := length_le_dumpMembers (sortKeys ms)
    have := congrArg List.length ht
    simp at this
    omega
  have hmembers : scanMembers (scanOnce (t.length + 1)) t.length [] (quotationMark :: t) =
      some (.object ((sortKeys ms).map readMember), []) := by
    have hfold : ((sortKeys ms).map readMember).foldl
        (fun ms m => Keyed.putEntry Prod.fst m ms) [] = (sortKeys ms).map readMember := by
      refine Keyed.foldl_putEntry ?_
      rwa [List.nil_append, List.map_map]
    rw [← ht, scanMembers_dumpMembers _ hsortedne hlength, hfold]
  have hdumps : dumps ms = openBrace :: quotationMark :: t := by
    rw [dumps, List.cons_append, ht]
  have hbrace : isJsonSpace openBrace = false := by decide
  have hquote : isJsonSpace quotationMark = false := by decide
  have hscan : scanOnce (t.length + 2) (openBrace :: quotationMark :: t) =
      some (.object ((sortKeys ms).map readMember), []) := by
    rw [scanOnce, if_neg (by decide), if_pos rfl, skipSpace_cons hquote]
    exact (if_neg (by decide)).trans hmembers
  have hmark : (openBrace :: quotationMark :: t).head? ≠ some (point 0xFEFF) := fun h =>
    absurd (Option.some.inj h) (by decide)
  rw [hdumps, loads, if_neg hmark, skipSpace_cons hbrace]
  simp only [List.length_cons, hscan]
  rfl

/-! ## What is written -/

theorem isPrintable_of_mem_dumpMembers (ms : List (PyStr × PyStr)) :
    ∀ c ∈ dumpMembers ms, isPrintable c = true := by
  have hquote : ∀ s : PyStr, ∀ c ∈ quote s, isPrintable c = true := by
    intro s c hc
    rw [quote, List.cons_append, List.mem_cons, List.mem_append, List.mem_singleton] at hc
    rcases hc with rfl | hc | rfl
    exacts [by decide, printable_of_mem_escape s c hc, by decide]
  have hmember : ∀ m, ∀ c ∈ dumpMember m, isPrintable c = true := by
    intro m c hc
    rw [dumpMember, List.mem_append, List.mem_cons] at hc
    rcases hc with hc | rfl | hc
    exacts [hquote _ c hc, by decide, hquote _ c hc]
  fun_induction dumpMembers ms with
  | case1 => exact fun c hc => absurd hc List.not_mem_nil
  | case2 m => exact hmember m
  | case3 m ms hms ih =>
      intro c hc
      rw [List.mem_append, List.mem_cons] at hc
      rcases hc with hc | rfl | hc
      exacts [hmember m c hc, by decide, ih c hc]

/-- Everything written is printable ASCII. -/
theorem isPrintable_of_mem_dumps (ms : List (PyStr × PyStr)) :
    ∀ c ∈ dumps ms, isPrintable c = true := by
  intro c hc
  rw [dumps, List.cons_append, List.mem_cons, List.mem_append, List.mem_singleton] at hc
  rcases hc with rfl | hc | rfl
  exacts [by decide, isPrintable_of_mem_dumpMembers _ c hc, by decide]

/-- The punctuation between literals. -/
def punctuation : PyStr := [openBrace, closeBrace, comma, colon]

variable {t : PyStr}

theorem isInfix_of_isInfix_dumpMembers (ht : IsPlainWord t)
    (hp : ∀ a ∈ t.head?, a ∉ punctuation) (h : t <:+: dumpMembers ms ++ [closeBrace]) :
    ∃ m ∈ ms, t <:+: m.1 ∨ t <:+: m.2 := by
  obtain ⟨-, -, a, ha, -⟩ := id ht
  have hpa := hp a ha
  simp only [punctuation, List.mem_cons, List.not_mem_nil, or_false, not_or] at hpa
  obtain ⟨-, hclose, hcomma, hcolon⟩ := hpa
  have hafter : ∀ {b : CodePoint} {v : PyStr}, a ≠ b → t <:+: b :: v → t <:+: v := fun hab h =>
    isInfix_of_head_not_mem (u := [_]) ha (by simpa using hab) h
  have hmember : ∀ {m : PyStr × PyStr} {v : PyStr}, t <:+: dumpMember m ++ v →
      (t <:+: m.1 ∨ t <:+: m.2) ∨ t <:+: v := by
    intro m v h
    rw [dumpMember, List.append_assoc] at h
    rcases ht.of_isInfix_quote h with h | h
    · exact .inl (.inl h)
    · exact (ht.of_isInfix_quote (hafter hcolon h)).imp_left .inr
  have hnil : ¬ t <:+: [] := by
    intro h
    rw [List.infix_nil.mp h] at ha
    cases ha
  fun_induction dumpMembers ms with
  | case1 => exact absurd (hafter hclose h) hnil
  | case2 m =>
      rcases hmember h with h | h
      · exact ⟨m, List.mem_cons_self, h⟩
      · exact absurd (hafter hclose h) hnil
  | case3 m ms hms ih =>
      rw [List.append_assoc, List.cons_append] at h
      rcases hmember h with h | h
      · exact ⟨m, List.mem_cons_self, h⟩
      · obtain ⟨m', hm', h⟩ := ih (hafter hcomma h)
        exact ⟨m', List.mem_cons_of_mem m hm', h⟩

/-- **No new words.** A plain word that is written stands in a key or a value. -/
theorem isInfix_of_isInfix_dumps (ht : IsPlainWord t) (hp : ∀ a ∈ t.head?, a ∉ punctuation)
    (h : t <:+: dumps ms) : ∃ m ∈ ms, t <:+: m.1 ∨ t <:+: m.2 := by
  obtain ⟨-, -, a, ha, -⟩ := id ht
  have hopen : a ∉ [openBrace] := by
    intro hmem
    have := hp a ha
    simp only [punctuation, List.mem_cons, not_or] at this
    exact this.1 (List.mem_singleton.mp hmem)
  rw [dumps, List.cons_append, ← List.singleton_append] at h
  obtain ⟨m, hm, h⟩ := isInfix_of_isInfix_dumpMembers ht hp (isInfix_of_head_not_mem ha hopen h)
  exact ⟨m, (sortKeys_perm ms).mem_iff.mp hm, h⟩

end Limitless
