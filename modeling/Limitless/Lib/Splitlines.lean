import Limitless.Lib.Lines

/-!
# Universal line boundaries

`splitlines` cuts a text at any of several line breaks. It takes a carriage return with the line
feed after it as one break, and a break at the end starts no further line. `trim` takes the white
space off both ends of a line.

`filter_splitlines` says that this is cutting at every break, as far as pieces that are not empty
go, and `splitOnP_or` that two kinds of breaks can be cut one after the other. With them the pieces
of a text are counted line by line: `one_lt_numPieces` is when a line is more than one.
-/

namespace Lines

universe u
variable {α : Type u} {isBreak p q space : α → Bool} {a c : α} {l m s : List α}

/-! ## White space at the ends -/

/-- A text without the white space at its ends. -/
def trim (space : α → Bool) (l : List α) : List α := (l.dropWhile space).rdropWhile space

/-- A text that is not all white space. -/
def hasText (space : α → Bool) (l : List α) : Bool := l.any fun a => !space a

theorem hasText_append (space : α → Bool) (l m : List α) :
    hasText space (l ++ m) = (hasText space l || hasText space m) := List.any_append

/-- What is dropped from the front is white space. -/
theorem dropWhile_eq_nil : l.dropWhile space = [] ↔ hasText space l = false := by
  simp [hasText, List.dropWhile_eq_nil_iff]

/-- Text stays when white space is dropped from the front. -/
theorem hasText_dropWhile (space : α → Bool) (l : List α) :
    hasText space (l.dropWhile space) = hasText space l := by
  induction l with
  | nil => rfl
  | cons a l ih =>
      cases h : space a with
      | true =>
          rw [List.dropWhile_cons_of_pos h, ih]
          simp [hasText, h]
      | false => rw [List.dropWhile_cons_of_neg (by simp [h])]

theorem hasText_reverse (space : α → Bool) (l : List α) :
    hasText space l.reverse = hasText space l := List.any_reverse

/-- Only white space is trimmed away whole. -/
theorem trim_eq_nil : trim space l = [] ↔ hasText space l = false := by
  rw [trim, List.rdropWhile, List.reverse_eq_nil_iff, dropWhile_eq_nil, hasText_reverse,
    hasText_dropWhile]

/-- Where a text stands before, white space is dropped before that text only. -/
theorem dropWhile_append_of_hasText (h : hasText space l = true) (m : List α) :
    (l ++ m).dropWhile space = l.dropWhile space ++ m := by
  rw [List.dropWhile_append, if_neg]
  rw [List.isEmpty_iff, dropWhile_eq_nil, h]
  exact Bool.noConfusion

/-- What is inside a text is not trimmed away. -/
theorem trim_append_cons (hl : hasText space l = true) (hm : hasText space m = true) (c : α) :
    trim space (l ++ c :: m) = l.dropWhile space ++ c :: m.rdropWhile space := by
  have hrev : (l.dropWhile space ++ c :: m).reverse =
      m.reverse ++ c :: (l.dropWhile space).reverse := by simp
  rw [trim, dropWhile_append_of_hasText hl, List.rdropWhile, hrev,
    dropWhile_append_of_hasText (by rwa [hasText_reverse])]
  simp [List.rdropWhile]

/-- A line stays whole where no white space stands at its ends. -/
theorem trim_eq_self {b : α} (ha : space a = false) (hb : space b = false) (l : List α) :
    trim space (a :: l ++ [b]) = a :: l ++ [b] := by
  rw [trim, List.cons_append, List.dropWhile_cons_of_neg (by simp [ha]), ← List.cons_append,
    List.rdropWhile_concat_neg _ _ _ (by simp [hb])]

/-- Dropping from the front leaves what is there as soon as it is not white space. -/
theorem dropWhile_append_eq {before core : List α} (hbefore : ∀ a ∈ before, space a = true)
    (hcore : ∀ a, core.head? = some a → space a = false) :
    (before ++ core).dropWhile space = core := by
  rw [List.dropWhile_append_of_pos hbefore]
  cases core with
  | nil => rfl
  | cons a core => exact List.dropWhile_cons_of_neg (by simp [hcore a rfl])

/-- Trimming leaves what stands between the white space at the two ends, and neither begins nor ends
with white space itself. -/
theorem trim_eq_iff {core : List α} : trim space l = core ↔ ∃ before after,
    l = before ++ core ++ after ∧ (∀ a ∈ before ++ after, space a = true) ∧
      (∀ a, core.head? = some a → space a = false) ∧
      ∀ a, core.getLast? = some a → space a = false := by
  constructor
  · rintro rfl
    have hl : (l.dropWhile space).rdropWhile space ++ (l.dropWhile space).rtakeWhile space =
        l.dropWhile space := List.rdropWhile_append_rtakeWhile
    refine ⟨l.takeWhile space, (l.dropWhile space).rtakeWhile space, ?_, fun a ha => ?_,
      fun a ha => ?_, fun a ha => ?_⟩
    · rw [trim, List.append_assoc, hl, List.takeWhile_append_dropWhile]
    · rcases List.mem_append.mp ha with ha | ha
      · exact List.mem_takeWhile_imp ha
      · exact List.mem_rtakeWhile_imp ha
    · have hhead := List.head?_dropWhile_not space l
      rw [← hl, ← trim, List.head?_append, ha] at hhead
      exact hhead
    · have hhead := List.head?_dropWhile_not space (l.dropWhile space).reverse
      rw [trim, List.rdropWhile, List.getLast?_reverse] at ha
      rw [ha] at hhead
      exact hhead
  · rintro ⟨before, after, rfl, hspace, hhead, hlast⟩
    have hbefore : ∀ a ∈ before, space a = true := fun a ha => hspace a (List.mem_append_left _ ha)
    have hafter : ∀ a ∈ after, space a = true := fun a ha => hspace a (List.mem_append_right _ ha)
    have hback : (core ++ after).rdropWhile space = core := by
      rw [List.rdropWhile, List.reverse_append, dropWhile_append_eq (by simpa using hafter)
        (by simpa using hlast), List.reverse_reverse]
    cases core with
    | nil =>
        rw [trim_eq_nil, ← dropWhile_eq_nil, List.append_nil, List.dropWhile_eq_nil_iff]
        exact hspace
    | cons b core =>
        rw [trim, List.append_assoc, dropWhile_append_eq hbefore (by simpa using hhead)]
        exact hback
/-- White space that is not dropped from the front has text before it. -/
theorem hasText_of_dropWhile_eq (h : l.dropWhile space = m ++ c :: s) (hc : space c = true) :
    hasText space m = true := by
  cases m with
  | nil =>
      have hhead := List.head?_dropWhile_not space l
      rw [h, List.nil_append, List.head?_cons] at hhead
      exact absurd (hc.symm.trans hhead) Bool.noConfusion
  | cons a m =>
      have hhead := List.head?_dropWhile_not space l
      rw [h, List.cons_append, List.head?_cons] at hhead
      have ha : space a = false := hhead
      simp [hasText, ha]

/-- White space that trimming leaves stands between two texts. -/
theorem mem_trim_iff (hc : space c = true) :
    c ∈ trim space l ↔
      ∃ x y, l = x ++ c :: y ∧ hasText space x = true ∧ hasText space y = true := by
  constructor
  · intro hmem
    obtain ⟨x, y, hxy⟩ := List.append_of_mem hmem
    obtain ⟨back, hback⟩ := List.rdropWhile_prefix space (l.dropWhile space)
    have hdrop : l.dropWhile space = x ++ c :: (y ++ back) := by
      rw [← hback, ← trim, hxy, List.append_assoc, List.cons_append]
    have hrev : (l.dropWhile space).reverse.dropWhile space = y.reverse ++ c :: x.reverse := by
      rw [← List.reverse_inj, ← List.rdropWhile, ← trim, hxy]
      simp
    refine ⟨l.takeWhile space ++ x, y ++ back, ?_, ?_, ?_⟩
    · rw [List.append_assoc, ← hdrop, List.takeWhile_append_dropWhile]
    · rw [hasText_append, hasText_of_dropWhile_eq hdrop hc, Bool.or_true]
    · rw [hasText_append, ← hasText_reverse, hasText_of_dropWhile_eq hrev hc, Bool.true_or]
  · rintro ⟨x, y, rfl, hx, hy⟩
    rw [trim_append_cons hx hy]
    exact List.mem_append_right _ List.mem_cons_self

/-! ## Line breaks -/

/-- A first element of the first piece, which there may be none of. -/
def consHead (c : α) : List (List α) → List (List α)
  | [] => [[c]]
  | s :: ss => (c :: s) :: ss

/-- The lines of a text. The pair `cr`, `lf` is one break, and the text after the last break is a
line if there is any. -/
def splitlines [DecidableEq α] (isBreak : α → Bool) (cr lf : α) : List α → List (List α)
  | [] => []
  | [c] => if isBreak c then [[]] else [[c]]
  | c :: d :: l =>
    if isBreak c then
      if c = cr ∧ d = lf then [] :: splitlines isBreak cr lf l
      else [] :: splitlines isBreak cr lf (d :: l)
    else consHead c (splitlines isBreak cr lf (d :: l))

section
variable [DecidableEq α] {cr lf : α}

omit [DecidableEq α] in
theorem consHead_append {ss : List (List α)} (h : ss ≠ []) (c : α) (ss' : List (List α)) :
    consHead c (ss ++ ss') = consHead c ss ++ ss' := by
  cases ss with
  | nil => exact absurd rfl h
  | cons s ss => rfl

theorem splitlines_ne_nil (h : l ≠ []) : splitlines isBreak cr lf l ≠ [] := by
  fun_cases splitlines isBreak cr lf l with
  | case1 => exact absurd rfl h
  | case6 c d l =>
      cases splitlines isBreak cr lf (d :: l) <;> exact List.cons_ne_nil _ _
  | case2 | case3 | case4 | case5 => exact List.cons_ne_nil _ _

/-- **Cutting after a line feed.** What follows a line feed is cut on its own. -/
theorem splitlines_append_lf (hlf : isBreak lf = true) (hne : lf ≠ cr) (l m : List α) :
    splitlines isBreak cr lf (l ++ lf :: m) =
      splitlines isBreak cr lf (l ++ [lf]) ++ splitlines isBreak cr lf m := by
  have hhead : ∀ m, splitlines isBreak cr lf (lf :: m) = [] :: splitlines isBreak cr lf m := by
    intro m
    cases m with
    | nil => exact if_pos hlf
    | cons d m => rw [splitlines, if_pos hlf, if_neg fun h => hne h.1]
  fun_induction splitlines isBreak cr lf l with
  | case1 => rw [List.nil_append, List.nil_append, hhead, hhead]; rfl
  | case2 c hc =>
      rw [List.singleton_append, List.singleton_append, splitlines, if_pos hc, splitlines,
        if_pos hc, hhead, hhead]
      split_ifs <;> rfl
  | case3 c hc =>
      rw [List.singleton_append, List.singleton_append, splitlines, if_neg hc, splitlines,
        if_neg hc, hhead, hhead]
      rfl
  | case4 c d l hc hpair ih =>
      simp only [List.cons_append] at ih ⊢
      rw [splitlines, if_pos hc, if_pos hpair, splitlines, if_pos hc, if_pos hpair, ih]
      rfl
  | case5 c d l hc hpair ih =>
      simp only [List.cons_append] at ih ⊢
      rw [splitlines, if_pos hc, if_neg hpair, splitlines, if_pos hc, if_neg hpair, ih]
      rfl
  | case6 c d l hc ih =>
      simp only [List.cons_append] at ih ⊢
      rw [splitlines, if_neg hc, splitlines, if_neg hc, ih,
        consHead_append (splitlines_ne_nil (List.cons_ne_nil _ _))]

/-- A text without a break is one line. -/
theorem splitlines_of_no_break (hlf : isBreak lf = true) (h : ∀ c ∈ l, isBreak c = false) :
    splitlines isBreak cr lf (l ++ [lf]) = [l] := by
  induction l with
  | nil => exact if_pos hlf
  | cons c l ih =>
      obtain ⟨hc, hl⟩ := List.forall_mem_cons.mp h
      obtain ⟨d, m, hdm⟩ := List.exists_cons_of_ne_nil (List.concat_ne_nil lf l)
      rw [List.cons_append, hdm, splitlines, if_neg (by simp [hc]), ← hdm, ih hl, consHead]

/-- Two cuts of a text agree on the first piece, and on the later ones of a kind. -/
def SameCut (p : List α → Bool) (ss ss' : List (List α)) : Prop :=
  ∃ s rest rest', ss = s :: rest ∧ ss' = s :: rest' ∧ rest.filter p = rest'.filter p

omit [DecidableEq α] in
theorem SameCut.filter_eq {p : List α → Bool} {ss ss' : List (List α)} (h : SameCut p ss ss') :
    ss.filter p = ss'.filter p := by
  obtain ⟨s, rest, rest', rfl, rfl, hrest⟩ := h
  rw [List.filter_cons, List.filter_cons, hrest]

/-- **Lines are pieces.** As far as pieces that are not empty go, `splitlines` cuts at every
break. -/
theorem filter_splitlines {p : List α → Bool} (hp : p [] = false) (hlf : isBreak lf = true)
    (l : List α) : (splitlines isBreak cr lf l).filter p = (l.splitOnP isBreak).filter p := by
  have hnil : ([] : List (List α)).filter p = (([] : List α).splitOnP isBreak).filter p := by
    simp [List.splitOnP_nil, hp]
  have hcut : l = [] ∨ SameCut p (splitlines isBreak cr lf l) (l.splitOnP isBreak) := by
    fun_induction splitlines isBreak cr lf l with
    | case1 => exact .inl rfl
    | case2 c hc =>
        refine .inr ⟨[], [], [[]], rfl, ?_, by simp [hp]⟩
        rw [List.splitOnP_cons_eq_if_modifyHead, if_pos hc, List.splitOnP_nil]
    | case3 c hc =>
        refine .inr ⟨[c], [], [], rfl, ?_, rfl⟩
        rw [List.splitOnP_cons_eq_if_modifyHead, if_neg hc, List.splitOnP_nil,
          List.modifyHead_cons]
    | case4 c d l hc hpair ih =>
        obtain ⟨rfl, rfl⟩ := hpair
        -- the pair is two breaks, and nothing stands between them
        refine .inr ⟨[], _, [] :: l.splitOnP isBreak, rfl, ?_, ?_⟩
        · rw [List.splitOnP_cons_eq_if_modifyHead, if_pos hc, List.splitOnP_cons_eq_if_modifyHead,
            if_pos hlf]
        · rw [List.filter_cons_of_neg (by simp [hp])]
          rcases ih with rfl | ih
          · exact hnil
          · exact ih.filter_eq
    | case5 c d l hc hpair ih =>
        refine .inr ⟨[], _, (d :: l).splitOnP isBreak, rfl, ?_, ?_⟩
        · rw [List.splitOnP_cons_eq_if_modifyHead, if_pos hc]
        · rcases ih with hnil | ih
          · cases hnil
          · exact ih.filter_eq
    | case6 c d l hc ih =>
        rcases ih with hnil | ⟨s, rest, rest', hs, hs', hrest⟩
        · cases hnil
        · refine .inr ⟨c :: s, rest, rest', by rw [hs, consHead], ?_, hrest⟩
          rw [List.splitOnP_cons_eq_if_modifyHead, if_neg hc, hs', List.modifyHead_cons]
  rcases hcut with rfl | hcut
  · exact hnil
  · exact hcut.filter_eq

end

/-! ## Pieces with text -/

/-- How many pieces with text a separator makes of a line. -/
def numPieces [BEq α] (space : α → Bool) (sep : α) (l : List α) : Nat :=
  (l.splitOn sep).countP (hasText space)

section
variable [BEq α] [LawfulBEq α] {sep : α}

/-- A text holds no separator, or it is a first segment, the separator and what follows. -/
theorem segments_induction (sep : α) {motive : List α → Prop} (last : ∀ x, sep ∉ x → motive x)
    (cons : ∀ x y, sep ∉ x → motive y → motive (x ++ sep :: y)) (l : List α) : motive l := by
  by_cases hmem : sep ∈ l
  · obtain ⟨x, y, hl, hx⟩ := List.eq_append_cons_of_mem hmem
    have hlength : y.length < l.length := by
      rw [hl, List.length_append, List.length_cons]
      omega
    rw [hl]
    exact cons x y hx (segments_induction sep last cons y)
  · exact last l hmem
termination_by l.length

/-- A separator ends one count and starts another. -/
theorem numPieces_append_cons (space : α → Bool) (sep : α) (l m : List α) :
    numPieces space sep (l ++ sep :: m) = numPieces space sep l + numPieces space sep m := by
  rw [numPieces, List.splitOn_append_cons_self, List.countP_append]
  rfl

/-- A line without the separator is at most one piece. -/
theorem numPieces_of_not_mem (h : sep ∉ l) :
    numPieces space sep l = if hasText space l then 1 else 0 := by
  rw [numPieces, List.splitOn_eq_singleton h, List.countP_singleton]

/-- A text has a piece, where the separator is white space. -/
theorem numPieces_pos (hsep : space sep = true) (l : List α) :
    0 < numPieces space sep l ↔ hasText space l = true := by
  induction l using segments_induction sep with
  | last x hx =>
      rw [numPieces_of_not_mem hx]
      cases hasText space x <;> simp
  | cons x y hx ih =>
      have hcons : hasText space (sep :: y) = hasText space y := by simp [hasText, hsep]
      rw [numPieces_append_cons, numPieces_of_not_mem hx, hasText_append, hcons, Bool.or_eq_true,
        ← ih]
      cases hasText space x <;> simp

/-- **More than one piece.** A line is more pieces than one exactly when a separator stands inside
its text. -/
theorem one_lt_numPieces (hsep : space sep = true) (l : List α) :
    1 < numPieces space sep l ↔ sep ∈ trim space l := by
  rw [mem_trim_iff hsep]
  constructor
  · intro hmany
    induction l using segments_induction sep with
    | last x hx =>
        rw [numPieces_of_not_mem hx] at hmany
        split at hmany <;> omega
    | cons x y hx ih =>
        rw [numPieces_append_cons, numPieces_of_not_mem hx] at hmany
        cases htext : hasText space x with
        | true =>
            rw [htext, if_pos rfl] at hmany
            exact ⟨x, y, rfl, htext, (numPieces_pos hsep y).mp (by omega)⟩
        | false =>
            -- nothing stands before the first separator: both texts are in what follows it
            rw [htext, if_neg Bool.noConfusion, Nat.zero_add] at hmany
            obtain ⟨x', y', rfl, hx', hy'⟩ := ih hmany
            refine ⟨x ++ sep :: x', y', by simp, ?_, hy'⟩
            rw [← List.singleton_append, hasText_append, hasText_append, hx', Bool.or_true,
              Bool.or_true]
  · rintro ⟨x, y, rfl, hx, hy⟩
    have := (numPieces_pos hsep x).mpr hx
    have := (numPieces_pos hsep y).mpr hy
    rw [numPieces_append_cons]
    omega

omit [LawfulBEq α] in
/-- Two kinds of breaks can be cut one after the other. -/
theorem splitOnP_or (x y : α) (l : List α) :
    l.splitOnP (fun a => a == x || a == y) = (l.splitOn x).flatMap fun s => s.splitOn y := by
  induction l with
  | nil => rfl
  | cons a l ih =>
      rw [List.splitOnP_cons_eq_if_modifyHead, List.splitOn_cons_eq_if_modifyHead, ih]
      obtain ⟨s, ss, hs⟩ := List.exists_cons_of_ne_nil (List.splitOn_ne_nil x l)
      cases hx : a == x with
      | true => simp
      | false =>
          simp only [hs, Bool.false_or, Bool.false_eq_true, if_false, List.modifyHead_cons,
            List.flatMap_cons, List.splitOn_cons_eq_if_modifyHead]
          split
          · rfl
          · obtain ⟨t, ts, ht⟩ := List.exists_cons_of_ne_nil (List.splitOn_ne_nil y s)
            rw [ht, List.cons_append, List.modifyHead_cons, List.modifyHead_cons, List.cons_append]

/-- A list has as many pieces as members of a kind exactly when no member has more than one. -/
theorem sum_eq_countP_iff {β : Type u} {n : β → Nat} {p : β → Bool}
    (hpos : ∀ b, 0 < n b ↔ p b = true) (bs : List β) :
    (bs.map n).sum = bs.countP p ↔ ∀ b ∈ bs, ¬ 1 < n b := by
  have hle : ∀ bs : List β, bs.countP p ≤ (bs.map n).sum := by
    intro bs
    induction bs with
    | nil => exact Nat.le_refl _
    | cons b bs ih =>
        simp only [List.map_cons, List.sum_cons, List.countP_cons, ← hpos b]
        split <;> omega
  induction bs with
  | nil => simp
  | cons b bs ih =>
      have hbs := hle bs
      have hhead : n b + (bs.map n).sum = bs.countP p + (if p b = true then 1 else 0) ↔
          ¬ 1 < n b ∧ (bs.map n).sum = bs.countP p := by
        simp only [← hpos b]
        split <;> omega
      rw [List.forall_mem_cons, List.map_cons, List.sum_cons, List.countP_cons]
      exact hhead.trans (and_congr_right fun _ => ih)

end

/-- **Two notions of a line.** Where a line feed and a carriage return are the breaks, `splitlines`
has as many lines with text as the line feed alone cuts, exactly when no carriage return stands
inside the text of such a line. -/
theorem countP_splitlines_eq_iff [DecidableEq α] {cr lf : α} (hcr : space cr = true) (l : List α) :
    (splitlines (fun a => a == lf || a == cr) cr lf l).countP (hasText space) =
        (l.splitOn lf).countP (hasText space) ↔
      ∀ s ∈ l.splitOn lf, cr ∉ trim space s := by
  have hpieces : (splitlines (fun a => a == lf || a == cr) cr lf l).countP (hasText space) =
      ((l.splitOn lf).map (numPieces space cr)).sum := by
    rw [List.countP_eq_length_filter, filter_splitlines rfl (by simp),
      ← List.countP_eq_length_filter, splitOnP_or, List.countP_flatMap]
    rfl
  rw [hpieces, sum_eq_countP_iff (numPieces_pos hcr)]
  simp only [one_lt_numPieces hcr]

end Lines
