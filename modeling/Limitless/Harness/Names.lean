import Limitless.Harness.Burst
import Mathlib.Data.List.Nodup

/-!
# The names a round works with

`company_name` is a numeral in mixed radix written in words: one of twelve prefixes, one of ten
suffixes, and past the first hundred and twenty a series number from 2 on. No word holds a blank, so
a name splits back into its words, each word into its digit, and the digits into the index
(`companyName_inj`). From that the slots of a round ask for companies of their own.
-/

namespace Limitless

namespace Fixtures

/-! ## Reading a name back -/

/-- What stands before the first blank, and what stands behind it. -/
theorem append_blank_inj {xs ys us vs : List Char} (hxs : ' ' ∉ xs) (hys : ' ' ∉ ys)
    (h : xs ++ ' ' :: us = ys ++ ' ' :: vs) : xs = ys ∧ us = vs := by
  induction xs generalizing ys with
  | nil =>
      cases ys with
      | nil => exact ⟨rfl, by simpa using h⟩
      | cons y ys =>
          obtain ⟨rfl, -⟩ := List.cons.inj h
          simp at hys
  | cons x xs ih =>
      cases ys with
      | nil =>
          obtain ⟨rfl, -⟩ := List.cons.inj h
          simp at hxs
      | cons y ys =>
          obtain ⟨rfl, hrest⟩ := List.cons.inj h
          rw [List.mem_cons, not_or] at hxs hys
          obtain ⟨rfl, rfl⟩ := ih hxs.2 hys.2 hrest
          exact ⟨rfl, rfl⟩

/-- The entry of a list without repetitions says where it stands. -/
theorem getD_inj {l : List String} (hl : l.Nodup) {m n : ℕ} (hm : m < l.length)
    (hn : n < l.length) (h : (l.getD m "").toList = (l.getD n "").toList) : m = n := by
  rw [List.getD_eq_getElem?_getD, List.getD_eq_getElem?_getD, List.getElem?_eq_getElem hm,
    List.getElem?_eq_getElem hn] at h
  exact hl.getElem_inj_iff.mp (String.toList_inj.mp h)

theorem blank_notMem_getD {l : List String} (hl : ∀ w ∈ "" :: l, ' ' ∉ w.toList) (k : ℕ) :
    ' ' ∉ (l.getD k "").toList := hl _ (mem_getD l "" k)

theorem blank_notMem_namePrefix (k : ℕ) : ' ' ∉ (namePrefixes.getD k "").toList :=
  blank_notMem_getD (by decide) k

theorem blank_notMem_nameSuffix (k : ℕ) : ' ' ∉ (nameSuffixes.getD k "").toList :=
  blank_notMem_getD (by decide) k

/-- A decimal numeral is read back. -/
theorem toString_inj {m n : ℤ} (hm : 0 ≤ m) (hn : 0 ≤ n)
    (h : (toString m).toList = (toString n).toList) : m = n := by
  obtain ⟨a, rfl⟩ := Int.eq_ofNat_of_zero_le hm
  obtain ⟨b, rfl⟩ := Int.eq_ofNat_of_zero_le hn
  have hdigits : Nat.toDigits 10 a = Nat.toDigits 10 b := by
    rw [← Nat.toList_repr, ← Nat.toList_repr]
    exact h
  have hread := congrArg (fun digits => Nat.ofDigitChars 10 digits 0) hdigits
  simp only [Nat.ofDigitChars_ten_toDigits] at hread
  rw [hread]

/-! ## A name and its index -/

/-- The words of a name: the series is not written while it is 0. -/
theorem toList_companyName (i : ℤ) : (companyName i).toList =
    (namePrefixes.getD ((i - 1) % 12).toNat "").toList ++ ' ' ::
      ((nameSuffixes.getD ((i - 1) / 12 % 10).toNat "").toList ++
        if (i - 1) / 120 = 0 then [] else ' ' :: (toString ((i - 1) / 120 + 1)).toList) := by
  have hprefixes : (namePrefixes.length : ℤ) = 12 := rfl
  have hsuffixes : (nameSuffixes.length : ℤ) = 10 := rfl
  have hblank : " ".toList = [' '] := rfl
  simp only [companyName, hprefixes, hsuffixes, show (12 * 10 : ℤ) = 120 from rfl]
  split <;> simp [hblank]

/-- The digits of two equal names agree. -/
theorem digits_of_companyName_eq {i j : ℤ} (hi : 1 ≤ i) (hj : 1 ≤ j)
    (h : companyName i = companyName j) :
    (i - 1) % 12 = (j - 1) % 12 ∧ (i - 1) / 12 % 10 = (j - 1) / 12 % 10 ∧
      (i - 1) / 120 = (j - 1) / 120 := by
  have hwords := congrArg String.toList h
  rw [toList_companyName, toList_companyName] at hwords
  obtain ⟨hhead, hrest⟩ :=
    append_blank_inj (blank_notMem_namePrefix _) (blank_notMem_namePrefix _) hwords
  have hprefixes : namePrefixes.length = 12 := rfl
  have hsuffixes : nameSuffixes.length = 10 := rfl
  have hfirst := getD_inj (by decide) (by omega) (by omega) hhead
  -- a series number is written in both names or in neither: no suffix holds a blank
  have hsecond : (nameSuffixes.getD ((i - 1) / 12 % 10).toNat "").toList =
      (nameSuffixes.getD ((j - 1) / 12 % 10).toNat "").toList ∧
      (i - 1) / 120 = (j - 1) / 120 := by
    have hnone := fun k => blank_notMem_nameSuffix k
    split at hrest <;> split at hrest
    · next hseries hseries' =>
        rw [List.append_nil, List.append_nil] at hrest
        exact ⟨hrest, hseries.trans hseries'.symm⟩
    · refine absurd ?_ (hnone ((i - 1) / 12 % 10).toNat)
      rw [← List.append_nil (String.toList _), hrest]
      exact List.mem_append_right _ List.mem_cons_self
    · refine absurd ?_ (hnone ((j - 1) / 12 % 10).toNat)
      rw [← List.append_nil (String.toList _), ← hrest]
      exact List.mem_append_right _ List.mem_cons_self
    · obtain ⟨htail, hseries⟩ := append_blank_inj (hnone _) (hnone _) hrest
      have := toString_inj (by omega) (by omega) hseries
      exact ⟨htail, by omega⟩
  have htail := getD_inj (by decide) (by omega) (by omega) hsecond.1
  exact ⟨by omega, by omega, hsecond.2⟩

/-- Every index is its own company. -/
theorem companyName_inj {i j : ℤ} (hi : 1 ≤ i) (hj : 1 ≤ j)
    (h : companyName i = companyName j) : i = j := by
  obtain ⟨hfirst, hsecond, hseries⟩ := digits_of_companyName_eq hi hj h
  omega

end Fixtures

namespace Harness

/-! ## The names of a slot -/

theorem mem_companyNames {count offset : ℕ} {name : String} :
    name ∈ companyNames count offset ↔
      ∃ i : ℕ, offset < i ∧ i ≤ offset + count ∧ Fixtures.companyName i = name := by
  simp only [companyNames, List.mem_map, List.mem_range'_1]
  constructor
  · rintro ⟨i, hi, rfl⟩
    exact ⟨offset + i, by omega, by omega, rfl⟩
  · rintro ⟨i, hlow, hhigh, rfl⟩
    exact ⟨i - offset, by omega, by rw [Nat.add_sub_cancel' hlow.le]⟩

/-- Consecutive indices name companies of their own. -/
theorem nodup_companyNames (count offset : ℕ) : (companyNames count offset).Nodup := by
  refine List.Nodup.map_on (fun i hi j hj h => ?_) List.nodup_range'
  rw [List.mem_range'_1] at hi hj
  have := Fixtures.companyName_inj (by omega) (by omega) h
  omega

/-- Indices that do not overlap name no company in common. -/
theorem disjoint_companyNames {count count' offset offset' : ℕ} (h : offset + count ≤ offset') :
    (companyNames count offset).Disjoint (companyNames count' offset') := by
  intro name hmem hmem'
  obtain ⟨i, hlow, hhigh, rfl⟩ := mem_companyNames.mp hmem
  obtain ⟨j, hlow', hhigh', hname⟩ := mem_companyNames.mp hmem'
  have := Fixtures.companyName_inj (by omega) (by omega) hname
  omega

/-- The names of an enrichment. -/
def Call.names : Call → List String
  | .enrich companyNames => companyNames
  | .enrichRaw _ | .listRecords _ | .importBundle _ | .job _ => []

/-- Slots of one size ask for companies of their own. -/
theorem pairwise_workRequests {slots : List WorkSlot} {count : ℕ}
    (h : ∀ slot ∈ slots, slot.records = count) (startSequence nameOffset : ℕ) :
    (RoundBuilder.workRequests slots startSequence nameOffset).Pairwise
      fun q q' => q.call.names.Disjoint q'.call.names := by
  rw [List.pairwise_iff_getElem]
  intro a b ha hb hab
  rw [RoundBuilder.workRequests, List.length_mapIdx] at ha hb
  simp only [RoundBuilder.workRequests, List.getElem_mapIdx, Call.names,
    h _ (List.getElem_mem ha), h _ (List.getElem_mem hb)]
  refine disjoint_companyNames ?_
  have : (a + 1) * count ≤ b * count := Nat.mul_le_mul_right count hab
  rw [Nat.add_mul] at this
  omega

/-- **Every index is its own company.** So consecutive indices name as many companies, and slots of
one size, each from its own offset, none in common. -/
theorem company_names_distinct :
    (∀ i j : ℤ, 1 ≤ i → 1 ≤ j → Fixtures.companyName i = Fixtures.companyName j → i = j) ∧
    (∀ count offset : ℕ, (companyNames count offset).length = count ∧
      (companyNames count offset).Nodup) ∧
    ∀ (slots : List WorkSlot) (count startSequence nameOffset : ℕ),
      (∀ slot ∈ slots, slot.records = count) →
        (RoundBuilder.workRequests slots startSequence nameOffset).map (·.call.names) =
          (List.range slots.length).map
            (fun index => companyNames count (nameOffset + index * count)) ∧
        (RoundBuilder.workRequests slots startSequence nameOffset).Pairwise
          fun q q' => q.call.names.Disjoint q'.call.names := by
  refine ⟨fun i j => Fixtures.companyName_inj, fun count offset =>
    ⟨by simp [companyNames], nodup_companyNames count offset⟩,
    fun slots count startSequence nameOffset h =>
      ⟨?_, pairwise_workRequests h startSequence nameOffset⟩⟩
  refine List.ext_getElem (by simp [RoundBuilder.workRequests]) fun index hindex _ => ?_
  have hslot : index < slots.length := by simpa [RoundBuilder.workRequests] using hindex
  simp [RoundBuilder.workRequests, Call.names, h _ (List.getElem_mem hslot)]

/-- Across the change from names without a number to names with one. -/
theorem company_names_distinct_of_two_slots :
    Fixtures.companyName 1 ≠ Fixtures.companyName 121 ∧
    (RoundBuilder.workRequests [⟨"TEN-BASIL", 2⟩, ⟨"TEN-WREN", 2⟩] 100 118).Pairwise
      fun q q' => q.call.names.Disjoint q'.call.names :=
  ⟨fun h => absurd (company_names_distinct.1 1 121 (by decide) (by decide) h) (by decide),
    (company_names_distinct.2.2 [⟨"TEN-BASIL", 2⟩, ⟨"TEN-WREN", 2⟩] 2 100 118 (by simp)).2⟩

end Harness

end Limitless
