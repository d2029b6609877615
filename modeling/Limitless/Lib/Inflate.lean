import Mathlib.Data.List.Basic
import Mathlib.Data.List.Infix

/-!
# Streaming decompression objects

A decompression object takes its input in pieces and gives its output in pieces: a call consumes
some of what it is given, keeps the unconsumed tail, and answers what it could produce under a
limit. `Decompressor` is the interface of such an object and nothing else.

What a stream means is a `Decoding`: the output that an input, all of it, has in it, and whether it
is still being read, has ended, or is corrupt. `Decodes` says that an object decodes it: after any
calls (`Reached`) the output so far is part of what the consumed input decodes to, an error is
raised on corrupt input alone, and `flush` answers what is missing. So the cuts of the input decide
where the output is cut, and nothing else about it, except on corrupt input: there a call raises,
but a `flush` may also answer what comes before the fault, as if the stream went on.

`ofDecoding` is an object for any decoding, and `Decoding.known` decodes one known stream.
-/

namespace Inflate

universe u
variable {β : Type u}

/-- What an input amounts to. -/
inductive Status (β : Type u)
  /-- The stream goes on. -/
  | reading
  /-- The stream has ended, and this much of the input follows it. -/
  | ended (unused : List β)
  | corrupt
  deriving DecidableEq, Repr

/-- What every input decodes to. -/
structure Decoding (β : Type u) where
  output : List β → List β
  status : List β → Status β
  output_nil : output [] = []
  output_append : ∀ a b, output a <+: output (a ++ b)
  status_nil : status [] = .reading
  corrupt_append : ∀ {a}, status a = .corrupt → ∀ b, status (a ++ b) = .corrupt
  ended_append : ∀ {a u}, status a = .ended u → ∀ b,
    status (a ++ b) = .ended (u ++ b) ∧ output (a ++ b) = output a
  ended_split : ∀ {a u}, status a = .ended u → ∃ m, a = m ++ u ∧ status m = .ended []

/-- A decompression object: what its calls answer, and the object they leave. -/
structure Decompressor (β : Type u) where
  State : Type u
  start : State
  /-- `none` is an error. -/
  decompress : State → List β → Nat → Option (List β × State)
  flush : State → Option (List β × State)
  unconsumedTail : State → List β
  /-- What was found after the end of the stream. -/
  unusedData : State → List β
  eof : State → Bool

namespace Decoding

variable {dec : Decoding β} {a u : List β}

/-- What follows an ended stream is less than the whole input. -/
theorem unused_length_lt (h : dec.status a = .ended u) : u.length < a.length := by
  obtain ⟨m, rfl, hm⟩ := dec.ended_split h
  cases m with
  | nil =>
      rw [dec.status_nil] at hm
      cases hm
  | cons b m =>
      rw [List.length_append, List.length_cons]
      omega

end Decoding

namespace Decompressor

variable {D : Decompressor β} {dec : Decoding β} {s s' : D.State} {i o p x : List β} {n : Nat}

/-- Calls of a fresh object have led to `s`: they consumed `i` and answered `o`, in all. -/
inductive Reached (D : Decompressor β) : D.State → List β → List β → Prop
  | start : Reached D D.start [] []
  | call {s s' : D.State} {i o c x : List β} {n : Nat} :
      Reached D s i o → D.decompress s (c ++ D.unconsumedTail s') n = some (x, s') →
        Reached D s' (i ++ c) (o ++ x)

/-- The object decodes `dec`, however its input is cut. -/
structure Decodes (D : Decompressor β) (dec : Decoding β) : Prop where
  tail_start : D.unconsumedTail D.start = []
  length_le : ∀ {s p n x s'}, D.decompress s p n = some (x, s') → x.length ≤ n
  tail_suffix : ∀ {s p n x s'}, D.decompress s p n = some (x, s') → D.unconsumedTail s' <:+ p
  /-- A call with room for output gives some, or consumes some input. -/
  progress : ∀ {s i o p n x s'}, D.Reached s i o → 0 < n → p ≠ [] →
    D.decompress s p n = some (x, s') → x ≠ [] ∨ (D.unconsumedTail s').length < p.length
  produced : ∀ {s i o}, D.Reached s i o → o <+: dec.output i
  /-- A call that has room left has answered all there is. -/
  eager : ∀ {s i o p n x s'}, D.Reached s i o → D.decompress s p n = some (x, s') →
    x.length < n → o ++ x = dec.output (i ++ p)
  decompress_none : ∀ {s i o p n}, D.Reached s i o → D.decompress s p n = none →
    dec.status (i ++ p) = .corrupt
  flush_none : ∀ {s i o}, D.Reached s i o → D.flush s = none →
    dec.status (i ++ D.unconsumedTail s) = .corrupt
  flush_produced : ∀ {s i o x s'}, D.Reached s i o → D.flush s = some (x, s') →
    o ++ x <+: dec.output (i ++ D.unconsumedTail s)
  flush_output : ∀ {s i o x s'}, D.Reached s i o → D.flush s = some (x, s') →
    dec.status (i ++ D.unconsumedTail s) ≠ .corrupt → o ++ x = dec.output (i ++ D.unconsumedTail s)
  flush_status : ∀ {s i o x s'}, D.Reached s i o → D.flush s = some (x, s') →
    dec.status (i ++ D.unconsumedTail s) = .reading ∧ D.eof s' = false ∨
      dec.status (i ++ D.unconsumedTail s) = .ended (D.unusedData s') ∧ D.eof s' = true ∨
      dec.status (i ++ D.unconsumedTail s) = .corrupt ∧ D.eof s' = false

/-- A call with room for output gives some, or leaves less of its input. -/
def Progresses (D : Decompressor β) : Prop :=
  ∀ (s : D.State) (p : List β) (n : Nat) (x : List β) (s' : D.State), p ≠ [] → 0 < n →
    D.decompress s p n = some (x, s') → x ≠ [] ∨ (D.unconsumedTail s').length < p.length

/-- A call consumes what it does not leave. -/
theorem Decodes.reached_call (hD : D.Decodes dec) (hs : D.Reached s i o)
    (h : D.decompress s p n = some (x, s')) :
    ∃ c, p = c ++ D.unconsumedTail s' ∧ D.Reached s' (i ++ c) (o ++ x) := by
  obtain ⟨c, rfl⟩ := hD.tail_suffix h
  exact ⟨c, rfl, hs.call h⟩

end Decompressor

/-! ## An object for a decoding -/

section
variable (dec : Decoding β)

/-- The part of `p` to consume after `i`, until `n` bytes of output are there, and what is left. -/
def consume (n : Nat) : List β → List β → List β × List β
  | _, [] => ([], [])
  | i, b :: p =>
    if n ≤ (dec.output i).length then ([], b :: p) else
    let (c, t) := consume n (i ++ [b]) p
    (b :: c, t)

/-- What an object of `ofDecoding` keeps. -/
structure Progress (β : Type u) where
  consumed : List β
  /-- How much of the output has been answered. -/
  produced : Nat
  tail : List β

/-- An object that decodes `dec`: it consumes no more than the output it is asked for needs. -/
def Decompressor.ofDecoding : Decompressor β where
  State := Progress β
  start := ⟨[], 0, []⟩
  decompress s p n :=
    let (c, t) := consume dec (s.produced + n) s.consumed p
    match dec.status (s.consumed ++ c) with
    | .corrupt => none
    | .reading | .ended _ =>
      let x := ((dec.output (s.consumed ++ c)).drop s.produced).take n
      some (x, ⟨s.consumed ++ c, s.produced + x.length, t⟩)
  flush s :=
    let x := (dec.output (s.consumed ++ s.tail)).drop s.produced
    some (x, ⟨s.consumed ++ s.tail, s.produced + x.length, []⟩)
  unconsumedTail s := s.tail
  unusedData s :=
    match dec.status s.consumed with
    | .ended u => u
    | .reading | .corrupt => []
  eof s :=
    match dec.status s.consumed with
    | .ended _ => true
    | .reading | .corrupt => false

variable {dec}

theorem consume_append (dec : Decoding β) (n : Nat) (i p : List β) :
    (consume dec n i p).1 ++ (consume dec n i p).2 = p := by
  induction p generalizing i with
  | nil => rfl
  | cons b p ih =>
      unfold consume
      split
      · rfl
      · exact congrArg (b :: ·) (ih _)

/-- Nothing is consumed only where the output is there already. -/
theorem consume_progress (dec : Decoding β) (n : Nat) (i : List β) {p : List β} (hp : p ≠ []) :
    n ≤ (dec.output i).length ∨ (consume dec n i p).2.length < p.length := by
  cases p with
  | nil => exact absurd rfl hp
  | cons b p =>
      unfold consume
      split
      · exact .inl ‹_›
      · have h := congrArg List.length (consume_append dec n (i ++ [b]) p)
        rw [List.length_append] at h
        right
        rw [List.length_cons]
        show (consume dec n (i ++ [b]) p).2.length < _
        omega

/-- Some input is left only where the output is there. -/
theorem consume_stops {n : Nat} {i p : List β} (h : (consume dec n i p).2 ≠ []) :
    n ≤ (dec.output (i ++ (consume dec n i p).1)).length := by
  induction p generalizing i with
  | nil => exact absurd rfl h
  | cons b p ih =>
      unfold consume at h ⊢
      split at h
      · next hle =>
          rw [if_pos hle]
          simpa using hle
      · next hlt =>
          rw [if_neg hlt]
          have := ih h
          rwa [List.append_assoc, List.singleton_append] at this

/-- What a call of an object of `ofDecoding` is. -/
theorem ofDecoding_decompress {s s' : Progress β} {p x : List β} {n : Nat}
    (h : (Decompressor.ofDecoding dec).decompress s p n = some (x, s')) :
    ∃ c, p = c ++ s'.tail ∧ s'.tail = (consume dec (s.produced + n) s.consumed p).2 ∧
      s'.consumed = s.consumed ++ c ∧ s'.produced = s.produced + x.length ∧
      x = ((dec.output (s.consumed ++ c)).drop s.produced).take n := by
  have happ := consume_append dec (s.produced + n) s.consumed p
  simp only [Decompressor.ofDecoding] at h
  split at h
  · cases h
  all_goals
    cases h
    exact ⟨_, happ.symm, rfl, rfl, rfl, rfl⟩

/-- An object of `ofDecoding` keeps what has been consumed, and how much has been answered. -/
theorem ofDecoding_reached {s : (Decompressor.ofDecoding dec).State} {i o : List β}
    (h : (Decompressor.ofDecoding dec).Reached s i o) :
    Progress.consumed s = i ∧ o.length = Progress.produced s ∧ o <+: dec.output i := by
  induction h with
  | start => exact ⟨rfl, rfl, List.nil_prefix⟩
  | @call s s' i o c x n _ hcall ih =>
      obtain ⟨hi, hlen, hpre⟩ := ih
      obtain ⟨c', hp, _, hc', hprod, hx⟩ := ofDecoding_decompress hcall
      have hcc : c = c' := List.append_cancel_right hp
      subst hcc
      refine ⟨hc'.trans (by rw [hi]), by rw [List.length_append, hlen, hprod], ?_⟩
      -- the output so far and the new piece are the beginning of what there is now
      have hlong := List.prefix_iff_eq_take.mp (hpre.trans (dec.output_append i c))
      rw [hx, hi, hlong, hlen, ← List.take_add]
      exact List.take_prefix ..

/-- A flush of an object of `ofDecoding` answers what is missing. -/
theorem ofDecoding_flush {s s' : (Decompressor.ofDecoding dec).State} {i o x : List β}
    (hs : (Decompressor.ofDecoding dec).Reached s i o)
    (h : (Decompressor.ofDecoding dec).flush s = some (x, s')) :
    o ++ x = dec.output (i ++ (Decompressor.ofDecoding dec).unconsumedTail s) := by
  obtain ⟨rfl, hlen, hpre⟩ := ofDecoding_reached hs
  have hlong := List.prefix_iff_eq_take.mp (hpre.trans (dec.output_append _ (Progress.tail s)))
  cases h
  rw [hlong, hlen]
  exact List.take_append_drop ..

/-- An object of `ofDecoding` makes progress, whatever it keeps. -/
theorem ofDecoding_progresses (dec : Decoding β) : (Decompressor.ofDecoding dec).Progresses := by
  intro s p n x s' hp hn h
  obtain ⟨c, rfl, htail, _, _, hx⟩ := ofDecoding_decompress h
  rcases consume_progress dec (Progress.produced s + n) (Progress.consumed s) hp with hle | hlt
  · left
    rw [← List.length_pos_iff, hx, List.length_take, List.length_drop]
    have := (dec.output_append (Progress.consumed s) c).length_le
    omega
  · right
    show (Progress.tail s').length < _
    exact (congrArg List.length htail).trans_lt hlt

/-- **An object for a decoding.** -/
theorem ofDecoding_decodes (dec : Decoding β) : (Decompressor.ofDecoding dec).Decodes dec where
  tail_start := rfl
  length_le h := by
    obtain ⟨_, _, _, _, _, rfl⟩ := ofDecoding_decompress h
    exact List.length_take_le ..
  tail_suffix h := by
    obtain ⟨c, hp, _⟩ := ofDecoding_decompress h
    exact ⟨c, hp.symm⟩
  progress _ hn hp h := ofDecoding_progresses dec _ _ _ _ _ hp hn h
  produced h := (ofDecoding_reached h).2.2
  eager {s i o p n x s'} hs h hlt := by
    obtain ⟨rfl, hlen, hpre⟩ := ofDecoding_reached hs
    obtain ⟨c, rfl, htail, _, _, hx⟩ := ofDecoding_decompress h
    have happ := consume_append dec (Progress.produced s + n) (Progress.consumed s)
      (c ++ Progress.tail s')
    have hc : (consume dec (Progress.produced s + n) (Progress.consumed s)
        (c ++ Progress.tail s')).1 = c := List.append_cancel_right (happ.trans (by rw [← htail]))
    have hnil : Progress.tail s' = [] := by
      by_contra hne
      rw [htail] at hne
      have hle := consume_stops hne
      rw [hc] at hle
      rw [hx, List.length_take, List.length_drop] at hlt
      omega
    have hlong := List.prefix_iff_eq_take.mp (hpre.trans (dec.output_append _ c))
    rw [hx, List.length_take, List.length_drop] at hlt
    rw [hnil, List.append_nil, hx, hlong, hlen, ← List.take_add]
    exact List.take_of_length_le (by omega)
  decompress_none {s i o p n} hs h := by
    obtain ⟨rfl, -, -⟩ := ofDecoding_reached hs
    have happ := consume_append dec (Progress.produced s + n) (Progress.consumed s) p
    simp only [Decompressor.ofDecoding] at h
    split at h
    · next hcorrupt =>
        have := dec.corrupt_append hcorrupt
          (consume dec (Progress.produced s + n) (Progress.consumed s) p).2
        rwa [List.append_assoc, happ] at this
    all_goals cases h
  flush_none _ h := by cases h
  flush_produced {s i o x s'} hs h := by rw [ofDecoding_flush hs h]
  flush_output {s i o x s'} hs h _ := ofDecoding_flush hs h
  flush_status {s i o x s'} hs h := by
    obtain ⟨rfl, -, -⟩ := ofDecoding_reached hs
    simp only [Decompressor.ofDecoding] at h ⊢
    cases h
    cases hstatus : dec.status (Progress.consumed s ++ Progress.tail s) with
    | reading => exact .inl ⟨rfl, rfl⟩
    | ended u => exact .inr (.inl ⟨rfl, rfl⟩)
    | corrupt => exact .inr (.inr ⟨rfl, rfl⟩)

end

/-! ## One known stream -/

section
variable [DecidableEq β]

/-- The output of a stream given as pieces of input, each with the output it completes. -/
def knownOutput : List (List β × List β) → List β → List β
  | [], _ => []
  | (s, o) :: rest, a => if s <+: a then o ++ knownOutput rest (a.drop s.length) else []

/-- How far an input follows such a stream. -/
def knownStatus : List (List β × List β) → List β → Status β
  | [], a => .ended a
  | (s, _) :: rest, a =>
    if s <+: a then knownStatus rest (a.drop s.length)
    else if a <+: s then .reading
    else .corrupt

@[simp] theorem knownOutput_nil (a : List β) : knownOutput [] a = [] := rfl

@[simp] theorem knownStatus_nil (a : List β) : knownStatus [] a = .ended a := rfl

omit [DecidableEq β] in
theorem drop_append_of_prefix {s a : List β} (h : s <+: a) (b : List β) :
    (a ++ b).drop s.length = a.drop s.length ++ b := List.drop_append_of_le_length h.length_le

theorem knownOutput_append (pieces : List (List β × List β)) (a b : List β) :
    knownOutput pieces a <+: knownOutput pieces (a ++ b) := by
  induction pieces generalizing a with
  | nil => exact List.nil_prefix
  | cons piece rest ih =>
      obtain ⟨s, o⟩ := piece
      unfold knownOutput
      split
      · next h =>
          rw [if_pos (h.trans (List.prefix_append a b)), drop_append_of_prefix h]
          exact (List.prefix_append_right_inj o).mpr (ih _)
      · exact List.nil_prefix

theorem knownStatus_corrupt {pieces : List (List β × List β)} {a : List β}
    (h : knownStatus pieces a = .corrupt) (b : List β) :
    knownStatus pieces (a ++ b) = .corrupt := by
  induction pieces generalizing a with
  | nil => cases h
  | cons piece rest ih =>
      obtain ⟨s, o⟩ := piece
      unfold knownStatus at h ⊢
      split at h
      · next hs =>
          rw [if_pos (hs.trans (List.prefix_append a b)), drop_append_of_prefix hs]
          exact ih h
      · next hs =>
          split at h
          · cases h
          · next ha =>
              -- two beginnings of one list are one of the other
              have hsa : ¬ s <+: a ++ b := by
                intro hsab
                rcases List.prefix_or_prefix_of_prefix hsab (List.prefix_append a b) with h' | h'
                exacts [hs h', ha h']
              rw [if_neg hsa, if_neg fun hab => ha ((List.prefix_append a b).trans hab)]

theorem knownStatus_ended {pieces : List (List β × List β)} {a u : List β}
    (h : knownStatus pieces a = .ended u) :
    (∀ b, knownStatus pieces (a ++ b) = .ended (u ++ b) ∧
      knownOutput pieces (a ++ b) = knownOutput pieces a) ∧
    ∃ m, a = m ++ u ∧ knownStatus pieces m = .ended [] := by
  induction pieces generalizing a with
  | nil =>
      cases h
      exact ⟨fun b => ⟨rfl, rfl⟩, [], rfl, rfl⟩
  | cons piece rest ih =>
      obtain ⟨s, o⟩ := piece
      unfold knownStatus at h
      split at h
      · next hs =>
          obtain ⟨hmore, m, hm, hend⟩ := ih h
          refine ⟨fun b => ?_, s ++ m, ?_, ?_⟩
          · obtain ⟨hstatus, hout⟩ := hmore b
            unfold knownStatus knownOutput
            rw [if_pos (hs.trans (List.prefix_append a b)), if_pos hs,
              if_pos (hs.trans (List.prefix_append a b)), drop_append_of_prefix hs, hout]
            exact ⟨hstatus, rfl⟩
          · rw [List.append_assoc, ← hm]
            exact (List.prefix_iff_eq_append.mp hs).symm
          · unfold knownStatus
            rw [if_pos (List.prefix_append s m), List.drop_left]
            exact hend
      · split at h <;> cases h

/-- The next piece of a known stream. -/
theorem known_cons_append (s o : List β) (rest : List (List β × List β)) (a : List β) :
    knownOutput ((s, o) :: rest) (s ++ a) = o ++ knownOutput rest a ∧
      knownStatus ((s, o) :: rest) (s ++ a) = knownStatus rest a := by
  have hpre := List.prefix_append s a
  constructor
  · refine (if_pos hpre).trans ?_
    rw [List.drop_left]
  · refine (if_pos hpre).trans ?_
    rw [List.drop_left]

/-- Where the next piece has not all arrived. -/
theorem known_cons_begun {s a : List β} (ha : a <+: s) (hne : a ≠ s) (o : List β)
    (rest : List (List β × List β)) :
    knownOutput ((s, o) :: rest) a = [] ∧ knownStatus ((s, o) :: rest) a = .reading := by
  have hno : ¬ s <+: a := fun h => hne (ha.eq_of_length_le h.length_le)
  exact ⟨if_neg hno, (if_neg hno).trans (if_pos ha)⟩

/-- The decoding of one known stream: any other input is corrupt where it departs from it. -/
def Decoding.known (s o : List β) (rest : List (List β × List β)) (hs : s ≠ []) : Decoding β where
  output := knownOutput ((s, o) :: rest)
  status := knownStatus ((s, o) :: rest)
  output_nil := (known_cons_begun List.nil_prefix hs.symm o rest).1
  output_append := knownOutput_append _
  status_nil := (known_cons_begun List.nil_prefix hs.symm o rest).2
  corrupt_append h := knownStatus_corrupt h
  ended_append h := (knownStatus_ended h).1
  ended_split h := (knownStatus_ended h).2

end

end Inflate
