import Limitless.Vulnerable.HalfFixes
import Mathlib.Algebra.Order.Ring.Int
import Mathlib.Algebra.Order.Ring.Rat
import Mathlib.Data.List.Induction
import Mathlib.Tactic.NormNum

/-!
# The rate limiter does its job

`RequestRateLimiter.allow` keeps, for each key, the times it allowed, less those that have left the
window. `Logged` compares that with the whole log of allowed times: the two look alike from any
window that ends now or later, and the log is admissible. So a call is refused exactly when its
window is full, and no window is ever more than full (`sliding_window_exact`). What the limiter
counts is requests, which is not what runs out.
-/

namespace Limitless.Vulnerable

open SlidingWindow

variable {T : Type*}

/-- A call of `allow`. -/
structure AllowCall (T : Type*) where
  key : String
  now : T
  deriving DecidableEq, Repr

namespace RequestRateLimiter

/-- The times of a key's calls that were allowed. -/
def allowedTimes (key : String) (calls : List (AllowCall T)) (answers : List Bool) : List T :=
  ((calls.zip answers).filter fun x => x.1.key = key ∧ x.2).map fun x => x.1.now

/-- The answers to a key's calls. -/
def answersTo (key : String) (calls : List (AllowCall T)) (answers : List Bool) : List Bool :=
  ((calls.zip answers).filter fun x => x.1.key = key).map Prod.snd

variable {calls earlier later : List (AllowCall T)} {c : AllowCall T} {answers : List Bool}
  {key : String} {t : T}

/-- The last call's time joins its key's log if it was allowed. -/
theorem allowedTimes_concat (h : answers.length = calls.length) (c : AllowCall T) (answer : Bool)
    (key : String) :
    allowedTimes key (calls ++ [c]) (answers ++ [answer]) = allowedTimes key calls answers ++
      if c.key = key ∧ answer then [c.now] else [] := by
  unfold allowedTimes
  rw [List.zip_append h.symm, List.filter_append, List.map_append]
  congr 1
  by_cases hc : c.key = key ∧ answer = true
  · simp [hc]
  · rw [if_neg hc, List.zip_cons_cons, List.zip_nil_right,
      List.filter_cons_of_neg (by simpa using hc), List.filter_nil, List.map_nil]

theorem mem_calls_of_allowed (h : t ∈ allowedTimes key calls answers) : ∃ c ∈ calls, c.now = t := by
  obtain ⟨x, hx, rfl⟩ := List.mem_map.mp h
  exact ⟨x.1, (List.of_mem_zip (List.mem_of_mem_filter hx)).1, rfl⟩

variable [AddCommGroup T] [LinearOrder T] {l l' : RequestRateLimiter T}

/-- The answers to calls, oldest first, and the limiter after them. -/
def serve (l : RequestRateLimiter T) : List (AllowCall T) → List Bool × RequestRateLimiter T
  | [] => ([], l)
  | c :: calls =>
    let (answer, l) := l.allow c.key c.now
    let (answers, l) := l.serve calls
    (answer :: answers, l)

/-! ## One call -/

/-- A call prunes its key's times, and adds its own if there is room. -/
theorem allow_cases (l : RequestRateLimiter T) (key : String) (t : T) :
    (l.maxRequests ≤ (recent l.windowSeconds t (l.seen key)).length ∧
      l.allow key t = (false, { l with
        seen := Function.update l.seen key (recent l.windowSeconds t (l.seen key))
        report := { l.report with refused := l.report.refused + 1 } })) ∨
    ((recent l.windowSeconds t (l.seen key)).length < l.maxRequests ∧
      l.allow key t = (true, { l with
        seen := Function.update l.seen key (recent l.windowSeconds t (l.seen key) ++ [t])
        report := { l.report with allowed := l.report.allowed + 1 } })) := by
  rcases Nat.lt_or_ge (recent l.windowSeconds t (l.seen key)).length l.maxRequests
    with hroom | hfull
  · exact .inr ⟨hroom, if_neg (Nat.not_le.mpr hroom)⟩
  · exact .inl ⟨hfull, if_pos hfull⟩

theorem allow_answer (l : RequestRateLimiter T) (key : String) (t : T) : (l.allow key t).1 =
    decide ((recent l.windowSeconds t (l.seen key)).length < l.maxRequests) := by
  rcases l.allow_cases key t with ⟨hfull, heq⟩ | ⟨hroom, heq⟩
  · simp [heq, hfull]
  · simp [heq, hroom]

/-- What a call leaves for each key. -/
theorem allow_seen (l : RequestRateLimiter T) (key : String) (t : T) :
    (l.allow key t).2.seen = Function.update l.seen key
      (recent l.windowSeconds t (l.seen key) ++ if (l.allow key t).1 then [t] else []) := by
  rcases l.allow_cases key t with ⟨-, heq⟩ | ⟨-, heq⟩
  · simp [heq]
  · simp [heq]

theorem allow_settings (l : RequestRateLimiter T) (key : String) (t : T) :
    (l.allow key t).2.maxRequests = l.maxRequests ∧
      (l.allow key t).2.windowSeconds = l.windowSeconds := by
  rcases l.allow_cases key t with ⟨-, heq⟩ | ⟨-, heq⟩
  · simp [heq]
  · simp [heq]

theorem allow_report (l : RequestRateLimiter T) (key : String) (t : T) :
    (l.allow key t).2.report.allowed + (l.allow key t).2.report.refused =
      l.report.allowed + l.report.refused + 1 := by
  rcases l.allow_cases key t with ⟨-, heq⟩ | ⟨-, heq⟩
  · rw [heq]
    show l.report.allowed + (l.report.refused + 1) = _
    omega
  · rw [heq]
    show l.report.allowed + 1 + l.report.refused = _
    omega

/-! ## A sequence of calls -/

theorem length_serve (l : RequestRateLimiter T) (calls : List (AllowCall T)) :
    (l.serve calls).1.length = calls.length := by
  induction calls generalizing l with
  | nil => rfl
  | cons c calls ih => exact congrArg (· + 1) (ih _)

theorem serve_append (l : RequestRateLimiter T) (earlier later : List (AllowCall T)) :
    l.serve (earlier ++ later) =
      ((l.serve earlier).1 ++ ((l.serve earlier).2.serve later).1,
        ((l.serve earlier).2.serve later).2) := by
  induction earlier generalizing l with
  | nil => rfl
  | cons c earlier ih => simp only [List.cons_append, serve, ih]

theorem serve_concat (l : RequestRateLimiter T) (calls : List (AllowCall T)) (c : AllowCall T) :
    l.serve (calls ++ [c]) =
      ((l.serve calls).1 ++ [((l.serve calls).2.allow c.key c.now).1],
        ((l.serve calls).2.allow c.key c.now).2) := by
  rw [serve_append]
  rfl

/-- The answers to a key's calls are those of a limiter that gets no others. -/
theorem answersTo_serve (hmax : l.maxRequests = l'.maxRequests)
    (hwindow : l.windowSeconds = l'.windowSeconds) (hseen : l.seen key = l'.seen key) :
    answersTo key calls (l.serve calls).1 = (l'.serve (calls.filter (·.key = key))).1 := by
  induction calls generalizing l l' with
  | nil => rfl
  | cons c calls ih =>
      obtain ⟨hmax', hwindow'⟩ := l.allow_settings c.key c.now
      by_cases hc : c.key = key
      · -- a call of the key finds the same in both
        subst hc
        obtain ⟨hmax₂, hwindow₂⟩ := l'.allow_settings c.key c.now
        have hanswer : (l.allow c.key c.now).1 = (l'.allow c.key c.now).1 := by
          rw [allow_answer, allow_answer, hmax, hwindow, hseen]
        have hnext := ih (hmax'.trans (hmax.trans hmax₂.symm))
          (hwindow'.trans (hwindow.trans hwindow₂.symm))
          (by
            rw [allow_seen, allow_seen, Function.update_self, Function.update_self, hanswer, hseen,
              hwindow])
        simp only [answersTo, serve, List.zip_cons_cons, decide_true, List.filter_cons_of_pos,
          List.map_cons]
        exact congrArg₂ _ hanswer hnext
      · have hseen' : (l.allow c.key c.now).2.seen key = l'.seen key := by
          rw [allow_seen, Function.update_of_ne (Ne.symm hc), hseen]
        have hnext := ih (hmax'.trans hmax) (hwindow'.trans hwindow) hseen'
        simp only [answersTo, serve, List.zip_cons_cons]
        rw [List.filter_cons_of_neg (by simpa using hc),
          List.filter_cons_of_neg (by simpa using hc)]
        exact hnext

/-! ## The log behind the limiter -/

variable [IsOrderedAddMonoid T]

/-- What the limiter remembers looks like the whole log from now on, and the log is admissible. -/
structure Logged (max : ℕ) (w : T) (calls : List (AllowCall T)) (answers : List Bool)
    (l : RequestRateLimiter T) : Prop where
  maxRequests : l.maxRequests = max
  windowSeconds : l.windowSeconds = w
  seen : ∀ key t, (∀ c ∈ calls, c.now ≤ t) →
    recent w t (l.seen key) = recent w t (allowedTimes key calls answers)
  admissible : ∀ key, Admissible max w (allowedTimes key calls answers)
  report : l.report.allowed + l.report.refused = calls.length

variable {maxRequests : ℕ} {windowSeconds : T}

/-- A call is refused exactly when its window is full. -/
theorem Logged.refused_iff (h : Logged maxRequests windowSeconds calls answers l)
    (hpast : ∀ c ∈ calls, c.now ≤ t) (key : String) :
    (l.allow key t).1 = false ↔
      within windowSeconds t (allowedTimes key calls answers) = maxRequests := by
  have hlog : ∀ at' ∈ allowedTimes key calls answers, at' ≤ t := by
    intro at' hat
    obtain ⟨c, hc, rfl⟩ := mem_calls_of_allowed hat
    exact hpast c hc
  rw [allow_answer, h.maxRequests, h.windowSeconds, h.seen key t hpast, length_recent hlog,
    decide_eq_false_iff_not, not_lt]
  exact ⟨fun hfull => ((h.admissible key).within_le t).antisymm hfull, fun heq => heq.ge⟩

/-- **One call.** It keeps what the limiter remembers like the log. -/
theorem Logged.concat (h : Logged maxRequests windowSeconds calls answers l)
    (hlength : answers.length = calls.length) (hpast : ∀ d ∈ calls, d.now ≤ c.now) :
    Logged maxRequests windowSeconds (calls ++ [c]) (answers ++ [(l.allow c.key c.now).1])
      (l.allow c.key c.now).2 := by
  obtain ⟨hmax, hwindow⟩ := l.allow_settings c.key c.now
  refine ⟨hmax.trans h.maxRequests, hwindow.trans h.windowSeconds, fun key t ht => ?_,
    fun key => ?_, ?_⟩
  · have hc : c.now ≤ t := ht c (by simp)
    have hcalls : ∀ d ∈ calls, d.now ≤ t := fun d hd => ht d (List.mem_append_left _ hd)
    rw [allowedTimes_concat hlength, allow_seen, h.windowSeconds]
    by_cases hkey : c.key = key
    · -- pruned now, and again at the later time
      subst hkey
      rw [Function.update_self, recent_append, recent_append, recent_recent hc, h.seen _ t hcalls]
      simp
    · rw [Function.update_of_ne (Ne.symm hkey), if_neg fun hand => hkey hand.1, List.append_nil,
        h.seen key t hcalls]
  · rw [allowedTimes_concat hlength]
    split
    · next hallowed =>
        obtain ⟨rfl, hanswer⟩ := hallowed
        refine (h.admissible c.key).concat (fun at' hat => ?_) ?_
        · obtain ⟨d, hd, rfl⟩ := mem_calls_of_allowed hat
          exact hpast d hd
        · refine lt_of_le_of_ne ((h.admissible c.key).within_le c.now) fun hfull => ?_
          rw [(h.refused_iff hpast c.key).mpr hfull] at hanswer
          cases hanswer
    · rw [List.append_nil]
      exact h.admissible key
  · rw [allow_report, h.report, List.length_append, List.length_singleton]

/-- Every sequence of calls whose times do not go back. -/
theorem logged_serve (maxRequests : ℕ) (windowSeconds : T)
    (hordered : calls.Pairwise fun a b => a.now ≤ b.now) :
    Logged maxRequests windowSeconds calls ((make maxRequests windowSeconds).serve calls).1
      ((make maxRequests windowSeconds).serve calls).2 := by
  induction calls using List.reverseRecOn with
  | nil => exact ⟨rfl, rfl, fun _ _ _ => rfl, fun _ => .nil, rfl⟩
  | append_singleton calls c ih =>
      rw [List.pairwise_append] at hordered
      obtain ⟨hcalls, -, hpast⟩ := hordered
      rw [serve_concat]
      exact (ih hcalls).concat (length_serve ..) fun d hd => hpast d hd c (by simp)

end RequestRateLimiter

open RequestRateLimiter

/-- **The limiter is exact.** Of calls whose times do not go back: no window of any key, wherever it
ends, has more than `maxRequests` of the allowed calls; a call is refused exactly when the window
that ends at it has that many; the answers for a key are those its calls would get whatever other
calls there were; and every call is counted once. -/
theorem sliding_window_exact [AddCommGroup T] [LinearOrder T] [IsOrderedAddMonoid T]
    (maxRequests : ℕ) (windowSeconds : T)
    {calls : List (AllowCall T)} (hordered : calls.Pairwise fun a b => a.now ≤ b.now) :
    let limiter := RequestRateLimiter.make maxRequests windowSeconds
    let (answers, after) := limiter.serve calls
    (∀ key s, within windowSeconds s (allowedTimes key calls answers) ≤ maxRequests) ∧
    (∀ earlier c later, calls = earlier ++ c :: later →
      (answers[earlier.length]? = some false ↔
        within windowSeconds c.now (allowedTimes c.key earlier answers) = maxRequests)) ∧
    (∀ key calls', calls'.filter (·.key = key) = calls.filter (·.key = key) →
      answersTo key calls' (limiter.serve calls').1 = answersTo key calls answers) ∧
    answers.length = calls.length ∧ after.report.allowed + after.report.refused = calls.length := by
  have hlogged := logged_serve maxRequests windowSeconds hordered
  refine ⟨fun key s => (hlogged.admissible key).within_le s, ?_, fun key calls' hsame => ?_,
    length_serve .., hlogged.report⟩
  · rintro earlier c later rfl
    rw [List.pairwise_append] at hordered
    obtain ⟨hearlier, -, hacross⟩ := hordered
    have hpast : ∀ d ∈ earlier, d.now ≤ c.now := fun d hd => hacross d hd c List.mem_cons_self
    have hlength := length_serve (make maxRequests windowSeconds) earlier
    have hzip : ∀ rest, earlier.zip (((make maxRequests windowSeconds).serve earlier).1 ++ rest) =
        earlier.zip ((make maxRequests windowSeconds).serve earlier).1 := by
      intro rest
      have hsplit :
          (earlier ++ []).zip (((make maxRequests windowSeconds).serve earlier).1 ++ rest) =
          earlier.zip ((make maxRequests windowSeconds).serve earlier).1 ++ [].zip rest :=
        List.zip_append hlength.symm
      rwa [List.append_nil, List.zip_nil_left, List.append_nil] at hsplit
    rw [serve_append, List.getElem?_append_right (by omega), hlength, Nat.sub_self]
    simp only [serve, List.getElem?_cons_zero, Option.some.injEq]
    rw [(logged_serve maxRequests windowSeconds hearlier).refused_iff hpast c.key]
    simp only [allowedTimes, hzip]
  · rw [answersTo_serve rfl rfl rfl, hsame, ← answersTo_serve rfl rfl rfl]

/-- Three calls of one key within a minute, the times in seconds. -/
def threeCalls : List (AllowCall ℚ) := [⟨"TEN-WREN", 0⟩, ⟨"TEN-WREN", 30⟩, ⟨"TEN-WREN", 119 / 2⟩]

/-- At two a minute, the third is refused. -/
theorem sliding_window_exact_of_three_calls :
    ((RequestRateLimiter.make 2 (60 : ℚ)).serve threeCalls).1 = [true, true, false] ∧
      ∀ key s, within (60 : ℚ) s (allowedTimes key threeCalls
        ((RequestRateLimiter.make 2 (60 : ℚ)).serve threeCalls).1) ≤ 2 := by
  have hordered : threeCalls.Pairwise fun a b => a.now ≤ b.now := by
    norm_num [threeCalls]
  exact ⟨by decide +kernel, (sliding_window_exact 2 (60 : ℚ) hordered).1⟩

end Limitless.Vulnerable
