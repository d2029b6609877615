import Limitless.Audit.Events

/-!
# What the gate sees of a log

A refusal event is one line, whatever its strings hold, and the gate reads it back
(`eventOf_dumps`): everything written is printable, so no character of a string can break the line
or end its literal. A log is then read write by write (`splitlines_logStream`), and the gate passes
exactly when it expects as many refusals as there were (`audit_gate_agrees`).

What JSON cannot carry is a pair of surrogates that stand alone: the reader takes them for the
character they stand for. No string decoded from a header has one, and the replica and the tenant
are read back unchanged exactly when they have none (`joined_eq_self_iff`).
-/

namespace Limitless

open JsonString

/-! ## Fields -/

/-- A refusal with each pair of surrogates in its strings as one character. -/
def Refusal.joined (r : Refusal) : Refusal :=
  ⟨joinSurrogates r.requestId, joinSurrogates r.replica, r.operation, joinSurrogates r.tenantId⟩

/-- The `dict` of a refusal, with its keys in the order they are written in. -/
def Refusal.dict (r : Refusal) : List (PyStr × Json) :=
  (sortKeys r.event).map fun m => (m.1, .string m.2)

variable {r : Refusal} {writes : List LogWrite} {m : PyStr × PyStr}

theorem keys_event (r : Refusal) : r.event.map Prod.fst = allowedKeys := rfl

theorem nodup_allowedKeys : allowedKeys.Nodup := by decide

/-- The keys of an event are ASCII. -/
theorem joinSurrogates_key {k : PyStr} (h : k ∈ allowedKeys) : joinSurrogates k = k := by
  have hhigh : ∀ k ∈ allowedKeys, (k.all fun c => !isHigh c.val) = true := by decide
  refine joinSurrogates_eq_self_iff.mpr (.of_forall fun c hc => ?_)
  simpa using List.all_eq_true.mp (hhigh k h) c hc

/-- So are its own values. -/
theorem joinSurrogates_value (operation : RefusedOperation) :
    joinSurrogates operation.value = operation.value ∧ joinSurrogates eventName = eventName ∧
      joinSurrogates refusedOutcome = refusedOutcome ∧
      joinSurrogates refusalReason = refusalReason := by
  cases operation <;> decide

/-- The members of an event, as they are read back. -/
theorem event_joined (r : Refusal) :
    r.joined.event = r.event.map fun m => (m.1, joinSurrogates m.2) := by
  obtain ⟨hoperation, hname, houtcome, hreason⟩ := joinSurrogates_value r.operation
  simp only [Refusal.event, Refusal.joined, List.map_cons, List.map_nil, hoperation, hname,
    houtcome, hreason]

/-- Reading back leaves the keys and their order. -/
theorem map_readMember (r : Refusal) : (sortKeys r.event).map readMember = r.joined.dict := by
  have hmap : sortKeys r.joined.event =
      (sortKeys r.event).map fun m => (m.1, joinSurrogates m.2) := by
    let le (m m' : PyStr × PyStr) : Prop := m.1 ≤ m'.1
    let join (m : PyStr × PyStr) : PyStr × PyStr := (m.1, joinSurrogates m.2)
    rw [event_joined]
    exact (List.map_insertionSort le le join r.event fun _ _ _ _ => Iff.rfl).symm
  rw [Refusal.dict, hmap, List.map_map]
  refine List.map_congr_left fun m hm => ?_
  have hkey : m.1 ∈ allowedKeys := by
    rw [← keys_event r]
    exact List.mem_map_of_mem ((sortKeys_perm r.event).mem_iff.mp hm)
  rw [readMember, joinSurrogates_key hkey]
  rfl

/-- **What JSON cannot carry.** A refusal of a request whose id came in a header is read back
unchanged exactly when neither its replica nor its tenant has a pair of surrogates. -/
theorem joined_eq_self_iff (hid : ∀ c ∈ r.requestId, c.val ≤ 0xFF) :
    r.joined = r ↔ Unpaired r.replica ∧ Unpaired r.tenantId := by
  have hrequest : joinSurrogates r.requestId = r.requestId := by
    refine joinSurrogates_eq_self_iff.mpr (.of_forall fun c hc => ?_)
    have := hid c hc
    simp only [isHigh, decide_eq_false_iff_not]
    omega
  obtain ⟨requestId, replica, operation, tenantId⟩ := r
  simp only [Refusal.joined, Refusal.mk.injEq, hrequest, true_and, joinSurrogates_eq_self_iff]

/-! ## One event -/

theorem nodup_keys_dict (r : Refusal) : (r.dict.map Prod.fst).Nodup := by
  have hkeys : r.dict.map Prod.fst = (sortKeys r.event).map Prod.fst := by
    rw [Refusal.dict, List.map_map]
    rfl
  rw [hkeys]
  exact ((sortKeys_perm r.event).map _).nodup_iff.mpr nodup_allowedKeys

/-- The keys of an event are the allowed ones. -/
theorem mem_keys_dict {k : PyStr} : k ∈ r.dict.map Prod.fst ↔ k ∈ allowedKeys := by
  rw [Refusal.dict, List.map_map, ← keys_event r]
  exact ((sortKeys_perm r.event).map _).mem_iff

/-- A field of an event. -/
theorem get?_dict (h : m ∈ r.event) : Json.get? r.dict m.1 = some (.string m.2) := by
  have hmem : (m.1, Json.string m.2) ∈ r.dict :=
    List.mem_map_of_mem (f := fun m : PyStr × PyStr => (m.1, Json.string m.2))
      ((sortKeys_perm r.event).mem_iff.mpr h)
  have hfind := Keyed.find?_of_mem (t := ⟨r.dict, nodup_keys_dict r⟩) hmem
  exact congrArg (Option.map Prod.snd) hfind

/-- An event passes the gate. -/
theorem eventFailures_dict (index : ℕ) (r : Refusal) : eventFailures index r.dict = [] := by
  have hextra : (r.dict.map Prod.fst).filter (· ∉ allowedKeys) = [] := by
    simp only [List.filter_eq_nil_iff, decide_eq_true_eq, not_not]
    exact fun k hk => mem_keys_dict.mp hk
  have hmissing : allowedKeys.filter (· ∉ r.dict.map Prod.fst) = [] := by
    simp only [List.filter_eq_nil_iff, decide_eq_true_eq, not_not]
    exact fun k hk => mem_keys_dict.mpr hk
  have hreason : Json.get? r.dict reasonKey = some (.string refusalReason) :=
    get?_dict (m := (reasonKey, refusalReason)) (by simp [Refusal.event])
  have houtcome : Json.get? r.dict outcomeKey = some (.string refusedOutcome) :=
    get?_dict (m := (outcomeKey, refusedOutcome)) (by simp [Refusal.event])
  simp only [eventFailures, hextra, hmissing, hreason, houtcome, List.insertionSort_nil,
    Option.bind_some, Json.str?, if_true, List.append_nil]

/-- **One line, one event.** The line of a refusal is read as its event. -/
theorem eventOf_dumps (r : Refusal) : eventOf (dumps r.event) = some r.joined.dict := by
  have hstrip : PyStr.strip (dumps r.event) = dumps r.event :=
    Lines.trim_eq_self (by decide) (by decide) _
  have hkeys : (r.event.map fun m => joinSurrogates m.1).Nodup := by
    have : (r.event.map fun m => joinSurrogates m.1) = allowedKeys := by
      rw [← keys_event r]
      refine List.map_congr_left fun m hm => ?_
      exact joinSurrogates_key (keys_event r ▸ List.mem_map_of_mem hm)
    rw [this]
    exact nodup_allowedKeys
  have hloads : loads (dumps r.event) = some (.object r.joined.dict) := by
    rw [loads_dumps hkeys (List.cons_ne_nil _ _), map_readMember]
  have hname : Json.get? r.joined.dict eventKey = some (.string eventName) :=
    get?_dict (m := (eventKey, eventName)) (by simp [Refusal.event])
  have hhead : (dumps r.event).head? = some openBrace := rfl
  rw [eventOf, hstrip]
  simp only [hhead, ne_eq, not_true_eq_false, if_false, hloads, hname]
  exact if_pos rfl

/-! ## Lines of the log -/

theorem isLineBreak_of_isPrintable {c : CodePoint} (h : isPrintable c = true) :
    isLineBreak c = false := by
  simp only [isPrintable, decide_eq_true_eq] at h
  simp only [isLineBreak, List.mem_cons, List.not_mem_nil, or_false, decide_eq_false_iff_not]
  omega

/-- **One line.** A refusal is one line of the log. -/
theorem splitlines_emit (r : Refusal) : PyStr.splitlines r.emit = [dumps r.event] :=
  Lines.splitlines_of_no_break (by decide) fun c hc =>
    isLineBreak_of_isPrintable (isPrintable_of_mem_dumps r.event c hc)

theorem splitlines_text (w : LogWrite) : PyStr.splitlines w.text = w.lines := by
  cases w with
  | refusal r => exact splitlines_emit r
  | line text => rfl

/-- A write is whole lines. -/
theorem splitlines_text_append (w : LogWrite) (s : PyStr) :
    PyStr.splitlines (w.text ++ s) = w.lines ++ PyStr.splitlines s := by
  have happend : ∀ body : PyStr, PyStr.splitlines (body ++ [lineFeed] ++ s) =
      PyStr.splitlines (body ++ [lineFeed]) ++ PyStr.splitlines s := by
    intro body
    rw [List.append_assoc, List.singleton_append]
    exact Lines.splitlines_append_lf (by decide) (by decide) body s
  rw [← splitlines_text]
  cases w with
  | refusal r => exact happend (dumps r.event)
  | line text => exact happend text

/-- The lines of a log are those of its writes. -/
theorem splitlines_logStream (writes : List LogWrite) :
    PyStr.splitlines (logStream writes) = writes.flatMap LogWrite.lines := by
  induction writes with
  | nil => rfl
  | cons w writes ih =>
      rw [logStream, List.flatMap_cons, splitlines_text_append, ← logStream, ih, List.flatMap_cons]

/-- The gate reads the refusals of a log, and nothing else. -/
theorem auditEvents_logStream (hline : ∀ w ∈ writes, w.Ordinary) :
    auditEvents (PyStr.splitlines (logStream writes)) =
      (refusals writes).map fun r => r.joined.dict := by
  rw [splitlines_logStream]
  induction writes with
  | nil => rfl
  | cons w writes ih =>
      obtain ⟨hw, hwrites⟩ := List.forall_mem_cons.mp hline
      rw [List.flatMap_cons, auditEvents, List.filterMap_append, ← auditEvents, ← auditEvents,
        ih hwrites]
      cases w with
      | refusal r =>
          have hread : auditEvents [dumps r.event] = [r.joined.dict] := by
            rw [auditEvents, List.filterMap_cons, eventOf_dumps, List.filterMap_nil]
          rw [LogWrite.lines, hread]
          rfl
      | line text =>
          have hnone : auditEvents (PyStr.splitlines (text ++ [lineFeed])) = [] := by
            refine List.filterMap_eq_nil_iff.mpr fun piece hpiece => ?_
            rw [eventOf]
            exact if_pos (hw piece hpiece)
          rw [LogWrite.lines, hnone]
          rfl

/-! ## Tokens -/

theorem isPlainWord_tokenPrefix : IsPlainWord tokenPrefix ∧
    (∀ a ∈ tokenPrefix.head?, a ∉ punctuation) ∧ lineFeed ∉ tokenPrefix := by
  refine ⟨⟨by decide, by decide, point 108, by decide, by decide⟩, ?_, by decide⟩
  have hhead : tokenPrefix.head? = some (point 108) := by decide
  rw [hhead]
  rintro a ⟨⟩
  decide

/-- What an event holds besides its strings names no token. -/
theorem tokenPrefix_not_isInfix (operation : RefusedOperation) :
    ∀ s ∈ allowedKeys ++ [eventName, operation.value, refusedOutcome, refusalReason],
      ¬ tokenPrefix <:+: s := by
  cases operation <;> decide

/-- A write that names no token has none in its text. -/
theorem LogWrite.Tokenless.not_isInfix_text {w : LogWrite} (hw : w.Tokenless) {s : PyStr}
    (h : tokenPrefix <:+: w.text ++ s) : tokenPrefix <:+: s := by
  obtain ⟨hplain, hpunctuation, hfeed⟩ := isPlainWord_tokenPrefix
  cases w with
  | refusal r =>
      rw [text, Refusal.emit, List.append_assoc, List.singleton_append] at h
      refine (isInfix_append_cons hfeed h).resolve_left fun h => ?_
      obtain ⟨m, hm, h⟩ := isInfix_of_isInfix_dumps hplain hpunctuation h
      have hown := tokenPrefix_not_isInfix r.operation
      rcases h with h | h
      · have hkey : m.1 ∈ allowedKeys := keys_event r ▸ List.mem_map_of_mem hm
        exact hown m.1 (List.mem_append_left _ hkey) h
      · obtain ⟨hid, hreplica, htenant⟩ := hw
        simp only [Refusal.event, List.mem_cons, List.not_mem_nil, or_false] at hm
        rcases hm with rfl | rfl | rfl | rfl | rfl | rfl | rfl
        · exact hown eventName (by simp) h
        · exact hid h
        · exact hreplica h
        · exact hown r.operation.value (by simp) h
        · exact htenant h
        · exact hown refusedOutcome (by simp) h
        · exact hown refusalReason (by simp) h
  | line text =>
      rw [LogWrite.text, List.append_assoc, List.singleton_append] at h
      exact (isInfix_append_cons hfeed h).resolve_left hw

/-- A log that names no token has none in its stream. -/
theorem not_isInfix_logStream (htoken : ∀ w ∈ writes, w.Tokenless) :
    ¬ tokenPrefix <:+: logStream writes := by
  induction writes with
  | nil => decide
  | cons w writes ih =>
      obtain ⟨hw, hwrites⟩ := List.forall_mem_cons.mp htoken
      intro h
      rw [logStream, List.flatMap_cons] at h
      exact ih hwrites (hw.not_isInfix_text h)

/-! ## The gate -/

/-- **The gate agrees with the emitter.** For every log: each refusal is one line of it, the gate
reads the refusals in order, with their strings unchanged where no pair of surrogates stands in
them, and it passes exactly when it expects as many as there are. -/
theorem audit_gate_agrees (hline : ∀ w ∈ writes, w.Ordinary)
    (hid : ∀ r ∈ refusals writes, ∀ c ∈ r.requestId, c.val ≤ 0xFF)
    (htoken : ∀ w ∈ writes, w.Tokenless) :
    PyStr.splitlines (logStream writes) = writes.flatMap LogWrite.lines ∧
    auditEvents (PyStr.splitlines (logStream writes)) =
      (refusals writes).map (fun r => r.joined.dict) ∧
    (∀ r ∈ refusals writes, r.joined = r ↔ Unpaired r.replica ∧ Unpaired r.tenantId) ∧
    ∀ expected : ℤ, check (logStream writes) expected = [] ↔
      expected = (refusals writes).length := by
  have hevents := auditEvents_logStream hline
  refine ⟨splitlines_logStream writes, hevents, fun r hr => joined_eq_self_iff (hid r hr),
    fun expected => ?_⟩
  have hpass : (((refusals writes).map fun r => r.joined.dict).zipIdx 1).flatMap
      (fun e => eventFailures e.2 e.1) = [] := by
    refine List.flatMap_eq_nil_iff.mpr fun e he => ?_
    obtain ⟨r, -, hr⟩ := List.mem_map.mp (List.fst_mem_of_mem_zipIdx he)
    rw [← hr]
    exact eventFailures_dict e.2 r.joined
  simp only [check, hevents, hpass, if_neg (not_isInfix_logStream htoken), List.append_nil,
    List.length_map]
  split_ifs with hcount
  · exact ⟨fun _ => hcount.symm, fun _ => rfl⟩
  · exact ⟨nofun, fun h => absurd h.symm hcount⟩

/-- A refusal of an enrichment. -/
def Refusal.demo : Refusal :=
  ⟨.ofString "enrich-00001", .ofString "app-a", .enrich, .ofString "TEN-ORCHID"⟩

/-- A log of a line and a refusal. -/
def logDemo : List LogWrite := [.line (.ofString "INFO: ready"), .refusal .demo]

theorem logDemo_ordinary : (∀ w ∈ logDemo, w.Ordinary) ∧ ∀ w ∈ logDemo, w.Tokenless := by
  constructor
  · refine List.forall_mem_cons.mpr ⟨?_, List.forall_mem_singleton.mpr trivial⟩
    unfold LogWrite.Ordinary
    decide
  · refine List.forall_mem_cons.mpr ⟨?_, List.forall_mem_singleton.mpr ?_⟩
    all_goals
      unfold LogWrite.Tokenless
      decide

theorem header_demo : (Refusal.demo.requestId.all fun c => decide (c.val ≤ 0xFF)) = true := by
  decide

theorem audit_gate_agrees_of_one_refusal :
    PyStr.splitlines (logStream logDemo) = logDemo.flatMap LogWrite.lines ∧
    auditEvents (PyStr.splitlines (logStream logDemo)) =
      (refusals logDemo).map (fun r => r.joined.dict) ∧
    (∀ r ∈ refusals logDemo, r.joined = r ↔ Unpaired r.replica ∧ Unpaired r.tenantId) ∧
    ∀ expected : ℤ, check (logStream logDemo) expected = [] ↔
      expected = (refusals logDemo).length := by
  obtain ⟨hline, htoken⟩ := logDemo_ordinary
  refine audit_gate_agrees hline (fun r hr c hc => ?_) htoken
  obtain rfl := List.mem_singleton.mp hr
  exact of_decide_eq_true (List.all_eq_true.mp header_demo c hc)

/-- A refusal by a replica whose name is two surrogates. -/
def Refusal.paired : Refusal := { Refusal.demo with replica := [point 0xD83D, point 0xDE00] }

/-- Its event is read with one character in their place. -/
theorem surrogate_pair_is_not_read_back :
    (∀ w ∈ [LogWrite.refusal .paired], w.Ordinary) ∧
    (∀ w ∈ [LogWrite.refusal .paired], w.Tokenless) ∧
    (∀ c ∈ Refusal.paired.requestId, c.val ≤ 0xFF) ∧
    auditEvents (PyStr.splitlines (logStream [.refusal .paired])) ≠ [Refusal.paired.dict] := by
  have hordinary : ∀ w ∈ [LogWrite.refusal .paired], w.Ordinary :=
    List.forall_mem_singleton.mpr trivial
  refine ⟨hordinary, List.forall_mem_singleton.mpr ?_, fun c hc => ?_, fun h => ?_⟩
  · unfold LogWrite.Tokenless
    decide
  · exact of_decide_eq_true (List.all_eq_true.mp header_demo c hc)
  · rw [auditEvents_logStream hordinary] at h
    have hdict : Refusal.paired.joined.dict = Refusal.paired.dict := List.singleton_inj.mp h
    have hreplica : ∀ r : Refusal, Json.get? r.dict replicaKey = some (.string r.replica) :=
      fun r => get?_dict (m := (replicaKey, r.replica)) (by simp [Refusal.event])
    have hsame := (hreplica Refusal.paired.joined).symm.trans (hdict ▸ hreplica Refusal.paired)
    exact absurd (Json.string.inj (Option.some.inj hsame)) (by decide)

end Limitless
