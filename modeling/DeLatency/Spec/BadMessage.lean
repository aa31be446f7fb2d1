import DeLatency.Spec.Framing

/-!
# What one message can do to the collector

Only the first parse is guarded.  After it `handle_frames` takes the metadata for a
dictionary, looks the event type and the role up in sets and writes the record as UTF-8,
and any of these can raise.  `handled_iff` says for which frames none of them does and one
record is written for `True`.
-/

namespace DeLatency

/-! ## Statements -/

/-- The lines of a log that are not blank. -/
def recordLines (text : List Char) : List (List Char) :=
  (text.splitOnP isNewline).filter fun line => !line.all isSpace

/-- The log has one record more. -/
def AppendsRecord (before after : LogText) : Prop :=
  ∃ line, recordLines after.text = recordLines before.text ++ [line]

/-- A call returns, `True` exactly when one record has been appended, and `False` only with
    everything as before. -/
def Returned (c : Collector) (result : Except PyError (Collector × Bool)) : Prop :=
  ∃ c' kept, result = .ok (c', kept) ∧ (kept = true ↔ AppendsRecord c.log c'.log) ∧
    (kept = false → c'.log = c.log ∧ c'.knownWorkerPids = c.knownWorkerPids ∧
      c'.knownExactTids = c.knownExactTids)

/-- One message cannot stop the collector. -/
def Handled (lib : JsonLib) (writeOk : Bool) (c : Collector) (frames : List ByteArray) : Prop :=
  Returned c (c.handleFrames lib writeOk frames)

/-- `json.dumps` escapes the newlines of strings, and writes a dictionary from its brace. -/
structure JsonLib.WritesLines (lib : JsonLib) : Prop where
  opens : ∀ fields, (lib.dumps .dumpsUnicode (.dict fields)).head? = some '{'
  oneLine : ∀ fields, ∀ c ∈ lib.dumps .dumpsUnicode (.dict fields), isNewline c = false

section Metadata

variable (fields : List (PyStr × PyValue))

/-- The source of a message as it is compared. -/
def sourceOf : PyStr :=
  match fields.lookup ("source" : PyStr) with
  | some (.str source) => source.lower
  | _ => "unknown"

def eventTypeOf : PyValue := (fields.lookup ("event_type" : PyStr)).getD .null

/-- The payload that is searched for ids: the second frame's, else the metadata's. -/
def payloadOf : FramePayload → Option (List (PyStr × PyValue))
  | .value (.dict payload) => some payload
  | _ =>
    match fields.lookup ("payload" : PyStr) with
    | some (.dict payload) => some payload
    | _ => none

/-- The event type, or the role of a thread, cannot be looked up in a set. -/
def PatchRaises (payload : FramePayload) : Prop :=
  sourceOf fields = "monkey_patch" ∧
    ((eventTypeOf fields).Unhashable ∨
      eventTypeOf fields = .str "thread_role" ∧ ∃ p, payloadOf fields payload = some p ∧ p ≠ [] ∧
        ((p.lookup ("role" : PyStr)).getD .null).Unhashable)

/-- The sources whose messages are logged. -/
def KeptSource : Prop :=
  sourceOf fields = "ebpf" ∨ sourceOf fields = "cupti" ∨ sourceOf fields = "monkey_patch"

end Metadata

/-- A payload with a lone surrogate in one of its strings. -/
def FramePayload.loneSurrogate : FramePayload → Bool
  | .bytes _ => false
  | .value v => v.loneSurrogate

/-- A message whose metadata is a dictionary is handled: nothing is looked up that cannot be
    hashed, the frame that is logged as it stands is one line, and any other record can be
    encoded. -/
structure MessageFits (fields : List (PyStr × PyValue)) (payload : FramePayload)
    (rawLine : Option (List Char)) : Prop where
  hashable : ¬PatchRaises fields payload
  oneLine : sourceOf fields = "cupti" → ∀ line ∈ rawLine, (recordLines line).length = 1
  encodable : KeptSource fields → ¬(sourceOf fields = "cupti" ∧ rawLine.isSome) →
    (PyValue.dict fields).loneSurrogate = false ∧ payload.loneSurrogate = false

/-- One or two frames of which the first is JSON hold a dictionary that fits. -/
def FramesFit (lib : JsonLib) : List ByteArray → Prop
  | first :: rest => ∀ line metadata, decodeUtf8 first = some line →
      lib.loads line = some metadata →
      match rest with
      | [] => ∃ fields, metadata = .dict fields ∧
          MessageFits fields (.value ((fields.lookup ("payload" : PyStr)).getD .null)) (some line)
      | [second] => ∃ fields, metadata = .dict fields ∧
          MessageFits fields (secondFrame lib second) none
      -- any other number of frames is passed over
      | _ => True
  | [] => True

/-! ## The log -/

/-- Text that is appended to a log adds its records. -/
theorem recordLines_append (log : LogText) (text : List Char) :
    recordLines (log.text ++ text) = recordLines log.text ++ recordLines text := by
  unfold recordLines
  -- the text ends with a newline, so what follows starts a new line
  obtain hempty | hlast := log.complete
  · rw [hempty, List.nil_append]
    simp
  · obtain ⟨front, hfront⟩ := List.getLast?_eq_some_iff.mp hlast
    rw [hfront, List.append_assoc, List.singleton_append,
      List.splitOnP_append_cons front _ (by decide), List.splitOnP_append_cons front [] (by decide),
      List.filter_append, List.filter_append]
    simp

/-- The newline at the end adds no record. -/
theorem recordLines_concat_newline (line : List Char) :
    recordLines (line ++ ['\n']) = recordLines line := by
  unfold recordLines
  rw [List.splitOnP_append_cons line [] (by decide), List.filter_append]
  simp

/-- A raw line adds the records that it has. -/
theorem recordLines_logRawJsonLine (log : LogText) (line : List Char) :
    recordLines (log.logRawJsonLine line).text = recordLines log.text ++ recordLines line := by
  unfold LogText.logRawJsonLine
  split
  · exact recordLines_append log line
  · rw [← recordLines_concat_newline line]
    exact recordLines_append log (line ++ ['\n'])

/-- A record from `json.dumps` is one line. -/
theorem recordLines_dumps {lib : JsonLib} (hlib : lib.WritesLines)
    (fields : List (PyStr × PyValue)) :
    recordLines (lib.dumps .dumpsUnicode (.dict fields)) =
      [lib.dumps .dumpsUnicode (.dict fields)] := by
  obtain ⟨rest, hrest⟩ := List.head?_eq_some_iff.mp (hlib.opens fields)
  unfold recordLines
  rw [List.splitOnP_eq_singleton (hlib.oneLine fields), hrest]
  simp [isSpace]

/-- What is appended for a message that is kept. -/
theorem recordLines_logMessage {lib : JsonLib} (hlib : lib.WritesLines) (log : LogText)
    (src : PyStr) (metadata : PyValue) (payload : FramePayload) (rawLine : Option (List Char)) :
    recordLines (log.logMessage lib src metadata payload rawLine).text =
      recordLines log.text ++
        match rawLine.filter fun _ => src = "cupti" with
        | some line => recordLines line
        | none => [lib.dumps .dumpsUnicode (.dict (logRecord src metadata payload))] := by
  unfold LogText.logMessage
  cases rawLine.filter fun _ => src = "cupti" with
  -- a CUPTI line is logged as it came, any other message is written anew
  | some line => exact recordLines_logRawJsonLine log line
  | none =>
    dsimp only
    rw [← recordLines_dumps hlib, ← recordLines_concat_newline (lib.dumps _ _)]
    exact recordLines_append log _

/-- One record has been appended when one line was added. -/
theorem appendsRecord_iff {before after : LogText} {added : List (List Char)}
    (h : recordLines after.text = recordLines before.text ++ added) :
    AppendsRecord before after ↔ added.length = 1 := by
  unfold AppendsRecord
  rw [h]
  constructor
  · intro hx
    obtain ⟨line, hline⟩ := hx
    rw [List.append_cancel_left hline, List.length_singleton]
  · -- one added line is the line
    intro hlen
    obtain ⟨line, rfl⟩ := List.length_eq_one_iff.mp hlen
    exact ⟨line, rfl⟩

/-- A log that stays has no record more. -/
theorem not_appendsRecord_self (log : LogText) : ¬AppendsRecord log log := by
  rw [appendsRecord_iff (List.append_nil _).symm]
  exact Nat.zero_ne_one

/-- A call that raises does not return. -/
theorem not_returned_error (c : Collector) (e : PyError) : ¬Returned c (.error e) := by
  intro hx
  obtain ⟨c', kept, h, -⟩ := hx
  cases h

/-- A call may return `False` and leave everything as it is. -/
theorem returned_false (c : Collector) : Returned c (.ok (c, false)) :=
  ⟨c, false, rfl, by simp [not_appendsRecord_self], fun _ => ⟨rfl, rfl, rfl⟩⟩

/-! ## Handling a dictionary -/

section Dictionary

variable {fields : List (PyStr × PyValue)} {payload : FramePayload}

/-- The source is read from a dictionary. -/
theorem getSrc_dict : getSrc (.dict fields) = .ok (sourceOf fields) := by
  unfold getSrc sourceOf
  dsimp only [PyValue.get, bind, Except.bind]
  cases fields.lookup ("source" : PyStr) with
  | none => rfl
  | some source => cases source <;> rfl

/-- The payload is read from a dictionary. -/
theorem extractDictPayload_dict :
    extractDictPayload (.dict fields) payload = .ok (payloadOf fields payload) := by
  unfold extractDictPayload payloadOf
  dsimp only [PyValue.get, bind, Except.bind]
  -- the second frame has a dictionary, or the metadata is searched for one
  cases fields.lookup ("payload" : PyStr) with
  | none =>
    cases payload with
    | bytes length => rfl
    | value v => cases v <;> rfl
  | some value =>
    cases payload with
    | bytes length => cases value <;> rfl
    | value v => cases v <;> first | rfl | (cases value <;> rfl)

/-- Only an event type that cannot be hashed makes the first search raise. -/
theorem extractWorkerPid_dict (fields : List (PyStr × PyValue)) (payload : FramePayload)
    (src : PyStr) :
    (src = "monkey_patch" ∧ (eventTypeOf fields).Unhashable ∧
        extractWorkerPid src (.dict fields) payload = .error .typeError) ∨
      ¬(src = "monkey_patch" ∧ (eventTypeOf fields).Unhashable) ∧
        ∃ pid, extractWorkerPid src (.dict fields) payload = .ok pid ∧
          (src ≠ "monkey_patch" → pid = none) := by
  unfold extractWorkerPid
  -- the event type is only looked up for the patch's messages
  by_cases hsrc : src = "monkey_patch"
  · have hget : (PyValue.dict fields).get "event_type" = .ok (eventTypeOf fields) := rfl
    dsimp only [bind, Except.bind, pure, Except.pure]
    rw [if_neg (not_not.mpr hsrc), hget]
    dsimp only
    -- the lookup raises, or answers
    obtain ⟨hun, herror⟩ | ⟨hhash, found, hfound⟩ := memSet_eq workerPidEvents (eventTypeOf fields)
    · exact .inl ⟨hsrc, hun, by rw [herror]⟩
    · refine .inr ⟨fun h => hhash h.2, ?_⟩
      rw [hfound, extractDictPayload_dict]
      dsimp only
      split
      · exact ⟨none, rfl, fun h => absurd hsrc h⟩
      · split <;> exact ⟨_, rfl, fun h => absurd hsrc h⟩
  · refine .inr ⟨fun h => hsrc h.1, none, ?_, fun _ => rfl⟩
    rw [if_pos hsrc]
    rfl

/-- There is one event type that announces a thread. -/
theorem memSet_threadTargetEvents {value : PyValue} {found : Bool}
    (h : value.memSet threadTargetEvents = .ok found) :
    found = true ↔ value = .str "thread_role" := by
  cases value with
  | str s =>
    cases h
    simp [threadTargetEvents]
  -- a list is not hashable, so the membership test raises
  | list xs => cases h
  | dict fields => cases h
  | _ => cases h; simp

/-- The second search raises exactly when the patch's message does. -/
theorem extractExactTid_dict (fields : List (PyStr × PyValue)) (payload : FramePayload) :
    (PatchRaises fields payload ∧
        extractExactTid (sourceOf fields) (.dict fields) payload = .error .typeError) ∨
      ¬PatchRaises fields payload ∧
        ∃ tid, extractExactTid (sourceOf fields) (.dict fields) payload = .ok tid ∧
          (sourceOf fields ≠ "monkey_patch" → tid = none) := by
  unfold extractExactTid
  by_cases hsrc : sourceOf fields = "monkey_patch"
  · have hget : (PyValue.dict fields).get "event_type" = .ok (eventTypeOf fields) := rfl
    dsimp only [bind, Except.bind, pure, Except.pure]
    rw [if_neg (not_not.mpr hsrc), hget]
    dsimp only
    obtain ⟨hun, herror⟩ | ⟨hhash, found, hfound⟩ :=
      memSet_eq threadTargetEvents (eventTypeOf fields)
    · exact .inl ⟨⟨hsrc, .inl hun⟩, by rw [herror]⟩
    · have hrole := memSet_threadTargetEvents hfound
      rw [hfound, extractDictPayload_dict]
      dsimp only
      by_cases hevent : eventTypeOf fields = .str "thread_role"
      · rw [if_neg (not_not.mpr (hrole.mpr hevent))]
        -- only a payload with something in it is asked for its role
        cases hpayload : payloadOf fields payload with
        | none =>
          refine .inr ⟨?_, none, rfl, fun _ => rfl⟩
          intro hx
          obtain ⟨-, hun | ⟨-, p, hp, -⟩⟩ := hx
          · exact hhash hun
          · rw [hpayload] at hp
            cases hp
        | some p =>
          cases p with
          | nil =>
            refine .inr ⟨?_, none, rfl, fun _ => rfl⟩
            intro hx
            obtain ⟨-, hun | ⟨-, p, hp, hne, -⟩⟩ := hx
            · exact hhash hun
            · rw [hpayload] at hp
              cases hp
              exact hne rfl
          | cons field rest =>
            obtain ⟨hun, herror⟩ | ⟨hhash', found', hfound'⟩ :=
              memSet_eq threadTargetRoles (((field :: rest).lookup ("role" : PyStr)).getD .null)
            · refine .inl ⟨⟨hsrc, .inr ⟨hevent, _, hpayload, by simp, hun⟩⟩, ?_⟩
              dsimp only
              rw [herror]
            · refine .inr ⟨?_, ?_⟩
              · intro hx
                obtain ⟨-, hun | ⟨-, p, hp, -, hun⟩⟩ := hx
                · exact hhash hun
                · rw [hpayload] at hp
                  cases hp
                  exact hhash' hun
              · dsimp only
                rw [hfound']
                dsimp only
                split <;> exact ⟨_, rfl, fun h => absurd hsrc h⟩
      · rw [if_pos (mt hrole.mp hevent)]
        refine .inr ⟨?_, none, rfl, fun _ => rfl⟩
        intro hx
        obtain ⟨-, hun | ⟨heq, -⟩⟩ := hx
        · exact hhash hun
        · exact hevent heq
  · refine .inr ⟨fun h => hsrc h.1, none, ?_, fun _ => rfl⟩
    rw [if_pos hsrc]
    rfl

/-- The record of a message that is kept has a lone surrogate where the message has one. -/
theorem loneSurrogate_record (h : KeptSource fields) :
    (PyValue.dict (logRecord (sourceOf fields) (.dict fields) payload)).loneSurrogate =
      ((PyValue.dict fields).loneSurrogate || payload.loneSurrogate) := by
  -- the three sources are plain texts
  have hsrc : (sourceOf fields).loneSurrogate = false := by
    obtain h | h | h := h <;> rw [h] <;> rfl
  cases payload with
  | bytes length =>
    simp [logRecord, PyValue.loneSurrogate, loneSurrogateFields, hsrc, FramePayload.loneSurrogate]
  | value v =>
    simp [logRecord, PyValue.loneSurrogate, loneSurrogateFields, hsrc, FramePayload.loneSurrogate]

/-- What is logged for a message can be written in UTF-8. -/
def Encodes (fields : List (PyStr × PyValue)) (payload : FramePayload)
    (rawLine : Option (List Char)) : Prop :=
  (sourceOf fields = "cupti" ∧ rawLine.isSome) ∨
    ¬(PyValue.dict (logRecord (sourceOf fields) (.dict fields) payload)).loneSurrogate

/-- What becomes of a message whose metadata is a dictionary: two ways to raise, a record, and
    nothing at all. -/
theorem handleMessage_dict (fields : List (PyStr × PyValue)) (payload : FramePayload)
    (lib : JsonLib) (writeOk : Bool) (c : Collector) (rawLine : Option (List Char)) :
    (PatchRaises fields payload ∧
      c.handleMessage lib writeOk (.dict fields) payload rawLine = .error .typeError) ∨
    (KeptSource fields ∧ ¬Encodes fields payload rawLine ∧
      c.handleMessage lib writeOk (.dict fields) payload rawLine =
        .error .unicodeEncodeError) ∨
    (¬PatchRaises fields payload ∧ KeptSource fields ∧ Encodes fields payload rawLine ∧ ∃ c',
        c.handleMessage lib writeOk (.dict fields) payload rawLine = .ok (c', true) ∧
        c'.log = c.log.logMessage lib (sourceOf fields) (.dict fields) payload rawLine) ∨
    (¬PatchRaises fields payload ∧ ¬KeptSource fields ∧
      c.handleMessage lib writeOk (.dict fields) payload rawLine = .ok (c, false)) := by
  unfold Collector.handleMessage
  rw [getSrc_dict]
  dsimp only [bind, Except.bind, pure, Except.pure]
  obtain ⟨hsrc, hun, hpid⟩ | ⟨-, pid, hpid, hpatchPid⟩ :=
    extractWorkerPid_dict fields payload (sourceOf fields)
  · exact .inl ⟨⟨hsrc, .inl hun⟩, by rw [hpid]⟩
  rw [hpid]
  dsimp only
  obtain ⟨hraises, htid⟩ | ⟨hraises, tid, htid, hpatchTid⟩ :=
    extractExactTid_dict fields payload
  · exact .inl ⟨hraises, by rw [htid]⟩
  rw [htid]
  dsimp only
  right
  by_cases hkept : sourceOf fields = "ebpf" ∨ sourceOf fields = "cupti" ∨
      sourceOf fields = "monkey_patch"
  · rw [if_pos hkept]
    unfold Encodes
    by_cases hencodes : (sourceOf fields = "cupti" ∧ rawLine.isSome) ∨
        ¬(PyValue.dict (logRecord (sourceOf fields) (.dict fields) payload)).loneSurrogate
    · rw [if_pos hencodes]
      refine .inr (.inl ⟨hraises, hkept, hencodes, _, rfl, ?_⟩)
      dsimp only
      rw [log_persistExactTid, log_persistWorkerPid]
    · rw [if_neg hencodes]
      exact .inl ⟨hkept, hencodes, rfl⟩
  · -- a source that is dropped is not that of the patch, so nothing was found either
    have hpatch : sourceOf fields ≠ "monkey_patch" := fun h => hkept (.inr (.inr h))
    rw [if_neg hkept, hpatchPid hpatch, hpatchTid hpatch]
    exact .inr (.inr ⟨hraises, hkept, rfl⟩)

/-- A message is handled exactly when it fits. -/
theorem returned_handleMessage_iff {lib : JsonLib} (hlib : lib.WritesLines) (writeOk : Bool)
    (c : Collector) (rawLine : Option (List Char)) :
    Returned c (c.handleMessage lib writeOk (.dict fields) payload rawLine) ↔
      MessageFits fields payload rawLine := by
  obtain ⟨hraises, herror⟩ | ⟨hkept, hencodes, herror⟩ |
      ⟨hraises, hkept, hencodes, c', hok, hlog⟩ | ⟨hraises, hkept, hok⟩ :=
    handleMessage_dict fields payload lib writeOk c rawLine
  · -- a set refuses the event type or the role
    rw [herror]
    exact ⟨fun h => absurd h (not_returned_error c _), fun h => absurd hraises h.hashable⟩
  · -- the record has a lone surrogate
    rw [herror]
    refine ⟨fun h => absurd h (not_returned_error c _), fun h => ?_⟩
    rw [Encodes, not_or, not_not, loneSurrogate_record hkept, Bool.or_eq_true] at hencodes
    obtain ⟨hfields, hpayload⟩ := h.encodable hkept hencodes.1
    rw [hfields, hpayload] at hencodes
    exact absurd hencodes.2 (by decide)
  · -- the message is logged: one line or as many as its only frame has
    rw [hok]
    have happends := appendsRecord_iff
      (hlog ▸ recordLines_logMessage hlib c.log (sourceOf fields) (.dict fields) payload rawLine)
    have hreturned : Returned c (.ok (c', true)) ↔ AppendsRecord c.log c'.log := by
      constructor
      · intro hx
        obtain ⟨c'', kept, heq, hiff, -⟩ := hx
        cases heq
        exact hiff.mp rfl
      · intro h
        exact ⟨c', true, rfl, ⟨fun _ => h, fun _ => rfl⟩, fun hfalse => by cases hfalse⟩
    rw [hreturned, happends]
    by_cases hraw : sourceOf fields = "cupti" ∧ rawLine.isSome
    · obtain ⟨line, rfl⟩ := Option.isSome_iff_exists.mp hraw.2
      rw [Option.filter_some, if_pos (decide_eq_true hraw.1)]
      constructor
      · intro hone
        refine ⟨hraises, ?_, fun _ h => absurd hraw h⟩
        intro _ _ hline
        cases hline
        exact hone
      · exact fun h => h.oneLine hraw.1 line rfl
    · have hfilter : (rawLine.filter fun _ => sourceOf fields = "cupti") = none := by
        cases rawLine with
        | none => rfl
        | some line =>
          rw [Option.filter_some, if_neg]
          simpa using hraw
      rw [hfilter]
      refine ⟨fun _ => ⟨hraises, ?_, fun _ _ => ?_⟩, fun _ => rfl⟩
      · intro hsrc line hline
        exact absurd ⟨hsrc, by rw [Option.mem_def.mp hline]; rfl⟩ hraw
      · have hlone := hencodes.resolve_left hraw
        rw [loneSurrogate_record hkept, Bool.not_eq_true, Bool.or_eq_false_iff] at hlone
        exact hlone
  · -- the source is not logged
    rw [hok]
    refine ⟨fun _ => ⟨hraises, fun hsrc => absurd (.inr (.inl hsrc)) hkept,
      fun h => absurd h hkept⟩, fun _ => returned_false c⟩

end Dictionary

/-! ## All frames -/

/-- Only dictionaries have `get`. -/
theorem get_of_not_dict {metadata : PyValue} (h : ¬∃ fields, metadata = .dict fields)
    (key : String) : metadata.get key = .error .attributeError := by
  cases metadata with
  | dict fields => exact absurd ⟨fields, rfl⟩ h
  | _ => rfl

/-- Metadata that is no dictionary has no `get`. -/
theorem handleMessage_of_not_dict {metadata : PyValue} (h : ¬∃ fields, metadata = .dict fields)
    (lib : JsonLib) (writeOk : Bool) (c : Collector) (payload : FramePayload)
    (rawLine : Option (List Char)) :
    c.handleMessage lib writeOk metadata payload rawLine = .error .attributeError := by
  unfold Collector.handleMessage getSrc
  rw [get_of_not_dict h]
  rfl

/-- Of the messages that parse, those whose metadata is a dictionary can be handled. -/
theorem returned_dict_iff {c : Collector} {metadata : PyValue}
    {result : Except PyError (Collector × Bool)} {fits : List (PyStr × PyValue) → Prop}
    (hdict : ∀ fields, metadata = .dict fields → (Returned c result ↔ fits fields))
    (hother : (¬∃ fields, metadata = .dict fields) → result = .error .attributeError) :
    Returned c result ↔ ∃ fields, metadata = .dict fields ∧ fits fields := by
  -- metadata that is no dict has no get
  by_cases h : ∃ fields, metadata = .dict fields
  · obtain ⟨fields, rfl⟩ := h
    rw [hdict fields rfl]
    constructor
    · exact fun hfits => ⟨fields, rfl, hfits⟩
    · intro hx
      obtain ⟨_, heq, hfits⟩ := hx
      cases heq
      exact hfits
  · rw [hother h]
    apply iff_of_false (not_returned_error c _)
    intro hx
    obtain ⟨fields, heq, -⟩ := hx
    exact h ⟨fields, heq⟩

/-- `handle_frames` handles the frames of a message exactly when they fit. -/
theorem handled_iff {lib : JsonLib} (hlib : lib.WritesLines) (writeOk : Bool) (c : Collector)
    (frames : List ByteArray) : Handled lib writeOk c frames ↔ FramesFit lib frames := by
  unfold Handled Collector.handleFrames FramesFit
  cases frames with
  | nil => exact iff_of_true (returned_false c) trivial
  | cons first rest =>
    dsimp only
    cases hline : decodeUtf8 first with
    | none => exact iff_of_true (returned_false c) fun line metadata h => by cases h
    | some line =>
      dsimp only
      cases hloads : lib.loads line with
      | none =>
        apply iff_of_true (returned_false c)
        intro line' metadata h hmeta
        cases h
        rw [hloads] at hmeta
        cases hmeta
      | some metadata =>
        -- the frame that parses is the only one the quantifiers speak of
        have hforall : ∀ {P : List Char → PyValue → Prop},
            (∀ line' metadata', some line = some line' → lib.loads line' = some metadata' →
              P line' metadata') ↔ P line metadata := by
          intro P
          constructor
          · exact fun h => h line metadata rfl hloads
          · intro h line' metadata' heq hmeta
            cases heq
            rw [hloads] at hmeta
            cases hmeta
            exact h
        rw [hforall]
        cases rest with
        | nil =>
          -- the payload of a single frame is asked of the metadata, which may not be a dictionary
          refine returned_dict_iff ?_ fun hother => ?_
          · intro fields hx
            subst hx
            exact returned_handleMessage_iff hlib writeOk c _
          · dsimp only
            rw [get_of_not_dict hother]
            rfl
        | cons second rest =>
          cases rest with
          | nil =>
            refine returned_dict_iff ?_ fun hother => handleMessage_of_not_dict hother ..
            intro fields hx
            subst hx
            exact returned_handleMessage_iff hlib writeOk c _
          | cons third rest => exact iff_of_true (returned_false c) trivial

/-! ## Two messages -/

/-- `plainJson` with the newlines of strings escaped, which also reads the number 5. -/
def escapedJson (dicts : List (List (PyStr × PyValue))) : JsonLib :=
  { plainJson dicts with
    dumps := fun writer value => ((plainJson dicts).dumps writer value).flatMap fun c =>
      if c = '\n' then ['\\', 'n'] else if c = '\r' then ['\\', 'r'] else [c]
    loads := fun text => if text = ['5'] then some (.int 5) else (plainJson dicts).loads text }

/-- This library writes each dictionary on one line. -/
theorem writesLines_escapedJson (dicts : List (List (PyStr × PyValue))) :
    (escapedJson dicts).WritesLines where
  opens fields := by simp [escapedJson, plainJson, plainText]
  oneLine fields := by
    intro c hc
    obtain ⟨ch, -, hch⟩ := List.mem_flatMap.mp hc
    split at hch
    · -- a newline is written as two characters that are none
      have hplain : ∀ ch ∈ ['\\', 'n'], isNewline ch = false := by simp [isNewline]
      exact hplain c hch
    · split at hch
      · -- and so is a carriage return
        have hplain : ∀ ch ∈ ['\\', 'r'], isNewline ch = false := by simp [isNewline]
        exact hplain c hch
      · next hn hr =>
        rw [List.mem_singleton] at hch
        subst hch
        simp [isNewline, hn, hr]

/-- A message of the monitor is handled. -/
theorem handled_ebpf : Handled (escapedJson [[("source", .str "ebpf")]]) true {}
    [encodeUtf8 (plainText [','] [':'] (.dict [("source", .str "ebpf")]))] := by
  apply (handled_iff (writesLines_escapedJson _) true {} _).mpr
  intro line metadata hline hloads
  rw [decodeUtf8_encodeUtf8] at hline
  cases hline
  have hmeta : metadata = .dict [("source", .str "ebpf")] := Option.some.inj hloads.symm
  have hsource : sourceOf [("source", .str "ebpf")] = "ebpf" := by decide
  -- a source that is no patch asks neither for the event type nor for the role
  refine ⟨_, hmeta, ?_, ?_, fun _ _ => ⟨rfl, rfl⟩⟩
  · intro h
    exact absurd (hsource.symm.trans h.1) (by decide)
  · intro h
    exact absurd (hsource.symm.trans h) (by decide)

/-- A frame that holds a number ends the collector. -/
theorem not_handled_number : ¬Handled (escapedJson []) true {} [encodeUtf8 ['5']] := by
  -- a number has no `get`
  have herror : Collector.handleFrames (escapedJson []) true {} [encodeUtf8 ['5']] =
      .error .attributeError := by
    unfold Collector.handleFrames
    dsimp only
    rw [decodeUtf8_encodeUtf8]
    rfl
  intro h
  rw [Handled, herror] at h
  exact not_returned_error _ _ h

end DeLatency
