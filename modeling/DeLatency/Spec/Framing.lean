import DeLatency.Collector.Frames
import DeLatency.Collector.Producers
import DeLatency.Converter.LogFile
import DeLatency.ForStd.ExceptLoop

/-!
# Framing

Whatever framing a producer chooses, the collector writes one line from which the
converter reads the same event, with two exceptions.  The collector looks the role of a
`thread_role` event up in a set, and a role that cannot be hashed ends it.  And a string with
a lone surrogate goes through JSON but not through UTF-8: a large payload with one is dropped,
and a record with one ends the collector.

## Key results

- `frames_cases`: every framing that is sent is decoded to the same kind of message
- `loadLogLines_writeLine`: a line that is written is read back
- `transparent_iff`: framing is transparent exactly when neither exception applies
-/

namespace DeLatency

/-! ## Producers and what they rely on -/

/-- A producer with what it adds to an event. -/
inductive Producer
  | sendEvent (source : String) (extra : List (PyStr × PyValue))
  | traceSender (source : String) (timestampNs : ℤ)
  | tracer

/-- A message after decoding. -/
structure Decoded where
  metadata : List (PyStr × PyValue)
  payload : FramePayload
  rawLine : Option (List Char)

namespace Producer

def source : Producer → String
  | sendEvent source _ => source
  | traceSender source _ => source
  | tracer => "CUPTI"

variable (lib : JsonLib) (eventType : PyStr) (payload : List (PyStr × PyValue))

/-- What is sent for an event, `none` when it is dropped. -/
def frames : Producer → Option (List ByteArray)
  | sendEvent source extra => DeLatency.sendEvent lib source eventType payload extra
  | traceSender source timestampNs =>
    some (traceSenderEmit lib eventType payload source timestampNs)
  | tracer => some (sendTracerRecord lib eventType payload)

/-- The message that `handle_frames` sees. -/
def decoded : Producer → Decoded
  | sendEvent source extra =>
    let metadata := makeMetadata source eventType extra
    -- a payload that fits travels inside the metadata, in one frame
    if fitsMetadata lib payload then
      ⟨withPayload metadata payload, .value (.dict payload),
        some (lib.dumps .sendJson (.dict (withPayload metadata payload)))⟩
    else ⟨metadata, .value (.dict payload), none⟩
  | traceSender source timestampNs =>
    ⟨traceSenderMetadata source eventType timestampNs payload, .bytes 0, none⟩
  | tracer =>
    let metadata := withPayload (makeMetadata "CUPTI" eventType []) payload
    ⟨metadata, .value (.dict payload), some (lib.dumps .jsonC (.dict metadata))⟩

end Producer

/-- The library writes a dictionary on one line from brace to brace, and reads it back. -/
structure JsonLib.Reads (lib : JsonLib) (writer : JsonWriter) (fields : List (PyStr × PyValue)) :
    Prop where
  loads : lib.loads (lib.dumps writer (.dict fields)) = some (.dict fields)
  opens : (lib.dumps writer (.dict fields)).head? = some '{'
  closes : (lib.dumps writer (.dict fields)).getLast? = some '}'
  oneLine : ∀ c ∈ lib.dumps writer (.dict fields), isNewline c = false

/-- The source as the collector compares it. -/
def lowerSource (source : String) : String := lower source

/-- The dictionaries that are written on the way of an event, with their writers. -/
def Producer.texts (lib : JsonLib) (eventType : PyStr) (payload : List (PyStr × PyValue))
    (p : Producer) : List (JsonWriter × List (PyStr × PyValue)) :=
  let message := p.decoded lib eventType payload
  let record := logRecord (lowerSource p.source) (.dict message.metadata) message.payload
  match p with
  -- what is written before it is sent, and what is logged
  | .sendEvent _ _ =>
    if fitsMetadata lib payload then
      [(.sendJson, message.metadata), (.dumpsUnicode, record)]
    else
      [(.dumpsCompact, message.metadata), (.dumpsUnicode, payload), (.dumpsUnicode, record)]
  | .traceSender _ _ => [(.dumps, message.metadata), (.dumpsUnicode, record)]
  | .tracer => [(.jsonC, message.metadata), (.dumpsUnicode, record)]

/-- The libraries read back what they write for an event, and no text is no value.  Of a text
    that is not escaped this is said when it can be encoded. -/
structure JsonLib.Carries (lib : JsonLib) (p : Producer) (eventType : PyStr)
    (payload : List (PyStr × PyValue)) : Prop where
  reads : ∀ text ∈ p.texts lib eventType payload,
    (text.1 = .dumpsUnicode → (PyValue.dict text.2).loneSurrogate = false) →
      lib.Reads text.1 text.2
  loads_nil : lib.loads [] = none

/-- A text is one line when no character of it is a newline. -/
theorem oneLine_of_any {text : List Char} (h : text.any isNewline = false) :
    ∀ ch ∈ text, isNewline ch = false := by
  intro ch hch
  exact Bool.eq_false_iff.mpr (List.any_eq_false.mp h ch hch)

/-! ## Transparency -/

/-- The collector appends one line for the frames of an event, and the converter gets the same
    source, event type and payload from it. -/
def Transparent (lib : JsonLib) (writeOk : Bool) (c : Collector) (p : Producer)
    (eventType : PyStr) (payload : List (PyStr × PyValue)) : Prop :=
  ∃ frames c' line entry parts,
    p.frames lib eventType payload = some frames ∧
    c.handleFrames lib writeOk frames = .ok (c', true) ∧
    (∀ ch ∈ line, isNewline ch = false) ∧
    c'.log.text = c.log.text ++ (line ++ ['\n']) ∧
    loadLogLines lib c'.log.text = loadLogLines lib c.log.text ++ [entry] ∧
    unpackEntry entry = .ok parts ∧
    parts.src = .str p.source ∧ parts.etype = .str eventType ∧ parts.payload = .dict payload

/-- Python's `hash` raises. -/
def PyValue.Unhashable : PyValue → Prop
  | .list _ => True
  | .dict _ => True
  | _ => False

/-- The event announces the role of a thread, and the role cannot be hashed. -/
def RoleRaises (source eventType : PyStr) (payload : List (PyStr × PyValue)) : Prop :=
  source = "monkey_patch" ∧ eventType = "thread_role" ∧
    ((payload.lookup ("role" : PyStr)).getD .null).Unhashable

/-- The collector logs the only frame of an event as it stands. -/
def Producer.LoggedRaw (lib : JsonLib) (payload : List (PyStr × PyValue)) : Producer → Prop
  | .sendEvent source _ => source = "CUPTI" ∧ fitsMetadata lib payload = true
  | .traceSender _ _ => False
  | .tracer => True

/-- Some string of an event has a lone surrogate. -/
def Producer.loneSurrogate (eventType : PyStr) (payload : List (PyStr × PyValue)) :
    Producer → Bool
  | .sendEvent _ extra =>
    eventType.loneSurrogate || loneSurrogateFields extra || loneSurrogateFields payload
  | _ => eventType.loneSurrogate || loneSurrogateFields payload

/-- The event is written unescaped on its way, in a second frame or in a record of the log, and
    has a lone surrogate. -/
def EncodingRaises (lib : JsonLib) (p : Producer) (eventType : PyStr)
    (payload : List (PyStr × PyValue)) : Prop :=
  ¬p.LoggedRaw lib payload ∧ p.loneSurrogate eventType payload = true

/-! ## The metadata -/

section Metadata

variable (source : String) (eventType : PyStr) (extra payload : List (PyStr × PyValue))

/-- A key that the metadata does not have. -/
theorem lookup_makeMetadata_of_notMem {key : String}
    (hkey : key ∉ ["source", "event_type", "schema_version", "extra"]) :
    (makeMetadata source eventType extra).lookup (key : PyStr) = none := by
  rw [List.lookup_eq_none_iff]
  intro field hfield
  rw [bne_iff_ne]
  intro heq
  apply hkey
  -- the key of each field is one of the four
  suffices hname : ∃ name ∈ ["source", "event_type", "schema_version", "extra"],
      field.1 = PyStr.text name by
    obtain ⟨name, hname, hfst⟩ := hname
    rw [hfst, PyStr.text.injEq] at heq
    exact heq ▸ hname
  unfold makeMetadata at hfield
  split at hfield
  · simp only [List.mem_cons, List.not_mem_nil, or_false] at hfield
    obtain rfl | rfl | rfl := hfield <;> simp
  · simp only [List.mem_cons, List.not_mem_nil, or_false] at hfield
    obtain rfl | rfl | rfl | rfl := hfield <;> simp

/-- The payload is found under its own key. -/
theorem lookup_withPayload_payload :
    (withPayload (makeMetadata source eventType extra) payload).lookup ("payload" : PyStr) =
      some (.dict payload) := by
  rw [withPayload, List.lookup_append, lookup_makeMetadata_of_notMem _ _ _ (by decide)]
  rfl

/-- The metadata has no entry for itself. -/
theorem lookup_withPayload_meta :
    (withPayload (makeMetadata source eventType extra) payload).lookup ("meta" : PyStr) = none := by
  rw [withPayload, List.lookup_append, lookup_makeMetadata_of_notMem _ _ _ (by decide)]
  rfl

/-- The metadata has a lone surrogate where what it was made from has one. -/
theorem loneSurrogateFields_makeMetadata :
    loneSurrogateFields (makeMetadata source eventType extra) =
      (eventType.loneSurrogate || loneSurrogateFields extra) := by
  unfold makeMetadata
  split
  · next hnil =>
    subst hnil
    simp [loneSurrogateFields, PyValue.loneSurrogate]
  · simp [loneSurrogateFields, PyValue.loneSurrogate]

/-- A half character stands in the metadata or in the payload. -/
theorem loneSurrogateFields_withPayload (metadata : List (PyStr × PyValue)) :
    loneSurrogateFields (withPayload metadata payload) =
      (loneSurrogateFields metadata || loneSurrogateFields payload) := by
  rw [withPayload, loneSurrogateFields_append]
  simp [loneSurrogateFields, PyValue.loneSurrogate]

end Metadata

/-- What a decoded message keeps of the event it was made from. -/
structure Decoded.Holds (message : Decoded) (source : String) (eventType : PyStr)
    (fields : List (PyStr × PyValue)) : Prop where
  source : message.metadata.lookup ("source" : PyStr) = some (.str source)
  eventType : message.metadata.lookup ("event_type" : PyStr) = some (.str eventType)
  /-- The payload is in the second frame, or in the metadata. -/
  payload : message.payload = .value (.dict fields) ∧
      message.metadata.lookup ("payload" : PyStr) ∈ [none, some (.dict fields)] ∨
    (∃ length, message.payload = .bytes length) ∧
      message.metadata.lookup ("payload" : PyStr) = some (.dict fields)
  /-- The only frame has the payload, and does not look like a log line. -/
  raw : message.rawLine.isSome → message.metadata.lookup ("payload" : PyStr) = some (.dict fields) ∧
    message.metadata.lookup ("meta" : PyStr) = none

/-! ## Decoding -/

section Decoding

variable {lib : JsonLib} {writeOk : Bool} {c : Collector}

/-- A message of one frame carries its payload inside. -/
theorem handleFrames_one {line : List Char} {metadata : List (PyStr × PyValue)}
    (hloads : lib.loads line = some (.dict metadata)) :
    c.handleFrames lib writeOk [encodeUtf8 line] =
      c.handleMessage lib writeOk (.dict metadata)
        (.value ((metadata.lookup ("payload" : PyStr)).getD .null)) (some line) := by
  unfold Collector.handleFrames
  dsimp only
  rw [decodeUtf8_encodeUtf8]
  -- a single frame carries the payload inside the metadata
  dsimp only
  rw [hloads]
  rfl

/-- A message of two frames carries it in the second. -/
theorem handleFrames_two {line second : List Char} {metadata payload : List (PyStr × PyValue)}
    (hloads : lib.loads line = some (.dict metadata))
    (hsecond : lib.loads second = some (.dict payload)) :
    c.handleFrames lib writeOk [encodeUtf8 line, encodeUtf8 second] =
      c.handleMessage lib writeOk (.dict metadata) (.value (.dict payload)) none := by
  unfold Collector.handleFrames
  dsimp only
  rw [decodeUtf8_encodeUtf8]
  dsimp only
  rw [hloads, secondFrame, decodeUtf8_encodeUtf8, Option.bind_some, hsecond]

/-- An empty second frame is bytes, not JSON. -/
theorem handleFrames_two_empty {line : List Char} {metadata : List (PyStr × PyValue)}
    (hloads : lib.loads line = some (.dict metadata)) (hnil : lib.loads [] = none) :
    c.handleFrames lib writeOk [encodeUtf8 line, encodeUtf8 []] =
      c.handleMessage lib writeOk (.dict metadata) (.bytes 0) none := by
  unfold Collector.handleFrames
  dsimp only
  rw [decodeUtf8_encodeUtf8]
  dsimp only
  -- a frame that is no JSON is kept as its bytes
  rw [hloads, secondFrame, decodeUtf8_encodeUtf8, Option.bind_some, hnil]
  rfl

variable {p : Producer} {eventType : PyStr} {payload : List (PyStr × PyValue)}

/-- The frames of an event are decoded to the metadata, the payload and the line of an only
    frame. -/
def DecodesTo (lib : JsonLib) (frames : List ByteArray) (message : Decoded) : Prop :=
  ∀ (writeOk : Bool) (c : Collector), c.handleFrames lib writeOk frames =
    c.handleMessage lib writeOk (.dict message.metadata) message.payload message.rawLine

/-- Every framing that is sent is decoded, and only an event with a lone surrogate is dropped. -/
theorem frames_cases (hlib : lib.Carries p eventType payload) :
    (p.frames lib eventType payload = none ∧ EncodingRaises lib p eventType payload) ∨
      ∃ frames, p.frames lib eventType payload = some frames ∧
        DecodesTo lib frames (p.decoded lib eventType payload) := by
  have hreads := hlib.reads
  cases p with
  | sendEvent source extra =>
    simp only [Producer.frames, Producer.decoded, Producer.texts, sendEvent, EncodingRaises,
      Producer.LoggedRaw, Producer.loneSurrogate] at hreads ⊢
    -- a small payload is put inside the metadata, a large one in a second frame
    by_cases hfits : fitsMetadata lib payload = true
    · simp only [if_pos hfits] at hreads ⊢
      have hmeta := hreads _ List.mem_cons_self nofun
      refine .inr ⟨_, rfl, fun writeOk c => ?_⟩
      rw [handleFrames_one hmeta.loads, lookup_withPayload_payload, Option.getD_some]
    · simp only [if_neg hfits] at hreads ⊢
      by_cases hlone : (PyValue.dict payload).loneSurrogate = true
      · refine .inl ⟨if_pos hlone, fun h => hfits h.2, ?_⟩
        rw [PyValue.loneSurrogate] at hlone
        rw [hlone, Bool.or_true]
      · have hmeta := hreads _ List.mem_cons_self nofun
        have hsecond := hreads _ (List.mem_cons_of_mem _ List.mem_cons_self) fun _ =>
          Bool.eq_false_iff.mpr hlone
        refine .inr ⟨_, if_neg hlone, fun writeOk c => ?_⟩
        rw [handleFrames_two hmeta.loads hsecond.loads]
  | traceSender source timestampNs =>
    have hmeta := hreads _ List.mem_cons_self nofun
    -- the second frame is empty
    exact .inr ⟨_, rfl, fun writeOk c => handleFrames_two_empty hmeta.loads hlib.loads_nil⟩
  | tracer =>
    have hmeta := hreads _ List.mem_cons_self nofun
    refine .inr ⟨_, rfl, fun writeOk c => ?_⟩
    dsimp only [Producer.decoded, sendTracerRecord] at hmeta ⊢
    rw [handleFrames_one hmeta.loads, lookup_withPayload_payload, Option.getD_some]

/-- The record of an event has a lone surrogate where the event has one. -/
theorem loneSurrogate_logRecord (lib : JsonLib) (p : Producer) (eventType : PyStr)
    (payload : List (PyStr × PyValue)) (src : String) :
    (PyValue.dict (logRecord src (.dict (p.decoded lib eventType payload).metadata)
      (p.decoded lib eventType payload).payload)).loneSurrogate =
        p.loneSurrogate eventType payload := by
  cases p with
  | sendEvent source extra =>
    dsimp only [Producer.decoded, Producer.loneSurrogate]
    -- whether the payload travels inside the metadata or beside it
    split <;> simp [logRecord, PyValue.loneSurrogate, loneSurrogateFields,
      loneSurrogateFields_makeMetadata, loneSurrogateFields_withPayload]
  | traceSender source timestampNs =>
    simp [Producer.decoded, Producer.loneSurrogate, logRecord, traceSenderMetadata,
      PyValue.loneSurrogate, loneSurrogateFields]
  | tracer =>
    simp [Producer.decoded, Producer.loneSurrogate, logRecord, PyValue.loneSurrogate,
      loneSurrogateFields, loneSurrogateFields_makeMetadata,
      loneSurrogateFields_withPayload]

/-- What is decoded holds what the producer sent. -/
theorem holds_decoded (lib : JsonLib) (p : Producer) (eventType : PyStr)
    (payload : List (PyStr × PyValue)) :
    (p.decoded lib eventType payload).Holds p.source eventType payload := by
  -- each producer puts the three fields where its decoder finds them
  cases p with
  | sendEvent source extra =>
    dsimp only [Producer.decoded]
    split
    · exact {
        source := rfl
        eventType := rfl
        payload := .inl ⟨rfl, by rw [lookup_withPayload_payload]; simp⟩
        raw := fun _ => ⟨lookup_withPayload_payload _ _ _ _, lookup_withPayload_meta _ _ _ _⟩ }
    · exact {
        source := rfl
        eventType := rfl
        payload := .inl ⟨rfl, by
          rw [lookup_makeMetadata_of_notMem _ _ _ (by decide)]
          exact List.mem_cons_self⟩
        raw := fun h => by cases h }
  | traceSender source timestampNs =>
    exact {
      source := rfl
      eventType := rfl
      payload := .inr ⟨⟨0, rfl⟩, rfl⟩
      raw := fun h => by cases h }
  | tracer =>
    exact {
      source := rfl
      eventType := rfl
      payload := .inl ⟨rfl, by
        dsimp only [Producer.decoded]
        rw [lookup_withPayload_payload]
        simp⟩
      raw := fun _ => ⟨lookup_withPayload_payload _ _ _ _, lookup_withPayload_meta _ _ _ _⟩ }

end Decoding

/-! ## Handling -/

/-- Writing the target file logs nothing. -/
@[simp] theorem log_persistTargetFile (c : Collector) (writeOk : Bool) :
    (c.persistTargetFile writeOk).log = c.log := by
  unfold Collector.persistTargetFile
  dsimp only
  split <;> rfl

/-- Noting a worker's process logs nothing. -/
@[simp] theorem log_persistWorkerPid (c : Collector) (writeOk : Bool) (pid : Option ℤ) :
    (c.persistWorkerPid writeOk pid).log = c.log := by
  unfold Collector.persistWorkerPid
  split
  · rfl
  · split
    · rfl
    · rw [log_persistTargetFile]

/-- Noting a thread logs nothing. -/
@[simp] theorem log_persistExactTid (c : Collector) (writeOk : Bool) (tid : Option ℤ) :
    (c.persistExactTid writeOk tid).log = c.log := by
  unfold Collector.persistExactTid
  split
  · rfl
  · split
    · rfl
    · rw [log_persistTargetFile]

/-- A text is looked up in a set by what it says. -/
theorem memSet_str (names : List String) (s : PyStr) :
    (PyValue.str s).memSet names = .ok (s ∈ names.map PyStr.text) := rfl

/-- A value is looked up in a set unless it cannot be hashed. -/
theorem memSet_eq (names : List String) (value : PyValue) :
    (value.Unhashable ∧ value.memSet names = .error .typeError) ∨
      ¬value.Unhashable ∧ ∃ found, value.memSet names = .ok found := by
  cases value with
  | list xs => exact .inl ⟨trivial, rfl⟩
  | dict fields => exact .inl ⟨trivial, rfl⟩
  | _ => exact .inr ⟨id, _, rfl⟩

section Handling

variable {message : Decoded} {source : String} {eventType : PyStr}
  {payload : List (PyStr × PyValue)}

namespace Decoded.Holds

variable (h : message.Holds source eventType payload)
include h

/-- The source of a message that holds one. -/
theorem get_source : (PyValue.dict message.metadata).get "source" = .ok (.str source) := by
  rw [PyValue.get, h.source, Option.getD_some]

/-- Its event type. -/
theorem get_eventType :
    (PyValue.dict message.metadata).get "event_type" = .ok (.str eventType) := by
  rw [PyValue.get, h.eventType, Option.getD_some]

/-- Its source in lower case. -/
theorem getSrc_eq : getSrc (.dict message.metadata) = .ok (lowerSource source) := by
  rw [getSrc, h.get_source]
  rfl

/-- Its payload. -/
theorem extractDictPayload_eq :
    extractDictPayload (.dict message.metadata) message.payload = .ok (some payload) := by
  obtain ⟨hvalue, -⟩ | ⟨⟨length, hbytes⟩, hmeta⟩ := h.payload
  · rw [hvalue]
    rfl
  · -- bytes on the wire: the payload is looked up in the metadata
    rw [hbytes, extractDictPayload]
    · rw [PyValue.get, hmeta]
      rfl
    · intro fields hfields
      cases hfields

/-- Looking for a process never raises. -/
theorem exists_extractWorkerPid (src : PyStr) :
    ∃ pid, extractWorkerPid src (.dict message.metadata) message.payload = .ok pid := by
  unfold extractWorkerPid
  rw [h.get_eventType, h.extractDictPayload_eq]
  dsimp only [bind, Except.bind, memSet_str]
  split
  · exact ⟨none, rfl⟩
  · split
    · exact ⟨none, rfl⟩
    · -- the event type is a text, so the lookup cannot raise
      cases payload with
      | nil => exact ⟨none, rfl⟩
      | cons field rest => exact ⟨_, rfl⟩

/-- Looking for a thread raises exactly on a role that cannot be hashed. -/
theorem extractExactTid_cases (hpayload : payload ≠ []) (src : PyStr) :
    (RoleRaises src eventType payload ∧
        extractExactTid src (.dict message.metadata) message.payload = .error .typeError) ∨
      ¬RoleRaises src eventType payload ∧
        ∃ tid, extractExactTid src (.dict message.metadata) message.payload = .ok tid := by
  unfold extractExactTid
  rw [h.get_eventType, h.extractDictPayload_eq]
  dsimp only [bind, Except.bind, memSet_str]
  by_cases hsrc : src ≠ "monkey_patch"
  · exact .inr ⟨fun hraises => hsrc hraises.1, none, if_pos hsrc⟩
  · rw [if_neg hsrc]
    by_cases hevent : eventType = "thread_role"
    · have hmem : ¬¬decide (eventType ∈ threadTargetEvents.map PyStr.text) = true := by
        simp [hevent, threadTargetEvents]
      rw [if_neg hmem]
      cases payload with
      | nil => exact absurd rfl hpayload
      | cons field rest =>
        -- only the look-up of the role is left
        obtain ⟨hrole, herror⟩ | ⟨hrole, found, hfound⟩ := memSet_eq threadTargetRoles
          (((field :: rest).lookup ("role" : PyStr)).getD .null)
        · exact .inl ⟨⟨not_not.mp hsrc, hevent, hrole⟩, by dsimp only; rw [herror]⟩
        · refine .inr ⟨fun hraises => hrole hraises.2.2, ?_⟩
          dsimp only
          rw [hfound]
          dsimp only
          split
          · exact ⟨none, rfl⟩
          · exact ⟨_, rfl⟩
    · have hmem : ¬decide (eventType ∈ threadTargetEvents.map PyStr.text) = true := by
        simpa [threadTargetEvents] using hevent
      exact .inr ⟨fun hraises => hevent hraises.2.1, none, if_pos hmem⟩

/-- A message of a source that is kept is written, unless its role or its encoding raises. -/
theorem handleMessage_cases (lib : JsonLib) (writeOk : Bool) (c : Collector)
    (hpayload : payload ≠ [])
    (hsource : lowerSource source = "ebpf" ∨ lowerSource source = "cupti" ∨
      lowerSource source = "monkey_patch") :
    let record := logRecord (lowerSource source) (.dict message.metadata) message.payload
    let encodes := (lowerSource source = "cupti" ∧ message.rawLine.isSome) ∨
      ¬(PyValue.dict record).loneSurrogate
    (RoleRaises (lowerSource source) eventType payload ∧
        c.handleMessage lib writeOk (.dict message.metadata) message.payload message.rawLine =
          .error .typeError) ∨
      (¬encodes ∧
        c.handleMessage lib writeOk (.dict message.metadata) message.payload message.rawLine =
          .error .unicodeEncodeError) ∨
      ¬RoleRaises (lowerSource source) eventType payload ∧ encodes ∧
        ∃ c', c.handleMessage lib writeOk (.dict message.metadata) message.payload
            message.rawLine = .ok (c', true) ∧
          c'.log = c.log.logMessage lib (lowerSource source) (.dict message.metadata)
            message.payload message.rawLine := by
  intro record encodes
  -- the process is read without an exception, the thread may raise
  obtain ⟨pid, hpid⟩ := h.exists_extractWorkerPid (lowerSource source)
  unfold Collector.handleMessage
  rw [h.getSrc_eq]
  dsimp only [bind, Except.bind]
  rw [hpid]
  obtain ⟨hraises, herror⟩ | ⟨hraises, tid, htid⟩ :=
    h.extractExactTid_cases hpayload (lowerSource source)
  · exact .inl ⟨hraises, by rw [herror]⟩
  · right
    rw [htid]
    dsimp only
    -- the source is one of the three that are logged
    have hkept : PyStr.text (lowerSource source) = ↑"ebpf" ∨
        PyStr.text (lowerSource source) = ↑"cupti" ∨
        PyStr.text (lowerSource source) = ↑"monkey_patch" := by
      simpa only [PyStr.text.injEq] using hsource
    rw [if_pos hkept]
    have hiff : (PyStr.text (lowerSource source) = ↑"cupti" ∧ message.rawLine.isSome = true ∨
        ¬(PyValue.dict record).loneSurrogate = true) ↔ encodes := by
      rw [PyStr.text.injEq]
    -- the record is encoded before it is written
    by_cases hencodes : encodes
    · rw [if_pos (hiff.mpr hencodes)]
      refine .inr ⟨hraises, hencodes, _, rfl, ?_⟩
      dsimp only
      rw [log_persistExactTid, log_persistWorkerPid]
    · rw [if_neg (mt hiff.mp hencodes)]
      exact .inl ⟨hencodes, rfl⟩

end Decoded.Holds

end Handling

/-! ## The log file -/

section LogFile

variable {lib : JsonLib} {writer : JsonWriter} {fields : List (PyStr × PyValue)}

/-- A text from brace to brace has nothing to strip. -/
theorem loadLine_of_reads (h : lib.Reads writer fields) :
    loadLine lib (lib.dumps writer (.dict fields)) = some (.dict fields) := by
  obtain ⟨rest, hrest⟩ := List.head?_eq_some_iff.mp h.opens
  obtain ⟨front, hfront⟩ := List.getLast?_eq_some_iff.mp h.closes
  -- the text starts with a brace and ends with one: nothing is stripped
  have hleft : (lib.dumps writer (.dict fields)).dropWhile isSpace =
      lib.dumps writer (.dict fields) := by
    rw [hrest, List.dropWhile_cons_of_neg (by decide)]
  have hright : (lib.dumps writer (.dict fields)).reverse.dropWhile isSpace =
      (lib.dumps writer (.dict fields)).reverse := by
    rw [hfront, List.reverse_concat, List.dropWhile_cons_of_neg (by decide)]
  -- and nothing stands before the brace
  have hbrace : (lib.dumps writer (.dict fields)).dropWhile (· ≠ '{') =
      lib.dumps writer (.dict fields) := by
    rw [hrest, List.dropWhile_cons_of_neg (by decide)]
  unfold loadLine strip
  rw [String.toList_ofList, String.toList_ofList, hleft, hright, List.reverse_reverse, hbrace]
  split
  · next hnil => rw [hrest] at hnil; cases hnil
  · exact h.loads

/-- An empty line is not loaded. -/
theorem loadLine_nil (lib : JsonLib) : loadLine lib [] = none := by
  simp [loadLine, strip]

/-- A line that is written is read back, after the lines that were there. -/
theorem loadLogLines_writeLine (lib : JsonLib) (log : LogText) {line : List Char}
    (hline : ∀ ch ∈ line, isNewline ch = false) :
    loadLogLines lib (log.writeLine line).text =
      loadLogLines lib log.text ++ (loadLine lib line).toList := by
  -- the new line, and the empty text after its end
  have hnew : (line ++ '\n' :: []).splitOnP isNewline = [line, []] :=
    List.splitOnP_append_cons_of_forall_mem hline '\n' (by decide) []
  have hread : ([line, []].filterMap (loadLine lib)) = (loadLine lib line).toList := by
    cases hload : loadLine lib line <;> simp [hload, loadLine_nil]
  unfold loadLogLines
  obtain hempty | hlast := log.complete
  · show ((log.text ++ (line ++ ['\n'])).splitOnP isNewline).filterMap _ = _
    rw [hempty, List.nil_append, hnew, hread]
    simp [loadLine_nil]
  · obtain ⟨front, hfront⟩ := List.getLast?_eq_some_iff.mp hlast
    have hsplit : (log.writeLine line).text = front ++ '\n' :: (line ++ ['\n']) := by
      show log.text ++ (line ++ ['\n']) = _
      rw [hfront, List.append_assoc, List.singleton_append]
    rw [hsplit, hfront, List.splitOnP_append_cons front _ (by decide),
      List.splitOnP_append_cons front [] (by decide), hnew, List.filterMap_append,
      List.filterMap_append, hread]
    simp [loadLine_nil]

end LogFile

/-! ## The whole way -/

section Transparency

variable {message : Decoded} {source : String} {eventType : PyStr}
  {payload : List (PyStr × PyValue)}

/-- A dict with entries counts as true. -/
theorem dict_or {payload : List (PyStr × PyValue)} (hpayload : payload ≠ []) (b : PyValue) :
    (PyValue.dict payload).or b = .dict payload := by
  have htruthy : (PyValue.dict payload).truthy = true := by
    simpa [PyValue.truthy] using hpayload
  rw [PyValue.or, if_pos htruthy]

/-- The record of a message is unpacked to the event. -/
theorem unpackEntry_logRecord (h : message.Holds source eventType payload)
    (hpayload : payload ≠ []) (src : PyStr) :
    ∃ parts, unpackEntry (.dict (logRecord src (.dict message.metadata) message.payload)) =
        .ok parts ∧
      parts.src = .str source ∧ parts.etype = .str eventType ∧ parts.payload = .dict payload := by
  have hmeta : (logRecord src (.dict message.metadata) message.payload).lookup ("meta" : PyStr) =
      some (.dict message.metadata) := rfl
  unfold unpackEntry
  dsimp only
  rw [hmeta]
  dsimp only
  rw [h.get_source, h.get_eventType]
  refine ⟨_, rfl, rfl, rfl, ?_⟩
  -- the payload is embedded in the metadata, or only stands beside it
  obtain ⟨hvalue, hembedded⟩ | ⟨-, hembedded⟩ := h.payload
  · rw [hvalue]
    rw [List.mem_cons, List.mem_singleton] at hembedded
    obtain hembedded | hembedded := hembedded
    · rw [hembedded]
      rfl
    · rw [hembedded]
      exact dict_or hpayload _
  · rw [hembedded]
    exact dict_or hpayload _

/-- The only frame of a tracer is unpacked to the event. -/
theorem unpackEntry_metadata (h : message.Holds source eventType payload)
    (hraw : message.rawLine.isSome) :
    ∃ parts, unpackEntry (.dict message.metadata) = .ok parts ∧
      parts.src = .str source ∧ parts.etype = .str eventType ∧ parts.payload = .dict payload := by
  -- a raw line is the metadata itself, so the log reads the producer's own keys
  obtain ⟨hembedded, hmeta⟩ := h.raw hraw
  unfold unpackEntry
  dsimp only
  rw [hmeta]
  dsimp only [PyValue.getOr]
  rw [hembedded, h.source, h.get_eventType]
  exact ⟨_, rfl, rfl, rfl, rfl⟩

variable {lib : JsonLib} {p : Producer}

/-- The record of an event is one of the texts on its way. -/
theorem reads_logRecord (hlib : lib.Carries p eventType payload)
    (hlone : p.loneSurrogate eventType payload = false) :
    lib.Reads .dumpsUnicode (logRecord (lowerSource p.source)
      (.dict (p.decoded lib eventType payload).metadata)
      (p.decoded lib eventType payload).payload) := by
  refine hlib.reads (.dumpsUnicode, _) ?_ fun _ =>
    (loneSurrogate_logRecord lib p eventType payload _).trans hlone
  unfold Producer.texts
  -- the record is one of the texts that the library has to carry
  cases p with
  | sendEvent source extra =>
    dsimp only
    split
    · exact List.mem_cons_of_mem _ List.mem_cons_self
    · exact List.mem_cons_of_mem _ (List.mem_cons_of_mem _ List.mem_cons_self)
  | traceSender source timestampNs => exact List.mem_cons_of_mem _ List.mem_cons_self
  | tracer => exact List.mem_cons_of_mem _ List.mem_cons_self

/-- An only frame is one of the texts on the way. -/
theorem reads_rawLine (hlib : lib.Carries p eventType payload) {line : List Char}
    (hline : (p.decoded lib eventType payload).rawLine = some line) :
    ∃ writer, line = lib.dumps writer (.dict (p.decoded lib eventType payload).metadata) ∧
      lib.Reads writer (p.decoded lib eventType payload).metadata := by
  have hreads := hlib.reads
  cases p with
  | sendEvent source extra =>
    dsimp only [Producer.decoded, Producer.texts] at hreads hline ⊢
    -- a payload that does not fit travels in a second frame, without a raw line
    by_cases hfits : fitsMetadata lib payload = true
    · simp only [if_pos hfits] at hreads hline ⊢
      exact ⟨.sendJson, (Option.some.inj hline).symm, hreads _ List.mem_cons_self nofun⟩
    · rw [if_neg hfits] at hline
      cases hline
  | traceSender source timestampNs => cases hline
  | tracer => exact ⟨.jsonC, (Option.some.inj hline).symm, hreads _ List.mem_cons_self nofun⟩

/-- A line without newlines is logged as it is. -/
theorem logRawJsonLine_eq (log : LogText) {line : List Char}
    (hline : ∀ ch ∈ line, isNewline ch = false) : log.logRawJsonLine line = log.writeLine line := by
  unfold LogText.logRawJsonLine
  apply dif_neg
  intro hlast
  have hnewline := hline _ (List.mem_of_getLast? hlast)
  revert hnewline
  decide

/-- The sources that are kept. -/
def traceSources : List String := ["monkey_patch", "ebpf", "CUPTI"]

/-- What the sources are in lower case. -/
theorem lowerSource_cases {source : String} (hsource : source ∈ traceSources) :
    (lowerSource source = "ebpf" ∨ lowerSource source = "cupti" ∨
      lowerSource source = "monkey_patch") ∧
      (lowerSource source = "monkey_patch" ↔ source = "monkey_patch") ∧
      (lowerSource source = "cupti" ↔ source = "CUPTI") := by
  revert source
  decide

/-- Only frames of the tracers' source are logged as they stand. -/
theorem loggedRaw_iff (lib : JsonLib) (eventType : PyStr) (hsource : p.source ∈ traceSources) :
    p.LoggedRaw lib payload ↔
      lowerSource p.source = "cupti" ∧ (p.decoded lib eventType payload).rawLine.isSome := by
  rw [(lowerSource_cases hsource).2.2]
  cases p with
  -- whether the payload travels inside the only frame depends on its size
  | sendEvent source extra =>
    rw [Producer.LoggedRaw, Producer.source, Producer.decoded]
    split <;> simp [*]
  | traceSender source timestampNs => simp [Producer.LoggedRaw, Producer.decoded]
  | tracer => simp [Producer.LoggedRaw, Producer.decoded, Producer.source]

/-- The line of an event that can be encoded, and what is read from it. -/
theorem exists_line (hlib : lib.Carries p eventType payload) (hpayload : payload ≠ [])
    (hsource : p.source ∈ traceSources) (hencodes : ¬EncodingRaises lib p eventType payload)
    (log : LogText) :
    ∃ line entry parts, log.logMessage lib (lowerSource p.source)
        (.dict (p.decoded lib eventType payload).metadata) (p.decoded lib eventType payload).payload
        (p.decoded lib eventType payload).rawLine = log.writeLine line ∧
      (∀ ch ∈ line, isNewline ch = false) ∧ loadLine lib line = some entry ∧
      unpackEntry entry = .ok parts ∧
      parts.src = .str p.source ∧ parts.etype = .str eventType ∧
      parts.payload = .dict payload := by
  have hholds := holds_decoded lib p eventType payload
  unfold LogText.logMessage
  split
  · next line hraw =>
    -- the tracer's only frame is the line
    obtain ⟨hsome, -⟩ := Option.filter_eq_some_iff.mp hraw
    obtain ⟨writer, rfl, hreads⟩ := reads_rawLine hlib hsome
    obtain ⟨parts, hparts, hevent⟩ := unpackEntry_metadata hholds (by rw [hsome]; rfl)
    exact ⟨_, _, parts, logRawJsonLine_eq log hreads.oneLine, hreads.oneLine,
      loadLine_of_reads hreads, hparts, hevent⟩
  · next hraw =>
    -- the line is a record
    have hlone : p.loneSurrogate eventType payload = false := by
      refine Bool.eq_false_iff.mpr fun hlone => hencodes ⟨?_, hlone⟩
      rw [loggedRaw_iff lib eventType hsource]
      intro h
      obtain ⟨line, hline⟩ := Option.isSome_iff_exists.mp h.2
      rw [hline, Option.filter_some, if_pos (by simp [h.1])] at hraw
      cases hraw
    have hreads := reads_logRecord hlib hlone
    obtain ⟨parts, hparts, hevent⟩ := unpackEntry_logRecord hholds hpayload (lowerSource p.source)
    exact ⟨_, _, parts, rfl, hreads.oneLine, loadLine_of_reads hreads, hparts, hevent⟩

/-- The three ends of an event of the three sources. -/
theorem event_cases (hlib : lib.Carries p eventType payload) (hpayload : payload ≠ [])
    (hsource : p.source ∈ traceSources) {frames : List ByteArray}
    (hframes : DecodesTo lib frames (p.decoded lib eventType payload)) (writeOk : Bool)
    (c : Collector) :
    (RoleRaises p.source eventType payload ∧
        c.handleFrames lib writeOk frames = .error .typeError) ∨
      (EncodingRaises lib p eventType payload ∧
        c.handleFrames lib writeOk frames = .error .unicodeEncodeError) ∨
      ¬RoleRaises p.source eventType payload ∧ ¬EncodingRaises lib p eventType payload ∧
        ∃ c' line entry parts, c.handleFrames lib writeOk frames = .ok (c', true) ∧
          (∀ ch ∈ line, isNewline ch = false) ∧ c'.log = c.log.writeLine line ∧
          loadLine lib line = some entry ∧ unpackEntry entry = .ok parts ∧
          parts.src = .str p.source ∧ parts.etype = .str eventType ∧
          parts.payload = .dict payload := by
  obtain ⟨hkept, hpatch, -⟩ := lowerSource_cases hsource
  -- lower case makes no difference to what raises
  have hraises : RoleRaises (lowerSource p.source) eventType payload ↔
      RoleRaises p.source eventType payload := by
    rw [RoleRaises, RoleRaises, PyStr.text.injEq, PyStr.text.injEq, hpatch]
  have hencodes := @loggedRaw_iff payload p lib eventType hsource
  rw [hframes]
  -- the three ways in which a message ends
  obtain ⟨hbad, herror⟩ | ⟨hbad, herror⟩ | ⟨hgood, hfits, c', hc', hlog⟩ :=
    (holds_decoded lib p eventType payload).handleMessage_cases lib writeOk c hpayload hkept
  · exact .inl ⟨hraises.mp hbad, herror⟩
  · rw [loneSurrogate_logRecord, ← hencodes, not_or, not_not] at hbad
    exact .inr (.inl ⟨hbad, herror⟩)
  · rw [loneSurrogate_logRecord, ← hencodes] at hfits
    have hnot : ¬EncodingRaises lib p eventType payload := by
      rintro ⟨hraw, hlone⟩
      exact hfits.elim hraw (absurd hlone)
    obtain ⟨line, entry, parts, hwrite, hline, hload, hevent⟩ :=
      exists_line hlib hpayload hsource hnot c.log
    exact .inr (.inr ⟨mt hraises.mpr hgood, hnot, c', line, entry, parts, hc', hline,
      hlog.trans hwrite, hload, hevent⟩)

/-- What gets through does not raise. -/
theorem Transparent.not_raises {writeOk : Bool} {c : Collector}
    (h : Transparent lib writeOk c p eventType payload) (hlib : lib.Carries p eventType payload)
    (hpayload : payload ≠ []) (hsource : p.source ∈ traceSources) :
    ¬RoleRaises p.source eventType payload ∧ ¬EncodingRaises lib p eventType payload := by
  obtain ⟨frames, c', -, -, -, hframes, hc', -⟩ := h
  -- the frames were sent, and either exception contradicts the answer
  obtain ⟨hnone, -⟩ | ⟨sent, hsent, hdecodes⟩ := frames_cases hlib
  · rw [hnone] at hframes
    cases hframes
  · obtain rfl := Option.some.inj (hframes.symm.trans hsent)
    obtain ⟨-, herror⟩ | ⟨-, herror⟩ | ⟨hgood, hfits, -⟩ :=
      event_cases hlib hpayload hsource hdecodes writeOk c
    · rw [herror] at hc'
      cases hc'
    · rw [herror] at hc'
      cases hc'
    · exact ⟨hgood, hfits⟩

/-- An event of the three sources gets through in every framing, exactly when it is no thread role
    that cannot be hashed and no text with a lone surrogate that is written unescaped. -/
theorem transparent_iff (hlib : lib.Carries p eventType payload) (hpayload : payload ≠ [])
    (hsource : p.source ∈ traceSources) (writeOk : Bool) (c : Collector) :
    Transparent lib writeOk c p eventType payload ↔
      ¬RoleRaises p.source eventType payload ∧ ¬EncodingRaises lib p eventType payload := by
  constructor
  · exact fun h => h.not_raises hlib hpayload hsource
  · rintro ⟨hgood, hfits⟩
    -- only what cannot be encoded is dropped
    obtain ⟨-, hraises⟩ | ⟨frames, hframes, hdecodes⟩ := frames_cases hlib
    · exact absurd hraises hfits
    obtain ⟨hbad, -⟩ | ⟨hbad, -⟩ | ⟨-, -, c', line, entry, parts, hc', hline, hlog, hload,
        hevent⟩ := event_cases hlib hpayload hsource hdecodes writeOk c
    · exact absurd hbad hgood
    · exact absurd hbad hfits
    · refine ⟨frames, c', line, entry, parts, hframes, hc', hline, congrArg LogText.text hlog, ?_,
        hevent⟩
      rw [hlog, loadLogLines_writeLine lib c.log hline, hload]
      rfl

end Transparency

/-! ## Two events -/

/-- The escape of a lone surrogate. -/
def plainEscape (unit : Fin 0x800) : List Char :=
  ['\\', 'u'] ++ Nat.toDigits 16 (0xd800 + unit)

def plainString : PyStr → List Char
  | .text s => s.toList
  | .surrogate before unit after => before.toList ++ plainEscape unit ++ plainString after

mutual

/-- A text in the format of `json.dumps`, for no floats, and for strings in which only lone
    surrogates have to be escaped. -/
def plainText (comma colon : List Char) : PyValue → List Char
  | .null => "null".toList
  | .bool b => if b then "true".toList else "false".toList
  | .int n => (toString n).toList
  | .float _ => "NaN".toList
  | .str s => '"' :: plainString s ++ ['"']
  | .list xs => '[' :: plainItems comma colon xs ++ [']']
  | .dict fields => '{' :: plainFields comma colon fields ++ ['}']

def plainItems (comma colon : List Char) : List PyValue → List Char
  | [] => []
  | [x] => plainText comma colon x
  | x :: xs => plainText comma colon x ++ comma ++ plainItems comma colon xs

def plainFields (comma colon : List Char) : List (PyStr × PyValue) → List Char
  | [] => []
  | [(key, x)] => '"' :: plainString key ++ ['"'] ++ colon ++ plainText comma colon x
  | (key, x) :: fields =>
    '"' :: plainString key ++ ['"'] ++ colon ++ plainText comma colon x ++ comma ++
      plainFields comma colon fields

end

/-- A library for a few dictionaries. -/
def plainJson (dicts : List (List (PyStr × PyValue))) : JsonLib where
  dumps
    | .dumps => plainText [',', ' '] [':', ' ']
    | .dumpsUnicode => plainText [',', ' '] [':', ' ']
    | _ => plainText [','] [':']
  loads text := (dicts.find? fun fields =>
    plainText [',', ' '] [':', ' '] (.dict fields) = text ∨
      plainText [','] [':'] (.dict fields) = text).map .dict

/-- The library for a small payload that `send_event` sends on behalf of a patch. -/
def patchJson (eventType : String) (payload : List (PyStr × PyValue)) : JsonLib :=
  let metadata := withPayload (makeMetadata "monkey_patch" eventType []) payload
  plainJson [metadata, logRecord "monkey_patch" (.dict metadata) (.value (.dict payload)), payload]

/-- It carries the payload when it reads the frame and the record. -/
theorem carries_patchJson {eventType : String} {payload : List (PyStr × PyValue)}
    (hfits : fitsMetadata (patchJson eventType payload) payload = true)
    (hframe : (patchJson eventType payload).Reads .sendJson
      (withPayload (makeMetadata "monkey_patch" eventType []) payload))
    (hrecord : loneSurrogateFields payload = false →
      (patchJson eventType payload).Reads .dumpsUnicode (logRecord "monkey_patch"
        (.dict (withPayload (makeMetadata "monkey_patch" eventType []) payload))
        (.value (.dict payload)))) :
    (patchJson eventType payload).Carries (.sendEvent "monkey_patch" []) eventType payload where
  reads := by
    intro text htext hlone
    simp only [Producer.texts, Producer.decoded, if_pos hfits, List.mem_cons, List.not_mem_nil,
      or_false] at htext
    -- the frame and the logged record are the only texts
    obtain rfl | rfl := htext
    · exact hframe
    · refine hrecord (Bool.eq_false_iff.mpr fun h => ?_)
      simpa [PyValue.loneSurrogate, loneSurrogateFields, logRecord, h] using hlone rfl
  loads_nil := by simp [patchJson, plainJson, plainText]

def forwardStart : List (PyStr × PyValue) := [("pid", .int 4242)]

set_option maxRecDepth 4000 in
/-- The forward event is carried by the library. -/
theorem carries_forwardStart :
    (patchJson "gpu_forward_start" forwardStart).Carries (.sendEvent "monkey_patch" [])
      "gpu_forward_start" forwardStart :=
  carries_patchJson rfl ⟨rfl, rfl, rfl, oneLine_of_any rfl⟩
    fun _ => ⟨rfl, rfl, rfl, oneLine_of_any rfl⟩

/-- An event of a worker gets through. -/
theorem transparent_forwardStart :
    Transparent (patchJson "gpu_forward_start" forwardStart) true {}
      (.sendEvent "monkey_patch" []) "gpu_forward_start" forwardStart :=
  (transparent_iff carries_forwardStart (by simp [forwardStart]) (by decide) true {}).mpr
    ⟨fun h => absurd h.2.1 (by decide), fun h => absurd h.2 (by decide)⟩

/-- A thread that announces a list of roles. -/
def listRole : List (PyStr × PyValue) :=
  [("role", .list [.str "asyncio_eventloop"]), ("tid", .int 4243)]

set_option maxRecDepth 4000 in
/-- The event with a list for its role is carried by the library. -/
theorem carries_listRole :
    (patchJson "thread_role" listRole).Carries (.sendEvent "monkey_patch" []) "thread_role"
      listRole :=
  carries_patchJson rfl ⟨rfl, rfl, rfl, oneLine_of_any rfl⟩
    fun _ => ⟨rfl, rfl, rfl, oneLine_of_any rfl⟩

/-- The collector does not survive it. -/
theorem not_transparent_listRole :
    ¬Transparent (patchJson "thread_role" listRole) true {} (.sendEvent "monkey_patch" [])
      "thread_role" listRole := by
  intro h
  exact (h.not_raises carries_listRole (by simp [listRole]) (by decide)).1 ⟨rfl, rfl, trivial⟩

/-- One half of the escape of a character outside of the basic plane. -/
def halfName : List (PyStr × PyValue) := [("request_id", .str (.surrogate "" 0x3d ""))]

set_option maxRecDepth 4000 in
/-- The event with half a character in its id is carried by the library. -/
theorem carries_halfName :
    (patchJson "req_received" halfName).Carries (.sendEvent "monkey_patch" []) "req_received"
      halfName :=
  carries_patchJson rfl ⟨rfl, rfl, rfl, oneLine_of_any rfl⟩ fun h => absurd h (by decide)

/-- The collector does not survive it either. -/
example :
    ¬Transparent (patchJson "req_received" halfName) true {} (.sendEvent "monkey_patch" [])
      "req_received" halfName := by
  intro h
  refine (h.not_raises carries_halfName (by simp [halfName]) (by decide)).2 ⟨?_, by decide⟩
  exact fun hraw => absurd hraw.1 (by decide)

end DeLatency
