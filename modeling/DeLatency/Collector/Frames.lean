import DeLatency.Converter.Value
import DeLatency.ForStd.SortBy

/-!
# The collector

`handle_frames` takes the frames of one message, writes one line to the log and remembers
the processes and threads it learns of, for which it rewrites the target file.  The text
of the log ends with a complete line at any time, which its type keeps.

A message that makes `handle_frames` raise ends the collector, so nothing is kept of it.
-/

namespace DeLatency

/-! ## The log -/

/-- The text of the log file. -/
structure LogText where
  text : List Char
  complete : text = [] ∨ text.getLast? = some '\n'

namespace LogText

def empty : LogText := ⟨[], .inl rfl⟩

/-- Write a line and its end. -/
def writeLine (log : LogText) (line : List Char) : LogText :=
  ⟨log.text ++ (line ++ ['\n']), .inr (by simp [← List.append_assoc])⟩

/-- `_log_raw_json_line`, on the text that the frame has been decoded to.  The replacing
    decoder is for frames that do not decode, and those do not get this far. -/
def logRawJsonLine (log : LogText) (line : List Char) : LogText :=
  if h : line.getLast? = some '\n' then
    ⟨log.text ++ line, .inr (by rw [List.getLast?_append, h, Option.some_or])⟩
  else log.writeLine line

end LogText

/-! ## Discovery -/

def workerPidEvents : List String :=
  ["worker_process_ready", "worker_preprocess_start", "worker_model_execute_span",
    "gpu_forward_start", "gpu_forward_end", "gpu_execute_model"]

def threadTargetEvents : List String := ["thread_role"]

def threadTargetRoles : List String := ["asyncio_eventloop"]

/-- The second frame, or the payload in the first one. -/
inductive FramePayload
  /-- Bytes that are no JSON; only their number is logged. -/
  | bytes (length : ℕ)
  | value (v : PyValue)

/-- `_get_src`. -/
def getSrc (metadata : PyValue) : Except PyError PyStr := do
  match ← metadata.get "source" with
  | .str src => return src.lower
  | _ => return "unknown"

/-- `_extract_dict_payload`. -/
def extractDictPayload (metadata : PyValue) :
    FramePayload → Except PyError (Option (List (PyStr × PyValue)))
  | .value (.dict fields) => .ok (some fields)
  | _ => do
    match ← metadata.get "payload" with
    | .dict fields => return some fields
    | _ => return none

/-- `int(value)`, `none` where it raises. -/
def pyInt : PyValue → Option ℤ
  | .int n => some n
  | .bool b => some (if b then 1 else 0)
  | .str (.text s) => parseInt s
  | .float (.finite m e) =>
    some (if m < 0 then -scaledTrunc 2 m.natAbs e else scaledTrunc 2 m.natAbs e)
  | _ => none

/-- `_coerce_pid`. -/
def coercePid (value : PyValue) : Option ℤ := (pyInt value).filter (0 < ·)

/-- `_extract_worker_pid`. -/
def extractWorkerPid (src : PyStr) (metadata : PyValue) (payload : FramePayload) :
    Except PyError (Option ℤ) := do
  if src ≠ "monkey_patch" then return none
  if ¬(← (← metadata.get "event_type").memSet workerPidEvents) then return none
  match ← extractDictPayload metadata payload with
  | none => return none
  | some [] => return none
  | some p => return coercePid ((p.lookup ("pid" : PyStr)).getD .null)

/-- `_extract_exact_tid`. -/
def extractExactTid (src : PyStr) (metadata : PyValue) (payload : FramePayload) :
    Except PyError (Option ℤ) := do
  if src ≠ "monkey_patch" then return none
  if ¬(← (← metadata.get "event_type").memSet threadTargetEvents) then return none
  match ← extractDictPayload metadata payload with
  | none => return none
  | some [] => return none
  | some p =>
    -- a role that cannot be hashed raises here
    if ¬(← ((p.lookup ("role" : PyStr)).getD .null).memSet threadTargetRoles) then return none
    return coercePid ((p.lookup ("tid" : PyStr)).getD .null)

/-! ## State -/

structure Collector where
  knownWorkerPids : List ℤ := []
  knownExactTids : List ℤ := []
  targetFile : List Char := []
  log : LogText := LogText.empty

namespace Collector

/-- `_persist_target_file`; a write that fails leaves the file as it is. -/
def persistTargetFile (c : Collector) (writeOk : Bool) : Collector :=
  let lines := (c.knownWorkerPids.sortBy id).map toString ++
    (c.knownExactTids.sortBy id).map fun tid => "tid:" ++ toString tid
  if writeOk then { c with targetFile := lines.flatMap fun line => line.toList ++ ['\n'] } else c

/-- `_persist_worker_pid`. -/
def persistWorkerPid (c : Collector) (writeOk : Bool) : Option ℤ → Collector
  | none => c
  | some pid =>
    if pid ∈ c.knownWorkerPids then c
    else { c with knownWorkerPids := c.knownWorkerPids ++ [pid] }.persistTargetFile writeOk

/-- `_persist_exact_tid`. -/
def persistExactTid (c : Collector) (writeOk : Bool) : Option ℤ → Collector
  | none => c
  | some tid =>
    if tid ∈ c.knownExactTids then c
    else { c with knownExactTids := c.knownExactTids ++ [tid] }.persistTargetFile writeOk

end Collector

/-! ## Messages -/

/-- The record of `_log`. -/
def logRecord (src : PyStr) (metadata : PyValue) (payload : FramePayload) :
    List (PyStr × PyValue) :=
  [("src", .str src), ("meta", metadata),
    ("payload", match payload with
      | .bytes length => .dict [("_bytes_len", .int length)]
      | .value v => v)]

section Messages

variable (lib : JsonLib) (writeOk : Bool)

/-- The log with a message: the line of a tracer's only frame as it stands, or the record. -/
def LogText.logMessage (log : LogText) (src : PyStr) (metadata : PyValue)
    (payload : FramePayload) (rawLine : Option (List Char)) : LogText :=
  match rawLine.filter fun _ => src = "cupti" with
  | some line => log.logRawJsonLine line
  | none => log.writeLine (lib.dumps .dumpsUnicode (.dict (logRecord src metadata payload)))

/-- `handle_frames` after the frames have been decoded; `rawLine` is the frame of a message that
    has only one. -/
def Collector.handleMessage (c : Collector) (metadata : PyValue) (payload : FramePayload)
    (rawLine : Option (List Char)) : Except PyError (Collector × Bool) := do
  let src ← getSrc metadata
  let c := c.persistWorkerPid writeOk (← extractWorkerPid src metadata payload)
  let c := c.persistExactTid writeOk (← extractExactTid src metadata payload)
  if src = "ebpf" ∨ src = "cupti" ∨ src = "monkey_patch" then
    -- a record with a lone surrogate cannot be encoded, a line that has been decoded always can
    if (src = "cupti" ∧ rawLine.isSome) ∨
        ¬(PyValue.dict (logRecord src metadata payload)).loneSurrogate then
      return ({ c with log := c.log.logMessage lib src metadata payload rawLine }, true)
    else throw .unicodeEncodeError
  else return (c, false)

/-- The payload in a second frame, bytes where it is no JSON. -/
def secondFrame (frame : ByteArray) : FramePayload :=
  match (decodeUtf8 frame).bind lib.loads with
  | some v => .value v
  | none => .bytes frame.size

/-- `handle_frames`: the new state and what it returns. -/
def Collector.handleFrames (c : Collector) (frames : List ByteArray) :
    Except PyError (Collector × Bool) :=
  match frames with
  | [] => .ok (c, false)
  | first :: rest =>
    match decodeUtf8 first with
    -- bytes that are not UTF-8, or a line that is not JSON, end the message here
    | none => .ok (c, false)
    | some line =>
      match lib.loads line with
      | none => .ok (c, false)
      | some metadata =>
        match rest with
        -- one frame: the payload stands inside the metadata, and the line is logged as it came
        | [] => do
          let payload ← metadata.get "payload"
          c.handleMessage lib writeOk metadata (.value payload) (some line)
        -- two frames: the line has to be written anew with the payload in it
        | [second] => c.handleMessage lib writeOk metadata (secondFrame lib second) none
        | _ => .ok (c, false)

end Messages

end DeLatency
