import DeLatency.Converter.Value

/-!
# Reading the log file

`load_log_lines` reads every line that holds a JSON object, and the first lines of the
loop in `process_logs` take the source, the event type and the payload out of it, for
both shapes of a line.
-/

namespace DeLatency

/-- The ends of a line in a file opened as text.  The blank line inside a `\r\n` is skipped
    like any other. -/
def isNewline (c : Char) : Bool := c = '\n' ∨ c = '\r'

/-- One turn of `load_log_lines`. -/
def loadLine (lib : JsonLib) (line : List Char) : Option PyValue :=
  match (strip (String.ofList line)).toList.dropWhile (· ≠ '{') with
  | [] => none
  | text => lib.loads text

/-- `load_log_lines`. -/
def loadLogLines (lib : JsonLib) (text : List Char) : List PyValue :=
  (text.splitOnP isNewline).filterMap (loadLine lib)

/-- What `process_logs` takes out of a log line. -/
structure EntryParts where
  payload : PyValue
  src : PyValue
  etype : PyValue
  ts : PyValue

/-- The value under a key, or the default of `get`. -/
def PyValue.getOr (value : PyValue) (key : PyStr) (fallback : PyValue) :
    Except PyError PyValue :=
  match value with
  | .dict fields => .ok ((fields.lookup key).getD fallback)
  | _ => .error .attributeError

/-- The first lines of the loop of `process_logs`; an entry is a dictionary, since its text
    starts with a brace. -/
def unpackEntry (entry : PyValue) : Except PyError EntryParts :=
  match entry with
  | .dict fields =>
    match fields.lookup ("meta" : PyStr) with
    -- the form with the metadata under a key of its own
    | some metadata => do
      let embedded ← metadata.get "payload"
      let fallback ← entry.getOr "payload" (.dict [])
      let src ← metadata.get "source"
      let etype ← metadata.get "event_type"
      let ts ← metadata.get "timestamp_ns"
      return { payload := embedded.or fallback, src, etype, ts }
    -- the flat form, in which the source defaults to the patch
    | none => do
      let payload ← entry.getOr "payload" entry
      let src ← entry.getOr "source" (.str "monkey_patch")
      let etype ← entry.get "event_type"
      let payloadTs ← payload.get "timestamp_ns"
      let ts ← entry.getOr "timestamp_ns" payloadTs
      return { payload, src, etype, ts }
  | _ => .error .typeError

end DeLatency
