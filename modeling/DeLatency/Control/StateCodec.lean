import DeLatency.Control.StateFile
import DeLatency.Converter.LogFile
import DeLatency.ForStd.Dict
import DeLatency.ForStd.SortBy
import Mathlib.Data.Char
import Mathlib.Data.List.Lex

/-!
# The state file in `trace_ctl`

`trace_ctl` loads the state file into a dictionary of strings, and writes it back with the
keys in order.  It opens the file as UTF-8 text, in which a carriage return ends a line
like a newline; the controller works on the bytes.
-/

namespace DeLatency

open CText

/-- A state: strings under strings. -/
abbrev CtlState := Dict (List Char) (List Char)

/-- `state[key] = value`. -/
def CtlState.set (state : CtlState) (key value : List Char) : CtlState :=
  state.alter key value fun _ => value

/-- `strip` on a list of characters. -/
def stripText (text : List Char) : List Char := (strip (String.ofList text)).toList

/-- One turn of the loop of `load_state`. -/
def loadStateLine (state : CtlState) (raw : List Char) : CtlState :=
  let line := stripText raw
  if line = [] ∨ '=' ∉ line then state
  else
    state.set (stripText (line.takeWhile (· ≠ '=')))
      (stripText ((line.dropWhile (· ≠ '=')).drop 1))

/-- `load_state`; a file that is missing ends the program with a message. -/
def loadState (path : String) : Option (List Char) → Except String CtlState
  | none => .error ("state file not found: " ++ path)
  | some text => .ok ((text.splitOnP isNewline).foldl loadStateLine .empty)

/-- The text of `save_state`. -/
def saveState (state : CtlState) : List Char :=
  (state.keys.sortBy id).flatMap fun key => controlStateEntry key (state.getD key [])

namespace ControlStateFields

/-- The fields as a state of `trace_ctl`. -/
def state (f : ControlStateFields) : CtlState :=
  ⟨[("state_version".toList, ['1']),
    ("controller_pid".toList, decimal f.controllerPid),
    ("target_pid".toList, decimal f.targetPid),
    ("collector_pid".toList, decimal f.collectorPid),
    ("ebpf_pid".toList, decimal f.ebpfPid),
    ("zmq_addr".toList, f.zmqAddr),
    ("worker_pid_file".toList, f.workerPidFile),
    ("ebpf_monitor_bin".toList, f.ebpfMonitorBin)], by
    -- the eight keys differ as texts, whatever the values are
    have hkeys : (["state_version", "controller_pid", "target_pid", "collector_pid", "ebpf_pid",
      "zmq_addr", "worker_pid_file", "ebpf_monitor_bin"].map String.toList).Nodup := by decide
    exact hkeys⟩

end ControlStateFields

end DeLatency
