import DeLatency.ForStd.CText

/-!
# The control state file

The controller writes the file once, when everything has been started, and reads the pid
of the monitor back from it when it ends.  In between other programs may have written
another file in its place.
-/

namespace DeLatency

open CText

/-- What the controller puts into the file. -/
structure ControlStateFields where
  controllerPid : ℤ
  targetPid : ℤ
  collectorPid : ℤ
  ebpfPid : ℤ
  zmqAddr : List Char
  workerPidFile : List Char
  ebpfMonitorBin : List Char

/-- A line of the file. -/
def controlStateEntry (key : List Char) (value : List Char) : List Char :=
  key ++ '=' :: value ++ ['\n']

namespace ControlStateFields

/-- The lines with the pids. -/
def pidEntries (f : ControlStateFields) : List Char :=
  controlStateEntry "state_version".toList ['1'] ++
    controlStateEntry "controller_pid".toList (decimal f.controllerPid) ++
    controlStateEntry "target_pid".toList (decimal f.targetPid) ++
    controlStateEntry "collector_pid".toList (decimal f.collectorPid) ++
    controlStateEntry "ebpf_pid".toList (decimal f.ebpfPid)

/-- The lines with the paths. -/
def pathEntries (f : ControlStateFields) : List Char :=
  controlStateEntry "zmq_addr".toList f.zmqAddr ++
    controlStateEntry "worker_pid_file".toList f.workerPidFile ++
    controlStateEntry "ebpf_monitor_bin".toList f.ebpfMonitorBin

/-- The text of `write_control_state_file`. -/
def writeControlStateFile (f : ControlStateFields) : List Char := f.pidEntries ++ f.pathEntries

end ControlStateFields

/-- `sscanf(line, "ebpf_pid=%d", &value) == 1 && value > 0`.  A C string ends at the first
    zero byte. -/
def scanEbpfPid (line : List Char) : Option ℤ :=
  let line := line.takeWhile (· ≠ '\x00')
  if "ebpf_pid=".toList.isPrefixOf line then
    (scanInt (line.drop "ebpf_pid=".toList.length)).filter (0 < ·)
  else none

/-- `read_ebpf_pid_from_control_state`, which reads into a buffer of 256 bytes. -/
def readEbpfPidFromControlState : Option (List Char) → ℤ
  | none => 0
  | some text => ((fgetsLines 255 text).findSome? scanEbpfPid).getD 0

end DeLatency
