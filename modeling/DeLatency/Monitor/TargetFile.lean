import DeLatency.ForStd.CText
import DeLatency.Monitor.SchedLatency

/-!
# The monitor's target file

The monitor learns from a file which threads to track.  It reads the file again and again
while other programs rewrite it, so a scan adds what is new and counts the lines that name
a target.

The file is opened on each scan, and `/proc` is read only when the monitor is bound to a
root process.
-/

namespace DeLatency

open CText

/-- `parse_u32_str`. -/
def parseU32Str (s : List Char) : Option UInt32 :=
  if s = [] then none
  else
    let (v, endptr) := strtoul s
    if endptr ≠ [] ∨ v = 0 ∨ 2 ^ 32 - 1 < v then none else some (UInt32.ofNat v)

/-- A line that names a target. -/
structure TargetSpec where
  id : UInt32
  exactTid : Bool
deriving DecidableEq

/-- `parse_target_spec`. -/
def parseTargetSpec (s : List Char) : Option TargetSpec :=
  if s = [] then none
  else if startsWithNoCase "tid:".toList s then
    (parseU32Str (s.drop 4)).map fun id => { id, exactTid := true }
  else if startsWithNoCase "thread:".toList s then
    (parseU32Str (s.drop 7)).map fun id => { id, exactTid := true }
  else if startsWithNoCase "pid:".toList s then
    (parseU32Str (s.drop 4)).map fun id => { id, exactTid := false }
  else if startsWithNoCase "process:".toList s then
    (parseU32Str (s.drop 8)).map fun id => { id, exactTid := false }
  -- a bare number is a process id
  else (parseU32Str s).map fun id => { id, exactTid := false }

/-- The cast to `pid_t`. -/
def pidOf (target : UInt32) : ℤ := Int.bmod target.toNat (2 ^ 32)

/-- A line as `fgets` has read it, up to its end. -/
def cutLine (line : List Char) : List Char :=
  line.takeWhile fun c => c ≠ '\r' ∧ c ≠ '\n' ∧ c ≠ '\x00'

/-- A scan under way: `workers` are the lines that named a target, `addedTids` the threads that
    are new. -/
structure TargetScan where
  monitor : Monitor
  workers : ℕ := 0
  addedTids : ℕ := 0

namespace TargetScan

/-- A call of `add_tid_to_bpf_map`, whose failures are not counted. -/
def addTid (scan : TargetScan) (tid : UInt32) : TargetScan :=
  let (monitor, result) := scan.monitor.addTidToBpfMap tid
  { scan with monitor, addedTids := scan.addedTids + if 0 < result then 1 else 0 }

/-- `track_main_tid_of_pid`. -/
def trackMainTidOfPid (scan : TargetScan) (pid : ℤ) : TargetScan :=
  if pid ≤ 0 ∨ 2 ^ 31 - 1 < pid then scan else scan.addTid (UInt32.ofInt pid)

variable (rootPid : ℤ) (isDescendantOrSelf : ℤ → Bool)

/-- One line of `auto_scan_worker_pid_file`; `isDescendantOrSelf` is what `/proc` says about a
    process and the root process. -/
def scanLine (scan : TargetScan) (line : List Char) : TargetScan :=
  match parseTargetSpec (cutLine line) with
  | none => scan
  | some { id, exactTid } =>
    if exactTid then { scan with workers := scan.workers + 1 }.addTid id
    else if 0 < rootPid ∧ ¬isDescendantOrSelf (pidOf id) then scan
    else { scan with workers := scan.workers + 1 }.trackMainTidOfPid (pidOf id)

end TargetScan

/-- `auto_scan_worker_pid_file`, which reads into a buffer of 128 bytes; `none` is a file that
    cannot be opened. -/
def Monitor.autoScanWorkerPidFile (m : Monitor) (rootPid : ℤ) (isDescendantOrSelf : ℤ → Bool) :
    Option (List Char) → TargetScan
  | none => { monitor := m }
  | some text =>
    (fgetsLines 127 text).foldl (TargetScan.scanLine rootPid isDescendantOrSelf) { monitor := m }

end DeLatency
