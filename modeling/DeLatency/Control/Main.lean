import DeLatency.Control.StateFile

/-!
# The controller

The controller starts the collector, the target program and, unless it is told not to,
the scheduling monitor; then it writes the control state file and waits for the target
to end or for a signal.  All its ways end in one cleanup section, which stops what was
started and what the state file names, and removes the file.

How the calls of a run turn out is an input of it.  A signal only ends the wait earlier,
which shows in what happens to the state file until the cleanup.
-/

namespace DeLatency

open CText

/-- A process id that `fork` has returned. -/
structure Pid where
  val : ℤ
  pos : 0 < val
  lt : val < 2 ^ 31

/-- How `start_collector_process` turns out. -/
inductive CollectorOutcome
  | forkFails
  | socketTimeout (pid : Pid)
  | started (pid : Pid)

/-- How `start_ebpf_monitor_process` turns out. -/
inductive EbpfOutcome
  | forkFails
  | exitsDuringStartup (pid : Pid)
  | started (pid : Pid)

/-- What a run of the controller meets. -/
structure ControllerRun where
  /-- There is a program to run, and the paths of the helpers were found. -/
  resolved : Bool
  collector : CollectorOutcome
  zmqCtxNew : Bool
  zmqSocket : Bool
  /-- What `fork` returns for the target. -/
  target : Option Pid
  ebpfStartEnabled : Bool
  ebpf : EbpfOutcome
  controllerPid : Pid
  zmqAddr : List Char
  workerPidFile : List Char
  ebpfMonitorBin : List Char
  writeSucceeds : Bool
  /-- The state file at the start of the run; `none` when there is none. -/
  prior : Option (List Char)
  /-- What others make of the file before this run writes it, between that and the read in
      the cleanup, and between the read and the removal. -/
  beforeWrite : List (Option (List Char))
  afterWrite : List (Option (List Char))
  afterRead : List (Option (List Char))

/-- The variables of `main`, the text it wrote to the state file, and all processes it has
    started. -/
structure ControllerVars where
  collectorPid : ℤ := 0
  childPid : ℤ := 0
  ebpfPid : ℤ := 0
  written : Option (List Char) := none
  started : List ℤ := []

/-- What the cleanup section does to processes and to the state file. -/
structure CleanupEffect where
  kills : List ℤ := []
  unlinked : Bool := false

namespace ControllerVars

def startCollectorProcess (v : ControllerVars) : CollectorOutcome → ControllerVars
  | .forkFails => { v with collectorPid := 0 }
  -- the process is stopped again
  | .socketTimeout pid => { v with collectorPid := 0, started := v.started ++ [pid.val] }
  | .started pid => { v with collectorPid := pid.val, started := v.started ++ [pid.val] }

def startEbpfMonitorProcess (v : ControllerVars) : EbpfOutcome → ControllerVars
  | .forkFails => { v with ebpfPid := 0 }
  | .exitsDuringStartup pid => { v with ebpfPid := 0, started := v.started ++ [pid.val] }
  | .started pid => { v with ebpfPid := pid.val, started := v.started ++ [pid.val] }

end ControllerVars

namespace ControllerRun

/-- What this run puts into the state file. -/
def fields (r : ControllerRun) (v : ControllerVars) : ControlStateFields where
  controllerPid := r.controllerPid.val
  targetPid := v.childPid
  collectorPid := v.collectorPid
  ebpfPid := v.ebpfPid
  zmqAddr := r.zmqAddr
  workerPidFile := r.workerPidFile
  ebpfMonitorBin := r.ebpfMonitorBin

/-- `main` after the fork of the target. -/
def startRest (r : ControllerRun) (v : ControllerVars) (target : Pid) : ControllerVars :=
  let v := { v with childPid := target.val, started := v.started ++ [target.val] }
  let v := if r.ebpfStartEnabled then v.startEbpfMonitorProcess r.ebpf else { v with ebpfPid := 0 }
  if r.writeSucceeds then { v with written := some (r.fields v).writeControlStateFile } else v

/-- `main` up to the label `cleanup`. -/
def startup (r : ControllerRun) : ControllerVars :=
  let v := ControllerVars.startCollectorProcess {} r.collector
  if v.collectorPid = 0 then v
  else if ¬r.zmqCtxNew then v
  else if ¬r.zmqSocket then v
  else match r.target with
    | none => { v with childPid := -1 }
    | some target => r.startRest v target

/-- The file after others have written it. -/
def latest (file : Option (List Char)) (updates : List (Option (List Char))) :
    Option (List Char) :=
  updates.getLast?.getD file

/-- The state file when the cleanup reads it. -/
def fileAtRead (r : ControllerRun) (v : ControllerVars) : Option (List Char) :=
  match v.written with
  | some text => latest (some text) r.afterWrite
  | none => latest (latest r.prior r.beforeWrite) r.afterWrite

/-- The state file when the cleanup removes it. -/
def fileAtUnlink (r : ControllerRun) (v : ControllerVars) : Option (List Char) :=
  latest (r.fileAtRead v) r.afterRead

/-- The cleanup section. -/
def cleanup (r : ControllerRun) (v : ControllerVars) : CleanupEffect :=
  let currentEbpfPid := readEbpfPidFromControlState (r.fileAtRead v)
  { kills :=
      (if 0 < v.childPid then [-v.childPid, v.childPid] else []) ++
        (if 0 < v.collectorPid then [v.collectorPid] else []) ++
        (if 0 < v.ebpfPid then [v.ebpfPid] else []) ++
        if 0 < currentEbpfPid ∧ currentEbpfPid ≠ v.ebpfPid then [currentEbpfPid] else []
    unlinked := (r.fileAtUnlink v).isSome }

/-- `main`. -/
def main (r : ControllerRun) : ControllerVars × CleanupEffect :=
  if ¬r.resolved then ({}, {}) else (r.startup, r.cleanup r.startup)

end ControllerRun

end DeLatency
