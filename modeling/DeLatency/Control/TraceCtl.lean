import Mathlib.Data.Finset.Basic
import Mathlib.Logic.Function.Basic

/-!
# Turning the eBPF monitor on and off

`trace_ctl on` and `trace_ctl off` find the monitor through the state file.  An
invocation loads the file, looks whether the monitor it names is alive, starts or stops
one, and saves the file.  Nothing locks the file, so the steps of several invocations
can come in any order, and so can the ends and starts of other processes.
-/

namespace DeLatency

/-- The entries of the state file that the eBPF commands read, as `int_or_zero` and
    `state.get` decode them.  A missing entry is 0 or empty. -/
structure ControlState where
  ebpfPid : ℤ := 0
  targetPid : ℤ := 0
  ebpfMonitorBin : String := ""
deriving DecidableEq

/-- `trace_ctl on --tool ebpf` and `trace_ctl off --tool ebpf`. -/
inductive CtlCommand
  | on
  | off
deriving DecidableEq

/-- How far an invocation has come, with the state it works on. -/
inductive CtlPhase
  | ready
  | loaded (state : ControlState)
  | spawning (state : ControlState)
  | killing (state : ControlState)
  | saving (state : ControlState)
  | finished
deriving DecidableEq

/-- What becomes of the process that `start_ebpf` starts. -/
inductive SpawnOutcome
  | raises
  | exitsImmediately
  | runs (pid : ℤ)
deriving DecidableEq

/-- A step of an invocation, or of another process. -/
inductive CtlStep (ι : Type*)
  | loadState (i : ι)
  | checkAlive (i : ι)
  | spawn (i : ι) (outcome : SpawnOutcome)
  | kill (i : ι) (permitted : Bool)
  | saveState (i : ι)
  | exit (pid : ℤ)
  | appear (pid : ℤ)

/-- The state file, the live processes with the monitors among them that invocations have
    started, and the invocations. -/
structure CtlWorld (ι : Type*) where
  stateFile : ControlState
  alive : Finset ℤ
  monitors : Finset ℤ := ∅
  phase : ι → CtlPhase := fun _ => .ready

namespace CtlWorld

variable {ι : Type*} [DecidableEq ι]

def pidAlive (w : CtlWorld ι) (pid : ℤ) : Bool := 0 < pid ∧ pid ∈ w.alive

def setPhase (w : CtlWorld ι) (i : ι) (phase : CtlPhase) : CtlWorld ι :=
  { w with phase := Function.update w.phase i phase }

/-- `start_ebpf` up to the start of the process. -/
def startEbpf (w : CtlWorld ι) (state : ControlState) : CtlPhase :=
  if w.pidAlive state.ebpfPid then .finished
  -- the two errors end the invocation as well
  else if ¬w.pidAlive state.targetPid then .finished
  else if state.ebpfMonitorBin = "" then .finished
  else .spawning state

/-- `stop_ebpf` up to the signal. -/
def stopEbpf (w : CtlWorld ι) (state : ControlState) : CtlPhase :=
  if w.pidAlive state.ebpfPid then .killing state else .saving { state with ebpfPid := 0 }

/-- A process ends. -/
def remove (w : CtlWorld ι) (pid : ℤ) : CtlWorld ι :=
  { w with alive := w.alive.erase pid, monitors := w.monitors.erase pid }

/-- One step; `none` when it is not possible in this state. -/
def step (command : ι → CtlCommand) (w : CtlWorld ι) : CtlStep ι → Option (CtlWorld ι)
  | .loadState i =>
    match w.phase i with
    | .ready => some (w.setPhase i (.loaded w.stateFile))
    | _ => none
  | .checkAlive i =>
    match w.phase i with
    | .loaded state =>
      match command i with
      | .on => some (w.setPhase i (w.startEbpf state))
      | .off => some (w.setPhase i (w.stopEbpf state))
    | _ => none
  | .spawn i outcome =>
    match w.phase i with
    | .spawning state =>
      match outcome with
      | .raises => some (w.setPhase i .finished)
      | .exitsImmediately => some (w.setPhase i .finished)
      | .runs pid =>
        if 0 < pid ∧ pid ∉ w.alive then
          let w := { w with alive := insert pid w.alive, monitors := insert pid w.monitors }
          some (w.setPhase i (.saving { state with ebpfPid := pid }))
        else none
    | _ => none
  | .kill i permitted =>
    match w.phase i with
    | .killing state =>
      -- `SIGKILL` follows when `SIGTERM` does not end the process
      if permitted ∧ state.ebpfPid ∈ w.alive then
        some ((w.remove state.ebpfPid).setPhase i (.saving { state with ebpfPid := 0 }))
      else
        -- `os.kill` raises, and the file is not saved
        some (w.setPhase i .finished)
    | _ => none
  | .saveState i =>
    match w.phase i with
    | .saving state => some ({ w with stateFile := state }.setPhase i .finished)
    | _ => none
  | .exit pid => some (w.remove pid)
  | .appear pid =>
    if 0 < pid ∧ pid ∉ w.alive then some { w with alive := insert pid w.alive } else none

/-- The state after a sequence of steps. -/
def run (command : ι → CtlCommand) (w : CtlWorld ι) (steps : List (CtlStep ι)) :
    Option (CtlWorld ι) :=
  steps.foldlM (step command) w

end CtlWorld

end DeLatency
