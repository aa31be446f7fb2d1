import DeLatency.Converter.Value
import Mathlib.Logic.Function.Basic

/-!
# The gate of the patches

The patches ask `monkeypatch_runtime` whether they are enabled.  A control thread answers
the commands of a socket, any thread can start the control server, and one lock guards the
module.  A process of the engine forks its workers: the child has the module as it was, and
of the threads only the one that forked.

A thread runs through the operations of the call that it has made, one at a time, and
waits at an `acquire` while the lock is held.  The forking thread is outside all calls of
the module, which never fork themselves.
-/

namespace DeLatency

/-- An operation of a thread.  Those that stand under `with _lock` are in the second group. -/
inductive PatchOp
  | refreshProcessIdentity
  | acquire
  | release
  | startIfNeeded
  | readSocketPath
  | resetIfForeign
  | startServer
  | stopServer
  | setEnabled (enabled : Bool)
  | readEnabled
  | readStatus
deriving DecidableEq

/-- What a call returns, or the exception of a `bind` that failed. -/
inductive PatchResult
  | enabled (enabled : Bool)
  | socketPath (path : String)
  | status (enabled : Bool) (generation pid : ℕ) (socket : String)
  | changed (changed : Bool)
  | stopped
  | osError
deriving DecidableEq

/-! ## The code of the calls -/

/-- `with _lock: body`. -/
def withLock (body : PatchOp) : List PatchOp := [.acquire, body, .release]

/-- `start_control_server`.  The exception of a `bind` that fails ends the `with`. -/
def startControlServer : List PatchOp := .refreshProcessIdentity :: withLock .startServer

/-- `is_enabled`, which catches that exception. -/
def isEnabled : List PatchOp :=
  .refreshProcessIdentity :: .startIfNeeded :: withLock .readEnabled

def getSocketPath : List PatchOp := [.refreshProcessIdentity, .readSocketPath]

def getStatus : List PatchOp := .refreshProcessIdentity :: withLock .readStatus

def setEnabled (enabled : Bool) : List PatchOp := withLock (.setEnabled enabled)

/-- `stop_control_server`.  What it does after the lock is about the socket file and the thread. -/
def stopControlServer : List PatchOp := withLock .stopServer

/-- `_handle_command`, the calls that a command makes. -/
def handleCommand (command : String) : List PatchOp :=
  let text := lower (strip command)
  if text = "" ∨ text = "status" then getStatus
  else if text = "on" ∨ text = "enable" then setEnabled true ++ getStatus
  else if text = "off" ∨ text = "disable" then setEnabled false ++ getStatus
  else []

/-- A call that a thread makes. -/
inductive PatchCall
  | isEnabled
  | getSocketPath
  | getStatus
  | setEnabled (enabled : Bool)
  | handleCommand (command : String)
  | startControlServer
  | stopControlServer
deriving DecidableEq

def PatchCall.code : PatchCall → List PatchOp
  | .isEnabled => DeLatency.isEnabled
  | .getSocketPath => DeLatency.getSocketPath
  | .getStatus => DeLatency.getStatus
  | .setEnabled enabled => DeLatency.setEnabled enabled
  | .handleCommand command => DeLatency.handleCommand command
  | .startControlServer => DeLatency.startControlServer
  | .stopControlServer => DeLatency.stopControlServer

/-! ## The process -/

/-- `_socket_path_for_pid`. -/
def socketPathForPid (controlDir : String) (pid : ℕ) : String :=
  let name := "de_latency_monkeypatch_" ++ toString pid ++ ".sock"
  -- `os.path.join`
  if controlDir = "" ∨ controlDir.toList.getLast? = some '/' then controlDir ++ name
  else controlDir ++ "/" ++ name

/-- A process with threads `ι`: its pid, the variables of the module, and what each thread has
    still to do and what its last call has returned. -/
structure PatchRuntime (ι : Type) where
  pid : ℕ
  controlDir : String
  processPid : ℕ
  socketPath : String
  lock : Option ι := none
  hasServerSocket : Bool := false
  hasServerThread : Bool := false
  serverStarted : Bool := false
  serverStartFailedPid : ℕ := 0
  stopEvent : Bool := false
  enabled : Bool
  generation : ℕ
  code : ι → List PatchOp := fun _ => []
  result : ι → Option PatchResult := fun _ => none

namespace PatchRuntime

variable {ι : Type} [DecidableEq ι]

/-- A process that has just imported the module. -/
def initial (pid : ℕ) (controlDir : String) (startEnabled : Bool) : PatchRuntime ι where
  pid := pid
  controlDir := controlDir
  processPid := pid
  socketPath := socketPathForPid controlDir pid
  enabled := startEnabled
  generation := if startEnabled then 1 else 0

/-- `_reset_after_fork_locked`. -/
def resetAfterForkLocked (s : PatchRuntime ι) (pid : ℕ) : PatchRuntime ι :=
  { s with
    hasServerSocket := false
    hasServerThread := false
    serverStarted := false
    serverStartFailedPid := 0
    processPid := pid
    socketPath := socketPathForPid s.controlDir pid
    stopEvent := false }

def setCode (s : PatchRuntime ι) (t : ι) (code : List PatchOp) : PatchRuntime ι :=
  { s with code := Function.update s.code t code }

def setResult (s : PatchRuntime ι) (t : ι) (result : PatchResult) : PatchRuntime ι :=
  { s with result := Function.update s.result t (some result) }

/-- What an operation of a thread does to the module.  `bindOk` says whether the socket can be
    bound. -/
def perform (s : PatchRuntime ι) (t : ι) (bindOk : Bool) : PatchOp → PatchRuntime ι
  | .readSocketPath => s.setResult t (.socketPath s.socketPath)
  -- after a fork the state belongs to the parent and is forgotten
  | .resetIfForeign => if s.pid = s.processPid then s else s.resetAfterForkLocked s.pid
  | .startServer =>
    if s.serverStarted then s.setResult t (.socketPath s.socketPath)
    else if bindOk then
      { s with
        stopEvent := false
        hasServerSocket := true
        hasServerThread := true
        serverStarted := true
        serverStartFailedPid := 0 }.setResult t (.socketPath s.socketPath)
    -- the socket could not be bound; the process is remembered so that it is not tried again
    else { s with serverStartFailedPid := s.pid }.setResult t .osError
  | .stopServer =>
    if s.serverStarted then
      { s with
        stopEvent := true
        hasServerSocket := false
        hasServerThread := false
        serverStarted := false }.setResult t .stopped
    else s.setResult t .stopped
  | .setEnabled enabled =>
    let changed := s.enabled != enabled
    { s with
      enabled := enabled
      -- only a turn from off to on is a new generation
      generation := if enabled && changed then s.generation + 1 else s.generation }.setResult t
        (.changed changed)
  | .readEnabled => s.setResult t (.enabled s.enabled)
  | .readStatus => s.setResult t (.status s.enabled s.generation s.pid s.socketPath)
  | _ => s

/-- A thread takes its next operation.  Two of them become calls that it has to make first. -/
def runThread (s : PatchRuntime ι) (t : ι) (bindOk : Bool) : PatchRuntime ι :=
  match s.code t with
  | [] => s
  -- a thread that finds the lock taken stays where it is
  | .acquire :: rest => if s.lock = none then { s with lock := some t }.setCode t rest else s
  | .release :: rest => { s with lock := none }.setCode t rest
  -- a foreign pid means that a fork copied the module
  | .refreshProcessIdentity :: rest =>
    s.setCode t (if s.pid = s.processPid then rest else withLock .resetIfForeign ++ rest)
  | .startIfNeeded :: rest =>
    s.setCode t (if s.serverStarted = false ∧ s.serverStartFailedPid ≠ s.pid
      then startControlServer ++ rest else rest)
  | op :: rest => (s.perform t bindOk op).setCode t rest

/-- `_after_fork_child`, which does nothing about the lock. -/
def afterForkChild (s : PatchRuntime ι) : PatchRuntime ι := s.resetAfterForkLocked s.pid

/-- The child of a fork by thread `t`, after the hook. -/
def forkChild (s : PatchRuntime ι) (t : ι) (childPid : ℕ) : PatchRuntime ι :=
  afterForkChild { s with
    pid := childPid
    code := fun u => if u = t then s.code u else []
    result := fun u => if u = t then s.result u else none }

/-- A thread that is outside the module makes a call. -/
def call (s : PatchRuntime ι) (t : ι) (c : PatchCall) : PatchRuntime ι :=
  if s.code t = [] then s.setCode t c.code else s

end PatchRuntime

/-- A step of a process.  A fork leads on to the child. -/
inductive PatchEvent (ι : Type)
  | call (t : ι) (c : PatchCall)
  | run (t : ι) (bindOk : Bool)
  | fork (t : ι) (childPid : ℕ)
deriving DecidableEq

namespace PatchRuntime

variable {ι : Type} [DecidableEq ι]

def step (s : PatchRuntime ι) : PatchEvent ι → PatchRuntime ι
  | .call t c => s.call t c
  | .run t bindOk => s.runThread t bindOk
  | .fork t childPid => if s.code t = [] then s.forkChild t childPid else s

/-- A line of processes: each is the child of the one before. -/
def run (pid : ℕ) (controlDir : String) (startEnabled : Bool) (events : List (PatchEvent ι)) :
    PatchRuntime ι :=
  events.foldl step (initial pid controlDir startEnabled)

end PatchRuntime

end DeLatency
