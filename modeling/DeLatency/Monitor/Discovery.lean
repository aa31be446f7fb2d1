import DeLatency.Collector.Frames
import DeLatency.Monitor.TargetFile

/-!
# Discovery

The workers announce themselves to the collector, which rewrites the target file for each
new process or thread.  The monitor reads the file from time to time and adds the threads it
finds one by one, while the hooks of the kernel are running.  All three go on independently.

The collector writes the file in two system calls, one that empties it and one that writes
the text, so the monitor can find it empty.  A monitor with a root process leaves out the
processes that do not descend from it.
-/

namespace DeLatency

open CText

/-- What `handle_frames` remembers of a message, also of one that makes it raise later on. -/
def Collector.remember (c : Collector) (metadata : PyValue) (payload : FramePayload) :
    Collector :=
  match getSrc metadata with
  | .error _ => c
  | .ok src =>
    match extractWorkerPid src metadata payload with
    | .error _ => c
    | .ok pid =>
      -- the process is noted before the thread is looked for
      let c := c.persistWorkerPid true pid
      match extractExactTid src metadata payload with
      | .error _ => c
      | .ok tid => c.persistExactTid true tid

/-- The collector when `handle_frames` has raised. -/
def Collector.afterRaise (lib : JsonLib) (c : Collector) (frames : List ByteArray) : Collector :=
  match (frames.head?.bind decodeUtf8).bind lib.loads with
  | none => c
  | some metadata =>
    match frames.tail with
    | [] =>
      match metadata.get "payload" with
      | .error _ => c
      | .ok payload => c.remember metadata (.value payload)
    -- the metadata is remembered before the second frame is looked at
    | [second] => c.remember metadata (secondFrame lib second)
    | _ => c

/-- The collector and the monitor.  `pending` are the lines that the current scan has read and
    not yet treated.  The collector is gone once a message has raised. -/
structure Discovery where
  collector : Collector := {}
  alive : Bool := true
  monitor : Monitor := {}
  pending : List (List Char) := []

/-- What one of the parties does. -/
inductive DiscoveryStep
  /-- The collector handles a message. -/
  | message (frames : List ByteArray)
  /-- The monitor opens the file for a scan, and finds it empty if it is being rewritten. -/
  | openFile (rewriting : Bool)
  /-- The monitor treats the next line of its scan; `isDescendantOrSelf` is what `/proc` says
      then about a process and the root process. -/
  | nextLine (isDescendantOrSelf : ℤ → Bool)
  /-- A hook runs. -/
  | schedWakeup (pid : UInt32) (now : UInt64)
  | schedWakeupNew (pid : UInt32) (now : UInt64)
  | schedSwitch (prevPid : UInt32) (prevState : Int64) (nextPid : UInt32) (now : UInt64)
      (reserved : Bool)

namespace Discovery

variable (lib : JsonLib) (rootPid : ℤ)

def message (s : Discovery) (frames : List ByteArray) : Discovery :=
  if s.alive then
    match s.collector.handleFrames lib true frames with
    | .ok (collector, _) => { s with collector }
    | .error _ => { s with collector := s.collector.afterRaise lib frames, alive := false }
  else s

/-- A scan begins when the last one is through. -/
def openFile (s : Discovery) (rewriting : Bool) : Discovery :=
  if s.pending = [] then
    { s with pending := if rewriting then [] else fgetsLines 127 s.collector.targetFile }
  else s

def nextLine (s : Discovery) (isDescendantOrSelf : ℤ → Bool) : Discovery :=
  match s.pending with
  | [] => s
  | line :: pending =>
    let scan : TargetScan := { monitor := s.monitor }
    { s with monitor := (scan.scanLine rootPid isDescendantOrSelf line).monitor, pending }

def step (s : Discovery) : DiscoveryStep → Discovery
  | .message frames => s.message lib frames
  | .openFile rewriting => s.openFile rewriting
  | .nextLine isDescendantOrSelf => s.nextLine rootPid isDescendantOrSelf
  -- the tracepoints run in the kernel between any two steps of the process
  | .schedWakeup pid now => { s with monitor := s.monitor.handleSchedWakeup pid now }
  | .schedWakeupNew pid now => { s with monitor := s.monitor.handleSchedWakeupNew pid now }
  | .schedSwitch prevPid prevState nextPid now reserved =>
    { s with
      monitor := s.monitor.handleSchedSwitch prevPid prevState nextPid now reserved }

/-- The parties after any number of steps, in any order. -/
def run (steps : List DiscoveryStep) : Discovery := steps.foldl (step lib rootPid) {}

end Discovery

end DeLatency
