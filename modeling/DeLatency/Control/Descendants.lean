import DeLatency.Control.WorkerPids
import DeLatency.ForStd.FirstSeen
import DeLatency.ForStd.Worklist
import DeLatency.Monitor.ProcessTree

/-!
# The process tree as `trace_ctl` sees it

`trace_ctl` reads all of `/proc` and collects the descendants of the root process with a
stack.  Together with the root process and the worker pids they are the processes whose
control sockets it talks to.
-/

namespace DeLatency

/-- `line.split()`. -/
def splitFields (line : List Char) : List (List Char) :=
  (line.splitOnP isSpace).filter (· ≠ [])

/-- `int(line.split()[1])`. -/
def ppidField (line : List Char) : Option ℤ :=
  (splitFields line)[1]?.bind fun field => parseInt (String.ofList field)

/-- `line.startswith("PPid:")`. -/
def startsPpid (line : List Char) : Bool := "PPid:".toList.isPrefixOf line

/-- What `read_ppid` finds in a status: the field after the first `PPid:`.  The file is opened
    as UTF-8, so that other bytes raise, and a carriage return ends a line, too. -/
def ppidOfStatus (text : List Char) : Option ℤ :=
  (decodeUtf8 (CText.toBytes text)).bind fun text =>
    ((text.splitOnP isNewline).find? startsPpid).bind ppidField

namespace TraceCtl

/-- `read_ppid` of `trace_ctl`. -/
def readPpid (table : ProcTable) (pid : ℤ) : Option ℤ :=
  (table.procs.get? pid).bind fun status => ppidOfStatus status.text

/-- `ppid_map`: the children of each process. -/
def ppidMap (table : ProcTable) : Dict ℤ (List ℤ) :=
  Dict.empty.pushAll (table.procs.keys.filterMap fun pid =>
    (readPpid table pid).map fun ppid => (ppid, pid))

def children (table : ProcTable) (pid : ℤ) : List ℤ := (ppidMap table).getD pid []

/-- `descendant_pids`, whose stack has its top at the end.  Without fuel there is no answer. -/
def descendantPids (table : ProcTable) (fuel : ℕ) (rootPid : ℤ) : Option (List ℤ) :=
  if rootPid ≤ 0 then some []
  else
    (Worklist.closure (children table) fuel (children table rootPid).reverse []).map
      (List.sortBy id)

/-- `unique_pids`. -/
def uniquePids (groups : List (List ℤ)) : List ℤ :=
  (groups.flatten.filter fun pid => 0 < pid).foldl (List.pushNew id) []

/-- `monkeypatch_targets` and `cupti_targets`: `targetPid` is the entry of the state, and the
    text that of the worker pid file. -/
def monkeypatchTargets (table : ProcTable) (fuel : ℕ) (targetPid : ℤ)
    (workerPidFile : Option (List Char)) : Option (List ℤ) :=
  (descendantPids table fuel targetPid).map fun descendants =>
    uniquePids [[targetPid], descendants, readWorkerPids workerPidFile]

end TraceCtl

end DeLatency
