import DeLatency.Converter.LogFile
import DeLatency.ForStd.SortBy

/-!
# The worker pids in the target file

`trace_ctl` reads the target file for the processes in it and passes over the lines with
threads.
-/

namespace DeLatency

/-- One turn of the loop of `read_worker_pids`. -/
def workerPidOfLine (raw : List Char) : Option ℤ :=
  let line := strip (String.ofList raw)
  if line = "" ∨ "tid:".toList.isPrefixOf line.toList then none
  else (parseInt line).filter (0 < ·)

/-- `read_worker_pids`; `none` is a missing file. -/
def readWorkerPids : Option (List Char) → List ℤ
  | none => []
  | some text => ((text.splitOnP isNewline).filterMap workerPidOfLine).dedup.sortBy id

end DeLatency
