import DeLatency.Converter.Clocks
import DeLatency.Converter.Flows

/-!
# Tracks

Each trace event has a process id.  The events of the workers keep the ids of their
processes; the GPUs, the engine core, the event loops and the requests get ids that
`process_logs` makes up, and names for them.

The events are listed as they are drawn, before `clip_negative_complete_events`, which
drops some of them and changes no id.
-/

namespace DeLatency

def enginecorePid : ℤ := 12000

def eventloopOsPid : ℤ := 12000

def requestPid : ℤ := 11000

/-- A trace event that is no metadata: a complete event in its process, or an end of an
    arrow. -/
inductive TrackEvent
  | slice (pid : Option ℤ) (slice : Slice)
  | flow (ev : FlowEvent)

def TrackEvent.pid : TrackEvent → Option ℤ
  | .slice pid _ => pid
  | .flow ev => ev.pid

/-! ## Processes -/

/-- One turn of the worker loop, with what it draws in which process. -/
def workerTrackTurn (hasPrecisePhaseSpans : Bool) (st : WorkerIntervals × List TrackEvent)
    (ev : WorkerEvent) : WorkerIntervals × List TrackEvent :=
  (workerEvent hasPrecisePhaseSpans st.1 ev,
    st.2 ++ (workerSlice hasPrecisePhaseSpans st.1 ev).toList.map (.slice ev.pid))

/-- The events of the worker loop, on the sorted events. -/
def workerTrack (events : List WorkerEvent) : List TrackEvent :=
  let hasPrecisePhaseSpans := events.any fun ev => ev.type = .gpuPhaseSpan
  (events.foldl (workerTrackTurn hasPrecisePhaseSpans) ({}, [])).2

/-- The transfers and their arrows. -/
def ppCommTrack (dispatchSlices : List DispatchSlice) (events : List PpCommEvent) :
    List TrackEvent :=
  (ppCommSpans dispatchSlices events).map (fun span =>
    .slice span.source.pid
      (Slice.between ("PP Comm: " ++ span.source.op) "pp_comm" span.startNs span.endNs)) ++
    ((ppCommArrows dispatchSlices events).flatMap FlowArrow.flowEvents).map .flow

/-- The event, unless it is metadata. -/
def TraceEvent.track : TraceEvent → Option TrackEvent
  | .complete ev => some (.slice ev.pid
      { name := ev.name, cat := ev.cat, tsNs := ev.tsNs, durNs := ev.durNs })
  | .flow ev => some (.flow ev)
  | _ => none

def TraceEvent.processName? : TraceEvent → Option NameEvent
  | .processName ev => some ev
  | _ => none

/-! ## Engine core and event loops -/

def enginecoreTrack (log : Log) : List TrackEvent :=
  (enginecoreLoopSlices log.enginecoreLoopEvents).map (.slice (some enginecorePid))

def enginecoreName (log : Log) : List NameEvent :=
  if log.enginecoreLoopEvents ≠ [] then
    [{ pid := enginecorePid, name := "EngineCore Main Loop" }]
  else []

/-- The wait of an event loop on the wall clock, cut off at the origin. -/
def eventloopOsSlice (originNs offset : ℤ) (osEv : OsWait) : Option Slice :=
  let startWall := osEv.startNs + offset
  let endWall := osEv.endNs + offset
  if endWall ≤ originNs then none
  else
    let startWall := if startWall < originNs then originNs else startWall
    if endWall ≤ startWall then none
    else some (Slice.between "OS Runnable Wait" "eventloop_os" startWall endWall)

/-- The waits of the event loops.  A thread without an offset is skipped. -/
def eventloopOsSlices (log : Log) : List Slice :=
  ((eventloopThreadTids log).sortBy id).flatMap fun tid =>
    match monoToWallOffset log tid with
    | some offset => (ebpfWaits log.ebpfSchedLatencyEvents tid).filterMap
        (eventloopOsSlice (inferTraceOriginNs log) offset)
    | none => []

def eventloopOsTrack (log : Log) : List TrackEvent :=
  (eventloopOsSlices log).map (.slice (some eventloopOsPid))

def eventloopOsName (log : Log) : List NameEvent :=
  if eventloopThreadTids log ≠ [] then
    [{ pid := eventloopOsPid, name := "EventLoop OS Scheduling" }]
  else []

/-! ## Requests -/

/-- The OS waits of a request on the wall clock. -/
def requestOsSlices (log : Log) (rid : String) : List Slice :=
  match globalMonoToWallOffset log with
  | some offset => ((reqOsOverlapIntervals log).getD rid []).flatMap fun it =>
      drawSpan "OS Sched Delay (Attributed)" "request_os" (it.startMonoNs + offset)
        (it.endMonoNs + offset)
  | none => []

def requestTrack (log : Log) : List TrackEvent :=
  (allReqIds log).flatMap fun rid =>
    (requestSlices log rid ++ requestOsSlices log rid).map (.slice (some requestPid))

def requestName : NameEvent where
  pid := requestPid
  name := "Request Interference"

/-! ## The trace -/

/-- The events of a trace that are no metadata, and its `process_name` events. -/
structure DrawnTracks where
  events : List TrackEvent
  processNames : List NameEvent

def traceTracks (log : Log) : Except PyError DrawnTracks := do
  let workerEvents ← sortWorkerEvents log.workerEvents
  let dispatchSlices := generatedDispatchSlices workerEvents
  let cupti ← processCupti dispatchSlices log.cuptiMessages
  return {
    -- in the order in which the converter appends them
    events := workerTrack workerEvents ++ ppCommTrack dispatchSlices log.ppCommEvents ++
      enginecoreTrack log ++ cupti.events.filterMap TraceEvent.track ++ eventloopOsTrack log ++
      requestTrack log
    processNames := enginecoreName log ++ cupti.events.filterMap TraceEvent.processName? ++
      eventloopOsName log ++ [requestName] }

end DeLatency
