import DeLatency.Converter.Breakdown
import DeLatency.Converter.Coroutine
import DeLatency.Converter.Cupti
import DeLatency.Converter.OsDelay

/-!
# The slices of a trace and its origin

`process_logs` moves all times so that the trace starts near zero: the origin is the
smallest of the time stamps that `infer_trace_origin_ns` looks at.  What is drawn before
the origin all the same is cut off at the end, by `clip_negative_complete_events`.

The slices here are those on the wall clock.  Their tracks, arguments and colours are left
out, and so are the intervals of the OS scheduler, which come from another clock.
-/

namespace DeLatency

/-! ## Origin -/

/-- The time stamps that `infer_trace_origin_ns` looks at.  An event without a time stamp of
    its own has its `ts` looked at instead. -/
def originCandidates (log : Log) : List (Option ℤ) :=
  let schedCandidates (ev : OutputSchedEvent) :=
    [ev.timestampNs <|> ev.runTsNs, ev.readyTsNs, ev.runTsNs]
  let execCandidates (ev : OutputExecEvent) :=
    [ev.timestampNs <|> ev.endNs, ev.startNs, ev.endNs]
  log.workerEvents.flatMap (fun ev => [ev.timestampNs <|> ev.ts, ev.startNs, ev.endNs]) ++
    log.schedulerEvents.map (·.timestampNs) ++
    log.coroutineEvents.map (·.timestampNs) ++
    log.coroutineExecEvents.flatMap
      (fun ev => [ev.timestampNs <|> ev.endNs, ev.startNs, ev.endNs]) ++
    (log.outputSchedEvents .socket).flatMap schedCandidates ++
    (log.outputExecEvents .socket).flatMap execCandidates ++
    (log.outputSchedEvents .handler).flatMap schedCandidates ++
    (log.outputExecEvents .handler).flatMap execCandidates ++
    log.reqStageEvents.flatMap (fun ev => [ev.timestampNs, ev.startNs, ev.endNs]) ++
    log.enginecoreLoopEvents.flatMap
      (fun ev => [ev.timestampNs <|> ev.endNs, ev.startNs, ev.endNs]) ++
    log.ppCommEvents.flatMap (fun ev => [ev.ts, ev.startNs, ev.endNs]) ++
    -- the calls, but not the kernels, copies and fills
    (cuptiRecords log.cuptiMessages).cuptiEvents.flatMap (fun ev => [ev.startNs, ev.endNs])

/-- `_update`. -/
def updateMinNs (minNs candidate : Option ℤ) : Option ℤ :=
  match candidate.bind toNsInt with
  | none => minNs
  | some ns => match minNs with
    | none => some ns
    | some m => if ns < m then some ns else some m

/-- `infer_trace_origin_ns`. -/
def inferTraceOriginNs (log : Log) : ℤ :=
  ((originCandidates log).foldl updateMinNs none).getD 0

/-! ## Slices -/

/-- A complete event without its track, arguments and colour. -/
structure Slice where
  name : String
  cat : String
  tsNs : ℤ
  durNs : ℤ
deriving DecidableEq

def Slice.between (name cat : String) (startNs endNs : ℤ) : Slice where
  name := name
  cat := cat
  tsNs := startNs
  durNs := endNs - startNs

/-- Most loops draw an interval only when it is not empty. -/
def drawSpan (name cat : String) (startNs endNs : ℤ) : List Slice :=
  if startNs < endNs then [Slice.between name cat startNs endNs] else []

/-! ### Workers -/

/-- `worker_events.sort(key=lambda x: x['ts'])`, which cannot compare a missing time. -/
def sortWorkerEvents (events : List WorkerEvent) : Except PyError (List WorkerEvent) :=
  if 2 ≤ events.length ∧ ∃ ev ∈ events, ev.ts = none then .error .typeError
  else .ok (events.sortBy fun ev => ev.ts.getD 0)

/-- The name and category of `describe_gpu_phase`. -/
def describeGpuPhase (phaseName : String) : String × String :=
  let styles := [
    ("Preprocess", "Worker Preprocess"),
    ("Forward", "Model Forward"),
    ("Postprocess", "Postprocess"),
    ("Sample", "Sampling"),
    ("Bookkeep", "Bookkeeping/Sync"),
    ("Draft", "Draft"),
    ("EPLB", "EPLB")]
  -- a phase outside the table is drawn under its own name
  ((styles.lookup phaseName).getD ("GPU Phase: " ++ phaseName), "python")

/-- What one turn of the worker loop draws. -/
def workerSlice (hasPrecisePhaseSpans : Bool) (w : WorkerIntervals) (ev : WorkerEvent) :
    Option Slice :=
  let state := w.workerStates.get? (ev.pid, ev.tid)
  match ev.type with
  | .gpuExecuteModel => span "Step Execution" "worker"
  | .gpuPhaseSpan =>
    match ev.phase.filter (· ≠ "") with
    | some phaseName => span (describeGpuPhase phaseName).1 (describeGpuPhase phaseName).2
    | none => none
  -- only remembered; the forward pass draws it
  | .workerPreprocessStart => none
  -- the older form: drawn from the remembered start when no precise span will come
  | .gpuForwardStart =>
    match (state.bind (·.tPreStart)).filter fun _ => !hasPrecisePhaseSpans, ev.ts with
    | some t1, some ts =>
      some { name := "Worker Preprocess", cat := "python", tsNs := t1,
             durNs := max 0 (ts - t1 - 1000) }
    | _, _ => none
  | .gpuForwardEnd =>
    match (state.bind (·.tFwdStart)).filter fun _ => !hasPrecisePhaseSpans, ev.ts with
    | some t2, some ts =>
      some { name := "Model Forward", cat := "python", tsNs := t2, durNs := max 0 (ts - t2) }
    | _, _ => none
  | .gpuSample => if hasPrecisePhaseSpans then none else span "Sampling" "python"
  | .gpuBookkeeping => if hasPrecisePhaseSpans then none else span "Bookkeeping/Sync" "python"
where
  span (name cat : String) : Option Slice :=
    match ev.startNs, ev.endNs with
    | some tStart, some tEnd => some (Slice.between name cat tStart tEnd)
    | _, _ => none

/-- One turn of the worker loop, with what it draws. -/
def workerTurn (hasPrecisePhaseSpans : Bool) (st : WorkerIntervals × List Slice)
    (ev : WorkerEvent) : WorkerIntervals × List Slice :=
  (workerEvent hasPrecisePhaseSpans st.1 ev,
    st.2 ++ (workerSlice hasPrecisePhaseSpans st.1 ev).toList)

/-- The slices of the worker loop, on the sorted events. -/
def workerSlices (events : List WorkerEvent) : List Slice :=
  let hasPrecisePhaseSpans := events.any fun ev => ev.type = .gpuPhaseSpan
  (events.foldl (workerTurn hasPrecisePhaseSpans) ({}, [])).2

/-- `generated_dispatch_slices`. -/
def generatedDispatchSlices (events : List WorkerEvent) : List DispatchSlice :=
  events.filterMap fun ev => match ev.type, ev.startNs, ev.endNs with
    | .gpuExecuteModel, some tStart, some tEnd => some {
        pid := ev.pid
        start := tStart
        endNs := tEnd
        reqIds := ev.reqIds
        dispatchKey := ev.dispatchKey
        ranks := ev.ranks }
    | _, _, _ => none

/-! ### Communication, engine core and CUPTI -/

def ppCommSlices (dispatchSlices : List DispatchSlice) (events : List PpCommEvent) : List Slice :=
  (ppCommSpans dispatchSlices events).map fun span =>
    Slice.between ("PP Comm: " ++ span.source.op) "pp_comm" span.startNs span.endNs

def enginecoreLoopSlices (events : List EnginecoreLoopEvent) : List Slice :=
  (events.sortBy fun ev => (ev.timestampNs <|> ev.endNs).getD 0).filterMap fun ev =>
    (validSpan ev.startNs ev.endNs).map fun span =>
      Slice.between (if ev.phase = "_process_input_queue" then "EngineCore: Input Queue Phase"
        else "EngineCore: Engine Step Phase") "enginecore_loop" span.1 span.2

/-- The complete events of the CUPTI part. -/
def TraceEvent.slice : TraceEvent → Option Slice
  | .complete ev => some { name := ev.name, cat := ev.cat, tsNs := ev.tsNs, durNs := ev.durNs }
  | _ => none

/-! ### Requests -/

/-- `all_req_ids`: the requests that have lanes of their own. -/
def allReqIds (log : Log) : List String :=
  let coro := coroutineLifecycle log.coroutineEvents
  let scheduled := log.schedulerEvents.flatMap (·.reqIds)
  let executed := log.workerEvents.flatMap fun ev => normalizeRequestIds ev.reqIds
  (coro.requestSpans.keys ++
    coro.coroSched.ns.keys ++
    coro.generateTaskSched.ns.keys ++
    generateExecKeys log.coroutineExecEvents ++
    (outputSched (log.outputSchedEvents .socket)).ns.keys ++
    (outputExec (log.outputExecEvents .socket)).ns.keys ++
    (outputSched (log.outputSchedEvents .handler)).ns.keys ++
    (outputExec (log.outputExecEvents .handler)).ns.keys ++
    -- a request counts once it has a wait, a dispatch or an execution
    scheduled.filter (fun rid => ¬(queueIntervals log rid).isEmpty) ++
    (reqLatencyMap log).keys ++
    reqStageKeys log.reqStageEvents ++
    scheduled.filter (fun rid => ¬(reqDispatchIntervals log rid).isEmpty) ++
    executed.filter (fun rid =>
      ¬((collectWorkerIntervals log.workerEvents).stepExecution rid).isEmpty)).dedup

/-- The name and category of a dispatch. -/
def describeDispatch : Phase → String × String
  | .prefill => ("Prefill Dispatch", "request_dispatch_prefill")
  | .decode => ("Decode Dispatch", "request_dispatch_decode")
  | .unknown => ("Unknown Dispatch", "request_dispatch_unknown")

/-- The name and category of a queue wait. -/
def describeQueue (q : QueueInterval) : String × String :=
  match q.gapKind, q.scheduledFrom with
  | .preemptWait, _ => ("vLLM Preempt Wait (explicit preempt)", "request_queue_preempt")
  | .normalWait, .enqueue =>
    ("vLLM Queue Wait (scheduled-enqueue)", "request_queue_scheduled_enqueue")
  | .normalWait, .stepReady =>
    ("vLLM Scheduling Wait (step_ready->out_rpc)", "request_queue_scheduled_step_ready")

def lifecycleName (rid : String) : String :=
  "Req " ++ String.ofList (rid.toList.take 8) ++ " Lifecycle"

/-- The intervals of one request in one of the maps. -/
def ReqSpans.slices (spans : ReqSpans) (rid name cat : String) : List Slice :=
  (spans.intervals.getD rid []).flatMap fun span => drawSpan name cat span.1 span.2

/-- The lanes of one request. -/
def requestSlices (log : Log) (rid : String) : List Slice :=
  let coro := coroutineLifecycle log.coroutineEvents
  let lifecycle := coro.requestSpans.get? rid
  lifecycle.toList.flatMap (fun span =>
      drawSpan (lifecycleName rid) "request_lifecycle" span.1 span.2) ++
    (reqDispatchIntervals log rid).flatMap (fun d =>
      drawSpan (describeDispatch d.phase).1 (describeDispatch d.phase).2 d.startNs d.endNs) ++
    (requestInputs log rid).requestPpGapIntervals.flatMap (fun gap =>
      drawSpan "PP Gap" "request_pp_gap" gap.startNs gap.endNs) ++
    coro.coroSched.slices rid "Coroutine Scheduler Queue Wait" "request_coro_sched_queue" ++
    coro.generateTaskSched.slices rid "Generate Task Runnable Queue"
      "request_generate_task_queue" ++
    (reqGenerateExec log.coroutineExecEvents rid).flatMap (fun gx =>
      drawSpan "Generate Coroutine Exec" "request_generate_exec" gx.startNs gx.endNs) ++
    (outputSched (log.outputSchedEvents .socket)).slices rid "Output Socket Scheduler Queue Wait"
      "request_output_socket_sched_queue" ++
    (outputExec (log.outputExecEvents .socket)).slices rid "Output Socket Exec (Attributed)"
      "request_output_socket_exec" ++
    (outputSched (log.outputSchedEvents .handler)).slices rid "Output Handler Scheduler Queue Wait"
      "request_output_handler_sched_queue" ++
    (outputExec (log.outputExecEvents .handler)).slices rid "Output Handler Exec (Attributed)"
      "request_output_handler_exec" ++
    (queueIntervals log rid).flatMap (fun q =>
      drawSpan (describeQueue q).1 (describeQueue q).2 q.startNs q.endNs) ++
    -- of the stages, only the wait in the input queue is drawn
    ((reqStageIntervals log.reqStageEvents rid).filter
      (·.stage = "engine_core.input_queue_wait_after_preprocess")).map fun s =>
        Slice.between "EngineCore Input Queue Wait" "request_engine_core_input_queue"
          s.startNs s.endNs

/-- The slices that `process_logs` draws from times on the wall clock. -/
def wallSlices (log : Log) : Except PyError (List Slice) := do
  -- the sort and the device records are the two that may raise
  let workerEvents ← sortWorkerEvents log.workerEvents
  let dispatchSlices := generatedDispatchSlices workerEvents
  let cupti ← processCupti dispatchSlices log.cuptiMessages
  return workerSlices workerEvents ++
    ppCommSlices dispatchSlices log.ppCommEvents ++
    enginecoreLoopSlices log.enginecoreLoopEvents ++
    cupti.events.filterMap TraceEvent.slice ++
    (allReqIds log).flatMap (requestSlices log)

/-! ## Clipping -/

/-- The events that are kept, and the counts of the others. -/
structure ClipResult where
  kept : List Slice := []
  clipped : ℕ := 0
  dropped : ℕ := 0
deriving DecidableEq

/-- One turn of `clip_negative_complete_events`. -/
def ClipResult.add (originNs : ℤ) (r : ClipResult) (ev : Slice) : ClipResult :=
  let ts := ev.tsNs - originNs
  if 0 ≤ ts then { r with kept := r.kept ++ [ev] }
  else
    let endTs := ts + ev.durNs
    -- ended before the origin
    if endTs ≤ 0 then { r with dropped := r.dropped + 1 }
    else
      { r with
        -- runs across the origin: only the part after it stays
        kept := r.kept ++ [{ ev with tsNs := originNs, durNs := endTs }]
        clipped := r.clipped + 1 }

/-- `clip_negative_complete_events`. -/
def clipNegativeCompleteEvents (originNs : ℤ) (traceEvents : List Slice) : ClipResult :=
  traceEvents.foldl (ClipResult.add originNs) {}

end DeLatency
