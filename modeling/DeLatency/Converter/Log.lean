import DeLatency.Converter.Value
import DeLatency.Tracer.Record

/-!
# The log and its event families

`process_logs` first sorts the log lines into one list per event family.  A
`LogEntry` is one line: the sender's `timestamp_ns` and a decoded event.  Each
family below has a record with the payload fields that its stage reads, and an
accessor `Log.xxxEvents` that selects the family in log order, normalises the
request fields (`normalize_payload_request_fields`) and fills in a missing
`timestamp_ns`.

A field that is absent or null is `none`.  Wall and monotonic times are the
integers the emitters write; engine-core events carry raw values, since the
engine reports them as floats.
-/

namespace DeLatency

/-- A rank as it stands in the `ranks` dictionary of a payload. -/
inductive Rank
  | int (n : ℤ)
  | str (s : String)
  | null
deriving DecidableEq

/-- `to_int` of a rank. -/
def Rank.toInt : Rank → Option ℤ
  | .int n => some n
  | .str s => parseInt s
  | .null => none

/-- A rank inside an f-string. -/
def Rank.text : Rank → String
  | .int n => toString n
  | .str s => s
  | .null => "None"

/-- The `ranks` dictionary of a worker payload; `none` is a missing key. -/
structure Ranks where
  dp : Option Rank := none
  pp : Option Rank := none
  tp : Option Rank := none
deriving DecidableEq

/-- `ranks.get(name, "unknown")`. -/
def rankOrUnknown (r : Option Rank) : Rank := r.getD (.str "unknown")

/-- `rid = payload.get("request_id") or payload.get("req_id")`, both normalised. -/
def requestIdOf (requestId reqId : Option String) : Option String :=
  requestId.bind normalizeRequestId <|> reqId.bind normalizeRequestId

/-- The phase of one dispatch. -/
inductive Phase
  | prefill
  | decode
  | unknown
deriving DecidableEq

/-- A phase text the converter accepts: `phase in ("prefill", "decode")`. -/
def explicitPhase : Option String → Option Phase
  | some "prefill" => some .prefill
  | some "decode" => some .decode
  | _ => none

/-! ## Event records -/

inductive SchedulerEventType
  | reqEnqueueScheduler
  | reqSchedulerOutRpc
  | reqStepReady
deriving DecidableEq

/-- `req_enqueue_scheduler`, `req_scheduler_out_rpc` and `req_step_ready`. -/
structure SchedulerEvent where
  type : SchedulerEventType
  timestampNs : Option ℤ := none
  reqId : Option String := none
  reqIds : List String := []
  dispatchKey : Option String := none
  phaseByReq : List (String × String) := []
deriving DecidableEq

/-- One engine-core event of a `req_metrics_events` update. -/
structure EngineEvent where
  type : Option String := none
  ts : PyValue := .null
  timestampNs : PyValue := .null
  phase : Option String := none

/-- The events of one request in one `req_metrics_events` message. -/
structure MetricsUpdate where
  reqId : Option String := none
  events : List EngineEvent := []

/-- `req_metrics_events`. -/
structure ReqMetricEvent where
  reqEvents : List MetricsUpdate := []
  batchTsNs : Option ℤ := none

inductive CoroutineEventType
  | coroutineStart
  | coroutineEnd
  | coroutineSchedLatency
deriving DecidableEq

/-- `coroutine_start`, `coroutine_end` and `coroutine_sched_latency`.  `duration_ms` is a
    float, kept as its mantissa and exponent. -/
structure CoroutineEvent where
  type : CoroutineEventType
  timestampNs : Option ℤ := none
  requestId : Option String := none
  reqId : Option String := none
  coroutineId : Option ℤ := none
  durationMs : Option (ℤ × ℤ) := none
  readyTsNs : Option ℤ := none
  runTsNs : Option ℤ := none
  queueNs : Option ℤ := none
  taskKind : Option String := none

/-- `coroutine_exec_slice`. -/
structure CoroutineExecEvent where
  requestId : Option String := none
  reqId : Option String := none
  startNs : Option ℤ := none
  endNs : Option ℤ := none
  durationNs : Option ℤ := none
  taskKind : Option String := none
  timestampNs : Option ℤ := none

/-- The two stages of the output side. -/
inductive OutputStage
  | socket
  | handler
deriving DecidableEq

/-- `output_socket_sched_latency` and `output_handler_sched_latency`. -/
structure OutputSchedEvent where
  reqIds : List String := []
  readyTsNs : Option ℤ := none
  runTsNs : Option ℤ := none
  queueNs : Option ℤ := none
  timestampNs : Option ℤ := none

/-- `output_socket_exec_slice` and `output_handler_exec_slice`. -/
structure OutputExecEvent where
  reqIds : List String := []
  startNs : Option ℤ := none
  endNs : Option ℤ := none
  durationNs : Option ℤ := none
  timestampNs : Option ℤ := none

/-- `enginecore_mainloop_span`. -/
structure EnginecoreLoopEvent where
  phase : String := "unknown"
  startNs : Option ℤ := none
  endNs : Option ℤ := none
  timestampNs : Option ℤ := none

/-- `req_generate_stage`. -/
structure ReqStageEvent where
  requestId : Option String := none
  reqId : Option String := none
  stage : Option String := none
  startNs : Option ℤ := none
  endNs : Option ℤ := none
  durationNs : Option ℤ := none
  timestampNs : Option ℤ := none

inductive WorkerEventType
  | workerPreprocessStart
  | gpuForwardStart
  | gpuForwardEnd
  | gpuSample
  | gpuBookkeeping
  | gpuExecuteModel
  | gpuPhaseSpan
deriving DecidableEq

/-- The worker-side events on the wall clock. -/
structure WorkerEvent where
  type : WorkerEventType
  timestampNs : Option ℤ := none
  startNs : Option ℤ := none
  endNs : Option ℤ := none
  pid : Option ℤ := none
  tid : Option ℤ := none
  phase : Option String := none
  reqIds : List String := []
  dispatchKey : Option String := none
  ranks : Ranks := {}

/-- `worker_model_execute_span`, on the monotonic clock. -/
structure ExecuteModelSpan where
  tid : Option ℤ := none
  startNs : Option ℤ := none
  endNs : Option ℤ := none
  reqIds : List String := []
  ranks : Ranks := {}

/-- The eBPF monitor's `sched_latency`, on the monotonic clock. -/
structure SchedLatencyEvent where
  tid : Option ℤ := none
  startNs : Option ℤ := none
  endNs : Option ℤ := none
  reason : Option String := none

/-- `pp_comm_span`: a send or a receive of a pipeline stage. -/
structure PpCommEvent where
  op : String := "pp_comm"
  pid : Option ℤ := none
  tid : Option ℤ := none
  dispatchKey : Option String := none
  reqIds : List String := []
  ranks : Ranks := {}
  peerRank : Option ℤ := none
  startNs : Option ℤ := none
  endNs : Option ℤ := none
  timestampNs : Option ℤ := none
deriving DecidableEq

/-- `thread_role`: one thread announces its role with both clocks. -/
structure ThreadRoleEvent where
  pid : Option ℤ := none
  tid : Option ℤ := none
  role : Option String := none
  timestampNs : Option ℤ := none
  monoTimestampNs : Option ℤ := none

/-! ## The log -/

inductive LogEvent
  | scheduler (ev : SchedulerEvent)
  | reqMetrics (reqEvents : List MetricsUpdate)
  | coroutine (ev : CoroutineEvent)
  | coroutineExec (ev : CoroutineExecEvent)
  | outputSched (stage : OutputStage) (ev : OutputSchedEvent)
  | outputExec (stage : OutputStage) (ev : OutputExecEvent)
  | enginecoreLoop (ev : EnginecoreLoopEvent)
  | reqStage (ev : ReqStageEvent)
  | worker (ev : WorkerEvent)
  | executeModelSpan (ev : ExecuteModelSpan)
  | schedLatency (ev : SchedLatencyEvent)
  | threadRole (ev : ThreadRoleEvent)
  | ppComm (ev : PpCommEvent)
  | cupti (message : CuptiMessage)

/-- One log line: the sender's time stamp and the event. -/
structure LogEntry where
  timestampNs : Option ℤ := none
  event : LogEvent

abbrev Log := List LogEntry

/-- `if 'timestamp_ns' not in payload and ts: payload['timestamp_ns'] = ts`. -/
def fillTimestamp (payloadTs entryTs : Option ℤ) : Option ℤ :=
  payloadTs <|> entryTs.filter (· ≠ 0)

namespace Log

def schedulerEvents (log : Log) : List SchedulerEvent :=
  log.filterMap fun entry => match entry.event with
    | .scheduler ev => some { ev with
        timestampNs := fillTimestamp ev.timestampNs entry.timestampNs
        reqId := ev.reqId.bind normalizeRequestId
        reqIds := normalizeRequestIds ev.reqIds }
    | _ => none

def reqMetricEvents (log : Log) : List ReqMetricEvent :=
  log.filterMap fun entry => match entry.event with
    | .reqMetrics reqEvents => some {
        reqEvents := reqEvents.map fun update =>
          { update with reqId := update.reqId.bind normalizeRequestId }
        batchTsNs := entry.timestampNs }
    | _ => none

def coroutineEvents (log : Log) : List CoroutineEvent :=
  log.filterMap fun entry => match entry.event with
    | .coroutine ev => some { ev with
        timestampNs := fillTimestamp ev.timestampNs entry.timestampNs }
    | _ => none

def coroutineExecEvents (log : Log) : List CoroutineExecEvent :=
  log.filterMap fun entry => match entry.event with
    | .coroutineExec ev => some { ev with
        timestampNs := fillTimestamp ev.timestampNs entry.timestampNs }
    | _ => none

def outputSchedEvents (log : Log) (stage : OutputStage) : List OutputSchedEvent :=
  log.filterMap fun entry => match entry.event with
    | .outputSched s ev => if s = stage then some { ev with
        timestampNs := fillTimestamp ev.timestampNs entry.timestampNs
        reqIds := normalizeRequestIds ev.reqIds } else none
    | _ => none

def outputExecEvents (log : Log) (stage : OutputStage) : List OutputExecEvent :=
  log.filterMap fun entry => match entry.event with
    | .outputExec s ev => if s = stage then some { ev with
        timestampNs := fillTimestamp ev.timestampNs entry.timestampNs
        reqIds := normalizeRequestIds ev.reqIds } else none
    | _ => none

def enginecoreLoopEvents (log : Log) : List EnginecoreLoopEvent :=
  log.filterMap fun entry => match entry.event with
    | .enginecoreLoop ev => some { ev with
        timestampNs := fillTimestamp ev.timestampNs entry.timestampNs }
    | _ => none

def reqStageEvents (log : Log) : List ReqStageEvent :=
  log.filterMap fun entry => match entry.event with
    | .reqStage ev => some { ev with
        timestampNs := fillTimestamp ev.timestampNs entry.timestampNs }
    | _ => none

def workerEvents (log : Log) : List WorkerEvent :=
  log.filterMap fun entry => match entry.event with
    | .worker ev => some { ev with
        timestampNs := fillTimestamp ev.timestampNs entry.timestampNs
        reqIds := normalizeRequestIds ev.reqIds }
    | _ => none

def executeModelSpans (log : Log) : List ExecuteModelSpan :=
  log.filterMap fun entry => match entry.event with
    | .executeModelSpan ev => some { ev with reqIds := normalizeRequestIds ev.reqIds }
    | _ => none

def ebpfSchedLatencyEvents (log : Log) : List SchedLatencyEvent :=
  log.filterMap fun entry => match entry.event with
    | .schedLatency ev => some ev
    | _ => none

def ppCommEvents (log : Log) : List PpCommEvent :=
  log.filterMap fun entry => match entry.event with
    | .ppComm ev => some { ev with
        timestampNs := fillTimestamp ev.timestampNs entry.timestampNs
        reqIds := normalizeRequestIds ev.reqIds }
    | _ => none

def cuptiMessages (log : Log) : List CuptiMessage :=
  log.filterMap fun entry => match entry.event with
    | .cupti message => some message
    | _ => none

end Log

end DeLatency
