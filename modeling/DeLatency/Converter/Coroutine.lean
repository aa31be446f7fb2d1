import DeLatency.Converter.Lifecycle
import DeLatency.ForStd.Dict

/-!
# Coroutines and the output side

The loop over the coroutine events pairs starts and ends by the coroutine's id and keeps
one span for each request.  An end whose start is not in the log counts back from its own
duration.  The same loop, and those over the output events, collect how long each request
waited and ran, with the intervals that are drawn.
-/

namespace DeLatency

/-- A pair of maps such as `req_coro_sched_ns` and `req_coro_sched_intervals`. -/
structure ReqSpans where
  ns : Dict String ℤ := Dict.empty
  intervals : Dict String (List (ℤ × ℤ)) := Dict.empty

/-- The duration of one event, when it is there and not negative. -/
def ReqSpans.noteNs (spans : ReqSpans) (rid : String) (durNs : Option ℤ) : ReqSpans :=
  match durNs with
  | some durNs => if 0 ≤ durNs then { spans with ns := spans.ns.add rid durNs } else spans
  | none => spans

/-- The interval of one event, when both ends are there and not zero. -/
def ReqSpans.noteInterval (spans : ReqSpans) (rid : String) (startNs endNs : Option ℤ) :
    ReqSpans :=
  match truthyInt startNs, truthyInt endNs with
  | some startNs, some endNs =>
    if startNs < endNs then
      { spans with intervals := spans.intervals.push rid (startNs, endNs) }
    else spans
  | _, _ => spans

/-- What one event adds under a request. -/
def ReqSpans.note (spans : ReqSpans) (rid : String) (durNs startNs endNs : Option ℤ) : ReqSpans :=
  (spans.noteNs rid durNs).noteInterval rid startNs endNs

/-! ## Coroutines -/

/-- The maps of the coroutine loop. -/
structure CoroutineState where
  activeCoroutines : Dict ℤ ℤ := Dict.empty
  requestSpans : Dict String (ℤ × ℤ) := Dict.empty
  coroSched : ReqSpans := {}
  generateTaskSched : ReqSpans := {}

/-- `int(duration_ms * 1e6)`, which counts only when it is positive. -/
def durationNsOfMs : Option (ℤ × ℤ) → ℤ
  | none => 0
  | some (m, e) => scaledTrunc 2 (roundSig 2 53 (m.toNat * 10 ^ 6)) e

/-- The start of a coroutine that ends at `tsNs`. -/
def coroutineStartNs (active : Option ℤ) (durationMs : Option (ℤ × ℤ)) (tsNs : ℤ) : ℤ :=
  match active with
  | some startNs => startNs
  | none =>
    let durationNs := durationNsOfMs durationMs
    if 0 < durationNs then tsNs - durationNs else tsNs

/-- The span of a request covers all its coroutines. -/
def widenSpan (requestSpans : Dict String (ℤ × ℤ)) (rid : String) (startNs endNs : ℤ) :
    Dict String (ℤ × ℤ) :=
  requestSpans.alter rid (startNs, endNs) fun span => (min span.1 startNs, max span.2 endNs)

/-- One turn of the coroutine loop. -/
def CoroutineState.step (st : CoroutineState) (ev : CoroutineEvent) : CoroutineState :=
  match ev.type, requestIdOf ev.requestId ev.reqId with
  | .coroutineSchedLatency, some rid =>
    -- the generate task's waits are kept apart from those of the other coroutines
    if ev.taskKind = some "generate_task" then
      { st with generateTaskSched :=
        st.generateTaskSched.note rid ev.queueNs ev.readyTsNs ev.runTsNs }
    else
      { st with coroSched := st.coroSched.note rid ev.queueNs ev.readyTsNs ev.runTsNs }
  | .coroutineStart, some _ =>
    match ev.coroutineId, truthyInt ev.timestampNs with
    | some cid, some tsNs =>
      { st with activeCoroutines := st.activeCoroutines.alter cid tsNs fun _ => tsNs }
    | _, _ => st
  | .coroutineEnd, some rid =>
    match truthyInt ev.timestampNs with
    | some tsNs =>
      -- without a noted start the reported duration is taken back from the end
      let startNs :=
        coroutineStartNs (ev.coroutineId.bind st.activeCoroutines.get?) ev.durationMs tsNs
      { st with
        activeCoroutines := match ev.coroutineId with
          | some cid => st.activeCoroutines.erase cid
          | none => st.activeCoroutines
        requestSpans :=
          if startNs < tsNs then widenSpan st.requestSpans rid startNs tsNs
          else st.requestSpans }
    | none => st
  | _, none => st

/-- `coroutine_events`, in the order of the loop. -/
def sortCoroutineEvents (events : List CoroutineEvent) : List CoroutineEvent :=
  events.sortBy fun ev => ev.timestampNs.getD 0

/-- The coroutine loop. -/
def coroutineLifecycle (events : List CoroutineEvent) : CoroutineState :=
  (sortCoroutineEvents events).foldl CoroutineState.step {}

/-- The keys of `req_generate_exec_ns`. -/
def generateExecKeys (events : List CoroutineExecEvent) : List String :=
  events.filterMap fun ev =>
    match eventDuration ev.durationNs ev.startNs ev.endNs with
    | some durNs => if durNs < 0 then none else requestIdOf ev.requestId ev.reqId
    | none => none

/-- The keys of `req_stage_ns`. -/
def reqStageKeys (events : List ReqStageEvent) : List String :=
  events.filterMap fun ev =>
    match ev.stage.filter (· ≠ ""),
        eventDuration ev.durationNs (ev.startNs.bind toNsInt) (ev.endNs.bind toNsInt) with
    | some _, some durNs => if durNs < 0 then none else requestIdOf ev.requestId ev.reqId
    | _, _ => none

/-! ## The output side -/

/-- An output event is attributed to all requests of its round, if it has a duration. -/
def ReqSpans.noteRound (spans : ReqSpans) (reqIds : List String) (durNs startNs endNs : Option ℤ) :
    ReqSpans :=
  match durNs with
  | some durNs =>
    if durNs < 0 then spans
    else (normalizeRequestIds reqIds).foldl
      (fun spans rid => spans.note rid (some durNs) startNs endNs) spans
  | none => spans

/-- `req_output_socket_sched_*` and `req_output_handler_sched_*`. -/
def outputSched (events : List OutputSchedEvent) : ReqSpans :=
  events.foldl (fun spans ev => spans.noteRound ev.reqIds ev.queueNs ev.readyTsNs ev.runTsNs) {}

/-- `req_output_socket_exec_*` and `req_output_handler_exec_*`. -/
def outputExec (events : List OutputExecEvent) : ReqSpans :=
  events.foldl (fun spans ev => spans.noteRound ev.reqIds
    (eventDuration ev.durationNs ev.startNs ev.endNs) ev.startNs ev.endNs) {}

end DeLatency
