import DeLatency.Converter.Log
import DeLatency.ForStd.Dict
import DeLatency.ForStd.SortBy

/-!
# Worker events

The loop over the worker events in start order collects, for each request, the
intervals of its phases (`req_worker_phase_intervals`) and of its steps
(`req_step_execution_intervals`).  A log with `gpu_phase_span` events carries the
phases itself; otherwise a small state machine per `(pid, tid)` track derives
preprocess and forward intervals from the point events.
-/

namespace DeLatency

/-- An interval of a worker phase. -/
structure PhaseInterval where
  startNs : ℤ
  endNs : ℤ
  dispatchKey : Option String := none
  ranks : Ranks := {}

/-- An entry of `req_step_execution_intervals[rid]`. -/
structure StepExecution where
  pid : Option ℤ
  tid : Option ℤ
  startNs : ℤ
  endNs : ℤ
  dispatchKey : Option String
  ranks : Ranks

/-- The worker state of one `(pid, tid)` track. -/
structure WorkerState where
  tPreStart : Option ℤ := none
  tFwdStart : Option ℤ := none
  tFwdEnd : Option ℤ := none
  reqIds : List String := []

/-- What the worker loop has collected. -/
structure WorkerIntervals where
  workerStates : Dict (Option ℤ × Option ℤ) WorkerState := Dict.empty
  phaseIntervals : String → Dict String (List PhaseInterval) := fun _ => Dict.empty
  stepExecution : String → List StepExecution := fun _ => []

/-- `req_worker_phase_intervals[rid][name].append(interval)` for each request. -/
def WorkerIntervals.addPhase (w : WorkerIntervals) (reqIds : List String) (name : String)
    (interval : PhaseInterval) : WorkerIntervals :=
  { w with phaseIntervals := (normalizeRequestIds reqIds).foldl (fun m rid =>
      Function.update m rid ((m rid).push name interval)) w.phaseIntervals }

/-- `ev['ts']`: the start when there is one, else the time stamp. -/
def WorkerEvent.ts (ev : WorkerEvent) : Option ℤ := ev.startNs <|> ev.timestampNs

/-- The request ids of a sampling or bookkeeping span: the track's own, or the
    payload's when the track has no state. -/
def trackReqIds (state : Option WorkerState) (ev : WorkerEvent) : List String :=
  match state with
  | some state => state.reqIds
  | none => ev.reqIds

/-- One turn of the worker loop. -/
def workerEvent (hasPrecisePhaseSpans : Bool) (w : WorkerIntervals) (ev : WorkerEvent) :
    WorkerIntervals :=
  let key := (ev.pid, ev.tid)
  match ev.type with
  | .gpuExecuteModel =>
    match ev.startNs, ev.endNs with
    | some tStart, some tEnd =>
      { w with stepExecution := (normalizeRequestIds ev.reqIds).foldl (fun m rid =>
          Function.update m rid (m rid ++ [{
            pid := ev.pid
            tid := ev.tid
            startNs := tStart
            endNs := tEnd
            dispatchKey := ev.dispatchKey
            ranks := ev.ranks }])) w.stepExecution }
    | _, _ => w
  | .gpuPhaseSpan =>
    match truthyPhase ev.phase, ev.startNs, ev.endNs with
    | some phaseName, some tStart, some tEnd =>
      let w := w.addPhase ev.reqIds phaseName {
        startNs := tStart
        endNs := tEnd
        dispatchKey := ev.dispatchKey
        ranks := ev.ranks }
      -- later spans of the track without ids of their own use these
      { w with workerStates := w.workerStates.alter key {} fun state =>
          if ev.reqIds ≠ [] then { state with reqIds := ev.reqIds } else state }
    | _, _, _ => w
  | .workerPreprocessStart =>
    if hasPrecisePhaseSpans then w
    else { w with workerStates :=
      w.workerStates.alter key {} fun _ => { tPreStart := ev.ts, reqIds := ev.reqIds } }
  | .gpuForwardStart =>
    if hasPrecisePhaseSpans then w
    else match w.workerStates.get? key with
      | some state =>
        match state.tPreStart, ev.ts with
        | some t1, some ts =>
          -- preprocess is taken to end a microsecond before the forward starts
          let dur := max 0 (ts - t1 - 1000)
          let w := w.addPhase state.reqIds "Preprocess" { startNs := t1, endNs := t1 + dur }
          { w with workerStates :=
            w.workerStates.alter key {} fun state => { state with tFwdStart := some ts } }
        | _, _ => w
      | none => w
  | .gpuForwardEnd =>
    if hasPrecisePhaseSpans then w
    else match w.workerStates.get? key with
      | some state =>
        match state.tFwdStart, ev.ts with
        | some t2, some ts =>
          let dur := max 0 (ts - t2)
          let w := w.addPhase state.reqIds "Forward" { startNs := t2, endNs := t2 + dur }
          { w with workerStates :=
            w.workerStates.alter key {} fun state => { state with tFwdEnd := some ts } }
        | _, _ => w
      | none => w
  | .gpuSample => spanPhase key w "Sample"
  | .gpuBookkeeping => spanPhase key w "Bookkeep"
where
  /-- `phase_name` is used only when it is not empty. -/
  truthyPhase (phase : Option String) : Option String := phase.filter (· ≠ "")
  /-- The sampling and bookkeeping spans. -/
  spanPhase (key : Option ℤ × Option ℤ) (w : WorkerIntervals) (name : String) : WorkerIntervals :=
    if hasPrecisePhaseSpans then w
    else match ev.startNs, ev.endNs with
      | some tStart, some tEnd =>
        w.addPhase (trackReqIds (w.workerStates.get? key) ev) name { startNs := tStart, endNs := tEnd }
      | _, _ => w

/-- The worker loop over a whole log. -/
def collectWorkerIntervals (events : List WorkerEvent) : WorkerIntervals :=
  let hasPrecisePhaseSpans := events.any fun ev => ev.type = .gpuPhaseSpan
  (events.sortBy fun ev => ev.ts.getD 0).foldl (workerEvent hasPrecisePhaseSpans) {}

end DeLatency
