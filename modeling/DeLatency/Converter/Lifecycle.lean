import DeLatency.Converter.Log
import DeLatency.ForStd.SortBy

/-!
# Request lifecycle

What the front end reports about one request: the start of its coroutine, the
slices in which its generate task ran, and the stages it went through.  The
maps of `process_logs` are functions of the request here.
-/

namespace DeLatency

/-- An entry of `req_generate_exec_intervals[rid]`. -/
structure GenerateExec where
  startNs : ℤ
  endNs : ℤ
  taskKind : Option String
deriving DecidableEq

/-- An entry of `req_stage_intervals[rid]`. -/
structure StageInterval where
  stage : String
  startNs : ℤ
  endNs : ℤ
deriving DecidableEq

/-- An integer that is present and not zero, as in `if start_ns`. -/
def truthyInt (x : Option ℤ) : Option ℤ := x.filter (· ≠ 0)

/-- `req_generate_start_map[rid]`: the earliest coroutine start. -/
def reqGenerateStart (events : List CoroutineEvent) (rid : String) : Option ℤ :=
  (events.sortBy fun ev => ev.timestampNs.getD 0).foldl (fun prevStart ev =>
    if ev.type = .coroutineStart ∧ requestIdOf ev.requestId ev.reqId = some rid ∧
        ev.coroutineId.isSome then
      match truthyInt ev.timestampNs, prevStart with
      -- the earliest start counts, whatever the order of the log
      | some tsNs, some prev => if tsNs < prev then some tsNs else some prev
      | some tsNs, none => some tsNs
      | none, _ => prevStart
    else prevStart) none

/-- The duration of an event: its own, or the distance between its times. -/
def eventDuration (durationNs startNs endNs : Option ℤ) : Option ℤ :=
  match durationNs with
  | some durNs => some durNs
  | none => match startNs, endNs with
    | some startNs, some endNs => some (endNs - startNs)
    | _, _ => none

/-- The interval of one `coroutine_exec_slice`. -/
def generateExec (ev : CoroutineExecEvent) : Option GenerateExec :=
  match eventDuration ev.durationNs ev.startNs ev.endNs with
  | none => none
  | some durNs =>
    if durNs < 0 then none
    -- the times are used as they stand, without `to_ns`
    else match truthyInt ev.startNs, truthyInt ev.endNs with
      | some startNs, some endNs =>
        if startNs < endNs then some { startNs, endNs, taskKind := ev.taskKind } else none
      | _, _ => none

/-- `req_generate_exec_intervals[rid]`. -/
def reqGenerateExec (events : List CoroutineExecEvent) (rid : String) : List GenerateExec :=
  (events.filter fun ev => requestIdOf ev.requestId ev.reqId = some rid).filterMap generateExec

/-- The interval of one `req_generate_stage`; times in seconds are converted. -/
def stageInterval (ev : ReqStageEvent) : Option StageInterval :=
  match ev.stage.filter (· ≠ "") with
  | none => none
  | some stage =>
    let startNs := ev.startNs.bind toNsInt
    let endNs := ev.endNs.bind toNsInt
    match eventDuration ev.durationNs startNs endNs with
    | none => none
    | some durNs =>
      -- a report with a negative duration is dropped; the duration is not used otherwise
      if durNs < 0 then none
      else match startNs, endNs with
        | some startNs, some endNs =>
          if startNs < endNs then some { stage, startNs, endNs } else none
        | _, _ => none

/-- `req_stage_intervals[rid]`. -/
def reqStageIntervals (events : List ReqStageEvent) (rid : String) : List StageInterval :=
  (events.filter fun ev => requestIdOf ev.requestId ev.reqId = some rid).filterMap stageInterval

end DeLatency
