import DeLatency.Converter.Log
import DeLatency.Patch.SchedulerOutput

/-!
# The patches of the scheduler and of the executors

The executor reports a step as it hands it to the workers, the scheduler once its results are
in.  Both read the requests off the scheduler output, each in its own way, and the scheduler
adds for each request whether the step is part of its prefill or a decode.

The events are given as the converter reads them, which is after it has normalised the
request ids.
-/

namespace DeLatency

/-- `_phase_from_counts` -/
def phaseFromCounts (numComputedTokens numPromptTokens : Option ℤ) : Option String :=
  match numComputedTokens, numPromptTokens with
  | some numComputed, some numPrompt =>
    some (if numComputed < numPrompt then "prefill" else "decode")
  | _, _ => none

/-- `if phase: phase_by_req[rid] = phase`, where there is an `rid`. -/
def notePhase (phaseByReq : Dict String String) (rid phase : Option String) : Dict String String :=
  match rid, phase with
  | some rid, some phase => phaseByReq.alter rid phase fun _ => phase
  | _, _ => phaseByReq

/-- A request id of the cached requests, as it is; `None` and the empty text are passed over. -/
def cachedRid (item : Option ReqItem) : Option String :=
  (item.map ReqItem.text).filter (· ≠ "")

namespace SchedulerOutput

/-- `cached.req_ids`, none of them where there is no list. -/
def cachedItems (so : SchedulerOutput) : List (Option ReqItem) :=
  match so.scheduledCachedReqs with
  | .value { reqIds := .value reqIds, .. } => reqIds
  | _ => []

/-- `_build_scheduled_phase_map`, with `prompt_tokens_by_req`. -/
def buildScheduledPhaseMap (promptTokensByReq : Dict String ℤ) (so : SchedulerOutput) :
    Dict String String :=
  let phaseByReq := so.newReqs.foldl (fun phaseByReq req =>
    -- the prompt length that was remembered, or the one of the request
    let numPrompt := (req.item.attrId.bind promptTokensByReq.get?).or
      (req.promptTokens.map fun length => (length : ℤ))
    notePhase phaseByReq req.item.attrId (phaseFromCounts req.numComputedTokens numPrompt))
    Dict.empty
  so.cachedItems.zipIdx.foldl (fun phaseByReq p =>
    let rid := cachedRid p.1
    notePhase phaseByReq rid
      (phaseFromCounts (so.cachedComputedTokens[p.2]?.bind id) (rid.bind promptTokensByReq.get?)))
    phaseByReq

/-- What `update_from_output` takes as the id of a new request; `none` is an id of `None`. -/
def stepReadyId (req : NewRequest) : Option (Option String) :=
  match req.item.requestId, req.item.reqId with
  | .value rid, _ => some (some rid)
  | .null, _ => some none
  | .missing, .value rid => some (some rid)
  | .missing, .null => some none
  | .missing, .missing => none

/-- The requests of a step as `update_from_output` lists them. -/
def stepReadyReqIds (so : SchedulerOutput) : List (Option String) :=
  match so.scheduledNewReqs with
  -- the loop raises, and nothing has been listed yet
  | .null => []
  | _ => so.newReqs.filterMap stepReadyId ++
      so.cachedItems.map fun item => item.map ReqItem.text

end SchedulerOutput

/-- `scheduler.requests` as far as the patch reads it. -/
def promptTokensByReq (requests : List (String × Option ℤ)) : Dict String ℤ :=
  requests.foldl (fun map p =>
    match p.2 with
    | some npt => if p.1 = "" then map else map.alter p.1 npt fun _ => npt
    | none => map) Dict.empty

/-- A step of the engine: what the scheduler put out, its requests as the results come in, and
    when the step was handed out and was ready. -/
structure EngineStep where
  so : SchedulerOutput
  requests : List (String × Option ℤ) := []
  outNs : ℤ
  readyNs : ℤ

namespace EngineStep

variable (hexdigest : List Char → List Char)

def phaseByReq (st : EngineStep) : Dict String String :=
  st.so.buildScheduledPhaseMap (promptTokensByReq st.requests)

/-- The `req_scheduler_out_rpc` of the executor's `execute_model`. -/
def executeModelEvent (st : EngineStep) : Option SchedulerEvent :=
  if st.so.extractReqIds = [] then none else some {
    type := .reqSchedulerOutRpc
    timestampNs := some st.outNs
    reqIds := normalizeRequestIds st.so.extractReqIds
    dispatchKey := some (st.so.makeDispatchKey hexdigest) }

/-- The `req_step_ready` of the scheduler's `update_from_output`. -/
def updateFromOutputEvent (st : EngineStep) : Option SchedulerEvent :=
  if st.so.stepReadyReqIds = [] then none else some {
    type := .reqStepReady
    timestampNs := some st.readyNs
    reqIds := normalizeRequestIds (st.so.stepReadyReqIds.filterMap id)
    dispatchKey := some (st.so.makeDispatchKey hexdigest)
    phaseByReq := st.phaseByReq.entries }

/-- The events of a step. -/
def events (st : EngineStep) : List SchedulerEvent :=
  (st.executeModelEvent hexdigest).toList ++ (st.updateFromOutputEvent hexdigest).toList

end EngineStep

end DeLatency
