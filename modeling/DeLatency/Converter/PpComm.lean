import DeLatency.Converter.Dispatch
import DeLatency.ForStd.Dict
import DeLatency.ForStd.SortBy
import Mathlib.Data.List.Dedup
import Mathlib.Data.String.Basic

/-!
# Pipeline communication

Each stage of a pipeline reports its sends and receives.  A report without requests or
without a dispatch key gets them from the model executions it overlaps most.  The loop
keeps, for each dispatch key and pair of stages, the last send and the last receive it
has seen, and an arrow joins the two.
-/

namespace DeLatency

/-- An entry of `generated_dispatch_slices`: one `gpu_execute_model` interval. -/
structure DispatchSlice where
  pid : Option ℤ
  start : ℤ
  endNs : ℤ
  reqIds : List String := []
  dispatchKey : Option String := none
  ranks : Ranks := {}

/-- A valid interval: both ends convert, and the second is later. -/
def validSpan (start endNs : Option ℤ) : Option (ℤ × ℤ) :=
  match start.bind toNsInt, endNs.bind toNsInt with
  | some startNs, some endNs => if endNs ≤ startNs then none else some (startNs, endNs)
  | _, _ => none

/-! ## Attribution -/

def Rank.valueKnown : Rank → Bool
  | .null => false
  | .str s => ¬(strip s = "" ∨ strip s = "unknown" ∨ strip s = "-1")
  | .int n => n ≠ -1

def rankValueKnown (value : Option Rank) : Bool := (value.getD .null).valueKnown

/-- `_rank_compatible`. -/
def rankCompatible (left right : Option Rank) : Bool :=
  if ¬rankValueKnown left ∨ ¬rankValueKnown right then true
  else (left.getD .null).text = (right.getD .null).text

/-- The length of the overlap of a transfer with a model execution; `none` when the two do
    not belong together. -/
def dispatchOverlap (startNs endNs : ℤ) (ranks : Ranks) (dispatchKey : Option String)
    (span : DispatchSlice) : Option ℤ :=
  match validSpan (some span.start) (some span.endNs) with
  | none => none
  | some (spanStart, spanEnd) =>
    -- keys only exclude each other when both are given
    if truthyKey dispatchKey ≠ none ∧ truthyKey span.dispatchKey ≠ none ∧
        span.dispatchKey ≠ dispatchKey then none
    else if ¬(rankCompatible ranks.pp span.ranks.pp ∧ rankCompatible ranks.tp span.ranks.tp ∧
        rankCompatible ranks.dp span.ranks.dp) then none
    else
      let overlapNs := max 0 (min endNs spanEnd - max startNs spanStart)
      if overlapNs ≤ 0 then none else some overlapNs

/-- The best overlap so far and the executions that reach it. -/
def bestOverlapStep (overlap : DispatchSlice → Option ℤ) (best : ℤ × List DispatchSlice)
    (span : DispatchSlice) : ℤ × List DispatchSlice :=
  match overlap span with
  | none => best
  | some overlapNs =>
    if best.1 < overlapNs then (overlapNs, [span])
    else if overlapNs = best.1 then (best.1, best.2 ++ [span])
    else best

/-- `_infer_pp_comm_request_context`. -/
def inferPpCommRequestContext (generatedDispatchSlices : List DispatchSlice) (startNs endNs : ℤ)
    (pid : Option ℤ) (ranks : Ranks) (dispatchKey : Option String) :
    List String × Option String × ℤ :=
  let samePid := generatedDispatchSlices.filter fun span =>
    (validSpan (some span.start) (some span.endNs)).isSome ∧ span.pid = pid
  let samePid := samePid.sortBy fun span =>
    toLex ((toNsInt span.start).getD 0, (toNsInt span.endNs).getD 0)
  -- only when no span of the process is valid do the others count
  let candidates := if samePid = [] then generatedDispatchSlices else samePid
  let (bestOverlap, bestSpans) :=
    candidates.foldl (bestOverlapStep (dispatchOverlap startNs endNs ranks dispatchKey)) (0, [])
  let inferredReqIds := (bestSpans.flatMap fun span => normalizeRequestIds span.reqIds).dedup
  let inferredDispatchKeys := (bestSpans.filterMap fun span => truthyKey span.dispatchKey).dedup
  -- several keys infer none
  let inferredDispatchKey := match inferredDispatchKeys with
    | [key] => some key
    | _ => dispatchKey
  (inferredReqIds.sortBy id, inferredDispatchKey, bestOverlap)

inductive AttributionSource
  | payloadReqIds
  | gpuExecuteModelOverlap
  | gpuExecuteModelOverlapDispatchKey
deriving DecidableEq

/-- A transfer with what was attributed to it, as `req_pp_comm_intervals` keeps it, and the
    event it comes from. -/
structure PpCommSpan where
  startNs : ℤ
  endNs : ℤ
  dispatchKey : Option String
  reqIds : List String
  attributionSource : AttributionSource
  attributionOverlapNs : ℤ
  source : PpCommEvent

/-- One turn of the loop up to the attribution; `none` when the event is skipped. -/
def ppCommSpan (generatedDispatchSlices : List DispatchSlice) (ev : PpCommEvent) :
    Option PpCommSpan :=
  (validSpan ev.startNs ev.endNs).map fun (startNs, endNs) =>
    let reqIds := normalizeRequestIds ev.reqIds
    let payload : PpCommSpan := {
      startNs, endNs
      dispatchKey := ev.dispatchKey
      reqIds
      attributionSource := .payloadReqIds
      attributionOverlapNs := 0
      source := ev }
    -- what the event says itself is never replaced
    if reqIds = [] ∨ truthyKey ev.dispatchKey = none then
      let (inferredReqIds, inferredDispatchKey, overlapNs) :=
        inferPpCommRequestContext generatedDispatchSlices startNs endNs ev.pid ev.ranks
          ev.dispatchKey
      let span := { payload with attributionOverlapNs := overlapNs }
      let span := if reqIds = [] ∧ inferredReqIds ≠ [] then
          { span with
            reqIds := inferredReqIds
            attributionSource := .gpuExecuteModelOverlap }
        else span
      if truthyKey ev.dispatchKey = none ∧ truthyKey inferredDispatchKey ≠ none then
        { span with
          dispatchKey := inferredDispatchKey
          attributionSource := if span.attributionSource = .payloadReqIds
            then .gpuExecuteModelOverlapDispatchKey else span.attributionSource }
      else span
    else payload

/-- `ev["ts"]`. -/
def PpCommEvent.ts (ev : PpCommEvent) : Option ℤ := ev.timestampNs <|> ev.endNs

/-- The transfers in the order of the loop. -/
def ppCommSpans (generatedDispatchSlices : List DispatchSlice) (events : List PpCommEvent) :
    List PpCommSpan :=
  (events.sortBy fun ev => ev.ts.getD 0).filterMap (ppCommSpan generatedDispatchSlices)

/-! ## Arrows -/

/-- A key of `pp_comm_flow_points`: the dispatch and the two stages. -/
structure FlowKey where
  dispatchKey : Option String
  src : Rank
  dst : Rank
deriving DecidableEq

/-- One end of an arrow, with the event it was drawn from. -/
structure FlowPoint where
  tsNs : ℤ
  pid : Option ℤ
  tid : Option ℤ
  source : PpCommEvent
deriving DecidableEq

/-- An entry of `pp_comm_flow_points`. -/
structure FlowPoints where
  send : Option FlowPoint := none
  recv : Option FlowPoint := none
deriving DecidableEq

def PpCommEvent.ppRank (ev : PpCommEvent) : Rank := ev.ranks.pp.getD .null

def PpCommEvent.peer (ev : PpCommEvent) : Rank := (ev.peerRank.map Rank.int).getD .null

/-- The point of a transfer. -/
def PpCommSpan.point (span : PpCommSpan) : FlowPoint where
  tsNs := span.startNs
  pid := span.source.pid
  tid := span.source.tid
  source := span.source

/-- One turn of the loop: a later transfer replaces an earlier one of the same key. -/
def ppCommFlowStep (points : Dict FlowKey FlowPoints) (span : PpCommSpan) :
    Dict FlowKey FlowPoints :=
  let ev := span.source
  if ev.op = "send_tensor_dict" then
    points.alter ⟨span.dispatchKey, ev.ppRank, ev.peer⟩ {} fun p =>
      { p with send := some span.point }
  else if ev.op = "recv_tensor_dict" then
    -- a receive is keyed by the sender's rank first, so both ends meet
    points.alter ⟨span.dispatchKey, ev.peer, ev.ppRank⟩ {} fun p =>
      { p with recv := some span.point }
  else points

/-- `pp_comm_flow_points`. -/
def ppCommFlowPoints (spans : List PpCommSpan) : Dict FlowKey FlowPoints :=
  spans.foldl ppCommFlowStep Dict.empty

/-- A pair of flow events with one id. -/
structure FlowArrow where
  flowId : ℕ
  send : FlowPoint
  recv : FlowPoint
deriving DecidableEq

def ppFlowIdBase : ℕ := 700000

/-- The arrow of one entry, when both ends are there. -/
def ppFlowArrow (entry : (FlowKey × FlowPoints) × ℕ) : Option FlowArrow :=
  match entry.1.2.send, entry.1.2.recv with
  | some send, some recv => some { flowId := ppFlowIdBase + entry.2, send, recv }
  | _, _ => none

/-- The arrows of all entries.  The ids count the entries without an arrow, too. -/
def ppFlowArrows (points : Dict FlowKey FlowPoints) : List FlowArrow :=
  (points.entries.zipIdx 1).filterMap ppFlowArrow

/-- The arrows of a log. -/
def ppCommArrows (generatedDispatchSlices : List DispatchSlice) (events : List PpCommEvent) :
    List FlowArrow :=
  ppFlowArrows (ppCommFlowPoints (ppCommSpans generatedDispatchSlices events))

end DeLatency
