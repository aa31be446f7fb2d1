import DeLatency.Converter.Queue
import DeLatency.Converter.WallComponents
import DeLatency.Converter.Worker
import Mathlib.Data.Sum.Order

/-!
# Pipeline gaps: `build_pp_gap_dispatch_breakdown`

For every dispatch the breakdown clips the request's phase and step intervals
to the dispatch window, merges them per pipeline stage, charges the stretch
between the windows of adjacent stages as `pp_gap`, and attributes the window
to its components.  At request level the component intervals of all dispatches
are attributed once more, over the merged dispatch windows.

The presentation fields in milliseconds are left out.
-/

namespace DeLatency

/-- `_dispatch_key_matches`: an empty key on either side matches everything. -/
def dispatchKeyMatches (dispatchKey intervalKey : Option String) : Bool :=
  match truthyKey dispatchKey, truthyKey intervalKey with
  | some a, some b => a = b
  | _, _ => true

/-- `_rank_sort_value`: integers first, then texts. -/
def rankSortValue (r : Rank) : ℤ ⊕ₗ String :=
  match r.toInt with
  | some n => toLex (.inl n)
  | none => toLex (.inr r.text)

/-- A phase or step span clipped to a dispatch window, with its ranks. -/
structure RankedSpan where
  dp : Rank
  pp : Rank
  tp : Rank
  component : String
  span : ℤ × ℤ

/-- A step-execution window of one pipeline stage. -/
structure StageWindow where
  dpRank : Rank
  ppRank : Rank
  startNs : ℤ
  endNs : ℤ
  durationNs : ℤ
  unionDurationNs : ℤ
  tpRanks : List Rank
  spanCount : ℕ

/-- An entry of `pp_gap_intervals`. -/
structure PpGapInterval where
  startNs : ℤ
  endNs : ℤ
  durationNs : ℤ
  edge : String
  dpRank : Rank
  srcPp : Rank
  dstPp : Rank

/-- One row of `dispatches`. -/
structure DispatchRow where
  dispatchKey : Option String
  phase : Phase
  startNs : ℤ
  endNs : ℤ
  durationNs : ℤ
  computeByPpPhaseNs : Dict String ℤ
  rawComputeByPpTpPhaseNs : Dict String ℤ
  rawComputeByComponentNs : Dict String ℤ
  stepExecutionByPpNs : Dict String ℤ
  rawStepExecutionByPpTpNs : Dict String ℤ
  ppGapByEdgeNs : Dict String ℤ
  stageWindows : List StageWindow
  ppGapIntervals : List PpGapInterval
  componentIntervals : List ComponentInterval
  wallComponentsNs : Dict String ℤ
  ppGapNs : ℤ
  rawPpGapNs : ℤ
  unattributedGapNs : ℤ
  parallelOverlapNs : ℤ
  wallSegments : List WallSegment

/-- The result of `build_pp_gap_dispatch_breakdown`. -/
structure PpGapBreakdown where
  dispatches : List DispatchRow
  computeByPpPhaseNs : Dict String ℤ
  rawComputeByPpTpPhaseNs : Dict String ℤ
  rawComputeByComponentNs : Dict String ℤ
  stepExecutionByPpNs : Dict String ℤ
  rawStepExecutionByPpTpNs : Dict String ℤ
  ppGapByEdgeNs : Dict String ℤ
  wallComponentsNs : Dict String ℤ
  totalComputeNs : ℤ
  totalPpGapNs : ℤ
  totalUnattributedGapNs : ℤ
  totalWallNs : ℤ
  totalParallelOverlapNs : ℤ
  mergedDispatchWindows : List (ℤ × ℤ)
  wallSegments : List WallSegment

/-! ## One dispatch -/

/-- The phase spans of a request that match a dispatch, clipped to its window. -/
def clippedPhases (phaseComponentMap : List (String × String)) (dispatchKey : Option String)
    (dStart dEnd : ℤ) (phaseIntervalsByName : Dict String (List PhaseInterval)) :
    List RankedSpan :=
  phaseIntervalsByName.entries.flatMap fun entry =>
    -- a phase that is not in the map counts as other compute
    let component := (phaseComponentMap.lookup entry.1).getD "other_compute"
    entry.2.filterMap fun interval =>
      if dispatchKeyMatches dispatchKey interval.dispatchKey then
        (clipInterval interval.startNs interval.endNs (some dStart) (some dEnd)).map fun span => {
          dp := rankOrUnknown interval.ranks.dp
          pp := rankOrUnknown interval.ranks.pp
          tp := rankOrUnknown interval.ranks.tp
          component := component
          span := span }
      else none

/-- The step spans of a request that match a dispatch, clipped to its window. -/
def clippedSteps (dispatchKey : Option String) (dStart dEnd : ℤ)
    (stepExecutionIntervals : List StepExecution) : List RankedSpan :=
  stepExecutionIntervals.filterMap fun interval =>
    -- a key missing on either side matches
    if dispatchKeyMatches dispatchKey interval.dispatchKey then
      (clipInterval interval.startNs interval.endNs (some dStart) (some dEnd)).map fun span => {
        dp := rankOrUnknown interval.ranks.dp
        pp := rankOrUnknown interval.ranks.pp
        tp := rankOrUnknown interval.ranks.tp
        component := "step_execution"
        span := span }
    else none

def RankedSpan.durNs (s : RankedSpan) : ℤ := s.span.2 - s.span.1

/-- `f"pp{pp_rank}:tp{tp_rank}:{component}"`. -/
def RankedSpan.rawComputeKey (s : RankedSpan) : String :=
  "pp" ++ s.pp.text ++ ":tp" ++ s.tp.text ++ ":" ++ s.component

/-- `f"dp{dp_rank}:pp{pp_rank}:tp{tp_rank}:step_execution"`. -/
def RankedSpan.rawStepKey (s : RankedSpan) : String :=
  "dp" ++ s.dp.text ++ ":pp" ++ s.pp.text ++ ":tp" ++ s.tp.text ++ ":step_execution"

/-- `f"dp{dp_rank}:pp{pp_rank}:step_execution"`. -/
def stepWallKey (dpRank ppRank : Rank) : String :=
  "dp" ++ dpRank.text ++ ":pp" ++ ppRank.text ++ ":step_execution"

/-- The compute intervals of a dispatch: the spans of one stage and component,
    merged over its TP ranks. -/
def computeComponentIntervals (phases : List RankedSpan) : List ComponentInterval :=
  let ppComponentIntervals : Dict (Rank × String) (List (ℤ × ℤ)) :=
    -- by pipeline rank and component, whatever the other ranks are
    Dict.empty.pushAll (phases.map fun s => ((s.pp, s.component), s.span))
  ppComponentIntervals.entries.flatMap fun entry =>
    (mergeIntervals entry.2).map fun p => {
      startNs := p.1
      endNs := p.2
      component := entry.1.2
      detailKey := "pp" ++ entry.1.1.text ++ ":" ++ entry.1.2 }

/-- The window of one stage: from the first start to the last end of its merged
    spans. -/
def stageWindow (stage : Rank × Rank) (spans : List (ℤ × ℤ)) (tpRanks : List Rank) :
    Option StageWindow :=
  match mergeIntervals spans with
  | [] => none
  | m :: merged =>
    let startNs := merged.foldl (fun acc p => min acc p.1) m.1
    let endNs := merged.foldl (fun acc p => max acc p.2) m.2
    some {
      dpRank := stage.1
      ppRank := stage.2
      startNs := startNs
      endNs := endNs
      -- the hull of the spans, and what the spans themselves cover of it
      durationNs := endNs - startNs
      unionDurationNs := ((m :: merged).map fun p => p.2 - p.1).sum
      tpRanks := tpRanks.dedup.sortBy rankSortValue
      spanCount := spans.length }

/-- The stage windows of a dispatch, grouped by DP rank and ordered by PP rank. -/
def stageWindowsByDp (steps : List RankedSpan) : Dict Rank (List StageWindow) :=
  let stepSpansByStage : Dict (Rank × Rank) (List (ℤ × ℤ)) :=
    Dict.empty.pushAll (steps.map fun s => ((s.dp, s.pp), s.span))
  let stepTpByStage : Dict (Rank × Rank) (List Rank) :=
    Dict.empty.pushAll (steps.map fun s => ((s.dp, s.pp), s.tp))
  let windows := stepSpansByStage.entries.filterMap fun entry =>
    stageWindow entry.1 entry.2 (stepTpByStage.getD entry.1 [])
  Dict.empty.pushAll (windows.map fun w => (w.dpRank, w))

/-- `windows.sort(key=...)`. -/
def sortStageWindows (windows : List StageWindow) : List StageWindow :=
  windows.sortBy fun w => rankSortValue w.ppRank

/-- The gap between the windows of two adjacent stages, when it is positive. -/
def ppGapBetween (dpRank : Rank) (prevStage nextStage : StageWindow) : Option PpGapInterval :=
  match toNsInt prevStage.endNs, toNsInt nextStage.startNs with
  | some gapStart, some gapEnd =>
    -- stages that overlap leave no gap
    if gapEnd ≤ gapStart then none
    else some {
      startNs := gapStart
      endNs := gapEnd
      durationNs := gapEnd - gapStart
      edge := "dp" ++ dpRank.text ++ ":pp" ++ prevStage.ppRank.text ++ "->pp" ++ nextStage.ppRank.text
      dpRank := dpRank
      srcPp := prevStage.ppRank
      dstPp := nextStage.ppRank }
  | _, _ => none

/-- `pp_gap_intervals` of a dispatch. -/
def ppGapIntervals (windowsByDp : Dict Rank (List StageWindow)) : List PpGapInterval :=
  windowsByDp.entries.flatMap fun entry =>
    let windows := sortStageWindows entry.2
    -- neighbours in order of PP rank, within one DP rank
    (windows.zip windows.tail).filterMap fun pair => ppGapBetween entry.1 pair.1 pair.2

/-- The component interval of a pipeline gap. -/
def PpGapInterval.toComponent (gap : PpGapInterval) : ComponentInterval where
  startNs := gap.startNs
  endNs := gap.endNs
  component := "pp_gap"
  detailKey := gap.edge

/-- The row of a dispatch with window `[dStart, dEnd)`. -/
def dispatchRow (phaseComponentMap : List (String × String))
    (phaseIntervalsByName : Dict String (List PhaseInterval))
    (stepExecutionIntervals : List StepExecution) (dispatch : DispatchInterval)
    (dStart dEnd : ℤ) : DispatchRow :=
  let phases := clippedPhases phaseComponentMap dispatch.dispatchKey dStart dEnd phaseIntervalsByName
  let compute := computeComponentIntervals phases
  let steps := clippedSteps dispatch.dispatchKey dStart dEnd stepExecutionIntervals
  let windowsByDp := stageWindowsByDp steps
  let gaps := ppGapIntervals windowsByDp
  let componentIntervals := compute ++ gaps.map PpGapInterval.toComponent
  let wallInfo := attributeWallComponents componentIntervals dStart dEnd
  { dispatchKey := dispatch.dispatchKey
    phase := dispatch.phase
    startNs := dStart
    endNs := dEnd
    durationNs := dEnd - dStart
    computeByPpPhaseNs := Dict.empty.addAll (compute.map fun c => (c.detailKey, c.endNs - c.startNs))
    rawComputeByPpTpPhaseNs := Dict.empty.addAll (phases.map fun s => (s.rawComputeKey, s.durNs))
    rawComputeByComponentNs := Dict.empty.addAll (phases.map fun s => (s.component, s.durNs))
    -- the keys come in the order of the spans, the sums from the stage windows
    stepExecutionByPpNs :=
      (Dict.empty.addAll (steps.map fun s => (stepWallKey s.dp s.pp, 0))).addAll
        (windowsByDp.entries.flatMap fun entry =>
          entry.2.map fun w => (stepWallKey w.dpRank w.ppRank, w.unionDurationNs))
    rawStepExecutionByPpTpNs := Dict.empty.addAll (steps.map fun s => (s.rawStepKey, s.durNs))
    ppGapByEdgeNs := Dict.empty.addAll (gaps.map fun gap => (gap.edge, gap.durationNs))
    stageWindows := (windowsByDp.entries.sortBy fun entry => rankSortValue entry.1).flatMap
      fun entry => sortStageWindows entry.2
    ppGapIntervals := gaps
    componentIntervals := componentIntervals
    wallComponentsNs := wallInfo.wallComponentsNs
    ppGapNs := wallInfo.wallComponentsNs.getD "pp_gap" 0
    rawPpGapNs := (gaps.map PpGapInterval.durationNs).sum
    unattributedGapNs := wallInfo.pipelineGapNs
    parallelOverlapNs := wallInfo.parallelOverlapNs
    wallSegments := wallInfo.segments }

/-! ## The request -/

/-- The rows of all dispatches with a usable window, in start order. -/
def dispatchRows (dispatches : List DispatchInterval)
    (phaseIntervalsByName : Dict String (List PhaseInterval))
    (stepExecutionIntervals : List StepExecution) (phaseComponentMap : List (String × String)) :
    List DispatchRow :=
  (sortDispatches dispatches).filterMap fun dispatch =>
    match toNsInt dispatch.startNs, toNsInt dispatch.endNs with
    | some dStart, some dEnd =>
      -- an empty dispatch gives no row
      if dEnd ≤ dStart then none
      else some (dispatchRow phaseComponentMap phaseIntervalsByName stepExecutionIntervals dispatch
        dStart dEnd)
    | _, _ => none

/-- A request-level counter: the row counters added up. -/
def sumRows (counter : DispatchRow → Dict String ℤ) (rows : List DispatchRow) : Dict String ℤ :=
  Dict.empty.addAll (rows.flatMap fun row => (counter row).entries)

/-- `build_pp_gap_dispatch_breakdown`. -/
def buildPpGapDispatchBreakdown (dispatches : List DispatchInterval)
    (phaseIntervalsByName : Dict String (List PhaseInterval))
    (stepExecutionIntervals : List StepExecution) (phaseComponentMap : List (String × String)) :
    PpGapBreakdown :=
  let rows := dispatchRows dispatches phaseIntervalsByName stepExecutionIntervals phaseComponentMap
  let globalComponentIntervals := rows.flatMap DispatchRow.componentIntervals
  -- overlapping dispatches share a window, so their time is attributed once
  let mergedDispatchWindows := mergeIntervals (rows.map fun row => (row.startNs, row.endNs))
  let wallInfos := mergedDispatchWindows.map fun w =>
    attributeWallComponents globalComponentIntervals w.1 w.2
  let wallComponentsTotal : Dict String ℤ :=
    Dict.empty.addAll (wallInfos.flatMap fun info => info.wallComponentsNs.entries)
  { dispatches := rows
    computeByPpPhaseNs := sumRows DispatchRow.computeByPpPhaseNs rows
    rawComputeByPpTpPhaseNs := sumRows DispatchRow.rawComputeByPpTpPhaseNs rows
    rawComputeByComponentNs := sumRows DispatchRow.rawComputeByComponentNs rows
    stepExecutionByPpNs := sumRows DispatchRow.stepExecutionByPpNs rows
    rawStepExecutionByPpTpNs := sumRows DispatchRow.rawStepExecutionByPpTpNs rows
    ppGapByEdgeNs := sumRows DispatchRow.ppGapByEdgeNs rows
    wallComponentsNs := wallComponentsTotal
    totalComputeNs := ((wallComponentsTotal.entries.filter fun entry =>
      entry.1 ≠ "pp_gap" ∧ entry.1 ≠ "pipeline_gap").map Prod.snd).sum
    totalPpGapNs := wallComponentsTotal.getD "pp_gap" 0
    totalUnattributedGapNs := wallComponentsTotal.getD "pipeline_gap" 0
    totalWallNs := sumIntervalPairs mergedDispatchWindows
    totalParallelOverlapNs := (wallInfos.map WallInfo.parallelOverlapNs).sum
    mergedDispatchWindows := mergedDispatchWindows
    wallSegments := wallInfos.flatMap WallInfo.segments }

end DeLatency
