import DeLatency.Converter.Intervals
import DeLatency.ForStd.Dict
import DeLatency.ForStd.Sweep
import Mathlib.Data.String.Basic

/-!
# Wall-time attribution

`_attribute_wall_components` sweeps over the boundaries of the component
intervals inside one window and charges every elementary segment to one
component: the active one of least priority, or `pipeline_gap` when none is
active.
-/

namespace DeLatency

/-- An entry of `component_intervals`. -/
structure ComponentInterval where
  startNs : ℤ
  endNs : ℤ
  component : String
  detailKey : String
deriving DecidableEq

/-- The `priority` table of `_component_priority`. -/
def componentPriorityTable : List (String × ℕ) := [
  ("pp_gap", 0),
  ("model_forward", 10),
  ("sampling", 20),
  ("postprocess", 30),
  ("bookkeeping_sync", 40),
  ("worker_preprocess", 50),
  ("other_compute", 60),
  ("other_exec", 70),
  ("other_prefill_exec", 70),
  ("pipeline_gap", 100)]

/-- `_component_priority`. -/
def componentPriority (component : String) : ℕ ×ₗ String :=
  toLex ((componentPriorityTable.lookup component).getD 80, component)

/-- One elementary segment of a window. -/
structure WallSegment where
  startNs : ℤ
  endNs : ℤ
  durationNs : ℤ
  component : String
  activeComponents : List String
deriving DecidableEq

/-- The result of `_attribute_wall_components`. -/
structure WallInfo where
  wallComponentsNs : Dict String ℤ := Dict.empty
  pipelineGapNs : ℤ := 0
  parallelOverlapNs : ℤ := 0
  segments : List WallSegment := []

/-- `clipped`: the component intervals inside the window. -/
def clipComponents (componentIntervals : List ComponentInterval) (windowStart windowEnd : ℤ) :
    List ComponentInterval :=
  componentIntervals.filterMap fun item =>
    (clipInterval item.startNs item.endNs (some windowStart) (some windowEnd)).map fun span =>
      { item with
        startNs := span.1
        endNs := span.2
        component := if item.component = "" then "other_compute" else item.component }

/-- `sorted_boundaries`. -/
def sortedBoundaries (clipped : List ComponentInterval) (windowStart windowEnd : ℤ) : List ℤ :=
  (windowStart :: windowEnd :: clipped.flatMap fun c => [c.startNs, c.endNs]).dedup.sortBy id

/-- The intervals that are active on a step. -/
def activeOn (clipped : List ComponentInterval) (step : ℤ × ℤ) : List ComponentInterval :=
  clipped.filter fun c => c.startNs < step.2 ∧ step.1 < c.endNs

/-- `sorted({component ...}, key=_component_priority)`. -/
def sortedComponents (active : List ComponentInterval) : List String :=
  (active.map (·.component)).dedup.sortBy componentPriority

/-- The segment of one step. -/
def wallSegment (clipped : List ComponentInterval) (step : ℤ × ℤ) : WallSegment where
  startNs := step.1
  endNs := step.2
  durationNs := step.2 - step.1
  component := (sortedComponents (activeOn clipped step)).headD "pipeline_gap"
  activeComponents := sortedComponents (activeOn clipped step)

/-- How often a step is counted beyond once. -/
def stepOverlapNs (clipped : List ComponentInterval) (step : ℤ × ℤ) : ℤ :=
  max 0 (((activeOn clipped step).length : ℤ) - 1) * (step.2 - step.1)

/-- `_attribute_wall_components`. -/
def attributeWallComponents (componentIntervals : List ComponentInterval)
    (windowStartNs windowEndNs : ℤ) : WallInfo :=
  match toNsInt windowStartNs, toNsInt windowEndNs with
  | some windowStart, some windowEnd =>
    if windowEnd ≤ windowStart then {}
    else
      let clipped := clipComponents componentIntervals windowStart windowEnd
      -- without any interval the whole window is `other_compute`, not `pipeline_gap`
      if clipped = [] then
        let durationNs := windowEnd - windowStart
        { wallComponentsNs := Dict.empty.add "other_compute" durationNs
          segments := [{
            startNs := windowStart
            endNs := windowEnd
            durationNs := durationNs
            component := "other_compute"
            activeComponents := [] }] }
      else
        let steps := (Intervals.steps (sortedBoundaries clipped windowStart windowEnd)).filter
          fun s => s.1 < s.2
        let segments := steps.map (wallSegment clipped)
        let wallComponents := Dict.empty.addAll (segments.map fun s => (s.component, s.durationNs))
        { wallComponentsNs := wallComponents
          pipelineGapNs := wallComponents.getD "pipeline_gap" 0
          parallelOverlapNs := (steps.map (stepOverlapNs clipped)).sum
          segments := segments }
  | _, _ => {}

end DeLatency
