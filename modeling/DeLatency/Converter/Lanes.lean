import DeLatency.Converter.Value
import DeLatency.ForStd.FirstFit
import DeLatency.ForStd.SortBy

/-!
# Lanes of the request tracks

`assign_non_overlapping_lanes` spreads the intervals of one request over lanes;
its loop is `Intervals.firstFit`, run in the order of `(start, end, index)`.
`build_request_lane_tids` and the expansion in `process_logs` give every lane of
every request its thread id inside the process of the request tracks.
-/

namespace DeLatency

/-- What the lane assignment reads of an interval, `None` for an absent key. -/
structure RawInterval where
  startNs : PyValue
  endNs : PyValue

/-- Both ends in nanoseconds, when they can be converted and the end comes after the start. -/
def RawInterval.span (item : RawInterval) : Option (ℤ × ℤ) :=
  match toNs item.startNs, toNs item.endNs with
  | some s, some e => if e ≤ s then none else some (s, e)
  | _, _ => none

/-- The key of the sort: `to_ns(start) or 0`, `to_ns(end) or 0` and the position. -/
def laneSortKey (entry : RawInterval × ℕ) : ℤ ×ₗ ℤ ×ₗ ℕ :=
  toLex ((toNs entry.1.startNs).getD 0, toLex ((toNs entry.1.endNs).getD 0, entry.2))

/-- `assign_non_overlapping_lanes`: the lane of each position and the number of lanes. -/
def assignNonOverlappingLanes (intervals : List RawInterval) : List ℕ × ℕ :=
  let ordered := intervals.zipIdx.sortBy laneSortKey
  let (laneEnds, assignments) := Intervals.firstFit (fun entry => entry.1.span) ordered
  let laneByOriginal := assignments.foldl (fun lanes a => lanes.set a.1.2 a.2)
    (List.replicate intervals.length 0)
  (laneByOriginal, laneEnds.length)

/-- A key of `lane_tids`. -/
inductive LaneKey
  | label | lifecycle | vllmQueue | coroQueue | outputSocketQueue | outputQueue | dispatch
  | generateExec | outputSocketExec | outputExec | os | stage | task | ppGap
  /-- `dispatch_{lane_idx}` -/
  | dispatchLane (laneIdx : ℕ)
  /-- `pp_gap_{lane_idx}` -/
  | ppGapLane (laneIdx : ℕ)
deriving DecidableEq

/-- `build_request_lane_tids`. -/
def buildRequestLaneTids (reqIndex : ℕ) : List (LaneKey × ℕ) :=
  let base := reqIndex * 100
  [(.label, base + 1), (.lifecycle, base + 2), (.vllmQueue, base + 3), (.coroQueue, base + 4),
    (.outputSocketQueue, base + 5), (.outputQueue, base + 6), (.dispatch, base + 7),
    (.generateExec, base + 8), (.outputSocketExec, base + 9), (.outputExec, base + 10),
    (.os, base + 11), (.stage, base + 12), (.task, base + 13), (.ppGap, base + 14)]

/-- `lane_tids` of one request: the fixed lanes and one for each further dispatch or gap lane. -/
def requestLaneTids (reqIndex dispatchLaneCount ppGapLaneCount : ℕ) : List (LaneKey × ℕ) :=
  buildRequestLaneTids reqIndex
    ++ (List.range' 1 (dispatchLaneCount - 1)).map
        (fun laneIdx => (.dispatchLane laneIdx, reqIndex * 100 + 50 + laneIdx))
    ++ (List.range' 1 (ppGapLaneCount - 1)).map
        (fun laneIdx => (.ppGapLane laneIdx, reqIndex * 100 + 70 + laneIdx))

/-- The intervals of one request that are spread over lanes. -/
structure RequestIntervals where
  dispatch : List RawInterval
  ppGap : List RawInterval

/-- The thread ids of all requests, under the request's index and the lane's key. -/
def requestTrackTids (requests : List RequestIntervals) : List ((ℕ × LaneKey) × ℕ) :=
  (requests.zipIdx 1).flatMap fun (request, reqIndex) =>
    let (_, dispatchLaneCount) := assignNonOverlappingLanes request.dispatch
    let (_, ppGapLaneCount) := assignNonOverlappingLanes request.ppGap
    (requestLaneTids reqIndex dispatchLaneCount ppGapLaneCount).map
      fun (laneKey, laneTid) => ((reqIndex, laneKey), laneTid)

end DeLatency
