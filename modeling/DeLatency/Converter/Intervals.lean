import DeLatency.Converter.Value
import DeLatency.ForStd.Intervals
import DeLatency.ForStd.SortBy

/-!
# Interval helpers of the converter

`clip_interval`, `merge_intervals` and the sums built from them.  The loop of
`merge_intervals` is `Intervals.coalesce`, run on the intervals in order of
`(start, end)`.
-/

namespace DeLatency

/-- The sort key `(x[0], x[1])`. -/
def startEndKey (p : ℤ × ℤ) : ℤ ×ₗ ℤ := toLex p

/-- `clip_interval`: an absent window bound does not clip. -/
def clipInterval (startNs endNs : ℤ) (windowStartNs windowEndNs : Option ℤ) : Option (ℤ × ℤ) :=
  match toNsInt startNs, toNsInt endNs with
  | some s, some e =>
    if e ≤ s then none
    else
      -- the converted times are clipped to the bounds as given
      let s := match windowStartNs with | some w => max s w | none => s
      let e := match windowEndNs with | some w => min e w | none => e
      if e ≤ s then none else some (s, e)
  | _, _ => none

/-- `merge_intervals`. -/
def mergeIntervals (intervals : List (ℤ × ℤ)) : List (ℤ × ℤ) :=
  Intervals.coalesce (intervals.sortBy startEndKey)

/-- `sum_interval_pairs`. -/
def sumIntervalPairs (intervals : List (ℤ × ℤ)) : ℤ := Intervals.totalLength intervals

/-- Clip every interval of a list, dropping those that fall outside. -/
def clipAll (windowStartNs windowEndNs : Option ℤ) (intervals : List (ℤ × ℤ)) : List (ℤ × ℤ) :=
  intervals.filterMap fun p => clipInterval p.1 p.2 windowStartNs windowEndNs

/-- `uncovered_interval_ns`. -/
def uncoveredIntervalNs (windowStartNs windowEndNs : ℤ) (coveredIntervals : List (ℤ × ℤ)) : ℤ :=
  let clipped := clipAll (some windowStartNs) (some windowEndNs) coveredIntervals
  let totalWindow := max 0 (windowEndNs - windowStartNs)
  max 0 (totalWindow - sumIntervalPairs (mergeIntervals clipped))

/-- `sum_clipped_interval_items`. -/
def sumClippedIntervalItems (intervals : List (ℤ × ℤ)) (windowStartNs windowEndNs : Option ℤ)
    (mergeOverlaps : Bool) : ℤ × List (ℤ × ℤ) :=
  let clipped := clipAll windowStartNs windowEndNs intervals
  let clipped := if mergeOverlaps then mergeIntervals clipped else clipped
  (sumIntervalPairs clipped, clipped)

/-- `sum_intersections`. -/
def sumIntersections (intervalsA intervalsB : List (ℤ × ℤ)) : ℤ × List (ℤ × ℤ) :=
  let intersections := intervalsA.flatMap fun itemA =>
    match toNsInt itemA.1, toNsInt itemA.2 with
    | some startA, some endA =>
      -- an interval of the first list that takes no time is skipped, as is one of the second
      if endA ≤ startA then []
      else intervalsB.filterMap fun itemB =>
        match toNsInt itemB.1, toNsInt itemB.2 with
        | some startB, some endB =>
          if endB ≤ startB then none
          else if max startA startB < min endA endB then
            some (max startA startB, min endA endB)
          else none
        | _, _ => none
    | _, _ => []
  ((intersections.map fun p => p.2 - p.1).sum, intersections)

end DeLatency
