import DeLatency.Converter.Value
import DeLatency.ForStd.Dict
import DeLatency.ForStd.ListExtra
import DeLatency.ForStd.SortBy
import Mathlib.Algebra.Order.Field.Rat

/-!
# Nudging

Some viewers lose a slice that starts where the one before it on its track ends.
`nudge_equal_boundaries` goes through the slices of each track in order and moves
such a start forward by a little.  Times are microseconds; the floats of the program
are rational numbers here.
-/

namespace DeLatency

/-- A dictionary of `trace_events`, as far as the function looks at it, and its other
    entries.  A time that is missing or no number is `none`. -/
structure TraceDict (α : Type) where
  ph : String
  cat : String := ""
  pid : Option ℤ
  tid : Option ℤ
  ts : Option ℚ
  dur : Option ℚ := none
  other : α
deriving DecidableEq

/-- The arguments of `nudge_equal_boundaries`. -/
structure NudgeArgs where
  targetPid : Option ℤ := none
  epsilonUs : ℚ := 1 / 1000
  catPrefixes : List String := []
  snapToleranceUs : ℚ := 0

/-- An entry of `slots`. -/
structure NudgeSlot where
  pid : Option ℤ
  tid : Option ℤ
  start : ℚ
  endUs : ℚ
  idx : ℕ
deriving DecidableEq

def NudgeSlot.track (slot : NudgeSlot) : Option ℤ × Option ℤ := (slot.pid, slot.tid)

variable {α : Type}

/-- A complete event of the process and of the categories that are looked at. -/
def NudgeArgs.selects (args : NudgeArgs) (ev : TraceDict α) : Bool :=
  ev.ph = "X" && (args.targetPid = none || ev.pid = args.targetPid) &&
    (args.catPrefixes = [] ||
      args.catPrefixes.any fun pre => pre.toList.isPrefixOf ev.cat.toList)

/-- The slot of an event and its place, if it has one. -/
def nudgeSlot (args : NudgeArgs) (item : TraceDict α × ℕ) : Option NudgeSlot :=
  if args.selects item.1 then
    match item.1.ts, item.1.dur with
    | some ts, some dur =>
      -- a slice without a length has no end to move
      if dur ≤ 0 then none
      else some { pid := item.1.pid, tid := item.1.tid, start := ts, endUs := ts + dur,
                  idx := item.2 }
    | _, _ => none
  else none

/-- The ids of two slots compare: neither `None` with a number in the process, nor, in one
    process, in the thread. -/
def NudgeSlot.Comparable (slot slot' : NudgeSlot) : Prop :=
  slot.pid.isSome = slot'.pid.isSome ∧
    (slot.pid = slot'.pid → slot.tid.isSome = slot'.tid.isSome)

instance (slot slot' : NudgeSlot) : Decidable (slot.Comparable slot') :=
  inferInstanceAs (Decidable (_ ∧ (_ → _)))

/-- The sort key `(x[0], x[1], x[2], x[3], x[4])`; where ids compare, `None` stands alone. -/
def NudgeSlot.key (slot : NudgeSlot) : ℤ ×ₗ ℤ ×ₗ ℚ ×ₗ ℚ ×ₗ ℕ :=
  toLex (slot.pid.getD 0, toLex (slot.tid.getD 0,
    toLex (slot.start, toLex (slot.endUs, slot.idx))))

/-- `slots.sort`.  A sort compares every two neighbours of its result, so it raises when
    some ids do not compare. -/
def sortNudgeSlots (slots : List NudgeSlot) : Except PyError (List NudgeSlot) :=
  if ∀ slot ∈ slots, ∀ slot' ∈ slots, slot.Comparable slot' then .ok (slots.sortBy NudgeSlot.key)
  else .error .typeError

/-- What the loop has changed so far. -/
structure NudgeState (α : Type) where
  traceEvents : List (TraceDict α)
  lastEndByTrack : Dict (Option ℤ × Option ℤ) ℚ := Dict.empty
  nudged : ℕ := 0

/-- The start is at the end before, or within the tolerance of it. -/
def needNudge (args : NudgeArgs) (start prevEnd : ℚ) : Bool :=
  let gap := start - prevEnd
  start = prevEnd || (0 < args.snapToleranceUs && -args.snapToleranceUs ≤ gap &&
    gap ≤ args.snapToleranceUs)

/-- How far the start of a slot moves, when it moves. -/
def nudgeDelta (args : NudgeArgs) (st : NudgeState α) (slot : NudgeSlot) : Option (ℚ × ℚ) :=
  match st.lastEndByTrack.get? slot.track, (st.traceEvents[slot.idx]?).bind (·.dur) with
  | some prevEnd, some oldDur =>
    if needNudge args slot.start prevEnd then
      let delta := prevEnd + args.epsilonUs - slot.start
      if 0 < delta ∧ delta < oldDur then some (delta, oldDur) else none
    else none
  | _, _ => none

/-- One turn of the loop. -/
def nudgeTurn (args : NudgeArgs) (st : NudgeState α) (slot : NudgeSlot) : NudgeState α :=
  match nudgeDelta args st slot with
  | some (delta, oldDur) =>
    let ts := slot.start + delta
    let dur := oldDur - delta
    { traceEvents := st.traceEvents.modify slot.idx fun ev =>
        { ev with ts := some ts, dur := some dur }
      lastEndByTrack := st.lastEndByTrack.alter slot.track 0 fun _ => ts + dur
      nudged := st.nudged + 1 }
  | none =>
    -- left alone, but its end is still the track's last
    { st with lastEndByTrack := st.lastEndByTrack.alter slot.track 0 fun _ => slot.endUs }

/-- The slots of a list of events. -/
def nudgeSlots (args : NudgeArgs) (traceEvents : List (TraceDict α)) : List NudgeSlot :=
  traceEvents.zipIdx.filterMap (nudgeSlot args)

/-- `nudge_equal_boundaries`: the events afterwards, and the number of nudged ones. -/
def nudgeEqualBoundaries (args : NudgeArgs) (traceEvents : List (TraceDict α)) :
    Except PyError (List (TraceDict α) × ℕ) := do
  let slots ← sortNudgeSlots (nudgeSlots args traceEvents)
  let st := slots.foldl (nudgeTurn args) { traceEvents }
  return (st.traceEvents, st.nudged)

end DeLatency
