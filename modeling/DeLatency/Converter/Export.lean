import DeLatency.Converter.Nudge
import DeLatency.Converter.Tracks

/-!
# The last passes before the export

When all slices are drawn, the slices of requests and the kernels are nudged, complete
events are cut off at time zero, and the events are sorted by time.
-/

namespace DeLatency

variable {α : Type}

/-- The slices of requests, by a microsecond. -/
def requestNudgeArgs : NudgeArgs where
  targetPid := some requestPid
  epsilonUs := 1
  catPrefixes := ["request_queue", "request_dispatch", "request_coro_sched_queue",
    "request_generate_task_queue", "request_output_socket_sched_queue",
    "request_output_handler_sched_queue", "request_generate_exec", "request_output_socket_exec",
    "request_output_handler_exec", "request_pp_gap"]
  snapToleranceUs := 1

/-- The kernels, by a nanosecond. -/
def gpuNudgeArgs : NudgeArgs where
  epsilonUs := 1 / 1000
  catPrefixes := ["gpu_kernel"]
  snapToleranceUs := 1

/-- What the loop of `clip_negative_complete_events` has gathered. -/
structure ClipState (α : Type) where
  kept : List (TraceDict α) := []
  clipped : ℕ := 0
  dropped : ℕ := 0

/-- One turn of the loop. -/
def ClipState.turn (st : ClipState α) (ev : TraceDict α) : ClipState α :=
  if ev.ph ≠ "X" then { st with kept := st.kept ++ [ev] }
  else
    match ev.ts, ev.dur with
    | some ts, some dur =>
      -- it starts in time, ends before the origin, or is cut at the origin
      if 0 ≤ ts then { st with kept := st.kept ++ [ev] }
      else if ts + dur ≤ 0 then { st with dropped := st.dropped + 1 }
      else
        { st with
          kept := st.kept ++ [{ ev with ts := some 0, dur := some (ts + dur) }]
          clipped := st.clipped + 1 }
    | _, _ => { st with kept := st.kept ++ [ev] }

/-- `clip_negative_complete_events`, on all events. -/
def TraceDict.clipNegativeCompleteEvents (traceEvents : List (TraceDict α)) : ClipState α :=
  traceEvents.foldl ClipState.turn {}

/-- `x.get('ts', 0)`. -/
def TraceDict.sortTs (ev : TraceDict α) : ℚ := ev.ts.getD 0

/-- The end of `process_logs`: the events that are written, and how many were nudged, nudged on
    the GPU, clipped and dropped. -/
def exportTraceEvents (traceEvents : List (TraceDict α)) :
    Except PyError (List (TraceDict α) × ℕ × ℕ × ℕ × ℕ) := do
  let (traceEvents, nudgedCount) ← nudgeEqualBoundaries requestNudgeArgs traceEvents
  let (traceEvents, gpuNudgedCount) ← nudgeEqualBoundaries gpuNudgeArgs traceEvents
  let { kept, clipped, dropped } :=
    TraceDict.clipNegativeCompleteEvents traceEvents
  return (kept.sortBy TraceDict.sortTs, nudgedCount, gpuNudgedCount, clipped, dropped)

end DeLatency
