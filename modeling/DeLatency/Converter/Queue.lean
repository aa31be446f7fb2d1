import DeLatency.Converter.Dispatch
import DeLatency.Converter.Intervals

/-!
# vLLM queue intervals

The queue slices of a request are derived from its dispatches in start order:
one from the enqueue time to the first start, and one for every positive gap
between a dispatch and the next.
-/

namespace DeLatency

inductive ScheduledFrom
  | enqueue
  | stepReady
deriving DecidableEq

inductive GapKind
  | normalWait
  | preemptWait
deriving DecidableEq

/-- An entry of `queue_intervals_map[rid]`. -/
structure QueueInterval where
  startNs : ℤ
  endNs : ℤ
  reason : String
  scheduledFrom : ScheduledFrom
  gapKind : GapKind
  preemptTsNs : List ℤ := []
  prevDispatchKey : Option String := none
  nextDispatchKey : Option String
deriving DecidableEq

/-- The per-request slices of the queue maps. -/
structure ReqQueue where
  intervals : List QueueInterval := []
  vllmQueueNs : ℤ := 0
  fromEnqueueNs : ℤ := 0
  fromStepReadyNs : ℤ := 0
  overlappedDispatchPairs : ℕ := 0

/-- The sort key `(start_ns, end_ns)` of a dispatch. -/
def dispatchKeyOrder (d : DispatchInterval) : ℤ ×ₗ ℤ := startEndKey (d.startNs, d.endNs)

/-- `dispatches_sorted`. -/
def sortDispatches (dispatches : List DispatchInterval) : List DispatchInterval :=
  dispatches.sortBy dispatchKeyOrder

/-- The wait from the enqueue to the first dispatch. -/
def enqueueWait (enqueueTs : Option ℤ) (first : DispatchInterval) (q : ReqQueue) : ReqQueue :=
  match enqueueTs, toNsInt first.startNs with
  | some enqueueTs, some firstStart =>
    -- the wait of a request that was never scheduled before: from its enqueueing on
    if enqueueTs < firstStart then
      let queueNs := firstStart - enqueueTs
      { q with
        vllmQueueNs := q.vllmQueueNs + queueNs
        fromEnqueueNs := q.fromEnqueueNs + queueNs
        intervals := q.intervals ++ [{
          startNs := enqueueTs
          endNs := firstStart
          reason := "scheduled_enqueue_wait"
          scheduledFrom := .enqueue
          gapKind := .normalWait
          nextDispatchKey := first.dispatchKey }] }
    else q
  | _, _ => q

/-- The preempt times that hit the gap `[prevEnd, nextStart]`. -/
def preemptHits (preemptTs : List ℤ) (prevEnd nextStart : ℤ) : List ℤ :=
  preemptTs.filter fun ts => prevEnd ≤ ts ∧ ts ≤ nextStart

/-- The wait between one dispatch and the next. -/
def gapWait (preemptTs : List ℤ) (q : ReqQueue) (pair : DispatchInterval × DispatchInterval) :
    ReqQueue :=
  match toNsInt pair.1.endNs, toNsInt pair.2.startNs with
  | some prevEnd, some nextStart =>
    -- dispatches of one request may overlap; such a pair is only counted
    if nextStart < prevEnd then
      { q with overlappedDispatchPairs := q.overlappedDispatchPairs + 1 }
    else if nextStart = prevEnd then q
    else
      let queueNs := nextStart - prevEnd
      let hits := preemptHits preemptTs prevEnd nextStart
      { q with
        vllmQueueNs := q.vllmQueueNs + queueNs
        fromStepReadyNs := q.fromStepReadyNs + queueNs
        intervals := q.intervals ++ [{
          startNs := prevEnd
          endNs := nextStart
          reason := if hits ≠ [] then "scheduled_preempt_wait" else "scheduled_step_ready_wait"
          scheduledFrom := .stepReady
          gapKind := if hits ≠ [] then .preemptWait else .normalWait
          preemptTsNs := hits
          prevDispatchKey := pair.1.dispatchKey
          nextDispatchKey := pair.2.dispatchKey }] }
  | _, _ => q

/-- The queue stage of one request. -/
def buildQueue (enqueueTs : Option ℤ) (preemptTs : List ℤ) (dispatches : List DispatchInterval) :
    ReqQueue :=
  match sortDispatches dispatches with
  | [] => {}
  | first :: rest =>
    -- each dispatch with the next one in start order, whatever came before
    ((first :: rest).zip rest).foldl (gapWait preemptTs) (enqueueWait enqueueTs first {})

/-- The queue stage on a whole log. -/
def reqQueue (log : Log) (rid : String) : ReqQueue :=
  buildQueue ((reqEnqueueMap log.schedulerEvents rid).bind toNsInt) (reqPreemptTsByReq log rid)
    (reqDispatchIntervals log rid)

/-- `queue_intervals_map[rid]`. -/
def queueIntervals (log : Log) (rid : String) : List QueueInterval := (reqQueue log rid).intervals

end DeLatency
