import DeLatency.Converter.Intervals
import DeLatency.Converter.Log
import DeLatency.ForStd.Dict
import Mathlib.Data.String.Basic

/-!
# OS scheduling delay

The last stage charges each request with the time during which some worker of
its group waited for a CPU while the request was executing.  Worker execute
spans give the windows of a request and the workers of a group, the eBPF waits
give the waits of a worker; their overlaps are merged per request.

Sets of worker threads, ranks and reasons are duplicate-free lists.
-/

namespace DeLatency

/-- An entry of `ebpf_map[tid]`. -/
structure OsWait where
  startNs : ℤ
  endNs : ℤ
  durNs : ℤ
  reason : Option String
deriving DecidableEq

/-- A key of `worker_tids_by_group`. -/
inductive WorkerGroup
  | dp (rank : ℤ)
  | workerTid (tid : ℤ)
deriving DecidableEq

/-- `group_key[1] if group_key[0] == "dp" else None`. -/
def WorkerGroup.dpRank : WorkerGroup → Option ℤ
  | .dp rank => some rank
  | .workerTid _ => none

/-- A worker execute span that passed the checks of the loop. -/
structure WorkerSpan where
  group : WorkerGroup
  tid : ℤ
  startNs : ℤ
  endNs : ℤ
  reqIds : List String

/-- An entry of `raw_req_os_intervals[rid]`. -/
structure OsOverlap where
  startMonoNs : ℤ
  endMonoNs : ℤ
  workerTid : ℤ
  dpRank : Option ℤ
  reason : Option String
deriving DecidableEq

/-- An entry of `merged`. -/
structure MergedOverlap where
  startMonoNs : ℤ
  endMonoNs : ℤ
  workerTids : List ℤ
  dpRanks : List ℤ
  reasons : List String
deriving DecidableEq

/-! ## The inputs -/

/-- The wait of one eBPF event and its thread, when all its fields are set. -/
def osWait (ev : SchedLatencyEvent) : Option (ℤ × OsWait) :=
  match ev.tid, ev.startNs, ev.endNs with
  | some tid, some startNs, some endNs =>
    if tid ≠ 0 ∧ startNs ≠ 0 ∧ endNs ≠ 0 then
      some (tid, { startNs, endNs, durNs := endNs - startNs, reason := ev.reason })
    else none
  | _, _, _ => none

/-- `ebpf_map` before the sort. -/
def ebpfMap (events : List SchedLatencyEvent) : Dict ℤ (List OsWait) :=
  Dict.empty.pushAll (events.filterMap osWait)

/-- `ebpf_map[tid]`, sorted by start. -/
def ebpfWaits (events : List SchedLatencyEvent) (tid : ℤ) : List OsWait :=
  ((ebpfMap events).getD tid []).sortBy OsWait.startNs

/-- `worker_group_key`. -/
def workerGroupKey (ranks : Ranks) (tid : ℤ) : WorkerGroup :=
  match ranks.dp.bind Rank.toInt with
  | some dpRank => if 0 ≤ dpRank then .dp dpRank else .workerTid tid
  | none => .workerTid tid

/-- The checks of the loop over `execute_model_span`. -/
def workerSpan (span : ExecuteModelSpan) : Option WorkerSpan :=
  match span.tid, span.startNs.bind toNsInt, span.endNs.bind toNsInt with
  | some tid, some spanStart, some spanEnd =>
    -- an empty span, or one that serves no request, delays nobody
    if spanEnd ≤ spanStart ∨ span.reqIds = [] then none
    else some {
      group := workerGroupKey span.ranks tid
      tid := tid
      startNs := spanStart
      endNs := spanEnd
      reqIds := span.reqIds }
  | _, _, _ => none

/-- `worker_tids_by_group`. -/
def workerTidsByGroup (spans : List WorkerSpan) : Dict WorkerGroup (List ℤ) :=
  Dict.empty.pushAll (spans.map fun span => (span.group, span.tid))

/-- The windows of all requests in the order of the loop. -/
def requestWindows (spans : List WorkerSpan) : List (WorkerGroup × String × (ℤ × ℤ)) :=
  spans.flatMap fun span =>
    span.reqIds.map fun rid => (span.group, rid, (span.startNs, span.endNs))

/-- `req_windows_by_group`. -/
def reqWindowsByGroup (spans : List WorkerSpan) : Dict WorkerGroup (Dict String (List (ℤ × ℤ))) :=
  (requestWindows spans).foldl
    (fun d item => d.alter item.1 Dict.empty fun reqs => reqs.push item.2.1 item.2.2) Dict.empty

/-- `candidate_tids`. -/
def candidateTids (spans : List WorkerSpan) (events : List SchedLatencyEvent)
    (group : WorkerGroup) : List ℤ :=
  (((workerTidsByGroup spans).getD group []).dedup.filter
    fun tid => tid ∈ (ebpfMap events).keys).sortBy id

/-! ## The overlaps -/

/-- The innermost loop: the overlaps of one window with one worker's waits,
    which it leaves at the first wait that starts after the window. -/
def waitOverlaps (window : ℤ × ℤ) (workerTid : ℤ) (dpRank : Option ℤ) :
    List OsWait → List OsOverlap
  | [] => []
  | osEv :: rest =>
    -- the waits are sorted by start, so the loop breaks here
    if window.2 ≤ osEv.startNs then []
    else if osEv.endNs ≤ window.1 then waitOverlaps window workerTid dpRank rest
    else
      let overlapStart := max window.1 osEv.startNs
      let overlapEnd := min window.2 osEv.endNs
      if overlapStart < overlapEnd then {
        startMonoNs := overlapStart
        endMonoNs := overlapEnd
        workerTid := workerTid
        dpRank := dpRank
        reason := osEv.reason } :: waitOverlaps window workerTid dpRank rest
      else waitOverlaps window workerTid dpRank rest

/-- The overlaps of one request in one group. -/
def groupOverlaps (spans : List WorkerSpan) (events : List SchedLatencyEvent)
    (group : WorkerGroup) (windows : List (ℤ × ℤ)) : List OsOverlap :=
  (mergeIntervals windows).flatMap fun window =>
    (candidateTids spans events group).flatMap fun workerTid =>
      waitOverlaps window workerTid group.dpRank (ebpfWaits events workerTid)

/-- `raw_req_os_intervals`. -/
def rawReqOsIntervals (spans : List WorkerSpan) (events : List SchedLatencyEvent) :
    Dict String (List OsOverlap) :=
  Dict.empty.pushAll ((reqWindowsByGroup spans).entries.flatMap fun group =>
    group.2.entries.flatMap fun req =>
      (groupOverlaps spans events group.1 req.2).map fun overlap => (req.1, overlap))

/-- Extend the merged overlaps, kept last one first, by one overlap. -/
def absorbOverlap (merged : List MergedOverlap) (it : OsOverlap) : List MergedOverlap :=
  if it.endMonoNs ≤ it.startMonoNs then merged
  else match merged with
    | [] => [fresh]
    | last :: rest =>
      if last.endMonoNs < it.startMonoNs then fresh :: last :: rest
      -- waits of several workers at one time count once
      else { last with
        endMonoNs := max last.endMonoNs it.endMonoNs
        workerTids := last.workerTids.insert it.workerTid
        dpRanks := it.dpRank.elim last.dpRanks last.dpRanks.insert
        reasons := (truthyReason it.reason).elim last.reasons last.reasons.insert } :: rest
where
  truthyReason (reason : Option String) : Option String := reason.filter (· ≠ "")
  fresh : MergedOverlap := {
    startMonoNs := it.startMonoNs
    endMonoNs := it.endMonoNs
    workerTids := [it.workerTid]
    dpRanks := it.dpRank.toList
    reasons := (truthyReason it.reason).toList }

/-- `merged`: the overlaps of one request, in order of time. -/
def mergeOverlaps (overlaps : List OsOverlap) : List MergedOverlap :=
  ((overlaps.sortBy fun it => startEndKey (it.startMonoNs, it.endMonoNs)).foldl absorbOverlap
    []).reverse

/-- `total_ns`. -/
def totalOverlapNs (merged : List MergedOverlap) : ℤ :=
  (merged.map fun it => it.endMonoNs - it.startMonoNs).sum

/-- The merged overlaps with their sets in sorted order. -/
def sortOverlapSets (it : MergedOverlap) : MergedOverlap :=
  { it with
    workerTids := it.workerTids.sortBy id
    dpRanks := it.dpRanks.sortBy id
    reasons := it.reasons.sortBy id }

/-- `req_os_overlap_intervals`. -/
def reqOsOverlapIntervals (log : Log) : Dict String (List MergedOverlap) :=
  (rawReqOsIntervals (log.executeModelSpans.filterMap workerSpan)
    log.ebpfSchedLatencyEvents).filterMap fun _ overlaps =>
      some ((mergeOverlaps overlaps).map sortOverlapSets)

/-- `req_latency_map` from the two event families. -/
def reqLatencyOf (spans : List ExecuteModelSpan) (events : List SchedLatencyEvent) :
    Dict String ℤ :=
  (rawReqOsIntervals (spans.filterMap workerSpan) events).filterMap fun _ overlaps =>
    let totalNs := totalOverlapNs (mergeOverlaps overlaps)
    if 0 < totalNs then some totalNs else none

/-- `req_latency_map`. -/
def reqLatencyMap (log : Log) : Dict String ℤ :=
  reqLatencyOf log.executeModelSpans log.ebpfSchedLatencyEvents

end DeLatency
