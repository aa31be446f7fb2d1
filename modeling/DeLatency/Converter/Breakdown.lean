import DeLatency.Converter.Lifecycle
import DeLatency.Converter.PpGap

/-!
# Compute breakdown: the TTFT and TPOT entries

The loop over all requests builds at most one `ttft` and one `tpot` entry for a
request.  `RequestInputs` is what it looks up under the request; the entries are
functions of that.  The fields in milliseconds and percentages are left out.
-/

namespace DeLatency

/-- What the maps of `process_logs` hold under one request. -/
structure RequestInputs where
  dispatches : List DispatchInterval
  queueIntervals : List QueueInterval
  phaseIntervals : Dict String (List PhaseInterval)
  stepExecution : List StepExecution
  stageIntervals : List StageInterval
  generateStart : Option ℤ
  generateExec : List GenerateExec
  enqueueTs : Option ℤ

/-- The inputs of `rid` in a log. -/
def requestInputs (log : Log) (rid : String) : RequestInputs where
  dispatches := reqDispatchIntervals log rid
  queueIntervals := queueIntervals log rid
  phaseIntervals := (collectWorkerIntervals log.workerEvents).phaseIntervals rid
  stepExecution := (collectWorkerIntervals log.workerEvents).stepExecution rid
  stageIntervals := reqStageIntervals log.reqStageEvents rid
  generateStart := reqGenerateStart log.coroutineEvents rid
  generateExec := reqGenerateExec log.coroutineExecEvents rid
  enqueueTs := reqEnqueueMap log.schedulerEvents rid

/-- `phase_exec_name_map`. -/
def phaseExecNameMap : List (String × String) := [
  ("Preprocess", "worker_preprocess"),
  ("Forward", "model_forward"),
  ("Postprocess", "postprocess"),
  ("Sample", "sampling"),
  ("Bookkeep", "bookkeeping_sync")]

/-- Move one component into another, when it is there. -/
def foldComponent (into key : String) (phaseNs : Dict String ℤ) : Dict String ℤ :=
  if key ∈ phaseNs.keys then (phaseNs.erase key).add into (phaseNs.getD key 0) else phaseNs

/-- `prefill_exec_phase_ns` and `tpot_exec_phase_ns`: the wall components with
    `other_compute` and `pipeline_gap` folded into one. -/
def execPhaseNs (other : String) (breakdown : PpGapBreakdown) : Dict String ℤ :=
  foldComponent other "pipeline_gap"
    (foldComponent other "other_compute" (Dict.empty.addAll breakdown.wallComponentsNs.entries))

/-! ## TTFT -/

/-- `components_ns` of a `ttft` entry. -/
structure TtftComponents where
  preprocess : ℤ
  enginecoreQueue : ℤ
  vllmQueue : ℤ
  prefillExec : ℤ
  postprocessTransport : ℤ
  otherGap : ℤ
deriving DecidableEq

/-- The values of `components_ns`. -/
def TtftComponents.values (c : TtftComponents) : List ℤ :=
  [c.preprocess, c.enginecoreQueue, c.vllmQueue, c.prefillExec, c.postprocessTransport, c.otherGap]

inductive TtftStartRule
  | generateWrapperSetupStart
  | coroutineStart
deriving DecidableEq

/-- A `ttft` entry. -/
structure TtftEntry where
  windowNs : ℤ
  startNs : ℤ
  endNs : ℤ
  initialPrefillEndNs : ℤ
  ttftStartRule : TtftStartRule
  prefillDispatchCount : ℕ
  phaseReentryAfterDecode : Bool
  componentsNs : TtftComponents
  beforeFirstPrefillNs : ℤ
  betweenPrefillsNs : ℤ
  prefillExecPhaseNs : Dict String ℤ
  ppGapBreakdown : PpGapBreakdown

namespace RequestInputs

variable (r : RequestInputs)

/-- `initial_prefill_dispatches_sorted`: the prefills before the first decode. -/
def initialPrefills : List DispatchInterval :=
  sortDispatches (((sortDispatches r.dispatches).takeWhile (·.phase ≠ .decode)).filter
    (·.phase = .prefill))

/-- `phase_reentry_after_decode`. -/
def phaseReentryAfterDecode : Bool :=
  ((sortDispatches r.dispatches).dropWhile (·.phase ≠ .decode)).tail.any (·.phase = .prefill)

/-- `generate_setup_start_ns`. -/
def generateSetupStart : Option ℤ :=
  ((r.stageIntervals.filter (·.stage = "async_llm.generate_wrapper_setup")).filterMap
    fun s => toNsInt s.startNs).min?

/-- `ttft_start_ns`. -/
def ttftStart : Option ℤ := r.generateSetupStart <|> r.generateStart.bind toNsInt

/-- `generate_consume_intervals`. -/
def generateConsume : List GenerateExec :=
  (r.generateExec.filter (·.taskKind = some "generate_consume")).sortBy
    fun x => startEndKey (x.startNs, x.endNs)

/-- `first_generate_consume_end_ns`. -/
def firstGenerateConsumeEnd : Option ℤ :=
  r.generateConsume.head?.bind fun x => toNsInt x.endNs

/-- `enginecore_queue_intervals`. -/
def enginecoreQueue : List (ℤ × ℤ) :=
  (r.stageIntervals.filter (·.stage = "engine_core.input_queue_wait_after_preprocess")).map
    fun s => (s.startNs, s.endNs)

/-- The clipped spans of the loop over the sorted `enginecore_queue_intervals`. -/
def enginecoreQueueSpans (startNs endNs : ℤ) : List (ℤ × ℤ) :=
  clipAll (some startNs) (some endNs) (r.enginecoreQueue.sortBy startEndKey)

/-- `preprocess_boundary_ns`: the first input-queue wait, or else the earliest of
    enqueue, first prefill and window end; clamped to the window. -/
def preprocessBoundary (startNs endNs firstPrefillStart : ℤ) : ℤ :=
  let boundary := match (r.enginecoreQueueSpans startNs endNs).head? with
    | some span => span.1
    | none => match r.enqueueTs.bind toNsInt with
      | some enqueueNs => min enqueueNs (min firstPrefillStart endNs)
      | none => min firstPrefillStart endNs
  max startNs (min boundary endNs)

/-- `enginecore_queue_end_ns`: the end of the last input-queue wait, clamped. -/
def enginecoreQueueEnd (startNs endNs firstPrefillStart : ℤ) : ℤ :=
  let boundary := r.preprocessBoundary startNs endNs firstPrefillStart
  let queueEnd := match (r.enginecoreQueueSpans startNs endNs).getLast? with
    | some span => span.2
    | none => boundary
  max boundary (min queueEnd firstPrefillStart)

/-- `prefill_schedule_gap_ns`. -/
def prefillScheduleGap (prefills : List DispatchInterval) : ℤ :=
  ((prefills.zip prefills.tail).map fun pair =>
    match toNsInt pair.1.endNs, toNsInt pair.2.startNs with
    | some prevEnd, some nextStart => max 0 (nextStart - prevEnd)
    | _, _ => 0).sum

/-- The entry for a window `[startNs, endNs)` with a first prefill at
    `firstPrefillStart` and a last prefill end at `lastPrefillEnd`. -/
def buildTtft (startNs endNs firstPrefillStart lastPrefillEnd : ℤ) : TtftEntry :=
  let prefills := r.initialPrefills
  let enginecoreQueueNs :=
    (sumClippedIntervalItems r.enginecoreQueue (some startNs) (some endNs) false).1
  let preprocessNs := max 0 (r.preprocessBoundary startNs endNs firstPrefillStart - startNs)
  let beforeFirstPrefillNs :=
    max 0 (firstPrefillStart - r.enginecoreQueueEnd startNs endNs firstPrefillStart)
  let betweenPrefillsNs := prefillScheduleGap prefills
  let vllmQueueNs := beforeFirstPrefillNs + betweenPrefillsNs
  -- the prefills are merged here, while `betweenPrefillsNs` looks at neighbours
  let prefillExecNs := (sumClippedIntervalItems (prefills.map DispatchInterval.window)
    (some firstPrefillStart) (some lastPrefillEnd) true).1
  let totalNs := endNs - startNs
  let postprocessTransportNs := max 0 (endNs - lastPrefillEnd)
  let breakdown := buildPpGapDispatchBreakdown prefills r.phaseIntervals r.stepExecution
    phaseExecNameMap
  { windowNs := totalNs
    startNs := startNs
    endNs := endNs
    initialPrefillEndNs := lastPrefillEnd
    ttftStartRule := if r.generateSetupStart.isSome then .generateWrapperSetupStart
      else .coroutineStart
    prefillDispatchCount := prefills.length
    phaseReentryAfterDecode := r.phaseReentryAfterDecode
    componentsNs := {
      preprocess := preprocessNs
      enginecoreQueue := enginecoreQueueNs
      vllmQueue := vllmQueueNs
      prefillExec := prefillExecNs
      postprocessTransport := postprocessTransportNs
      otherGap := max 0 (totalNs - preprocessNs - enginecoreQueueNs - vllmQueueNs - prefillExecNs -
        postprocessTransportNs) }
    beforeFirstPrefillNs := beforeFirstPrefillNs
    betweenPrefillsNs := betweenPrefillsNs
    prefillExecPhaseNs := execPhaseNs "other_prefill_exec" breakdown
    ppGapBreakdown := breakdown }

/-- `ttft_entry`; `none` is a request listed under `ttft_missing`. -/
def ttftEntry : Option TtftEntry :=
  match r.ttftStart, r.firstGenerateConsumeEnd, r.initialPrefills.head?,
      (r.initialPrefills.map (·.endNs)).max? with
  | some startNs, some endNs, some first, some lastPrefillEnd =>
    if startNs < endNs then
      -- a prefill whose start does not convert drops the entry
      (toNsInt first.startNs).map fun firstPrefillStart =>
        r.buildTtft startNs endNs firstPrefillStart lastPrefillEnd
    else none
  | _, _, _, _ => none

end RequestInputs

/-! ## TPOT -/

/-- `components_ns_total` of a `tpot` entry. -/
structure TpotComponents where
  vllmSchedulingWait : ℤ
  workerPreprocess : ℤ
  modelForward : ℤ
  postprocess : ℤ
  sampling : ℤ
  bookkeepingSync : ℤ
  ppGap : ℤ
  otherExec : ℤ
  tailTransport : ℤ
  otherGap : ℤ
deriving DecidableEq

/-- The values of `components_ns_total`. -/
def TpotComponents.values (c : TpotComponents) : List ℤ :=
  [c.vllmSchedulingWait, c.workerPreprocess, c.modelForward, c.postprocess, c.sampling,
    c.bookkeepingSync, c.ppGap, c.otherExec, c.tailTransport, c.otherGap]

/-- A `tpot` entry. -/
structure TpotEntry where
  windowNs : ℤ
  startNs : ℤ
  endNs : ℤ
  decodeDispatchCount : ℕ
  lastDecodeEndNs : ℤ
  execTotalNs : ℤ
  recomputePrefillExecNs : ℤ
  decodeExecNs : ℤ
  schedulingWaitNormalNs : ℤ
  schedulingWaitPreemptNs : ℤ
  preemptTsNs : List ℤ
  componentsNsTotal : TpotComponents
  execPhaseNs : Dict String ℤ
  ppGapBreakdown : PpGapBreakdown
  phaseReentryAfterDecode : Bool

/-- The scheduling waits of the window: clipped span, preempt hits in it. -/
structure SchedulingWait where
  span : ℤ × ℤ
  gapKind : GapKind
  preemptHits : List ℤ

/-- A wait counts as preempted when it was classified so and a hit lies inside
    its clipped span. -/
def SchedulingWait.isPreempt (w : SchedulingWait) : Bool :=
  w.gapKind = .preemptWait ∧ w.preemptHits ≠ []

/-- The length of the clipped span. -/
def SchedulingWait.lengthNs (w : SchedulingWait) : ℤ := w.span.2 - w.span.1

namespace RequestInputs

variable (r : RequestInputs)

/-- `last_generate_consume_end_ns`. -/
def lastGenerateConsumeEnd : Option ℤ :=
  (r.generateConsume.filterMap fun x => toNsInt x.endNs).max?

/-- `post_start_dispatches`. -/
def postStartDispatches (windowStart : ℤ) : List DispatchInterval :=
  (sortDispatches r.dispatches).filter fun d => windowStart < d.endNs

/-- `post_start_decode_dispatches`. -/
def postStartDecodes (windowStart : ℤ) : List DispatchInterval :=
  (r.postStartDispatches windowStart).filter (·.phase = .decode)

/-- `tpot_exec_dispatches`: the dispatches clipped to the decode stretch. -/
def tpotExecDispatches (windowStart execEnd : ℤ) : List DispatchInterval :=
  (r.postStartDispatches windowStart).filterMap fun d =>
    (clipInterval d.startNs d.endNs (some windowStart) (some execEnd)).map fun span =>
      { d with startNs := span.1, endNs := span.2 }

/-- `dispatch_phase_by_start.get(ts)`. -/
def dispatchPhaseByStart (ts : ℤ) : Option Phase :=
  ((sortDispatches r.dispatches).find? (·.startNs = ts)).map (·.phase)

/-- `post_start_queue_intervals`: the waits that lead to a prefill or decode. -/
def postStartQueue : List QueueInterval :=
  (r.queueIntervals.sortBy fun q => startEndKey (q.startNs, q.endNs)).filter fun q =>
    r.dispatchPhaseByStart q.endNs = some .prefill ∨ r.dispatchPhaseByStart q.endNs = some .decode

/-- The waits inside the decode stretch. -/
def schedulingWaits (windowStart execEnd : ℤ) : List SchedulingWait :=
  r.postStartQueue.filterMap fun q =>
    (clipInterval q.startNs q.endNs (some windowStart) (some execEnd)).map fun span => {
      span := span
      gapKind := q.gapKind
      preemptHits := q.preemptTsNs.filter fun ts => span.1 ≤ ts ∧ ts ≤ span.2 }

/-- The merged time of the dispatches of a window. -/
def execNs (dispatches : List DispatchInterval) (windowStart execEnd : ℤ) : ℤ × List (ℤ × ℤ) :=
  sumClippedIntervalItems (dispatches.map DispatchInterval.window) (some windowStart)
    (some execEnd) true

/-- The entry for the window `[windowStart, windowEnd)` whose last decode ends at
    `execEnd`. -/
def buildTpot (windowStart windowEnd execEnd : ℤ) : TpotEntry :=
  let dispatches := r.tpotExecDispatches windowStart execEnd
  let exec := execNs dispatches windowStart execEnd
  let waits := r.schedulingWaits windowStart execEnd
  let waitNormalNs := ((waits.filter fun w => !w.isPreempt).map SchedulingWait.lengthNs).sum
  let waitPreemptNs := ((waits.filter SchedulingWait.isPreempt).map SchedulingWait.lengthNs).sum
  -- the breakdown of the clipped dispatches, so its windows end at `execEnd`
  let breakdown := buildPpGapDispatchBreakdown dispatches r.phaseIntervals r.stepExecution
    phaseExecNameMap
  let phaseNs := DeLatency.execPhaseNs "other_exec" breakdown
  { windowNs := windowEnd - windowStart
    startNs := windowStart
    endNs := windowEnd
    decodeDispatchCount := (r.postStartDecodes windowStart).length
    lastDecodeEndNs := execEnd
    execTotalNs := exec.1
    recomputePrefillExecNs :=
      (execNs (dispatches.filter (·.phase = .prefill)) windowStart execEnd).1
    decodeExecNs := (execNs (dispatches.filter (·.phase = .decode)) windowStart execEnd).1
    schedulingWaitNormalNs := waitNormalNs
    schedulingWaitPreemptNs := waitPreemptNs
    preemptTsNs := (waits.filter SchedulingWait.isPreempt).flatMap (·.preemptHits)
    componentsNsTotal := {
      vllmSchedulingWait := waitNormalNs + waitPreemptNs
      workerPreprocess := phaseNs.getD "worker_preprocess" 0
      modelForward := phaseNs.getD "model_forward" 0
      postprocess := phaseNs.getD "postprocess" 0
      sampling := phaseNs.getD "sampling" 0
      bookkeepingSync := phaseNs.getD "bookkeeping_sync" 0
      ppGap := phaseNs.getD "pp_gap" 0
      otherExec := phaseNs.getD "other_exec" 0
      tailTransport := max 0 (windowEnd - execEnd)
      otherGap := uncoveredIntervalNs windowStart windowEnd
        (waits.map SchedulingWait.span ++ exec.2 ++ [(execEnd, windowEnd)]) }
    execPhaseNs := phaseNs
    ppGapBreakdown := breakdown
    phaseReentryAfterDecode := r.phaseReentryAfterDecode }

/-- `tpot_entry` after a `ttft` entry whose initial prefills end at
    `initialPrefillEnd`. -/
def tpotEntryAfter (initialPrefillEnd : ℤ) : Option TpotEntry :=
  if ¬ r.dispatches.any (·.phase = .decode) then none
  else match toNsInt initialPrefillEnd with
    | none => none
    | some windowStart =>
      match ((r.postStartDecodes windowStart).map (·.endNs)).max?, r.lastGenerateConsumeEnd with
      | some execEnd, some windowEnd =>
        -- the tokens must not be consumed before the last decode ends
        if windowStart < execEnd ∧ execEnd ≤ windowEnd then
          some (r.buildTpot windowStart windowEnd execEnd)
        else none
      | _, _ => none

/-- `tpot_entry`; `none` is a request listed under `tpot_missing`. -/
def tpotEntry : Option TpotEntry :=
  r.ttftEntry.bind fun ttft => r.tpotEntryAfter ttft.initialPrefillEndNs

/-! ## The pipeline-gap report -/

/-- `_request_pp_gap_intervals`. -/
def requestPpGapIntervals : List PpGapInterval :=
  let ttft := (r.ttftEntry.map fun e => e.ppGapBreakdown.dispatches).getD []
  let tpot := (r.tpotEntry.map fun e => e.ppGapBreakdown.dispatches).getD []
  ((ttft ++ tpot).flatMap (·.ppGapIntervals)).sortBy fun gap => startEndKey (gap.startNs, gap.endNs)

/-- `_request_pp_gap_wall_ns`. -/
def requestPpGapWallNs : ℤ :=
  sumIntervalPairs (mergeIntervals (clipAll none none
    (r.requestPpGapIntervals.map fun gap => (gap.startNs, gap.endNs))))

end RequestInputs

end DeLatency
