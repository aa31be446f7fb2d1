import DeLatency.Patch.SchedulerPatch
import DeLatency.Spec.CompletePairing
import DeLatency.Spec.DispatchKey
import DeLatency.Spec.PyText

/-!
# From the steps of the engine to the intervals of a request

The executor and the scheduler report each step on their own, the log has the reports in any
order, and the converter pairs them by their keys.  End to end: the dispatch intervals of a
request are the steps that it took part in, each in the phase that the scheduler saw
(`dispatchIntervals_of_steps`).  The steps must differ, and the digests of the keys must not
collide.
-/

namespace DeLatency

open SchedulerOutput

/-! ## Phases -/

/-- An interval was closed by a step-ready action. -/
structure ClosedBy (ready : Action) (d : DispatchInterval) : Prop where
  type : ready.ev.type = .reqStepReady
  dispatchKey : truthyKey ready.ev.dispatchKey ≠ none → d.dispatchKey = ready.ev.dispatchKey
  phase : ∀ phase, explicitPhase (ready.ev.phaseByReq.lookup ready.rid) = some phase →
    d.phase = phase

/-- An action that appends an interval closes it. -/
theorem closedBy_apply (a : Action) (st : ReqDispatch) {d : DispatchInterval}
    (hd : d ∈ (a.apply st).intervals) : d ∈ st.intervals ∨ ClosedBy a d := by
  obtain ⟨-, heq⟩ | ⟨-, heq⟩ | ⟨htype, heq⟩ := a.apply_cases st
  · rw [heq] at hd; exact .inl hd
  · rw [heq] at hd; exact .inl hd
  · rw [heq, closeDispatch] at hd
    split at hd
    · exact .inl hd
    · split at hd
      · exact .inl hd
      · -- the interval was there, or is the one that the ready event closes
        rcases List.mem_append.mp hd with hd | hd
        · exact .inl hd
        · obtain rfl := List.mem_singleton.mp hd
          refine .inr ⟨htype, fun hkey => ?_, fun phase hphase => ?_⟩
          · simp only [orKey, Option.isSome_iff_ne_none.mpr hkey, if_true]
          · simp only [hphase, choosePhase]

/-- An interval was there before, or some action closed it. -/
theorem closedBy_run (acts : List Action) (st : ReqDispatch) {d : DispatchInterval}
    (hd : d ∈ (runActions acts st).intervals) :
    d ∈ st.intervals ∨ ∃ a ∈ acts, ClosedBy a d := by
  induction acts generalizing st with
  | nil => exact .inl hd
  | cons a acts ih =>
    rcases ih (a.apply st) hd with hd | ⟨b, hb, hclosed⟩
    · rcases closedBy_apply a st hd with hd | hclosed
      · exact .inl hd
      · exact .inr ⟨a, List.mem_cons_self .., hclosed⟩
    · exact .inr ⟨b, List.mem_cons_of_mem _ hb, hclosed⟩

/-- The step-ready event that closed an interval of a request. -/
theorem exists_ready {hints : String → EngineHints} {events : List SchedulerEvent} {rid : String}
    {d : DispatchInterval} (hd : d ∈ (pairDispatches hints events rid).intervals) :
    ∃ ev ∈ events, ev.type = .reqStepReady ∧
      (truthyKey ev.dispatchKey ≠ none → d.dispatchKey = ev.dispatchKey) ∧
      ∀ phase, explicitPhase (ev.phaseByReq.lookup rid) = some phase → d.phase = phase := by
  rw [pairDispatches_eq] at hd
  -- an interval is closed by one of the request's ready events
  rcases closedBy_run _ _ hd with hd | ⟨a, ha, hclosed⟩
  · cases hd
  · obtain ⟨hmem, hrid⟩ := List.mem_filter.mp ha
    obtain rfl : a.rid = rid := by simpa using hrid
    exact ⟨a.ev, List.mem_of_getElem? (mem_actions hmem).1, hclosed.type, hclosed.dispatchKey,
      hclosed.phase⟩

/-! ## Steps -/

namespace EngineStep

/-- A step as the engine makes it: new requests with an id, cached requests that are ids, no
    request twice, and ready after it was handed out. -/
structure Regular (st : EngineStep) : Prop where
  newReqs : ∀ req ∈ st.so.newReqs, ∃ rid, normalizeRequestId rid = some rid ∧
    (req.item.requestId = .value rid ∨
      (req.item.requestId = .missing ∧ req.item.reqId = .value rid))
  cached : ∀ item ∈ st.so.cachedItems, ∃ rid, normalizeRequestId rid = some rid ∧
    item = some { text := rid }
  nodup : st.so.extractReqIds.Nodup
  nsTime : NsTime st.outNs
  lt : st.outNs < st.readyNs

/-- A step with requests. -/
def HasRequests (st : EngineStep) : Prop := st.so.extractReqIds ≠ []

instance (st : EngineStep) : Decidable st.HasRequests := inferInstanceAs (Decidable (_ ≠ _))

variable {st : EngineStep}

/-- A normalized id is not empty. -/
theorem ne_empty_of_normalized {rid : String} (h : normalizeRequestId rid = some rid) :
    rid ≠ "" := by
  rintro rfl
  exact absurd h (by decide)

/-- The cached requests are normalized like the others. -/
theorem cachedReqIds_eq (so : SchedulerOutput) :
    so.cachedReqIds = normalizeReqIds so.cachedItems := by
  obtain ⟨newReqs, cachedReqs, scheduled, total⟩ := so
  cases cachedReqs with
  | value cached =>
    obtain ⟨reqIds, computed⟩ := cached
    cases reqIds <;> rfl
  | _ => rfl

/-- The scheduler lists the requests that the executor lists. -/
theorem Regular.stepReadyReqIds_eq (h : st.Regular) :
    st.so.stepReadyReqIds = st.so.extractReqIds.map some := by
  -- a new request has its id under one of the two names, in normal form
  have hnew : ∀ reqs : List NewRequest, (∀ req ∈ reqs, req ∈ st.so.newReqs) →
      reqs.filterMap stepReadyId = (reqs.filterMap fun req => req.item.rid).map some := by
    intro reqs hreqs
    rw [List.map_filterMap]
    refine List.filterMap_congr fun req hreq => ?_
    obtain ⟨rid, hrid, hreqid⟩ := h.newReqs req (hreqs req hreq)
    have hne := ne_empty_of_normalized hrid
    rcases hreqid with hreqid | ⟨hmiss, hreqid⟩
    · simp [stepReadyId, ReqItem.rid, ReqItem.attrId, PyAttr.truthy, hreqid, hne, hrid]
    · simp [stepReadyId, ReqItem.rid, ReqItem.attrId, PyAttr.truthy, hmiss, hreqid, hne, hrid]
  -- a cached request is its id
  have hcached : st.so.cachedItems.map (fun item => item.map ReqItem.text) =
      st.so.cachedReqIds.map some := by
    rw [cachedReqIds_eq, normalizeReqIds, List.map_filterMap, ← List.filterMap_eq_map]
    refine List.filterMap_congr fun item hitem => ?_
    obtain ⟨rid, hrid, rfl⟩ := h.cached item hitem
    simp [ReqItem.rid, ReqItem.attrId, PyAttr.truthy, hrid]
  have hboth := congrArg₂ (· ++ ·) (hnew _ fun _ => id) hcached
  rw [← List.map_append] at hboth
  cases hattr : st.so.scheduledNewReqs with
  | null => simp only [SchedulerOutput.stepReadyReqIds, SchedulerOutput.extractReqIds, hattr,
      List.map_nil]
  | missing => simpa only [SchedulerOutput.stepReadyReqIds, SchedulerOutput.extractReqIds, hattr]
  | value reqs => simpa only [SchedulerOutput.stepReadyReqIds, SchedulerOutput.extractReqIds, hattr]

/-- The ids of a step are in normal form. -/
theorem normalizeRequestIds_extractReqIds (so : SchedulerOutput) :
    normalizeRequestIds so.extractReqIds = so.extractReqIds :=
  normalizeRequestIds_eq_self fun _ => normalizeRequestId_of_mem_extractReqIds

variable (hexdigest : List Char → List Char)

/-- The batch that the converter sees in a step. -/
def Regular.batch (h : st.Regular) : Batch where
  key := st.so.makeDispatchKey hexdigest
  reqIds := st.so.extractReqIds
  outNs := st.outNs
  readyNs := st.readyNs
  phaseByReq := st.phaseByReq.entries
  key_ne := by simp [makeDispatchKey]
  nodup := h.nodup
  nonblank := fun _ hrid => ne_empty_of_normalized (normalizeRequestId_of_mem_extractReqIds hrid)
  nsTime := h.nsTime
  lt := h.lt

/-- A step with requests is reported twice, any other not at all. -/
theorem Regular.events_eq (h : st.Regular) :
    st.events hexdigest = if st.HasRequests
      then [(h.batch hexdigest).outEvent, (h.batch hexdigest).readyEvent] else [] := by
  rw [events, executeModelEvent, updateFromOutputEvent, h.stepReadyReqIds_eq,
    List.filterMap_map, Function.id_comp, List.filterMap_some, normalizeRequestIds_extractReqIds]
  by_cases hids : st.so.extractReqIds = []
  · simp [HasRequests, hids]
  · simp [HasRequests, hids, Regular.batch, Batch.outEvent, Batch.readyEvent]

/-- The batches of the steps that have requests. -/
theorem exists_batches {steps : List EngineStep} (h : ∀ st ∈ steps, st.Regular) :
    ∃ batches : List Batch,
      steps.flatMap (events hexdigest) = batches.flatMap (fun b => [b.outEvent, b.readyEvent]) ∧
      batches.map (fun b => (b.key, b.reqIds, b.outNs, b.readyNs)) =
        (steps.filter HasRequests).map fun st =>
          (st.so.makeDispatchKey hexdigest, st.so.extractReqIds, st.outNs, st.readyNs) := by
  induction steps with
  | nil => exact ⟨[], rfl, rfl⟩
  | cons st steps ih =>
    obtain ⟨batches, hevents, hdata⟩ := ih fun st' hst' => h st' (List.mem_cons_of_mem _ hst')
    have hst := h st (List.mem_cons_self ..)
    rw [List.flatMap_cons, hst.events_eq hexdigest, hevents]
    -- a step without requests reports nothing
    by_cases hreqs : st.HasRequests
    · refine ⟨hst.batch hexdigest :: batches, by simp [hreqs], ?_⟩
      rw [List.filter_cons_of_pos (by simpa using hreqs), List.map_cons, List.map_cons, hdata]
      rfl
    · refine ⟨batches, by simp [hreqs], ?_⟩
      rw [List.filter_cons_of_neg (by simpa using hreqs), hdata]

end EngineStep

/-! ## The pairing of the steps -/

/-- The windows and the keys that the pairing gives a request on a log of batches. -/
theorem intervals_of_batches {hints : String → EngineHints} {events : List SchedulerEvent}
    {batches : List Batch} (hkeys : (batches.map Batch.key).Nodup)
    (hlog : (events.filter (·.type ≠ .reqEnqueueScheduler)).Perm
      (batches.flatMap fun b => [b.outEvent, b.readyEvent])) (rid : String) :
    ((pairDispatches hints events rid).intervals.map fun d =>
        (d.startNs, d.endNs, d.dispatchKey)).Perm
      ((batches.filter (rid ∈ ·.reqIds)).map fun b => (b.outNs, b.readyNs, some b.key)) := by
  -- before any action all batches of the request are still to come
  have hinit : Progress ((requestActions events rid).filter (·.ev.type ≠ .reqEnqueueScheduler))
      (initialDispatch hints rid) 0 0 (batches.filter (rid ∈ ·.reqIds) : List Batch) := by
    refine ⟨?_, by simp [initialDispatch], by simp [initialDispatch], ?_⟩
    · rw [Multiset.coe_eq_coe.mpr (dispatchActions_points hlog rid), coe_flatMap_pair,
        Multiset.map_zero, zero_add]
    · rw [zero_add, Multiset.map_coe, Multiset.coe_nodup]
      exact hkeys.sublist (List.filter_sublist.map _)
  -- the actions come in time order, whatever the order of the log
  have hrun := hinit.run (((pairwise_tsNs_actions events).filter _).filter _)
  rw [runActions_filter, ← pairDispatches_eq, zero_add, zero_add] at hrun
  exact Multiset.coe_eq_coe.mp (hrun.intervals.trans (Multiset.map_coe _ _))

namespace EngineStep

variable {hexdigest : List Char → List Char} {steps : List EngineStep}

/-- The steps that have requests differ pairwise, and so do the digests that stand for them. -/
def Distinct (hexdigest : List Char → List Char) (steps : List EngineStep) : Prop :=
  (steps.filter HasRequests).Pairwise fun st st' =>
    ¬st.so.SameStep st'.so ∧ ¬Collide hexdigest st.so.dispatchText st'.so.dispatchText

/-- Distinct steps have distinct keys. -/
theorem Distinct.nodup (h : Distinct hexdigest steps) :
    ((steps.filter HasRequests).map fun st => st.so.makeDispatchKey hexdigest).Nodup := by
  refine List.pairwise_map.mpr (h.imp fun {st st'} hne hkey => ?_)
  rcases sameStep_or_collide hkey with hsame | hcollide
  · exact hne.1 hsame
  · exact hne.2 hcollide

/-- A step that names a request has one. -/
theorem hasRequests_of_mem {st : EngineStep} {rid : String} (h : rid ∈ st.so.extractReqIds) :
    st.HasRequests := List.ne_nil_of_mem h

/-- A step whose event closed an interval with the key of `st` is `st`. -/
theorem Distinct.eq_of_key (h : Distinct hexdigest steps) {st st' : EngineStep}
    (hst : st ∈ steps) (hst' : st' ∈ steps) (hreqs : st.HasRequests) (hreqs' : st'.HasRequests)
    (hkey : st.so.makeDispatchKey hexdigest = st'.so.makeDispatchKey hexdigest) : st = st' :=
  List.inj_on_of_nodup_map h.nodup (List.mem_filter.mpr ⟨hst, by simpa using hreqs⟩)
    (List.mem_filter.mpr ⟨hst', by simpa using hreqs'⟩) hkey

/-- The step-ready events of a log are those of its steps. -/
theorem exists_step_of_ready {events : List SchedulerEvent} (hregular : ∀ st ∈ steps, st.Regular)
    (hlog : (events.filter (·.type ≠ .reqEnqueueScheduler)).Perm
      (steps.flatMap (EngineStep.events hexdigest))) {ev : SchedulerEvent} (hev : ev ∈ events)
    (htype : ev.type = .reqStepReady) :
    ∃ st ∈ steps, st.HasRequests ∧ ev.dispatchKey = some (st.so.makeDispatchKey hexdigest) ∧
      ev.phaseByReq = st.phaseByReq.entries := by
  have hmem : ev ∈ steps.flatMap (EngineStep.events hexdigest) :=
    hlog.subset (List.mem_filter.mpr ⟨hev, by simp [htype]⟩)
  -- every scheduler event of the log is one of some step
  obtain ⟨st, hst, hevst⟩ := List.mem_flatMap.mp hmem
  rw [(hregular st hst).events_eq hexdigest] at hevst
  split at hevst
  · next hreqs =>
    rcases List.mem_pair.mp hevst with rfl | rfl
    · cases htype
    · exact ⟨st, hst, hreqs, rfl, rfl⟩
  · cases hevst

end EngineStep

open EngineStep in
/-- The dispatch intervals of a request are, in some order, the steps that took it in: from when
    the step was handed out until it was ready.  Where the scheduler knew the phase of the
    request in a step, the interval of the step has it. -/
theorem dispatchIntervals_of_steps {hexdigest : List Char → List Char} {steps : List EngineStep}
    (log : Log) (hregular : ∀ st ∈ steps, st.Regular) (hdistinct : Distinct hexdigest steps)
    (hlog : (log.schedulerEvents.filter (·.type ≠ .reqEnqueueScheduler)).Perm
      (steps.flatMap (EngineStep.events hexdigest))) (rid : String) :
    ((reqDispatchIntervals log rid).map fun d => (d.startNs, d.endNs, d.dispatchKey)).Perm
        ((steps.filter (rid ∈ ·.so.extractReqIds)).map fun st =>
          (st.outNs, st.readyNs, some (st.so.makeDispatchKey hexdigest))) ∧
      ∀ st ∈ steps, rid ∈ st.so.extractReqIds → ∃ d ∈ reqDispatchIntervals log rid,
        d.startNs = st.outNs ∧ d.endNs = st.readyNs ∧
          ∀ phase, explicitPhase (st.phaseByReq.get? rid) = some phase → d.phase = phase := by
  obtain ⟨batches, hevents, hdata⟩ := exists_batches hexdigest hregular
  have hkeys : (batches.map Batch.key).Nodup := by
    have := congrArg (List.map Prod.fst) hdata
    rw [List.map_map, List.map_map] at this
    rw [show batches.map Batch.key = _ from this]
    exact hdistinct.nodup
  have hbatches : (batches.filter (rid ∈ ·.reqIds)).map
      (fun b => (b.outNs, b.readyNs, some b.key)) =
        (steps.filter (rid ∈ ·.so.extractReqIds)).map fun st =>
          (st.outNs, st.readyNs, some (st.so.makeDispatchKey hexdigest)) := by
    have hsel := congrArg (fun l => (l.filter fun t => rid ∈ t.2.1).map fun t =>
      (t.2.2.1, t.2.2.2, some t.1)) hdata
    simp only [List.filter_map, List.map_map, List.filter_filter] at hsel
    refine hsel.trans (congrArg (List.map _) (List.filter_congr fun st _ => ?_))
    -- a step that took the request in has requests
    by_cases hrid : rid ∈ st.so.extractReqIds
    · simp [hrid, hasRequests_of_mem hrid]
    · simp [hrid]
  have hperm : ((reqDispatchIntervals log rid).map fun d =>
      (d.startNs, d.endNs, d.dispatchKey)).Perm
        ((steps.filter (rid ∈ ·.so.extractReqIds)).map fun st =>
          (st.outNs, st.readyNs, some (st.so.makeDispatchKey hexdigest))) := by
    rw [← hbatches]
    exact intervals_of_batches hkeys (hevents ▸ hlog) rid
  refine ⟨hperm, fun st hst hrid => ?_⟩
  have hmem : (st.outNs, st.readyNs, some (st.so.makeDispatchKey hexdigest)) ∈
      (reqDispatchIntervals log rid).map fun d => (d.startNs, d.endNs, d.dispatchKey) :=
    hperm.symm.subset (List.mem_map_of_mem (List.mem_filter.mpr ⟨hst, by simpa using hrid⟩))
  obtain ⟨d, hd, hdst⟩ := List.mem_map.mp hmem
  obtain ⟨hstart, hend, hkey⟩ : d.startNs = st.outNs ∧ d.endNs = st.readyNs ∧
      d.dispatchKey = some (st.so.makeDispatchKey hexdigest) := by simpa using hdst
  refine ⟨d, hd, hstart, hend, fun phase hphase => ?_⟩
  -- the event that closed the interval has the key of the step, so it is of the step
  obtain ⟨ev, hev, htype, hevkey, hevphase⟩ := exists_ready hd
  obtain ⟨st', hst', hreqs', hkey', hphases'⟩ := exists_step_of_ready hregular hlog hev htype
  have hsame : st.so.makeDispatchKey hexdigest = st'.so.makeDispatchKey hexdigest := by
    have htruthy : truthyKey ev.dispatchKey ≠ none := by
      rw [hkey']
      simp [truthyKey, makeDispatchKey]
    have := hevkey htruthy
    rw [hkey, hkey'] at this
    exact Option.some.inj this
  obtain rfl := hdistinct.eq_of_key hst hst' (hasRequests_of_mem hrid) hreqs' hsame
  refine hevphase phase ?_
  rw [hphases']
  exact hphase

/-- A request's prefill of five tokens, and its first decode. -/
def twoSteps : List EngineStep := [
  { so := {
      scheduledNewReqs := .value [some {
        item := { requestId := .value "r", text := "" }
        numComputedTokens := some 0
        promptTokens := some 5 }]
      numScheduledTokens := .value (.dict [("r", some 5)])
      totalNumScheduledTokens := .value (some 5) }
    requests := [("r", some 5)]
    outNs := 1700000000000000000
    readyNs := 1700000000010000000 },
  { so := {
      scheduledCachedReqs := .value {
        reqIds := .value [some { text := "r" }]
        numComputedTokens := [some 5] }
      numScheduledTokens := .value (.dict [("r", some 1)])
      totalNumScheduledTokens := .value (some 1) }
    requests := [("r", some 5)]
    outNs := 1700000000005000000
    readyNs := 1700000000020000000 }]

/-- The SHA-1 digests of the two texts, which differ in their last number. -/
def twoDigests (text : List Char) : List Char :=
  if text.dropLast.getLast? = some '5' then "a0600d7ebb3a5d4d6cbac3f676e0a98e184a37f0".toList
  else "eb9b3fb46e4a3ed781661f8e0697114649e3abc5".toList

/-- Their reports, out of order. -/
def twoStepsLog : Log :=
  (twoSteps.reverse.flatMap (EngineStep.events twoDigests)).map fun ev =>
    { timestampNs := ev.timestampNs, event := .scheduler ev }

/-- Two steps of one request: two intervals with their keys. -/
theorem dispatchIntervals_of_twoSteps :
    ((reqDispatchIntervals twoStepsLog "r").map fun d => (d.startNs, d.endNs, d.dispatchKey)).Perm
        ((twoSteps.filter ("r" ∈ ·.so.extractReqIds)).map fun st =>
          (st.outNs, st.readyNs, some (st.so.makeDispatchKey twoDigests))) ∧
      ∀ st ∈ twoSteps, "r" ∈ st.so.extractReqIds → ∃ d ∈ reqDispatchIntervals twoStepsLog "r",
        d.startNs = st.outNs ∧ d.endNs = st.readyNs ∧
          ∀ phase, explicitPhase (st.phaseByReq.get? "r") = some phase → d.phase = phase := by
  have hr : normalizeRequestId "r" = some "r" := by decide
  have hregular : ∀ st ∈ twoSteps, st.Regular := by
    intro st hst
    rcases List.mem_pair.mp hst with rfl | rfl
    · refine ⟨fun req hreq => ⟨"r", hr, .inl ?_⟩, by simp [cachedItems], by decide, by decide,
        by decide⟩
      obtain rfl := List.mem_singleton.mp hreq
      rfl
    · refine ⟨by simp [newReqs], fun item hitem => ⟨"r", hr, List.mem_singleton.mp hitem⟩,
        by decide, by decide, by decide⟩
  -- the two steps render differently, and the digests are told apart
  have hdistinct : EngineStep.Distinct twoDigests twoSteps := by
    refine List.Pairwise.filter _ (List.pairwise_pair.mpr ⟨fun h => ?_, fun h => ?_⟩)
    · exact absurd (dispatchText_eq_iff.mpr h) (by decide +kernel)
    · exact absurd h.2 (by decide +kernel)
  exact dispatchIntervals_of_steps twoStepsLog hregular hdistinct (by decide +kernel) "r"

end DeLatency
