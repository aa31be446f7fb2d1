import DeLatency.Spec.Breakdown
import DeLatency.Spec.Coroutine
import DeLatency.Spec.Queue
import DeLatency.Spec.SliceStarts

/-!
# No slice is lost to the origin

The origin of a trace is the smallest of the time stamps that `infer_trace_origin_ns` looks
at.  Most slices start at one of these, or behind one (`ListedStart`).  Three kinds of
starts are not looked at (`UnlistedStart`): the time at which a coroutine became ready, the
start that is derived for a coroutine from its duration, and the start of work on the GPU.

So slices are lost exactly when one of those comes before all the times that are looked at.
-/

namespace DeLatency

/-! ## The origin is a minimum -/

/-- The time stamps that the origin is the smallest of. -/
def originTimes (log : Log) : List ℤ := (originCandidates log).filterMap id

/-- The times that the origin is taken from, and those at which a coroutine became ready,
    are in nanoseconds. -/
structure WallTimesInNs (log : Log) : Prop where
  origin : ∀ t ∈ originTimes log, NsTime t
  ready : ∀ ev ∈ log.coroutineEvents, ∀ t, ev.readyTsNs = some t → NsTime t

/-- The update keeps the least of the times that are read. -/
private theorem foldl_updateMinNs (candidates : List (Option ℤ)) (minNs : Option ℤ) :
    candidates.foldl updateMinNs minNs =
      (minNs.toList ++ candidates.filterMap (·.bind toNsInt)).min? := by
  induction candidates generalizing minNs with
  | nil => cases minNs <;> simp
  | cons c rest ih =>
    rw [List.foldl_cons, ih]
    -- a time that is not read changes nothing
    cases hc : c.bind toNsInt with
    | none => simp only [updateMinNs, hc, List.filterMap_cons]
    | some ns =>
      simp only [updateMinNs, hc, List.filterMap_cons]
      cases minNs with
      | none => rfl
      | some m =>
        have hmin : (if ns < m then some ns else some m) = some (min m ns) := by
          split <;> grind
        simp only [hmin, Option.toList_some, List.cons_append, List.nil_append, List.min?_cons',
          List.foldl_cons]

variable {log : Log} {t : ℤ}

/-- In nanoseconds the origin is the earliest time listed. -/
theorem inferTraceOriginNs_eq (h : WallTimesInNs log) :
    inferTraceOriginNs log = (originTimes log).min?.getD 0 := by
  have hread : (originCandidates log).filterMap (·.bind toNsInt) = originTimes log := by
    have hid : (originTimes log).filterMap toNsInt = originTimes log := by
      have hsome : ∀ t ∈ originTimes log, toNsInt t = some t := fun t ht => (h.origin t ht).toNsInt
      rw [List.filterMap_congr hsome, List.filterMap_some]
    conv_rhs => rw [← hid, originTimes, List.filterMap_filterMap]
    rfl
  rw [inferTraceOriginNs, foldl_updateMinNs, hread, Option.toList_none, List.nil_append]

/-- The origin is at most every time it is taken from. -/
theorem origin_le (h : WallTimesInNs log) (ht : t ∈ originTimes log) :
    inferTraceOriginNs log ≤ t := by
  rw [inferTraceOriginNs_eq h]
  cases hmin : (originTimes log).min? with
  | none =>
    rw [List.min?_eq_none_iff.mp hmin] at ht
    simp at ht
  | some m => exact (List.min?_eq_some_iff.mp hmin).2 t ht

/-- The origin is one of these times, if there are any. -/
theorem origin_mem (h : WallTimesInNs log) (hne : originTimes log ≠ []) :
    inferTraceOriginNs log ∈ originTimes log := by
  rw [inferTraceOriginNs_eq h]
  cases hmin : (originTimes log).min? with
  | none => exact absurd (List.min?_eq_none_iff.mp hmin) hne
  | some m => exact (List.min?_eq_some_iff.mp hmin).1

/-- With no time listed it is zero. -/
theorem origin_of_nil (h : WallTimesInNs log) (hnil : originTimes log = []) :
    inferTraceOriginNs log = 0 := by
  rw [inferTraceOriginNs_eq h, hnil]
  rfl

/-! ## Starts -/

/-- The starts of slices that the origin looks at. -/
inductive ListedStart (log : Log) : ℤ → Prop
  | worker {ev : WorkerEvent} {t : ℤ} (hev : ev ∈ log.workerEvents) (ht : ev.ts = some t) :
      ListedStart log t
  | scheduler {ev : SchedulerEvent} {t : ℤ} (hev : ev ∈ log.schedulerEvents)
      (ht : ev.timestampNs = some t) : ListedStart log t
  | coroutine {ev : CoroutineEvent} {t : ℤ} (hev : ev ∈ log.coroutineEvents)
      (ht : ev.timestampNs = some t) : ListedStart log t
  | coroutineExec {ev : CoroutineExecEvent} {t : ℤ} (hev : ev ∈ log.coroutineExecEvents)
      (ht : ev.startNs = some t) : ListedStart log t
  | outputSched {stage : OutputStage} {ev : OutputSchedEvent} {t : ℤ}
      (hev : ev ∈ log.outputSchedEvents stage) (ht : ev.readyTsNs = some t) : ListedStart log t
  | outputExec {stage : OutputStage} {ev : OutputExecEvent} {t : ℤ}
      (hev : ev ∈ log.outputExecEvents stage) (ht : ev.startNs = some t) : ListedStart log t
  | reqStage {ev : ReqStageEvent} {t : ℤ} (hev : ev ∈ log.reqStageEvents)
      (ht : ev.startNs = some t) : ListedStart log t
  | enginecoreLoop {ev : EnginecoreLoopEvent} {t : ℤ} (hev : ev ∈ log.enginecoreLoopEvents)
      (ht : ev.startNs = some t) : ListedStart log t
  | ppComm {ev : PpCommEvent} {t : ℤ} (hev : ev ∈ log.ppCommEvents)
      (ht : ev.startNs = some t) : ListedStart log t
  | cuptiCall {rt : CuptiPayload} {t : ℤ}
      (hrt : rt ∈ (cuptiRecords log.cuptiMessages).cuptiEvents) (ht : rt.startNs = some t) :
      ListedStart log t

/-- The starts of slices that the origin does not look at. -/
inductive UnlistedStart (log : Log) : ℤ → Prop
  /-- the time at which a coroutine became ready to run -/
  | ready {ev : CoroutineEvent} {rid : String} {p : ℤ × ℤ} (hev : ev ∈ log.coroutineEvents)
      (hwait : ev.Waited rid p) (hrid : rid ∈ allReqIds log) : UnlistedStart log p.1
  /-- the start that the end of a coroutine counts back to -/
  | derived {rid : String} {t : ℤ}
      (h : DerivedStart (sortCoroutineEvents log.coroutineEvents) rid t) : UnlistedStart log t
  /-- the start of work on the GPU -/
  | gpu {message : CuptiMessage} {t : ℤ} (hmem : message ∈ log.cuptiMessages)
      (heager : message.IsEager) (ht : message.payload.startNs = some t) : UnlistedStart log t

/-- A listed start is one of the times looked at. -/
theorem ListedStart.mem_originTimes (h : ListedStart log t) : t ∈ originTimes log := by
  refine List.mem_filterMap.mpr ⟨some t, ?_, rfl⟩
  -- the families in the order in which they are looked at
  simp only [originCandidates, List.mem_append, or_assoc]
  cases h with
  | worker hev ht =>
    left
    refine List.mem_flatMap.mpr ⟨_, hev, ?_⟩
    -- the time of a worker event is its start, when it has one
    rw [WorkerEvent.ts, Option.orElse_eq_orElse, Option.orElse_eq_or, Option.or_eq_some_iff] at ht
    obtain hstart | ⟨-, htime⟩ := ht
    · simp [hstart]
    · simp [htime]
  | scheduler hev ht =>
    right
    left
    exact List.mem_map.mpr ⟨_, hev, ht⟩
  | coroutine hev ht =>
    iterate 2 right
    left
    exact List.mem_map.mpr ⟨_, hev, ht⟩
  | coroutineExec hev ht =>
    iterate 3 right
    left
    exact List.mem_flatMap.mpr ⟨_, hev, by simp [ht]⟩
  | @outputSched stage _ _ hev ht =>
    cases stage with
    | socket =>
      iterate 4 right
      left
      exact List.mem_flatMap.mpr ⟨_, hev, by simp [ht]⟩
    | handler =>
      iterate 6 right
      left
      exact List.mem_flatMap.mpr ⟨_, hev, by simp [ht]⟩
  | @outputExec stage _ _ hev ht =>
    cases stage with
    | socket =>
      iterate 5 right
      left
      exact List.mem_flatMap.mpr ⟨_, hev, by simp [ht]⟩
    | handler =>
      iterate 7 right
      left
      exact List.mem_flatMap.mpr ⟨_, hev, by simp [ht]⟩
  | reqStage hev ht =>
    iterate 8 right
    left
    exact List.mem_flatMap.mpr ⟨_, hev, by simp [ht]⟩
  | enginecoreLoop hev ht =>
    iterate 9 right
    left
    exact List.mem_flatMap.mpr ⟨_, hev, by simp [ht]⟩
  | ppComm hev ht =>
    iterate 10 right
    left
    exact List.mem_flatMap.mpr ⟨_, hev, by simp [ht]⟩
  | cuptiCall hrt ht =>
    iterate 11 right
    exact List.mem_flatMap.mpr ⟨_, hrt, by simp [ht]⟩

/-- A time that is not before all the listed ones. -/
def Covered (log : Log) (t : ℤ) : Prop := ∃ u ∈ originTimes log, u ≤ t

/-- The origin does not come after a listed start. -/
theorem ListedStart.covered (h : ListedStart log t) : Covered log t :=
  ⟨t, h.mem_originTimes, le_refl t⟩

/-- A slice of the log starts at a covered time, or at an unlisted one. -/
def StartsWell (log : Log) (s : Slice) : Prop := Covered log s.tsNs ∨ UnlistedStart log s.tsNs

/-- A drawn span starts where it was told to. -/
theorem start_of_mem_drawSpan {name cat : String} {startNs endNs : ℤ} {s : Slice}
    (hs : s ∈ drawSpan name cat startNs endNs) : s.tsNs = startNs := by
  unfold drawSpan at hs
  split at hs
  · rw [List.mem_singleton] at hs
    rw [hs]
    rfl
  · simp at hs

/-! ### Scheduler -/

/-- A time that is looked at is read as it stands. -/
theorem WallTimesInNs.eq_of_toNsInt (h : WallTimesInNs log) {raw : ℤ} (hraw : ListedStart log raw)
    (hread : toNsInt raw = some t) : raw = t := by
  rw [(h.origin raw hraw.mem_originTimes).toNsInt] at hread
  exact Option.some.inj hread

/-- A converted time is listed when the logged one is. -/
theorem WallTimesInNs.listed_of_bind (h : WallTimesInNs log) {logged : Option ℤ}
    (hlisted : ∀ raw, logged = some raw → ListedStart log raw)
    (ht : logged.bind toNsInt = some t) : ListedStart log t := by
  obtain ⟨raw, hraw, hread⟩ := Option.bind_eq_some_iff.mp ht
  rw [← h.eq_of_toNsInt (hlisted raw hraw) hread]
  exact hlisted raw hraw

/-- A converted time of the scheduler is a logged one. -/
theorem WallTimesInNs.listed_scheduler (h : WallTimesInNs log) {ev : SchedulerEvent}
    (hev : ev ∈ log.schedulerEvents) (ht : ev.timestampNs.bind toNsInt = some t) :
    ListedStart log t :=
  h.listed_of_bind (fun _ hraw => .scheduler hev hraw) ht

/-- The scheduler's times are among those in nanoseconds. -/
theorem WallTimesInNs.scheduler (h : WallTimesInNs log) : SchedulerInNs log :=
  fun _ hev t ht => h.origin t (h.listed_scheduler hev ht).mem_originTimes

variable {rid : String}

/-- Dispatches start and end at logged times. -/
theorem listed_of_mem_dispatches (h : WallTimesInNs log) {d : DispatchInterval}
    (hd : d ∈ reqDispatchIntervals log rid) :
    ListedStart log d.startNs ∧ ListedStart log d.endNs := by
  obtain ⟨out, hout, ready, hready, hj⟩ :=
    (tracks_pairDispatches (extractEngineHints log.reqMetricEvents) log.schedulerEvents
      rid).intervals d hd
  -- both ends come from actions of scheduler events, whose times are listed
  have htime : ∀ a ∈ requestActions log.schedulerEvents rid, ListedStart log a.tsNs := by
    intro a ha
    obtain ⟨hev, -, hts⟩ := mem_actions (List.mem_of_mem_filter ha)
    exact h.listed_scheduler (List.mem_of_getElem? hev) hts
  constructor
  · rw [hj.startNs]
    exact htime out hout
  · rw [hj.endNs]
    exact htime ready hready

/-- Queue waits start with an enqueue or with the end of a dispatch. -/
theorem listed_of_mem_queue (h : WallTimesInNs log) {q : QueueInterval}
    (hq : q ∈ queueIntervals log rid) : ListedStart log q.startNs := by
  have hpos : ∀ d ∈ reqDispatchIntervals log rid, 0 < d.startNs ∧ d.startNs < d.endNs :=
    fun d hd => pos_of_mem_dispatches hd
  have hspan := (mem_spans_buildQueue hpos).mp (List.mem_map_of_mem (f := QueueInterval.span) hq)
  obtain hgap | ⟨e, he, p, -, -, heq⟩ := hspan
  · obtain ⟨before, p, r, after, hsplit, -, heq⟩ := mem_gaps_readWindows.mp hgap
    have hmem : p ∈ sortedWindows (reqDispatchIntervals log rid) := by
      rw [hsplit]
      simp
    obtain ⟨d, hd, rfl⟩ := mem_sortedWindows.mp hmem
    have hns : NsTime d.endNs := (nsSpan_of_mem_dispatches h.scheduler hd).1.finish
    have hstart : q.startNs = readNs d.endNs := congrArg Prod.fst heq
    rw [hstart, hns.readNs]
    exact (listed_of_mem_dispatches h hd).2
  · have hstart : q.startNs = e := congrArg Prod.fst heq
    rw [hstart]
    -- the enqueue time is that of a scheduler event
    obtain ⟨raw, hraw, hread⟩ := Option.bind_eq_some_iff.mp (Option.mem_def.mp he)
    obtain ⟨ev, hev, hite⟩ := List.exists_of_findSome?_eq_some hraw
    split at hite
    · apply h.listed_scheduler hev
      rw [hite]
      exact hread
    · cases hite

/-! ### Requests -/

/-- The intervals of a request that an event lists. -/
private theorem covered_of_mem_slices {spans : ReqSpans} {name cat : String} {s : Slice}
    (hspans : ∀ p ∈ spans.intervals.getD rid [], ListedStart log p.1)
    (hs : s ∈ spans.slices rid name cat) : StartsWell log s := by
  obtain ⟨p, hp, hs⟩ := List.mem_flatMap.mp hs
  left
  rw [start_of_mem_drawSpan hs]
  exact (hspans p hp).covered

/-- The waits of coroutines. -/
private theorem startsWell_of_draws {s : Slice} {p : ℤ × ℤ} {name cat : String}
    (hrid : rid ∈ allReqIds log) (hdraws : (coroutineLifecycle log.coroutineEvents).Draws rid p)
    (hs : s ∈ drawSpan name cat p.1 p.2) : StartsWell log s := by
  obtain ⟨ev, hev, hwait⟩ := draws_coroutineLifecycle.mp hdraws
  right
  rw [start_of_mem_drawSpan hs]
  exact .ready hev hwait hrid

/-- The span of a request starts with a logged start or with a derived one. -/
private theorem startsWell_lifecycle {s : Slice} {span : ℤ × ℤ} {name cat : String}
    (hspan : (coroutineLifecycle log.coroutineEvents).requestSpans.get? rid = some span)
    (hs : s ∈ drawSpan name cat span.1 span.2) : StartsWell log s := by
  unfold StartsWell
  rw [start_of_mem_drawSpan hs]
  obtain ⟨ev, hev, hts⟩ | hderived := (spanFrom_runCoroutines hspan).start
  · exact .inl (ListedStart.coroutine (List.mem_sortBy.mp hev) hts).covered
  · exact .inr (.derived hderived)

/-- The slices of a request start at listed times or later. -/
theorem startsWell_requestSlices (h : WallTimesInNs log) (hrid : rid ∈ allReqIds log) {s : Slice}
    (hs : s ∈ requestSlices log rid) : StartsWell log s := by
  unfold requestSlices at hs
  simp only [List.mem_append, or_assoc] at hs
  obtain hs | hs | hs | hs | hs | hs | hs | hs | hs | hs | hs | hs := hs
  · obtain ⟨span, hspan, hs⟩ := List.mem_flatMap.mp hs
    exact startsWell_lifecycle (Option.mem_toList.mp hspan) hs
  · obtain ⟨d, hd, hs⟩ := List.mem_flatMap.mp hs
    left
    rw [start_of_mem_drawSpan hs]
    exact (listed_of_mem_dispatches h hd).1.covered
  · -- a pipeline gap lies behind the start of a dispatch
    obtain ⟨gap, hgap, hs⟩ := List.mem_flatMap.mp hs
    obtain ⟨d, hd, hle⟩ := RequestInputs.exists_dispatch_le_ppGap
      (dispatchesInNs_requestInputs h.scheduler rid) hgap
    left
    rw [start_of_mem_drawSpan hs]
    exact ⟨d.startNs, (listed_of_mem_dispatches h hd).1.mem_originTimes, hle⟩
  · obtain ⟨p, hp, hs⟩ := List.mem_flatMap.mp hs
    exact startsWell_of_draws hrid (.inl hp) hs
  · obtain ⟨p, hp, hs⟩ := List.mem_flatMap.mp hs
    exact startsWell_of_draws hrid (.inr hp) hs
  · obtain ⟨gx, hgx, hs⟩ := List.mem_flatMap.mp hs
    obtain ⟨ev, hev, hstart⟩ := reqGenerateExec_start hgx
    left
    rw [start_of_mem_drawSpan hs]
    exact (ListedStart.coroutineExec hev hstart).covered
  · refine covered_of_mem_slices (fun p hp => ?_) hs
    obtain ⟨ev, hev, hready⟩ := outputSched_start hp
    exact .outputSched hev hready
  · refine covered_of_mem_slices (fun p hp => ?_) hs
    obtain ⟨ev, hev, hstart⟩ := outputExec_start hp
    exact .outputExec hev hstart
  · refine covered_of_mem_slices (fun p hp => ?_) hs
    obtain ⟨ev, hev, hready⟩ := outputSched_start hp
    exact .outputSched hev hready
  · refine covered_of_mem_slices (fun p hp => ?_) hs
    obtain ⟨ev, hev, hstart⟩ := outputExec_start hp
    exact .outputExec hev hstart
  · obtain ⟨q, hq, hs⟩ := List.mem_flatMap.mp hs
    left
    rw [start_of_mem_drawSpan hs]
    exact (listed_of_mem_queue h hq).covered
  · obtain ⟨st, hst, rfl⟩ := List.mem_map.mp hs
    obtain ⟨ev, hev, hstart⟩ := reqStageIntervals_start (List.mem_of_mem_filter hst)
    left
    exact (h.listed_of_bind (fun _ hraw => .reqStage hev hraw) hstart).covered

/-! ### All slices -/

/-- Sorting the worker events adds none. -/
theorem mem_of_sortWorkerEvents {events sorted : List WorkerEvent} {ev : WorkerEvent}
    (h : sortWorkerEvents events = .ok sorted) (hev : ev ∈ sorted) : ev ∈ events := by
  unfold sortWorkerEvents at h
  split at h
  · cases h
  · cases h
    exact List.mem_sortBy.mp hev

/-- Every slice starts at a covered time, or at an unlisted one. -/
theorem startsWell_wallSlices (h : WallTimesInNs log) {slices : List Slice}
    (hok : wallSlices log = .ok slices) {s : Slice} (hs : s ∈ slices) : StartsWell log s := by
  obtain ⟨workers, hworkers, hok⟩ := Except.bind_eq_ok_iff.mp hok
  obtain ⟨cupti, hcupti, hok⟩ := Except.bind_eq_ok_iff.mp hok
  cases hok
  simp only [List.mem_append, or_assoc] at hs
  -- one case for each of the five parts of the picture
  obtain hs | hs | hs | hs | hs := hs
  · obtain ⟨ev, hev, hts⟩ := workerSlices_start hs
    exact .inl (ListedStart.worker (mem_of_sortWorkerEvents hworkers hev) hts).covered
  · obtain ⟨ev, hev, hstart⟩ := ppCommSlices_start hs
    left
    exact (h.listed_of_bind (fun _ hraw => .ppComm hev hraw) hstart).covered
  · obtain ⟨ev, hev, hstart⟩ := enginecoreLoopSlices_start hs
    left
    exact (h.listed_of_bind (fun _ hraw => .enginecoreLoop hev hraw) hstart).covered
  · have hmem : s.tsNs ∈ sliceStarts cupti.events := List.mem_map_of_mem hs
    obtain ⟨rt, hrt, hstart⟩ | ⟨message, hmem, heager, hstart⟩ :=
      (processCupti_starts hcupti).mp hmem
    · exact .inl (ListedStart.cuptiCall hrt hstart).covered
    · exact .inr (.gpu hmem heager hstart)
  · obtain ⟨rid, hrid, hs⟩ := List.mem_flatMap.mp hs
    exact startsWell_requestSlices h hrid hs

/-- A span that takes time is drawn. -/
theorem mem_drawSpan {name cat : String} {startNs endNs : ℤ} (h : startNs < endNs) :
    Slice.between name cat startNs endNs ∈ drawSpan name cat startNs endNs := by
  rw [drawSpan, if_pos h]
  exact List.mem_cons_self

/-- A wait is drawn in the lane of its kind. -/
private theorem exists_slice_of_draws {p : ℤ × ℤ}
    (hdraws : (coroutineLifecycle log.coroutineEvents).Draws rid p) (hlt : p.1 < p.2) :
    ∃ s ∈ requestSlices log rid, s.tsNs = p.1 := by
  obtain hp | hp := hdraws
  · refine ⟨Slice.between "Coroutine Scheduler Queue Wait" "request_coro_sched_queue" p.1 p.2,
      ?_, rfl⟩
    simp only [requestSlices, List.mem_append, or_assoc]
    -- the place of this kind of slice among those of a request
    iterate 3 right
    left
    exact List.mem_flatMap.mpr ⟨p, hp, mem_drawSpan hlt⟩
  · refine ⟨Slice.between "Generate Task Runnable Queue" "request_generate_task_queue" p.1 p.2,
      ?_, rfl⟩
    simp only [requestSlices, List.mem_append, or_assoc]
    iterate 4 right
    left
    exact List.mem_flatMap.mpr ⟨p, hp, mem_drawSpan hlt⟩

/-- The span of a request is drawn, since the request has lanes. -/
private theorem exists_slice_of_span {span : ℤ × ℤ}
    (hspan : (coroutineLifecycle log.coroutineEvents).requestSpans.get? rid = some span)
    (hlt : span.1 < span.2) :
    rid ∈ allReqIds log ∧ ∃ s ∈ requestSlices log rid, s.tsNs = span.1 := by
  constructor
  · -- a request with a span is one of those drawn
    have hkey : rid ∈ (coroutineLifecycle log.coroutineEvents).requestSpans.keys := by
      rw [← Dict.isSome_get?_iff, hspan]
      rfl
    simp only [allReqIds, List.mem_dedup, List.mem_append, or_assoc]
    exact .inl hkey
  · refine ⟨Slice.between (lifecycleName rid) "request_lifecycle" span.1 span.2, ?_, rfl⟩
    simp only [requestSlices, List.mem_append, or_assoc]
    exact .inl (List.mem_flatMap.mpr ⟨span, Option.mem_toList.mpr hspan, mem_drawSpan hlt⟩)

/-- A start that the origin does not look at is drawn, or an earlier one is. -/
theorem exists_slice_le {slices : List Slice} (hok : wallSlices log = .ok slices)
    (ht : UnlistedStart log t) : ∃ s ∈ slices, s.tsNs ≤ t := by
  obtain ⟨workers, hworkers, hok⟩ := Except.bind_eq_ok_iff.mp hok
  obtain ⟨cupti, hcupti, hok⟩ := Except.bind_eq_ok_iff.mp hok
  cases hok
  cases ht with
  | @ready ev rid p hev hwait hrid =>
    obtain ⟨s, hs, hstart⟩ := exists_slice_of_draws
      (draws_coroutineLifecycle.mpr ⟨ev, hev, hwait⟩) hwait.lt
    exact ⟨s, List.mem_append_right _ (List.mem_flatMap.mpr ⟨rid, hrid, hs⟩), hstart.le⟩
  | @derived rid _ hderived =>
    -- the span of the request begins with the derived start or earlier
    obtain ⟨span, hspan, hle⟩ := exists_span_of_derivedStart hderived
    obtain ⟨hrid, s, hs, hstart⟩ :=
      exists_slice_of_span hspan (spanFrom_runCoroutines hspan).lt
    exact ⟨s, List.mem_append_right _ (List.mem_flatMap.mpr ⟨rid, hrid, hs⟩), by
      rw [hstart]
      exact hle⟩
  | gpu hmem heager hstart =>
    have hmem := (processCupti_starts hcupti).mpr (.inr ⟨_, hmem, heager, hstart⟩)
    obtain ⟨s, hs, hts⟩ := List.mem_map.mp hmem
    exact ⟨s, List.mem_append_left _ (List.mem_append_right _ hs), hts.le⟩

/-! ## Clipping -/

/-- Nothing is clipped when no event starts before the origin. -/
theorem clip_of_le {originNs : ℤ} {events : List Slice} (h : ∀ ev ∈ events, originNs ≤ ev.tsNs) :
    clipNegativeCompleteEvents originNs events =
      { kept := events, clipped := 0, dropped := 0 } := by
  unfold clipNegativeCompleteEvents
  induction events using List.reverseRecOn with
  | nil => rfl
  | append_singleton rest ev ih =>
    -- nothing starts before the origin
    have hev : 0 ≤ ev.tsNs - originNs := by
      have hle := h ev (by simp)
      omega
    rw [List.foldl_append, ih fun x hx => h x (List.mem_append_left _ hx), List.foldl_cons,
      List.foldl_nil, ClipResult.add, if_pos hev]

/-- What `nudge_equal_boundaries` may do before: it moves a start forward. -/
structure Slice.Nudged (s s' : Slice) : Prop where
  name : s'.name = s.name
  cat : s'.cat = s.cat
  le : s.tsNs ≤ s'.tsNs

/-- No slice on the wall clock starts before the origin, and so the clipping, which comes
    after the nudging, leaves them all alone. -/
def NoSliceLost (log : Log) : Prop :=
  ∀ slices, wallSlices log = .ok slices →
    (∀ s ∈ slices, inferTraceOriginNs log ≤ s.tsNs) ∧
      ∀ events, List.Forall₂ Slice.Nudged slices events →
        clipNegativeCompleteEvents (inferTraceOriginNs log) events =
          { kept := events, clipped := 0, dropped := 0 }

/-! ## When no slice is lost -/

/-- The log is converted without an exception. -/
structure Converts (log : Log) : Prop where
  /-- a single worker event is not compared with another -/
  worker : log.workerEvents.length < 2 ∨ ∀ ev ∈ log.workerEvents, ev.ts ≠ none
  call : ∀ message ∈ log.cuptiMessages, message.IsCall → message.payload.startNs.isSome ∧
    message.payload.endNs.isSome ∧ message.payload.tid.isSome
  gpu : ∀ message ∈ log.cuptiMessages, message.IsEager → message.payload.endNs.isSome

/-- The wall slices exist exactly when the log converts. -/
theorem exists_wallSlices_iff : (∃ slices, wallSlices log = .ok slices) ↔ Converts log := by
  -- the sort raises when it has to compare an event without a time
  have hsort : (∃ sorted, sortWorkerEvents log.workerEvents = .ok sorted) ↔
      log.workerEvents.length < 2 ∨ ∀ ev ∈ log.workerEvents, ev.ts ≠ none := by
    unfold sortWorkerEvents
    split
    · next hraise =>
      have hlen := hraise.1
      obtain ⟨ev, hev, hnone⟩ := hraise.2
      constructor
      · intro h
        obtain ⟨sorted, h⟩ := h
        cases h
      · intro h
        obtain hlt | hall := h
        · omega
        · exact absurd hnone (hall ev hev)
    · next hok =>
      apply iff_of_true ⟨_, rfl⟩
      by_contra hnot
      push Not at hnot hok
      obtain ⟨hlen, ev, hev, hnone⟩ := hnot
      exact hok hlen ev hev hnone
  constructor
  · intro h
    obtain ⟨slices, h⟩ := h
    obtain ⟨workers, hworkers, h⟩ := Except.bind_eq_ok_iff.mp h
    obtain ⟨cupti, hcupti, -⟩ := Except.bind_eq_ok_iff.mp h
    -- the CUPTI part asks for the remaining fields
    obtain ⟨hcalls, hwork⟩ := exists_processCupti_iff.mp ⟨cupti, hcupti⟩
    exact ⟨hsort.mp ⟨workers, hworkers⟩, hcalls, hwork⟩
  · intro h
    obtain ⟨workers, hworkers⟩ := hsort.mpr h.worker
    obtain ⟨cupti, hcupti⟩ := exists_processCupti_iff.mpr ⟨h.call, h.gpu⟩
    exact ⟨_, Except.bind_eq_ok_iff.mpr ⟨workers, hworkers,
      Except.bind_eq_ok_iff.mpr ⟨cupti, hcupti, rfl⟩⟩⟩

/-- Unlisted starts are times after zero when there are no listed ones. -/
private theorem UnlistedStart.pos_of_nil (h : WallTimesInNs log) (hnil : originTimes log = [])
    (ht : UnlistedStart log t) : 0 < t := by
  cases ht with
  | ready hev hwait hrid =>
    have hns : NsTime _ := h.ready _ hev _ (truthyInt_eq_some.mp hwait.ready).1
    unfold NsTime at hns
    omega
  | derived hderived =>
    -- the time of the end would be listed
    obtain ⟨before, ev, after, endNs, hsplit, hend⟩ := hderived
    have hsorted : ev ∈ sortCoroutineEvents log.coroutineEvents := by
      rw [hsplit]
      simp
    have hev : ev ∈ log.coroutineEvents := List.mem_sortBy.mp hsorted
    have hmem := (ListedStart.coroutine hev (truthyInt_eq_some.mp hend.time).1).mem_originTimes
    rw [hnil] at hmem
    exact absurd hmem List.not_mem_nil
  | gpu hmem heager hstart =>
    obtain ⟨start, hstart', hpos⟩ := heager.2
    rw [hstart] at hstart'
    cases hstart'
    exact hpos

/-- A nudged slice starts no earlier than before. -/
private theorem le_of_nudged {originNs : ℤ} {slices events : List Slice}
    (hnudged : List.Forall₂ Slice.Nudged slices events) (h : ∀ s ∈ slices, originNs ≤ s.tsNs) :
    ∀ ev ∈ events, originNs ≤ ev.tsNs := by
  induction hnudged with
  | nil => exact h
  | cons hnudge _ ih =>
    rw [List.forall_mem_cons] at h ⊢
    exact ⟨h.1.trans hnudge.le, ih h.2⟩

/-- No slice is lost exactly when, in a log that is converted, every start that the origin
    does not look at comes at or after some time that it does look at. -/
theorem noSliceLost_iff (log : Log) (h : WallTimesInNs log) :
    NoSliceLost log ↔
      (Converts log → originTimes log = [] ∨
        ∀ t, UnlistedStart log t → ∃ u ∈ originTimes log, u ≤ t) := by
  constructor
  · intro hkept hconverts
    obtain ⟨slices, hok⟩ := exists_wallSlices_iff.mpr hconverts
    by_cases hnil : originTimes log = []
    · exact .inl hnil
    · right
      intro t ht
      -- some slice starts there or before, and the origin is before every slice
      obtain ⟨s, hs, hle⟩ := exists_slice_le hok ht
      exact ⟨inferTraceOriginNs log, origin_mem h hnil, ((hkept slices hok).1 s hs).trans hle⟩
  · intro hcover slices hok
    have hstarts : ∀ s ∈ slices, inferTraceOriginNs log ≤ s.tsNs := by
      intro s hs
      obtain ⟨u, hu, hle⟩ | hunlisted := startsWell_wallSlices h hok hs
      · exact (origin_le h hu).trans hle
      · obtain hnil | hcover := hcover (exists_wallSlices_iff.mp ⟨slices, hok⟩)
        · -- without listed times the origin is zero
          rw [origin_of_nil h hnil]
          exact (hunlisted.pos_of_nil h hnil).le
        · obtain ⟨u, hu, hle⟩ := hcover s.tsNs hunlisted
          exact (origin_le h hu).trans hle
    exact ⟨hstarts, fun events hnudged => clip_of_le (le_of_nudged hnudged hstarts)⟩

/-- The coroutine of a request starts, and later it waits once. -/
def startedWait : Log := [
  { event := .coroutine {
      type := .coroutineStart
      timestampNs := some 1700000000000000000
      requestId := some "req-a"
      coroutineId := some 7 } },
  -- the wait is reported at its end, and starts before it
  { event := .coroutine {
      type := .coroutineSchedLatency
      timestampNs := some 1700000000009000000
      requestId := some "req-a"
      readyTsNs := some 1700000000004000000
      runTsNs := some 1700000000009000000
      queueNs := some 5000000
      taskKind := some "request" } }]

/-- The start of the coroutine comes before the wait. -/
theorem noSliceLost_startedWait : NoSliceLost startedWait := by
  have horigin : originTimes startedWait = [1700000000000000000, 1700000000009000000] := by rfl
  have hready : startedWait.coroutineEvents.map (·.readyTsNs) =
      [none, some 1700000000004000000] := by rfl
  have hns : WallTimesInNs startedWait := by
    refine ⟨by rw [horigin]; decide, fun ev hev t ht => ?_⟩
    have hmem := List.mem_map_of_mem (f := CoroutineEvent.readyTsNs) hev
    rw [hready, ht] at hmem
    have heq : t = 1700000000004000000 := by simpa using hmem
    rw [heq]
    decide
  refine (noSliceLost_iff startedWait hns).mpr fun _ => .inr fun t ht => ?_
  refine ⟨1700000000000000000, by rw [horigin]; decide, ?_⟩
  cases ht with
  | @ready ev rid p hev hwait hrid =>
    have hmem := List.mem_map_of_mem (f := CoroutineEvent.readyTsNs) hev
    rw [hready, (truthyInt_eq_some.mp hwait.ready).1] at hmem
    have heq : p.1 = 1700000000004000000 := by simpa using hmem
    omega
  | derived hderived =>
    -- no coroutine ends
    obtain ⟨before, ev, after, endNs, hsplit, hend⟩ := hderived
    have htypes : (sortCoroutineEvents startedWait.coroutineEvents).map (·.type) =
        [.coroutineStart, .coroutineSchedLatency] := by rfl
    have hmem : ev.type ∈ (sortCoroutineEvents startedWait.coroutineEvents).map (·.type) := by
      rw [hsplit]
      simp
    rw [htypes, hend.type] at hmem
    exact absurd hmem (by decide)
  | gpu hmem _ _ => cases hmem

/-- A coroutine becomes ready, and five milliseconds later it runs; nothing else is logged. -/
def firstWait : Log := [
  { event := .coroutine {
      type := .coroutineSchedLatency
      timestampNs := some 1700000000005000000
      requestId := some "req-a"
      readyTsNs := some 1700000000000000000
      runTsNs := some 1700000000005000000
      queueNs := some 5000000
      taskKind := some "request" } }]

set_option maxRecDepth 4000 in
/-- The wait is drawn before the origin, which is the time of the event. -/
theorem not_noSliceLost_firstWait : ¬NoSliceLost firstWait := by
  intro h
  have hslices : wallSlices firstWait = .ok [Slice.between "Coroutine Scheduler Queue Wait"
      "request_coro_sched_queue" 1700000000000000000 1700000000005000000] := by rfl
  have horigin : inferTraceOriginNs firstWait = 1700000000005000000 := by rfl
  have hle := (h _ hslices).1 _ List.mem_cons_self
  rw [horigin] at hle
  revert hle
  decide

end DeLatency
