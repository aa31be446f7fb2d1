import DeLatency.Spec.GroupedTracks
import DeLatency.Spec.OsDelay

/-!
# Which group a process id stands for

The ids of the GPUs count up from 9000, those of the requests, the engine core and the
event loops are fixed, and the ids of the workers are those of real processes.  Nothing
keeps them apart: the engine core and the event loops have the same id, the 2001st GPU gets
that of the requests, and a real process may have any of them.

## Key results

- `mem_events_iff`: which group has events under which id (`Occupies`)
- `mem_processNames_iff`: the names
- `exists_track_of_wallSlices`, `flows_traceTracks`: the tracks hold the slices and the arrows
  whose times and ids are treated elsewhere
- `groupsSeparate_iff`: when every id stands for one group and has one name
-/

namespace DeLatency

/-! ## Who is drawn -/

/-- The log has something to draw in a real process. -/
def RealProcess (log : Log) (pid : Option ℤ) : Prop :=
  DrawsIn (log.workerEvents.sortBy fun ev => ev.ts.getD 0) pid ∨
    (∃ ev ∈ log.ppCommEvents, (validSpan ev.startNs ev.endNs).isSome ∧ ev.pid = pid) ∨
    ∃ rt ∈ (cuptiRecords log.cuptiMessages).cuptiEvents,
      runtimePid (dispatchSlicesOf log) rt.pid = pid

/-- A turn of the engine core has a length. -/
def EnginecoreDraws (log : Log) : Prop :=
  ∃ ev ∈ log.enginecoreLoopEvents, (validSpan ev.startNs ev.endNs).isSome

/-- An event loop waits for a CPU, after the origin on the wall clock. -/
def EventloopDraws (log : Log) : Prop :=
  ∃ tid ∈ eventloopThreadTids log, ∃ offset, monoToWallOffset log tid = some offset ∧
    ∃ wait, (tid, wait) ∈ log.ebpfSchedLatencyEvents.filterMap osWait ∧
      wait.startNs < wait.endNs ∧ inferTraceOriginNs log < wait.endNs + offset

/-- A request has an interval. -/
def RequestDraws (log : Log) : Prop :=
  ∃ rid ∈ allReqIds log, requestSlices log rid ≠ [] ∨ requestOsSlices log rid ≠ []

/-- The groups that a log has events of, with their ids. -/
inductive Occupies (log : Log) : TrackGroup → Option ℤ → Prop
  | process {pid : Option ℤ} (h : RealProcess log pid) : Occupies log (.process pid) pid
  | gpu {key : ℤ × ℤ} (h : key ∈ gpuKeysOf log.cuptiMessages) :
      Occupies log (.gpu key) (some (List.number 9000 (gpuKeysOf log.cuptiMessages) key : ℤ))
  | enginecore (h : EnginecoreDraws log) : Occupies log .enginecore (some enginecorePid)
  | eventloop (h : EventloopDraws log) : Occupies log .eventloop (some eventloopOsPid)
  | requests (h : RequestDraws log) : Occupies log .requests (some requestPid)

/-! ### Transfers -/

/-- The ends of an entry that are there. -/
def FlowPoints.points (ends : FlowPoints) : List FlowPoint := ends.send.toList ++ ends.recv.toList

/-- The ends of the arrows are those of transfers. -/
theorem exists_span_of_mem_points {spans : List PpCommSpan} {key : FlowKey} {point : FlowPoint}
    (h : point ∈ ((ppCommFlowPoints spans).getD key {}).points) :
    ∃ span ∈ spans, point = span.point := by
  -- a turn changes one entry, and adds its own point to it
  have halter : ∀ (points : Dict FlowKey FlowPoints) (span : PpCommSpan) (key' : FlowKey)
      (f : FlowPoints → FlowPoints),
      (∀ ends, point ∈ (f ends).points → point ∈ ends.points ∨ point = span.point) →
      point ∈ ((points.alter key' {} f).getD key {}).points →
      point ∈ (points.getD key {}).points ∨ point = span.point := by
    intro points span key' f hf hmem
    rw [Dict.getD_alter] at hmem
    split at hmem
    · next hkey =>
      rw [hkey]
      exact hf _ hmem
    · exact .inl hmem
  have hstep : ∀ points span, point ∈ ((ppCommFlowStep points span).getD key {}).points →
      point ∈ (points.getD key {}).points ∨ point = span.point := by
    intro points span hmem
    unfold ppCommFlowStep at hmem
    dsimp only at hmem
    split at hmem
    · refine halter points span _ _ (fun ends hends => ?_) hmem
      simp only [FlowPoints.points, List.mem_append, Option.mem_toList, Option.some.injEq]
        at hends ⊢
      obtain hnew | hold := hends
      · exact .inr hnew.symm
      · exact .inl (.inr hold)
    · split at hmem
      · refine halter points span _ _ (fun ends hends => ?_) hmem
        simp only [FlowPoints.points, List.mem_append, Option.mem_toList, Option.some.injEq]
          at hends ⊢
        obtain hold | hnew := hends
        · exact .inl (.inl hold)
        · exact .inr hnew.symm
      · exact .inl hmem
  obtain hstart | hspan := List.exists_mem_of_foldl
    (P := fun points : Dict FlowKey FlowPoints => point ∈ (points.getD key {}).points) h hstep
  · cases hstart
  · exact hspan

/-- A transfer is drawn when it has a length. -/
theorem exists_ppCommSpan_iff {slices : List DispatchSlice} {events : List PpCommEvent}
    {pid : Option ℤ} : (∃ span ∈ ppCommSpans slices events, span.source.pid = pid) ↔
      ∃ ev ∈ events, (validSpan ev.startNs ev.endNs).isSome ∧ ev.pid = pid := by
  -- the inference of requests leaves the event itself alone
  have hsource : ∀ ev span, ppCommSpan slices ev = some span → span.source = ev := by
    intro ev span hspan
    unfold ppCommSpan at hspan
    obtain ⟨p, -, rfl⟩ := Option.map_eq_some_iff.mp hspan
    dsimp only
    split
    · split <;> split <;> rfl
    · rfl
  have hsome : ∀ ev, (ppCommSpan slices ev).isSome = (validSpan ev.startNs ev.endNs).isSome :=
    fun ev => by rw [ppCommSpan, Option.isSome_map]
  simp only [ppCommSpans, List.mem_filterMap, List.mem_sortBy]
  constructor
  · intro h
    obtain ⟨span, ⟨ev, hmem, hspan⟩, rfl⟩ := h
    exact ⟨ev, hmem, by rw [← hsome, hspan]; rfl, by rw [hsource ev span hspan]⟩
  · intro h
    obtain ⟨ev, hmem, hvalid, rfl⟩ := h
    obtain ⟨span, hspan⟩ := Option.isSome_iff_exists.mp ((hsome ev).trans hvalid)
    exact ⟨span, ⟨ev, hmem, hspan⟩, by rw [hsource ev span hspan]⟩

/-- The events of an arrow are in the processes of its ends. -/
theorem exists_point_of_mem_flowEvents {entry : FlowKey × FlowPoints} {n : ℕ} {arrow : FlowArrow}
    {flow : FlowEvent} (h : ppFlowArrow (entry, n) = some arrow) (hflow : flow ∈ arrow.flowEvents) :
    ∃ point ∈ entry.2.points, flow.pid = point.pid := by
  unfold ppFlowArrow at h
  split at h
  · next send recv hsend hrecv =>
    cases h
    dsimp only at hsend hrecv
    simp only [FlowArrow.flowEvents, List.mem_cons, List.not_mem_nil, or_false] at hflow
    -- the arrow's two events are its two points
    obtain rfl | rfl := hflow
    · exact ⟨send, by simp [FlowPoints.points, hsend], rfl⟩
    · exact ⟨recv, by simp [FlowPoints.points, hrecv], rfl⟩
  · cases h

/-- The transfers are drawn in their processes, and so are their arrows. -/
theorem exists_mem_ppCommTrack {slices : List DispatchSlice} {events : List PpCommEvent}
    {pid : Option ℤ} : (∃ e ∈ ppCommTrack slices events, e.pid = pid) ↔
      ∃ ev ∈ events, (validSpan ev.startNs ev.endNs).isSome ∧ ev.pid = pid := by
  have hspans := @exists_ppCommSpan_iff slices events pid
  rw [← hspans]
  constructor
  · intro h
    obtain ⟨e, he, rfl⟩ := h
    obtain he | he := List.mem_append.mp he
    · obtain ⟨span, hspan, rfl⟩ := List.mem_map.mp he
      exact ⟨span, hspan, rfl⟩
    · -- an end of an arrow was noted for a transfer, which is drawn in the same process
      obtain ⟨flow, hflow, rfl⟩ := List.mem_map.mp he
      obtain ⟨arrow, harrow, hflow⟩ := List.mem_flatMap.mp hflow
      obtain ⟨⟨entry, n⟩, hentry, harrow⟩ := List.mem_filterMap.mp harrow
      obtain ⟨point, hpoint, hpid⟩ := exists_point_of_mem_flowEvents harrow hflow
      rw [← Dict.getD_of_mem (List.fst_mem_of_mem_zipIdx hentry)] at hpoint
      obtain ⟨span, hspan, rfl⟩ := exists_span_of_mem_points hpoint
      exact ⟨span, hspan, hpid.symm⟩
  · intro h
    obtain ⟨span, hspan, rfl⟩ := h
    exact ⟨_, List.mem_append_left _ (List.mem_map_of_mem hspan), rfl⟩

/-! ### Engine core, event loops and requests -/

/-- The main loop draws when one of its events can be drawn. -/
theorem enginecoreLoopSlices_ne_nil {log : Log} :
    enginecoreLoopSlices log.enginecoreLoopEvents ≠ [] ↔ EnginecoreDraws log := by
  rw [← List.length_pos_iff, List.length_pos_iff_exists_mem]
  unfold enginecoreLoopSlices EnginecoreDraws
  -- a slice is drawn for each event whose span is valid
  simp only [List.mem_filterMap, List.mem_sortBy, Option.map_eq_some_iff]
  constructor
  · intro h
    obtain ⟨s, ev, hev, span, hspan, -⟩ := h
    exact ⟨ev, hev, by rw [hspan]; rfl⟩
  · intro h
    obtain ⟨ev, hev, hvalid⟩ := h
    obtain ⟨span, hspan⟩ := Option.isSome_iff_exists.mp hvalid
    exact ⟨_, ev, hev, span, hspan, rfl⟩

/-- A wait is drawn when it has a length and ends after the origin. -/
theorem isSome_eventloopOsSlice {originNs offset : ℤ} {osEv : OsWait} :
    (eventloopOsSlice originNs offset osEv).isSome ↔
      osEv.startNs < osEv.endNs ∧ originNs < osEv.endNs + offset := by
  unfold eventloopOsSlice
  dsimp only
  by_cases hend : osEv.endNs + offset ≤ originNs
  · rw [if_pos hend]
    simp only [Option.isSome_none, Bool.false_eq_true, false_iff, not_and, not_lt]
    exact fun _ => hend
  · -- the end is after the origin, so only the wait's own start matters
    have hlength : (osEv.endNs + offset ≤ if osEv.startNs + offset < originNs then originNs
        else osEv.startNs + offset) ↔ ¬osEv.startNs < osEv.endNs := by split <;> omega
    rw [if_neg hend, not_le] at *
    simp only [hlength, hend, and_true]
    split <;> simp_all

/-- The event loop draws when one of its waits can be drawn. -/
theorem eventloopOsSlices_ne_nil {log : Log} :
    eventloopOsSlices log ≠ [] ↔ EventloopDraws log := by
  rw [← List.length_pos_iff, List.length_pos_iff_exists_mem]
  unfold eventloopOsSlices EventloopDraws
  simp only [List.mem_flatMap, List.mem_sortBy]
  constructor
  · intro h
    obtain ⟨s, tid, htid, hs⟩ := h
    split at hs
    · -- without an offset between the clocks the thread draws nothing
      next offset hoffset =>
      obtain ⟨wait, hwait, hslice⟩ := List.mem_filterMap.mp hs
      refine ⟨tid, htid, offset, hoffset, wait, mem_ebpfWaits.mp hwait, ?_⟩
      exact isSome_eventloopOsSlice.mp (by rw [hslice]; rfl)
    · cases hs
  · intro h
    obtain ⟨tid, htid, offset, hoffset, wait, hwait, hdraws⟩ := h
    obtain ⟨s, hs⟩ := Option.isSome_iff_exists.mp (isSome_eventloopOsSlice.mpr hdraws)
    refine ⟨s, tid, htid, ?_⟩
    rw [hoffset]
    exact List.mem_filterMap.mpr ⟨wait, mem_ebpfWaits.mpr hwait, hs⟩

/-! ### All together -/

/-- The places of the worker events are their own processes. -/
theorem mem_places_process {events : List TrackEvent} {group : TrackGroup} {pid : Option ℤ} :
    (group, pid) ∈ places (events.map TrackEvent.ofProcess) ↔
      group = .process pid ∧ ∃ e ∈ events, e.pid = pid := by
  constructor
  · intro h
    obtain ⟨ev, hmem, hpid⟩ := h
    obtain ⟨e, he, heq⟩ := List.mem_map.mp hmem
    -- an event of a process is placed on that process
    obtain ⟨rfl, rfl⟩ := Prod.mk.inj heq
    exact ⟨congrArg TrackGroup.process hpid, e, he, hpid⟩
  · intro h
    obtain ⟨rfl, e, he, rfl⟩ := h
    exact ⟨e, List.mem_map_of_mem he, rfl⟩

/-- The slices of a group with an id of its own. -/
theorem mem_places_group {slices : List Slice} {own group : TrackGroup} {ownPid : ℤ}
    {pid : Option ℤ} :
    (group, pid) ∈ places ((slices.map (.slice (some ownPid))).map fun ev => (own, ev)) ↔
      (group = own ∧ pid = some ownPid) ∧ slices ≠ [] := by
  -- a group takes its place only when it draws something
  rw [← List.length_pos_iff, List.length_pos_iff_exists_mem]
  constructor
  · intro h
    obtain ⟨ev, hmem, hpid⟩ := h
    obtain ⟨e, he, heq⟩ := List.mem_map.mp hmem
    obtain ⟨s, hs, rfl⟩ := List.mem_map.mp he
    cases heq
    exact ⟨⟨rfl, hpid.symm⟩, s, hs⟩
  · intro h
    obtain ⟨⟨rfl, rfl⟩, s, hs⟩ := h
    exact ⟨_, List.mem_map_of_mem (List.mem_map_of_mem hs), rfl⟩

/-- When the tracks are drawn they are those of the parts, one after the other. -/
theorem groupedTracks_eq_ok {log : Log} {tracks : GroupedTracks}
    (h : groupedTracks log = .ok tracks) : ∃ workerEvents st,
      sortWorkerEvents log.workerEvents = .ok workerEvents ∧
      workerEvents = (log.workerEvents.sortBy fun ev => ev.ts.getD 0) ∧
      groupedCupti (dispatchSlicesOf log) log.cuptiMessages = .ok st ∧
      tracks = {
        events := (workerTrack workerEvents).map TrackEvent.ofProcess ++
          (ppCommTrack (dispatchSlicesOf log) log.ppCommEvents).map TrackEvent.ofProcess ++
          (enginecoreTrack log).map (fun ev => (.enginecore, ev)) ++
          st.2.filterMap groupedTrack ++
          (eventloopOsTrack log).map (fun ev => (.eventloop, ev)) ++
          (requestTrack log).map fun ev => (.requests, ev)
        processNames := enginecoreName log ++ st.1.events.filterMap TraceEvent.processName? ++
          eventloopOsName log ++ [requestName] } := by
  obtain ⟨workerEvents, hsort, h⟩ := Except.bind_eq_ok_iff.mp h
  obtain ⟨st, hst, h⟩ := Except.bind_eq_ok_iff.mp h
  -- sorting the worker events only fails when one has no time
  have hsorted : workerEvents = log.workerEvents.sortBy fun ev => ev.ts.getD 0 := by
    unfold sortWorkerEvents at hsort
    split at hsort
    · cases hsort
    · exact (Except.ok.inj hsort).symm
  have hslices : generatedDispatchSlices workerEvents = dispatchSlicesOf log := by
    rw [hsorted, dispatchSlicesOf]
  rw [hslices] at hst h
  exact ⟨workerEvents, st, hsort, hsorted, hst, (Except.ok.inj h).symm⟩

/-- Which group has events under which id. -/
theorem mem_events_iff {log : Log} {tracks : GroupedTracks} (h : groupedTracks log = .ok tracks)
    {group : TrackGroup} {pid : Option ℤ} :
    (∃ ev, (group, ev) ∈ tracks.events ∧ ev.pid = pid) ↔ Occupies log group pid := by
  obtain ⟨workerEvents, st, hsort, hsorted, hst, rfl⟩ := groupedTracks_eq_ok h
  have hgpu := (gpuPlaces_groupedCupti hst).places
  -- the linking loop sorts the calls, which changes no place
  have hcalls : ∀ rt, rt ∈ callsInOrder log.cuptiMessages ↔
      rt ∈ (cuptiRecords log.cuptiMessages).cuptiEvents := fun rt => List.mem_sortBy
  -- all requests are one group
  have hrequests : (requestTrack log).map (fun ev => (TrackGroup.requests, ev)) =
      (((allReqIds log).flatMap fun rid => requestSlices log rid ++ requestOsSlices log rid).map
        (.slice (some requestPid))).map fun ev => (.requests, ev) := by
    rw [requestTrack, List.map_flatMap, List.map_flatMap, List.map_flatMap]
  have hrequestDraws : ((allReqIds log).flatMap fun rid =>
      requestSlices log rid ++ requestOsSlices log rid) ≠ [] ↔ RequestDraws log := by
    rw [Ne, List.flatMap_eq_nil_iff]
    simp only [List.append_eq_nil_iff, not_forall, not_and_or, RequestDraws, exists_prop]
  -- each part of the trace is a set of places
  show (group, pid) ∈ places _ ↔ _
  rw [hrequests]
  simp only [places_append, Set.mem_union, mem_places_process, exists_mem_workerTrack hsort,
    exists_mem_ppCommTrack, enginecoreTrack, eventloopOsTrack, mem_places_group,
    enginecoreLoopSlices_ne_nil, eventloopOsSlices_ne_nil, hrequestDraws, hgpu]
  rw [hsorted]
  constructor
  · intro h
    obtain ((((⟨rfl, h⟩ | ⟨rfl, h⟩) | ⟨⟨rfl, rfl⟩, h⟩) | (hcall | hkernel)) | ⟨⟨rfl, rfl⟩, h⟩) |
      ⟨⟨rfl, rfl⟩, h⟩ := h
    · exact .process (.inl h)
    · exact .process (.inr (.inl h))
    · exact .enginecore h
    · obtain ⟨rt, hrt, hplace⟩ := hcall
      obtain ⟨rfl, rfl⟩ := Prod.mk.inj hplace
      exact .process (.inr (.inr ⟨rt, (hcalls rt).mp hrt, rfl⟩))
    · obtain ⟨key, hkey, hplace⟩ := hkernel
      obtain ⟨rfl, rfl⟩ := Prod.mk.inj hplace
      exact .gpu hkey
    · exact .eventloop h
    · exact .requests h
  · intro h
    cases h with
    | process h =>
      obtain h | h | ⟨rt, hrt, rfl⟩ := h
      · exact .inl (.inl (.inl (.inl (.inl ⟨rfl, h⟩))))
      · exact .inl (.inl (.inl (.inl (.inr ⟨rfl, h⟩))))
      · exact .inl (.inl (.inr (.inl ⟨rt, (hcalls rt).mpr hrt, rfl⟩)))
    | gpu h => exact .inl (.inl (.inr (.inr ⟨_, h, rfl⟩)))
    | enginecore h => exact .inl (.inl (.inl (.inr ⟨⟨rfl, rfl⟩, h⟩)))
    | eventloop h => exact .inl (.inr ⟨⟨rfl, rfl⟩, h⟩)
    | requests h => exact .inr ⟨⟨rfl, rfl⟩, h⟩

/-- The GPUs of a log, each once, in the order in which they get their ids. -/
def gpuKeys (log : Log) : List (ℤ × ℤ) := List.firstSeen id (gpuKeysOf log.cuptiMessages)

/-- The names of a trace. -/
theorem mem_processNames_iff {log : Log} {tracks : GroupedTracks}
    (h : groupedTracks log = .ok tracks) {name : NameEvent} :
    name ∈ tracks.processNames ↔
      (log.enginecoreLoopEvents ≠ [] ∧
        name = { pid := enginecorePid, name := "EngineCore Main Loop" }) ∨
      (∃ i key, (gpuKeys log)[i]? = some key ∧
        name = { pid := (9000 + i : ℕ), name := gpuName key }) ∨
      (eventloopThreadTids log ≠ [] ∧
        name = { pid := eventloopOsPid, name := "EventLoop OS Scheduling" }) ∨
      name = requestName := by
  obtain ⟨workerEvents, st, hsort, hsorted, hst, rfl⟩ := groupedTracks_eq_ok h
  -- a GPU is named when it gets its number, and only then
  have hgpu : name ∈ st.1.events.filterMap TraceEvent.processName? ↔
      ∃ i key, (gpuKeys log)[i]? = some key ∧
        name = { pid := (9000 + i : ℕ), name := gpuName key } := by
    rw [(gpuPlaces_groupedCupti hst).names]
    constructor
    · intro hmem
      obtain ⟨key, hkey, rfl⟩ := List.mem_map.mp hmem
      obtain ⟨i, hi⟩ := List.mem_iff_getElem?.mp hkey
      exact ⟨i, key, hi, by rw [(List.number_eq_iff (List.mem_firstSeen_id.mp hkey)).mpr hi]⟩
    · intro hx
      obtain ⟨i, key, hi, rfl⟩ := hx
      have hkey := List.mem_of_getElem? hi
      refine List.mem_map.mpr ⟨key, hkey, ?_⟩
      rw [(List.number_eq_iff (List.mem_firstSeen_id.mp hkey)).mpr hi]
  have hengine : name ∈ enginecoreName log ↔ log.enginecoreLoopEvents ≠ [] ∧
      name = { pid := enginecorePid, name := "EngineCore Main Loop" } := by
    unfold enginecoreName
    split <;> simp [*]
  have hloop : name ∈ eventloopOsName log ↔ eventloopThreadTids log ≠ [] ∧
      name = { pid := eventloopOsPid, name := "EventLoop OS Scheduling" } := by
    unfold eventloopOsName
    split <;> simp [*]
  simp only [List.mem_append, hgpu, hengine, hloop, List.mem_singleton, or_assoc]

/-! ## Slices and arrows -/

def TrackEvent.flow? : TrackEvent → Option FlowEvent
  | .slice _ _ => none
  | .flow ev => some ev

/-- Slices of one process, without the process. -/
theorem slices_map_slice (pid : Option ℤ) (slices : List Slice) :
    (slices.map (TrackEvent.slice pid)).filterMap TrackEvent.slice? = slices := by
  rw [List.filterMap_map]
  exact List.filterMap_some

/-- Slices are no flows. -/
theorem flows_map_slice (pid : Option ℤ) (slices : List Slice) :
    (slices.map (TrackEvent.slice pid)).filterMap TrackEvent.flow? = [] := by
  rw [List.filterMap_map]
  exact List.filterMap_none _

/-- The slices of the CUPTI part. -/
theorem slices_cupti (events : List TraceEvent) :
    (events.filterMap TraceEvent.track).filterMap TrackEvent.slice? =
      events.filterMap TraceEvent.slice := by
  rw [List.filterMap_filterMap]
  exact List.filterMap_congr fun ev _ => by cases ev <;> rfl

/-- Its flows. -/
theorem flows_cupti (events : List TraceEvent) :
    (events.filterMap TraceEvent.track).filterMap TrackEvent.flow? =
      events.filterMap TraceEvent.flowEvent := by
  rw [List.filterMap_filterMap]
  exact List.filterMap_congr fun ev _ => by cases ev <;> rfl

/-- The slices of the transfers. -/
theorem slices_ppCommTrack (slices : List DispatchSlice) (events : List PpCommEvent) :
    (ppCommTrack slices events).filterMap TrackEvent.slice? = ppCommSlices slices events := by
  unfold ppCommTrack ppCommSlices
  rw [List.filterMap_append, List.filterMap_map, List.filterMap_map]
  have hflows : TrackEvent.slice? ∘ TrackEvent.flow = fun _ => none := rfl
  rw [hflows, List.filterMap_none, List.append_nil]
  exact congrFun List.filterMap_eq_map _

/-- Their flows. -/
theorem flows_ppCommTrack (slices : List DispatchSlice) (events : List PpCommEvent) :
    (ppCommTrack slices events).filterMap TrackEvent.flow? =
      (ppCommArrows slices events).flatMap FlowArrow.flowEvents := by
  unfold ppCommTrack
  rw [List.filterMap_append, List.filterMap_map, List.filterMap_map]
  have hflows : TrackEvent.flow? ∘ TrackEvent.flow = some := rfl
  rw [hflows, List.filterMap_some]
  exact congrArg (· ++ _) (List.filterMap_none _)

/-- The worker tracks draw no flow. -/
theorem flows_workerTrack (events : List WorkerEvent) :
    (workerTrack events).filterMap TrackEvent.flow? = [] := by
  apply List.filterMap_eq_nil_iff.mpr
  intro e he
  have hdrawn : e ∈ (events.foldl
      (workerTrackTurn (events.any fun ev => ev.type = .gpuPhaseSpan)) ({}, [])).2 := he
  -- every turn adds slices only
  have hstep : ∀ (st : WorkerIntervals × List TrackEvent) (ev : WorkerEvent),
      e ∈ (workerTrackTurn (events.any fun ev => ev.type = .gpuPhaseSpan) st ev).2 →
      e ∈ st.2 ∨ ∃ s, TrackEvent.slice ev.pid s = e := by
    intro st ev hmem
    obtain hold | hnew := List.mem_append.mp hmem
    · exact .inl hold
    · obtain ⟨s, -, hs⟩ := List.mem_map.mp hnew
      exact .inr ⟨s, hs⟩
  obtain hnil | ⟨ev, -, s, rfl⟩ := List.exists_mem_of_foldl
    (P := fun st : WorkerIntervals × List TrackEvent => e ∈ st.2) hdrawn hstep
  · cases hnil
  · rfl

/-- Every slice on the wall clock is on a track. -/
theorem exists_track_of_wallSlices {log : Log} {slices : List Slice}
    (h : wallSlices log = .ok slices) : ∃ tracks, traceTracks log = .ok tracks ∧
      ∀ s ∈ slices, s ∈ tracks.events.filterMap TrackEvent.slice? := by
  obtain ⟨workerEvents, hsort, h⟩ := Except.bind_eq_ok_iff.mp h
  obtain ⟨cupti, hcupti, h⟩ := Except.bind_eq_ok_iff.mp h
  refine ⟨_, Except.bind_eq_ok_iff.mpr ⟨workerEvents, hsort,
    Except.bind_eq_ok_iff.mpr ⟨cupti, hcupti, rfl⟩⟩, ?_⟩
  rw [← Except.ok.inj h]
  intro s hs
  -- the requests also have waits for the OS, which are not on the wall clock
  have hrequests : s ∈ (allReqIds log).flatMap (requestSlices log) →
      s ∈ (requestTrack log).filterMap TrackEvent.slice? := by
    intro hmem
    obtain ⟨rid, hrid, hmem⟩ := List.mem_flatMap.mp hmem
    exact List.mem_filterMap.mpr ⟨.slice (some requestPid) s, List.mem_flatMap.mpr
      ⟨rid, hrid, List.mem_map_of_mem (List.mem_append_left _ hmem)⟩, rfl⟩
  simp only [List.filterMap_append, List.mem_append, slices_workerTrack, slices_ppCommTrack,
    enginecoreTrack, slices_map_slice, slices_cupti] at hs ⊢
  obtain (((hworker | hpp) | hengine) | hcupti) | hrequest := hs
  · exact .inl (.inl (.inl (.inl (.inl hworker))))
  · exact .inl (.inl (.inl (.inl (.inr hpp))))
  · exact .inl (.inl (.inl (.inr hengine)))
  · exact .inl (.inl (.inr hcupti))
  · exact .inr (hrequests hrequest)

/-- The arrows on the tracks are those of the trace. -/
theorem flows_traceTracks (log : Log) :
    (traceTracks log).map (fun tracks => tracks.events.filterMap TrackEvent.flow?) =
      traceFlows log := by
  unfold traceTracks traceFlows
  cases sortWorkerEvents log.workerEvents with
  | error e => rfl
  | ok workerEvents =>
    show Except.map _ (processCupti _ _ >>= fun cupti => _) = processCupti _ _ >>= fun cupti => _
    cases processCupti (generatedDispatchSlices workerEvents) log.cuptiMessages with
    | error e => rfl
    | ok cupti =>
      -- of the six parts only the transfers and CUPTI draw flows
      have hrequests : (requestTrack log).filterMap TrackEvent.flow? = [] := by
        rw [requestTrack, List.filterMap_flatMap, List.flatMap_eq_nil_iff]
        exact fun rid _ => flows_map_slice _ _
      show Except.ok (List.filterMap _ _) = Except.ok _
      simp only [List.filterMap_append, flows_workerTrack, flows_ppCommTrack, enginecoreTrack,
        eventloopOsTrack, flows_map_slice, flows_cupti, hrequests, List.nil_append,
        List.append_nil]

/-! ## Separation -/

/-- Events of one id were drawn for one group, and an id has one name. -/
def GroupsSeparate (log : Log) : Prop :=
  ∀ tracks, groupedTracks log = .ok tracks →
    (∀ a ∈ tracks.events, ∀ b ∈ tracks.events, a.2.pid = b.2.pid → a.1 = b.1) ∧
      ∀ a ∈ tracks.processNames, ∀ b ∈ tracks.processNames, a.pid = b.pid → a.name = b.name

/-- The ids of the log leave the made-up ones alone, and these are apart from each other. -/
structure PidsApart (log : Log) : Prop where
  oneLoop : log.enginecoreLoopEvents = [] ∨ eventloopThreadTids log = []
  fewGpus : (gpuKeys log).length ≤ 2000
  gpus : ∀ pid : ℤ, RealProcess log (some pid) → ¬(9000 ≤ pid ∧ pid < 9000 + (gpuKeys log).length)
  loops : RealProcess log (some 12000) → ¬EnginecoreDraws log ∧ ¬EventloopDraws log
  requests : RealProcess log (some 11000) → ¬RequestDraws log

/-- The tracks are drawn exactly when the log is exported. -/
theorem exists_groupedTracks_iff {log : Log} :
    (∃ tracks, groupedTracks log = .ok tracks) ↔ Exports log := by
  -- the groups do not change what raises
  have htracks : (∃ tracks, groupedTracks log = .ok tracks) ↔
      ∃ tracks, traceTracks log = .ok tracks := by
    rw [← map_tracks_groupedTracks]
    cases groupedTracks log with
    | error e => simp [Except.map]
    | ok tracks => simp [Except.map]
  rw [htracks]
  constructor
  · intro hx
    obtain ⟨tracks, h⟩ := hx
    obtain ⟨workerEvents, hsort, h⟩ := Except.bind_eq_ok_iff.mp h
    obtain ⟨cupti, hcupti, -⟩ := Except.bind_eq_ok_iff.mp h
    exact ⟨_, Except.bind_eq_ok_iff.mpr ⟨workerEvents, hsort,
      Except.bind_eq_ok_iff.mpr ⟨cupti, hcupti, rfl⟩⟩⟩
  · intro hx
    obtain ⟨flows, h⟩ := hx
    obtain ⟨workerEvents, hsort, h⟩ := Except.bind_eq_ok_iff.mp h
    obtain ⟨cupti, hcupti, -⟩ := Except.bind_eq_ok_iff.mp h
    exact ⟨_, Except.bind_eq_ok_iff.mpr ⟨workerEvents, hsort,
      Except.bind_eq_ok_iff.mpr ⟨cupti, hcupti, rfl⟩⟩⟩

/-- The group that a made-up id stands for, when these are apart. -/
def madeUpOwner (log : Log) (pid : ℤ) : TrackGroup :=
  if pid = 12000 then if log.enginecoreLoopEvents = [] then .eventloop else .enginecore
  else if pid = 11000 then .requests
  else .gpu (((gpuKeys log)[(pid - 9000).toNat]?).getD (0, 0))

section MadeUp

variable {log : Log}

/-- The owner of a GPU's pid is the GPU. -/
theorem madeUpOwner_gpu (hapart : PidsApart log) {i : ℕ} {key : ℤ × ℤ}
    (h : (gpuKeys log)[i]? = some key) : madeUpOwner log (9000 + i : ℕ) = .gpu key := by
  have hlt := (List.getElem?_eq_some_iff.mp h).1
  have hfew := hapart.fewGpus
  have hindex : (((9000 + i : ℕ) : ℤ) - 9000).toNat = i := by omega
  rw [madeUpOwner, if_neg (by omega), if_neg (by omega), hindex, h]
  rfl

/-- The owner of the main loop's pid is the main loop. -/
theorem madeUpOwner_enginecore (h : log.enginecoreLoopEvents ≠ []) :
    madeUpOwner log enginecorePid = .enginecore := by
  rw [madeUpOwner, enginecorePid, if_pos rfl, if_neg h]

/-- The owner of the event loop's pid is the event loop. -/
theorem madeUpOwner_eventloop (hapart : PidsApart log) (h : eventloopThreadTids log ≠ []) :
    madeUpOwner log eventloopOsPid = .eventloop := by
  rw [madeUpOwner, eventloopOsPid, if_pos rfl, if_pos (hapart.oneLoop.resolve_right h)]

/-- The owner of the requests' pid is the requests' group. -/
theorem madeUpOwner_requests : madeUpOwner log requestPid = .requests := by
  rw [madeUpOwner, requestPid, if_neg (by decide), if_pos rfl]

end MadeUp

/-- The place of a GPU's number. -/
theorem exists_number_eq {log : Log} {key : ℤ × ℤ} (h : key ∈ gpuKeysOf log.cuptiMessages) :
    ∃ i, (gpuKeys log)[i]? = some key ∧
      List.number 9000 (gpuKeysOf log.cuptiMessages) key = 9000 + i := by
  obtain ⟨i, hi⟩ := List.mem_iff_getElem?.mp (List.mem_firstSeen_id.mpr h)
  exact ⟨i, hi, (List.number_eq_iff h).mpr hi⟩

/-- An id of a group is that of a real process, or it was made up for the group. -/
theorem Occupies.owner {log : Log} (hapart : PidsApart log) {group : TrackGroup}
    {pid : Option ℤ} (h : Occupies log group pid) :
    (RealProcess log pid ∧ group = .process pid) ∨
      (¬RealProcess log pid ∧ ∃ n, pid = some n ∧ group = madeUpOwner log n) := by
  cases h with
  | process h => exact .inl ⟨h, rfl⟩
  | gpu h =>
    -- no real process has a number of a GPU
    obtain ⟨i, hget, hnumber⟩ := exists_number_eq h
    have hlt := (List.getElem?_eq_some_iff.mp hget).1
    rw [hnumber]
    exact .inr ⟨fun hreal => hapart.gpus _ hreal (by omega), _, rfl,
      (madeUpOwner_gpu hapart hget).symm⟩
  | enginecore h =>
    obtain ⟨ev, hev, -⟩ := id h
    exact .inr ⟨fun hreal => (hapart.loops hreal).1 h, _, rfl,
      (madeUpOwner_enginecore (List.ne_nil_of_mem hev)).symm⟩
  | eventloop h =>
    obtain ⟨tid, htid, -⟩ := id h
    exact .inr ⟨fun hreal => (hapart.loops hreal).2 h, _, rfl,
      (madeUpOwner_eventloop hapart (List.ne_nil_of_mem htid)).symm⟩
  | requests h =>
    exact .inr ⟨fun hreal => hapart.requests hreal h, _, rfl, madeUpOwner_requests.symm⟩

/-- Two groups do not share an id. -/
theorem Occupies.unique {log : Log} (hapart : PidsApart log) {group group' : TrackGroup}
    {pid : Option ℤ} (h : Occupies log group pid) (h' : Occupies log group' pid) :
    group = group' := by
  obtain ⟨hreal, rfl⟩ | ⟨hmade, n, hn, rfl⟩ := h.owner hapart
  · -- both are real, or both were made up
    obtain ⟨-, rfl⟩ | ⟨hmade, -⟩ := h'.owner hapart
    · rfl
    · exact absurd hreal hmade
  · obtain ⟨hreal, -⟩ | ⟨-, n', hn', rfl⟩ := h'.owner hapart
    · exact absurd hreal hmade
    · rw [Option.some.inj (hn.symm.trans hn')]

/-- The name that a group gets. -/
def TrackGroup.title : TrackGroup → Option String
  | .process _ => none
  | .gpu key => some (gpuName key)
  | .enginecore => some "EngineCore Main Loop"
  | .eventloop => some "EventLoop OS Scheduling"
  | .requests => some "Request Interference"

/-- With the pids apart each is named after its owner. -/
theorem title_madeUpOwner {log : Log} (hapart : PidsApart log) {tracks : GroupedTracks}
    (htracks : groupedTracks log = .ok tracks) {name : NameEvent}
    (h : name ∈ tracks.processNames) : (madeUpOwner log name.pid).title = some name.name := by
  obtain ⟨hevents, rfl⟩ | ⟨i, key, hget, rfl⟩ | ⟨htids, rfl⟩ | rfl :=
    -- the four groups that the converter names itself
    (mem_processNames_iff htracks).mp h
  · rw [madeUpOwner_enginecore hevents]
    rfl
  · rw [madeUpOwner_gpu hapart hget]
    rfl
  · rw [madeUpOwner_eventloop hapart htids]
    rfl
  · rw [requestName, madeUpOwner_requests]
    rfl

/-- The name of a GPU is not that of the requests. -/
theorem gpuName_ne (key : ℤ × ℤ) : gpuName key ≠ "Request Interference" := by
  intro h
  have hchars := congrArg String.toList h
  simp [gpuName] at hchars

/-- What the separation of an exported trace needs. -/
theorem pidsApart_of_separate {log : Log} {tracks : GroupedTracks}
    (htracks : groupedTracks log = .ok tracks)
    (hgroups : ∀ a ∈ tracks.events, ∀ b ∈ tracks.events, a.2.pid = b.2.pid → a.1 = b.1)
    (hnames : ∀ a ∈ tracks.processNames, ∀ b ∈ tracks.processNames, a.pid = b.pid →
      a.name = b.name) : PidsApart log := by
  have hunique : ∀ {group group' : TrackGroup} {pid : Option ℤ}, Occupies log group pid →
      Occupies log group' pid → group = group' := by
    intro group group' pid h h'
    obtain ⟨ev, hev, hpid⟩ := (mem_events_iff htracks).mpr h
    obtain ⟨ev', hev', hpid'⟩ := (mem_events_iff htracks).mpr h'
    exact hgroups _ hev _ hev' (hpid.trans hpid'.symm)
  refine ⟨?_, ?_, fun pid hreal hrange => ?_, fun hreal => ⟨fun h => ?_, fun h => ?_⟩,
    fun hreal h => ?_⟩
  · -- both loops name the id 12000
    by_contra hboth
    obtain ⟨hevents, htids⟩ := not_or.mp hboth
    have hname := hnames _ ((mem_processNames_iff htracks).mpr (.inl ⟨hevents, rfl⟩)) _
      ((mem_processNames_iff htracks).mpr (.inr (.inr (.inl ⟨htids, rfl⟩)))) rfl
    exact absurd hname (by decide)
  · -- the id of the 2001st GPU is that of the requests
    by_contra hmany
    have hget := List.getElem?_eq_getElem (not_le.mp hmany)
    have hname := hnames _ ((mem_processNames_iff htracks).mpr (.inr (.inl ⟨_, _, hget, rfl⟩))) _
      ((mem_processNames_iff htracks).mpr (.inr (.inr (.inr rfl)))) rfl
    exact gpuName_ne _ hname
  · -- the process has the number of a GPU that is drawn
    have hlt : (pid - 9000).toNat < (gpuKeys log).length := by omega
    have hget := List.getElem?_eq_getElem hlt
    have hkey : (gpuKeys log)[(pid - 9000).toNat] ∈ gpuKeysOf log.cuptiMessages :=
      List.mem_firstSeen_id.mp (List.mem_of_getElem? hget)
    have hnumber : List.number 9000 (gpuKeysOf log.cuptiMessages)
        (gpuKeys log)[(pid - 9000).toNat] = 9000 + (pid - 9000).toNat :=
      (List.number_eq_iff hkey).mpr hget
    have hpid : ((9000 + (pid - 9000).toNat : ℕ) : ℤ) = pid := by omega
    have hgpu := Occupies.gpu hkey
    rw [hnumber, hpid] at hgpu
    cases hunique (.process hreal) hgpu
  · cases hunique (.process hreal) (.enginecore h)
  · cases hunique (.process hreal) (.eventloop h)
  · cases hunique (.process hreal) (.requests h)

/-- The ids of an exported trace stand for one group each, with one name, exactly when the ids of
    the log and the made-up ones are apart. -/
theorem groupsSeparate_iff (log : Log) : GroupsSeparate log ↔ (Exports log → PidsApart log) := by
  rw [← exists_groupedTracks_iff]
  constructor
  · intro h hx
    obtain ⟨tracks, htracks⟩ := hx
    obtain ⟨hgroups, hnames⟩ := h tracks htracks
    exact pidsApart_of_separate htracks hgroups hnames
  · intro h tracks htracks
    have hapart := h ⟨tracks, htracks⟩
    constructor
    · intro a ha b hb hpid
      -- the two groups have events under one id
      have hocc := (mem_events_iff htracks).mp ⟨a.2, ha, rfl⟩
      have hocc' := (mem_events_iff htracks).mp ⟨b.2, hb, rfl⟩
      rw [hpid] at hocc
      exact hocc.unique hapart hocc'
    · intro a ha b hb hpid
      -- a name goes with the group that its id was made up for
      have htitle := title_madeUpOwner hapart htracks ha
      rw [hpid, title_madeUpOwner hapart htracks hb] at htitle
      exact (Option.some.inj htitle).symm

/-! ## A log with both loops -/

/-- The engine core is busy for a microsecond, and its thread announces an event loop, which
    waits for a CPU. -/
def bothLoops : Log := [
  { event := .enginecoreLoop {
      phase := "_process_input_queue"
      startNs := some 1700000000000000000
      endNs := some 1700000000000001000 } },
  -- the event loop's thread, and a wait of it
  { event := .threadRole {
      tid := some 4243
      role := some "asyncio_eventloop"
      timestampNs := some 1700000000000005000
      monoTimestampNs := some 500000000000000 } },
  { event := .schedLatency {
      tid := some 4243
      startNs := some 500000000000100
      endNs := some 500000000000200 } }]

/-- The id 12000 gets two names. -/
theorem not_groupsSeparate_bothLoops : ¬GroupsSeparate bothLoops := by
  intro h
  obtain ⟨tracks, htracks⟩ : ∃ tracks, groupedTracks bothLoops = .ok tracks := ⟨_, rfl⟩
  have hnames := (h tracks htracks).2
  have hengine : ({ pid := enginecorePid, name := "EngineCore Main Loop" } : NameEvent) ∈
      tracks.processNames := (mem_processNames_iff htracks).mpr (.inl ⟨by decide, rfl⟩)
  have hloop : ({ pid := eventloopOsPid, name := "EventLoop OS Scheduling" } : NameEvent) ∈
      tracks.processNames :=
    (mem_processNames_iff htracks).mpr (.inr (.inr (.inl ⟨by decide, rfl⟩)))
  exact absurd (hnames _ hengine _ hloop rfl) (by decide)

end DeLatency
