import DeLatency.Converter.Tracks
import DeLatency.ForStd.Numbering
import DeLatency.Spec.CuptiTurns
import DeLatency.Spec.Flows
import DeLatency.Spec.WorkerTracks

/-!
# The groups of trace events

A viewer puts the events of one process id together.  `TrackGroup` says what an event was
drawn for.  The converter does not keep it, so the loops of the CUPTI part are run with the
groups on the side (`groupedTracks`), which changes nothing (`map_tracks_groupedTracks`).

The linking loop draws the calls in their processes (`CallPlaces`).  The kernel loop asks a
table for the ids of the GPUs, which numbers them from 9000 on, and names each GPU once
(`GpuPlaces`).
-/

namespace DeLatency

/-- What a trace event was drawn for. -/
inductive TrackGroup
  | process (pid : Option ℤ)
  | gpu (key : ℤ × ℤ)
  | enginecore
  | eventloop
  | requests

/-! ## Groups -/

/-- `processCupti` with the groups of its events. -/
def groupedCupti (slices : List DispatchSlice) (messages : List CuptiMessage) :
    Except PyError (CuptiTrace × List (TrackGroup × TraceEvent)) := do
  let records := cuptiRecords messages
  let cuptiEvents ← sortByStart records.cuptiEvents
  let st ← cuptiEvents.foldlM
    (List.labelTurn (CuptiTrace.linkRuntime slices records.allKernelsMap) (·.events)
      fun rt => .process (runtimePid slices rt.pid)) ({}, [])
  records.eagerKernels.foldlM
    (List.labelTurn CuptiTrace.drawKernel (·.events) fun k => .gpu (gpuKey k)) st

/-- The events of a trace with their groups, and its process names. -/
structure GroupedTracks where
  events : List (TrackGroup × TrackEvent)
  processNames : List NameEvent

def GroupedTracks.tracks (tracks : GroupedTracks) : DrawnTracks where
  events := tracks.events.map Prod.snd
  processNames := tracks.processNames

/-- A real process is the group of its own events. -/
def TrackEvent.ofProcess (ev : TrackEvent) : TrackGroup × TrackEvent := (.process ev.pid, ev)

/-- The event with its group, unless it is metadata. -/
def groupedTrack (entry : TrackGroup × TraceEvent) : Option (TrackGroup × TrackEvent) :=
  entry.2.track.map fun ev => (entry.1, ev)

/-- The trace with the groups of its events. -/
def groupedTracks (log : Log) : Except PyError GroupedTracks := do
  let workerEvents ← sortWorkerEvents log.workerEvents
  let dispatchSlices := generatedDispatchSlices workerEvents
  let cupti ← groupedCupti dispatchSlices log.cuptiMessages
  return {
    -- the parts in the order in which the trace is built
    events := (workerTrack workerEvents).map TrackEvent.ofProcess ++
      (ppCommTrack dispatchSlices log.ppCommEvents).map TrackEvent.ofProcess ++
      (enginecoreTrack log).map (fun ev => (.enginecore, ev)) ++
      cupti.2.filterMap groupedTrack ++
      (eventloopOsTrack log).map (fun ev => (.eventloop, ev)) ++
      (requestTrack log).map fun ev => (.requests, ev)
    processNames := enginecoreName log ++ cupti.1.events.filterMap TraceEvent.processName? ++
      eventloopOsName log ++ [requestName] }

/-! ## Places -/

/-- The groups that have events, with the ids of these. -/
def places (events : List (TrackGroup × TrackEvent)) : Set (TrackGroup × Option ℤ) :=
  {place | ∃ ev, (place.1, ev) ∈ events ∧ ev.pid = place.2}

/-- The places of two lists are those of either. -/
theorem places_append (events events' : List (TrackGroup × TrackEvent)) :
    places (events ++ events') = places events ∪ places events' := by
  ext place
  simp only [places, List.mem_append, Set.mem_union, Set.mem_ofPred_eq, or_and_right, exists_or]

/-- The GPUs in the order in which their work comes. -/
def gpuKeysOf (messages : List CuptiMessage) : List (ℤ × ℤ) :=
  (cuptiRecords messages).eagerKernels.map gpuKey

/-- `get_gpu_track_pid` numbers the GPUs from 9000 on. -/
theorem getGpuTrackPid_eq (d : Dict (ℤ × ℤ) ℕ) (key : ℤ × ℤ) :
    getGpuTrackPid d key = d.ask 9000 key := rfl

def gpuName (key : ℤ × ℤ) : String :=
  "GPU local " ++ toString key.2 ++ " / source pid " ++ toString key.1

section Turn

variable {turn : CuptiTurn} {group : CuptiPayload → TrackGroup}
  {st st' : CuptiTrace × List (TrackGroup × TraceEvent)} {rec : CuptiPayload}
  {new : List TraceEvent} {pid : Option ℤ}

/-- A turn whose new events have one id occupies one more place. -/
theorem places_labelTurn (hturn : List.labelTurn turn (·.events) group st rec = .ok st')
    (hevents : st'.1.events = st.1.events ++ new)
    (hpid : ∀ p, (∃ ev ∈ new.filterMap TraceEvent.track, ev.pid = p) ↔ p = pid) :
    places (st'.2.filterMap groupedTrack) =
      insert (group rec, pid) (places (st.2.filterMap groupedTrack)) := by
  -- the turn labels just what it appends
  obtain ⟨-, hlabels⟩ := List.labelTurn_eq_ok hturn
  rw [hevents, List.drop_left] at hlabels
  rw [hlabels, List.filterMap_append, places_append, Set.union_comm, Set.insert_eq]
  congr 1
  ext ⟨g, p⟩
  -- so all that it appends lies in the one group
  have htracks : (new.map fun ev => (group rec, ev)).filterMap groupedTrack =
      (new.filterMap TraceEvent.track).map fun ev => (group rec, ev) := by
    rw [List.filterMap_map, List.map_filterMap]
    rfl
  show (∃ ev : TrackEvent, (g, ev) ∈ _ ∧ ev.pid = p) ↔ (g, p) = (group rec, pid)
  rw [htracks, Prod.mk.injEq, ← hpid p]
  constructor
  · intro h
    obtain ⟨ev, hmem, hev⟩ := h
    obtain ⟨ev', hmem', heq⟩ := List.mem_map.mp hmem
    cases heq
    exact ⟨rfl, ev, hmem', hev⟩
  · intro h
    obtain ⟨rfl, ev, hmem, hev⟩ := h
    exact ⟨ev, List.mem_map_of_mem hmem, hev⟩

/-- The groups change nothing. -/
theorem erase_labelTurn (hturn : List.labelTurn turn (·.events) group st rec = .ok st')
    (hevents : st'.1.events = st.1.events ++ new) (h : st.2.map Prod.snd = st.1.events) :
    st'.2.map Prod.snd = st'.1.events := by
  obtain ⟨-, hlabels⟩ := List.labelTurn_eq_ok hturn
  rw [hevents, List.drop_left] at hlabels
  rw [hlabels, hevents, List.map_append, h, List.map_map]
  congr 1
  exact List.map_id _

end Turn

/-! ### Calls -/

/-- The linking loop draws the calls in their processes. -/
structure CallPlaces (slices : List DispatchSlice) (seen : List CuptiPayload)
    (st : CuptiTrace × List (TrackGroup × TraceEvent)) : Prop where
  table : st.1.gpuTrackPidByKey = Dict.empty
  emitted : st.1.gpuTrackNamesEmitted = []
  names : st.1.events.filterMap TraceEvent.processName? = []
  erase : st.2.map Prod.snd = st.1.events
  places : places (st.2.filterMap groupedTrack) = {place | ∃ rt ∈ seen,
    place = (.process (runtimePid slices rt.pid), runtimePid slices rt.pid)}

/-- Before the first call no place is taken. -/
theorem callPlaces_nil (slices : List DispatchSlice) : CallPlaces slices [] ({}, []) where
  table := rfl
  emitted := rfl
  names := rfl
  erase := rfl
  places := by
    ext place
    simp [places]

/-- The events of a call are in its process. -/
theorem pid_runtimeEvents (slices : List DispatchSlice)
    (kernelsMap : Dict CorrKey (List CuptiPayload)) (trace : CuptiTrace) (rt : CuptiPayload)
    (start endNs tid : ℤ) (p : Option ℤ) :
    (∃ ev ∈ (runtimeEvents slices kernelsMap trace rt start endNs tid).filterMap
      TraceEvent.track, ev.pid = p) ↔ p = runtimePid slices rt.pid := by
  unfold runtimeEvents
  split
  · simp [TraceEvent.track, TrackEvent.pid, runtimeSlice, eq_comm]
  · simp [TraceEvent.track, TrackEvent.pid, runtimeSlice, eq_comm]

/-- The turn of a call takes the place of the call's process. -/
theorem CallPlaces.step {slices : List DispatchSlice} {seen : List CuptiPayload}
    {kernelsMap : Dict CorrKey (List CuptiPayload)}
    {st st' : CuptiTrace × List (TrackGroup × TraceEvent)} {rt : CuptiPayload}
    (hturn : List.labelTurn (CuptiTrace.linkRuntime slices kernelsMap) (·.events)
      (fun rt => TrackGroup.process (runtimePid slices rt.pid)) st rt = .ok st')
    (h : CallPlaces slices seen st) : CallPlaces slices (seen ++ [rt]) st' := by
  -- the turn of a call touches neither the GPU table nor the names
  obtain ⟨start, endNs, tid, -, -, -, htrace⟩ :=
    linkRuntime_eq_ok_iff.mp (List.labelTurn_eq_ok hturn).1
  have hevents : st'.1.events =
      st.1.events ++ runtimeEvents slices kernelsMap st.1 rt start endNs tid := by rw [htrace]
  refine ⟨?_, ?_, ?_, erase_labelTurn hturn hevents h.erase, ?_⟩
  · rw [htrace]
    exact h.table
  · rw [htrace]
    exact h.emitted
  · rw [hevents, List.filterMap_append, h.names]
    unfold runtimeEvents
    split <;> rfl
  · rw [places_labelTurn hturn hevents
      (pid_runtimeEvents slices kernelsMap st.1 rt start endNs tid), h.places]
    ext place
    simp [or_comm]

/-! ### Work on the GPU -/

/-- The kernel loop draws the work of a GPU under its number, and names each GPU once. -/
structure GpuPlaces (callPlaces : Set (TrackGroup × Option ℤ)) (keys : List (ℤ × ℤ))
    (st : CuptiTrace × List (TrackGroup × TraceEvent)) : Prop where
  table : Dict.Numbers 9000 keys st.1.gpuTrackPidByKey
  emitted : st.1.gpuTrackNamesEmitted = List.firstSeen id keys
  names : st.1.events.filterMap TraceEvent.processName? =
    (List.firstSeen id keys).map fun key =>
      { pid := List.number 9000 keys key, name := gpuName key }
  erase : st.2.map Prod.snd = st.1.events
  places : places (st.2.filterMap groupedTrack) = callPlaces ∪ {place | ∃ key ∈ keys,
    place = (.gpu key, some (List.number 9000 keys key : ℤ))}

/-- The events of a kernel, a copy or a fill have the number of its GPU. -/
theorem pid_kernelEvents (trace : CuptiTrace) (k : CuptiPayload) (start endNs : ℤ)
    (p : Option ℤ) :
    (∃ ev ∈ (kernelEvents trace k start endNs).filterMap TraceEvent.track, ev.pid = p) ↔
      p = some ((trace.gpuTrackPidByKey.ask 9000 (gpuKey k)).2 : ℤ) := by
  unfold kernelEvents kernelFlow
  simp only [getGpuTrackPid_eq]
  split <;> split <;> simp [TraceEvent.track, TrackEvent.pid, kernelSlice, eq_comm]

/-- A kernel names its track the first time only. -/
theorem names_kernelEvents (trace : CuptiTrace) (k : CuptiPayload) (start endNs : ℤ) :
    (kernelEvents trace k start endNs).filterMap TraceEvent.processName? =
      if gpuKey k ∉ trace.gpuTrackNamesEmitted then
        [{ pid := (trace.gpuTrackPidByKey.ask 9000 (gpuKey k)).2, name := gpuName (gpuKey k) }]
      else [] := by
  rw [kernelEvents_eq]
  unfold kernelFlow
  simp only [getGpuTrackPid_eq]
  split <;> split <;> rfl

/-- The turn of a kernel takes the place of its GPU. -/
theorem GpuPlaces.step {callPlaces : Set (TrackGroup × Option ℤ)} {keys : List (ℤ × ℤ)}
    {st st' : CuptiTrace × List (TrackGroup × TraceEvent)} {k : CuptiPayload}
    (hturn : List.labelTurn CuptiTrace.drawKernel (·.events)
      (fun k => TrackGroup.gpu (gpuKey k)) st k = .ok st')
    (h : GpuPlaces callPlaces keys st) : GpuPlaces callPlaces (keys ++ [gpuKey k]) st' := by
  obtain ⟨start, endNs, -, -, htrace⟩ := drawKernel_eq_ok_iff.mp (List.labelTurn_eq_ok hturn).1
  have hevents : st'.1.events = st.1.events ++ kernelEvents st.1 k start endNs := by rw [htrace]
  obtain ⟨htable, hnumber⟩ := h.table.ask (gpuKey k)
  have hseen : gpuKey k ∈ List.firstSeen id keys ↔ gpuKey k ∈ keys := List.mem_firstSeen_id
  refine ⟨?_, ?_, ?_, erase_labelTurn hturn hevents h.erase, ?_⟩
  · rw [htrace]
    exact htable
  · rw [htrace]
    dsimp only
    rw [h.emitted, List.firstSeen_id_concat]
    by_cases hk : gpuKey k ∈ keys
    · rw [if_pos hk, if_neg (not_not_intro (hseen.mpr hk))]
    · rw [if_neg hk, if_pos fun hmem => hk (hseen.mp hmem)]
  · -- the GPUs that have a name keep their numbers
    have hold : (List.firstSeen id keys).map (fun key =>
        ({ pid := List.number 9000 (keys ++ [gpuKey k]) key, name := gpuName key } : NameEvent)) =
        (List.firstSeen id keys).map fun key =>
          { pid := List.number 9000 keys key, name := gpuName key } :=
      List.map_congr_left fun key hkey => by
        rw [List.number_append 9000 (List.mem_firstSeen_id.mp hkey)]
    rw [hevents, List.filterMap_append, h.names, names_kernelEvents, h.emitted,
      List.firstSeen_id_concat, hnumber]
    by_cases hk : gpuKey k ∈ keys
    · rw [if_neg (not_not_intro (hseen.mpr hk)), if_pos hk, hold, List.append_nil]
    · rw [if_pos fun hmem => hk (hseen.mp hmem), if_neg hk, List.map_append, hold]
      rfl
  · rw [places_labelTurn hturn hevents (pid_kernelEvents st.1 k start endNs), h.places, hnumber,
      Set.insert_eq, Set.union_left_comm]
    congr 1
    ext place
    show place = _ ∨ (∃ key ∈ keys, _) ↔ ∃ key ∈ keys ++ [gpuKey k], _
    constructor
    · -- a place is new, or one of a GPU that had its number before
      intro hx
      obtain hnew | ⟨key, hkey, hold⟩ := hx
      · exact ⟨gpuKey k, by simp, hnew⟩
      · exact ⟨key, List.mem_append_left _ hkey, by rw [hold, List.number_append 9000 hkey]⟩
    · intro hx
      obtain ⟨key, hkey, hplace⟩ := hx
      by_cases hold : key ∈ keys
      · exact .inr ⟨key, hold, by rw [hplace, List.number_append 9000 hold]⟩
      · obtain hmem | hmem := List.mem_append.mp hkey
        · exact absurd hmem hold
        · rw [List.mem_singleton.mp hmem] at hplace
          exact .inl hplace

/-! ### The trace -/

/-- The calls and the work on the GPU of a log. -/
theorem gpuPlaces_groupedCupti {slices : List DispatchSlice} {messages : List CuptiMessage}
    {st : CuptiTrace × List (TrackGroup × TraceEvent)}
    (h : groupedCupti slices messages = .ok st) :
    GpuPlaces {place | ∃ rt ∈ callsInOrder messages,
      place = (.process (runtimePid slices rt.pid), runtimePid slices rt.pid)}
      (gpuKeysOf messages) st := by
  obtain ⟨calls, hsort, h⟩ := Except.bind_eq_ok_iff.mp h
  obtain ⟨st₁, hcalls, hkernels⟩ := Except.bind_eq_ok_iff.mp h
  have hfirst : CallPlaces slices calls st₁ :=
    List.foldlM_induction_seen (callPlaces_nil slices) (fun _ _ _ _ => CallPlaces.step) hcalls
  rw [sortByStart_eq hsort] at hfirst
  -- so far no GPU has been seen
  have hstart : GpuPlaces {place | ∃ rt ∈ callsInOrder messages,
      place = (.process (runtimePid slices rt.pid), runtimePid slices rt.pid)}
      (([] : List CuptiPayload).map gpuKey) st₁ := by
    refine ⟨?_, hfirst.emitted, hfirst.names, hfirst.erase, ?_⟩
    · rw [hfirst.table]
      exact Dict.numbers_empty 9000
    · rw [hfirst.places, callsInOrder]
      simp
  refine List.foldlM_induction_seen (P := fun seen st => GpuPlaces _ (seen.map gpuKey) st)
    hstart (fun seen k st st' hturn hseen => ?_) hkernels
  rw [List.map_append]
  exact hseen.step hturn

/-- The groups do not change the CUPTI part. -/
theorem map_fst_groupedCupti (slices : List DispatchSlice) (messages : List CuptiMessage) :
    (groupedCupti slices messages).map Prod.fst = processCupti slices messages := by
  unfold groupedCupti processCupti
  dsimp only
  cases sortByStart (cuptiRecords messages).cuptiEvents with
  | error e => rfl
  | ok calls =>
    -- labelling the events does not change the turns
    have hcalls : (calls.foldlM (List.labelTurn
        (CuptiTrace.linkRuntime slices (cuptiRecords messages).allKernelsMap) CuptiTrace.events
        fun rt => TrackGroup.process (runtimePid slices rt.pid)) ({}, [])).map Prod.fst =
        calls.foldlM (CuptiTrace.linkRuntime slices (cuptiRecords messages).allKernelsMap) {} :=
      List.map_fst_foldlM_labelTurn calls _
    show Except.map Prod.fst (calls.foldlM _ _ >>= fun st => _) = calls.foldlM _ _ >>= fun t => _
    rw [← hcalls]
    cases calls.foldlM (List.labelTurn
        (CuptiTrace.linkRuntime slices (cuptiRecords messages).allKernelsMap) CuptiTrace.events
        fun rt => TrackGroup.process (runtimePid slices rt.pid)) ({}, []) with
    | error e => rfl
    | ok st => exact List.map_fst_foldlM_labelTurn _ st

/-- The trace with its groups is the trace. -/
theorem map_tracks_groupedTracks (log : Log) :
    (groupedTracks log).map GroupedTracks.tracks = traceTracks log := by
  unfold groupedTracks traceTracks
  cases sortWorkerEvents log.workerEvents with
  | error e => rfl
  | ok workerEvents =>
    have hfst := map_fst_groupedCupti (generatedDispatchSlices workerEvents) log.cuptiMessages
    show Except.map _ (groupedCupti _ _ >>= fun cupti => _) = processCupti _ _ >>= fun cupti => _
    rw [← hfst]
    cases hgrouped : groupedCupti (generatedDispatchSlices workerEvents) log.cuptiMessages with
    | error e => rfl
    | ok st =>
      have herase := (gpuPlaces_groupedCupti hgrouped).erase
      -- without their labels the CUPTI events are those of the trace
      have hcupti : (st.2.filterMap groupedTrack).map Prod.snd =
          st.1.events.filterMap TraceEvent.track := by
        rw [← herase, List.filterMap_map, List.map_filterMap]
        apply List.filterMap_congr
        intro entry _
        rw [groupedTrack, Option.map_map]
        exact Option.map_id'
      show Except.ok (GroupedTracks.tracks _) = Except.ok _
      have hsnd : ∀ group : TrackGroup, (Prod.snd ∘ fun ev : TrackEvent => (group, ev)) = id :=
        fun _ => rfl
      have hprocess : Prod.snd ∘ TrackEvent.ofProcess = id := rfl
      simp only [GroupedTracks.tracks, List.map_append, List.map_map, hcupti, hsnd, hprocess,
        List.map_id]

end DeLatency
