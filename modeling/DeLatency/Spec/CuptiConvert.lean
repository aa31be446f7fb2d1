import DeLatency.Spec.CuptiTurns
import Mathlib.Data.List.Induction

/-!
# Every record the tracer sends can be converted

The tracer leaves `tid` out of the payload of a call whose enter callback it has not seen,
and the converter indexes `tid`.

## Key results

- `linkRuntimes_bars`: the linking loop draws one bar for each call
- `convertible_iff`: the conversion succeeds exactly when every runtime or driver record
  has a thread
-/

namespace DeLatency

/-- A bar of the trace, without its arguments. -/
structure RuntimeBar where
  name : String
  tsNs : ℤ
  durNs : ℤ
  pid : Option ℤ
  tid : Option ℤ
deriving DecidableEq

def CompleteEvent.bar (ev : CompleteEvent) : RuntimeBar where
  name := ev.name
  tsNs := ev.tsNs
  durNs := ev.durNs
  pid := ev.pid
  tid := ev.tid

def TraceEvent.runtimeBar : TraceEvent → Option RuntimeBar
  | .complete ev => if ev.cat = "cuda_runtime" then some ev.bar else none
  | _ => none

/-- The bars of category `cuda_runtime`. -/
def runtimeBars (events : List TraceEvent) : List RuntimeBar :=
  events.filterMap TraceEvent.runtimeBar

/-- The bar of a runtime or driver record. -/
def UnifiedTraceRecord.bar (generatedDispatchSlices : List DispatchSlice)
    (rec : UnifiedTraceRecord) : RuntimeBar where
  name := if rec.name = "" then
    if rec.type = .runtime then "runtime_unknown" else "driver_unknown" else rec.name
  tsNs := rec.startNs.toInt64.toInt
  durNs := rec.endNs.toInt64.toInt - rec.startNs.toInt64.toInt
  pid := runtimePid generatedDispatchSlices (some rec.pid.toInt32.toInt)
  tid := some rec.tid.toInt32.toInt

/-- The conversion raises nothing and draws one bar for every runtime or driver record. -/
def Convertible (generatedDispatchSlices : List DispatchSlice)
    (records : List UnifiedTraceRecord) : Prop :=
  ∃ trace, processCupti generatedDispatchSlices (records.map sendRecordPayload) = .ok trace ∧
    (runtimeBars trace.events).Perm
      ((records.filter fun rec => rec.type.IsApi).map (UnifiedTraceRecord.bar
        generatedDispatchSlices))

/-! ## Classification -/

/-- The payload of a record always carries a process id. -/
theorem pid_recordPayload (rec : UnifiedTraceRecord) :
    (recordPayload rec).pid = some rec.pid.toInt32.toInt := by
  unfold recordPayload
  cases rec.type <;> rfl

/-- The payload carries a thread id exactly when the record's is not zero. -/
theorem tid_recordPayload (rec : UnifiedTraceRecord) :
    (recordPayload rec).tid = if rec.tid = 0 then none else some rec.tid.toInt32.toInt := by
  unfold recordPayload
  cases rec.type <;> rfl

/-- The payload always carries the start. -/
theorem startNs_recordPayload (rec : UnifiedTraceRecord) :
    (recordPayload rec).startNs = some rec.startNs.toInt64.toInt := by
  unfold recordPayload
  cases rec.type <;> rfl

/-- The payload always carries the end. -/
theorem endNs_recordPayload (rec : UnifiedTraceRecord) :
    (recordPayload rec).endNs = some rec.endNs.toInt64.toInt := by
  unfold recordPayload
  cases rec.type <;> rfl

/-- No record has an empty payload. -/
theorem recordPayload_ne_empty (rec : UnifiedTraceRecord) : recordPayload rec ≠ {} := by
  intro h
  have hpid := pid_recordPayload rec
  rw [h] at hpid
  cases hpid

/-- A record is sent as a runtime or driver event exactly when it is an API record. -/
theorem eventType_mem_api {rec : UnifiedTraceRecord} :
    (sendRecordPayload rec).eventType ∈ ["runtime", "driver"] ↔ rec.type.IsApi := by
  have htype : (sendRecordPayload rec).eventType = rec.type.str := rfl
  rw [htype]
  cases rec.type <;> decide

section Classification

variable (st : CuptiRecords)

/-- Noting an end adds no call. -/
@[simp] theorem noteEnd_cuptiEvents (pid startNs endNs : Option ℤ) :
    (st.noteEnd pid startNs endNs).cuptiEvents = st.cuptiEvents := by
  unfold CuptiRecords.noteEnd
  split
  · split <;> rfl
  · rfl

/-- Noting an end adds no kernel. -/
@[simp] theorem noteEnd_eagerKernels (pid startNs endNs : Option ℤ) :
    (st.noteEnd pid startNs endNs).eagerKernels = st.eagerKernels := by
  unfold CuptiRecords.noteEnd
  split
  · split <;> rfl
  · rfl

/-- A message is a call when its type says so. -/
theorem add_cuptiEvents {message : CuptiMessage} (hne : message.payload ≠ {}) :
    (st.add message).cuptiEvents = st.cuptiEvents ++
      if message.eventType ∈ ["runtime", "driver"] then [message.payload] else [] := by
  unfold CuptiRecords.add
  dsimp only
  rw [if_neg hne]
  split
  · -- a call is kept whatever its type adds to the names
    split <;> simp
  · split
    · split
      · simp
      · split <;> simp
    · simp

/-- Work on the GPU comes from a message. -/
theorem add_eagerKernels {message : CuptiMessage} {k : CuptiPayload}
    (hk : k ∈ (st.add message).eagerKernels) : k ∈ st.eagerKernels ∨ k = message.payload := by
  unfold CuptiRecords.add at hk
  dsimp only at hk
  split at hk
  · exact .inl hk
  · split at hk
    · split at hk <;> exact .inl (by simpa using hk)
    · split at hk
      · split at hk
        · -- the only branch that adds a kernel
          simpa using hk
        · split at hk <;> exact .inl (by simpa using hk)
      · exact .inl (by simpa using hk)

end Classification

/-- The records of the messages of a tracer. -/
theorem cuptiRecords_sendRecordPayload (records : List UnifiedTraceRecord) :
    (cuptiRecords (records.map sendRecordPayload)).cuptiEvents =
        (records.filter fun rec => rec.type.IsApi).map recordPayload ∧
      ∀ k ∈ (cuptiRecords (records.map sendRecordPayload)).eagerKernels,
        ∃ rec ∈ records, k = recordPayload rec := by
  unfold cuptiRecords
  -- by induction from the back: the last record is the last one added
  induction records using List.reverseRecOn with
  | nil => exact ⟨rfl, by simp⟩
  | append_singleton rest rec ih =>
    obtain ⟨hevents, hkernels⟩ := ih
    rw [List.map_append, List.foldl_append, List.map_singleton, List.foldl_cons, List.foldl_nil]
    constructor
    · rw [add_cuptiEvents _ (recordPayload_ne_empty rec), hevents, List.filter_append,
        List.map_append]
      -- an API record joins the calls, any other does not
      by_cases h : rec.type.IsApi
      · rw [if_pos (eventType_mem_api.mpr h), List.filter_cons_of_pos (by simpa using h)]
        rfl
      · rw [if_neg (fun hmem => h (eventType_mem_api.mp hmem)),
          List.filter_cons_of_neg (by simpa using h)]
        rfl
    · intro k hk
      -- a kernel was there before, or is this record's
      obtain hk | rfl := add_eagerKernels _ hk
      · obtain ⟨rec', hrec', rfl⟩ := hkernels k hk
        exact ⟨rec', List.mem_append_left _ hrec', rfl⟩
      · exact ⟨rec, by simp, rfl⟩

/-! ## The loops -/

/-- The bars of the runtime calls are collected event by event. -/
@[simp] theorem runtimeBars_append (events events' : List TraceEvent) :
    runtimeBars (events ++ events') = runtimeBars events ++ runtimeBars events' :=
  List.filterMap_append

/-- A complete event of the runtime category is a bar. -/
theorem runtimeBars_complete {ev : CompleteEvent} (hcat : ev.cat = "cuda_runtime")
    (rest : List TraceEvent) :
    runtimeBars (.complete ev :: rest) = ev.bar :: runtimeBars rest := by
  have hbar : (TraceEvent.complete ev).runtimeBar = some ev.bar := if_pos hcat
  rw [runtimeBars, List.filterMap_cons_some hbar, runtimeBars]

/-- A complete event of another category is none. -/
theorem runtimeBars_complete_of_ne {ev : CompleteEvent} (hcat : ev.cat ≠ "cuda_runtime")
    (rest : List TraceEvent) : runtimeBars (.complete ev :: rest) = runtimeBars rest := by
  have hbar : (TraceEvent.complete ev).runtimeBar = none := if_neg hcat
  rw [runtimeBars, List.filterMap_cons_none hbar, runtimeBars]

/-- The bar of a call, as far as its payload tells. -/
def CuptiPayload.bar (generatedDispatchSlices : List DispatchSlice) (rt : CuptiPayload) :
    RuntimeBar where
  name := rt.name.getD "cuda_runtime"
  tsNs := rt.startNs.getD 0
  durNs := rt.endNs.getD 0 - rt.startNs.getD 0
  pid := runtimePid generatedDispatchSlices rt.pid
  tid := rt.tid

section Loops

variable {slices : List DispatchSlice} {kernelsMap : Dict CorrKey (List CuptiPayload)}
  {trace trace' : CuptiTrace}

/-- A turn of the linking loop succeeds when the three fields it indexes are there. -/
theorem exists_linkRuntime {rt : CuptiPayload} (hstart : rt.startNs.isSome)
    (hend : rt.endNs.isSome) (htid : rt.tid.isSome) :
    ∃ trace', trace.linkRuntime slices kernelsMap rt = .ok trace' := by
  obtain ⟨start, hstart⟩ := Option.isSome_iff_exists.mp hstart
  obtain ⟨endNs, hend⟩ := Option.isSome_iff_exists.mp hend
  obtain ⟨tid, htid⟩ := Option.isSome_iff_exists.mp htid
  exact ⟨_, linkRuntime_eq_ok_iff.mpr ⟨start, endNs, tid, hstart, hend, htid, rfl⟩⟩

/-- What a turn of the linking loop does. -/
theorem linkRuntime_eq_ok {rt : CuptiPayload}
    (h : trace.linkRuntime slices kernelsMap rt = .ok trace') :
    rt.tid.isSome ∧ runtimeBars trace'.events = runtimeBars trace.events ++ [rt.bar slices] := by
  obtain ⟨start, endNs, tid, hstart, hend, htid, rfl⟩ := linkRuntime_eq_ok_iff.mp h
  refine ⟨by rw [htid]; rfl, ?_⟩
  have hbar : ∀ kernels, (runtimeSlice rt (runtimePid slices rt.pid) start endNs tid
      kernels).bar = rt.bar slices := by
    intro kernels
    simp [runtimeSlice, CompleteEvent.bar, CuptiPayload.bar, hstart, hend, htid]
  rw [runtimeBars_append, runtimeEvents, runtimeBars_complete rfl, hbar]
  -- the flow event is no bar
  split <;> rfl

/-- A turn of the kernel loop succeeds when the two fields it indexes are there. -/
theorem exists_drawKernel {k : CuptiPayload} (hstart : k.startNs.isSome)
    (hend : k.endNs.isSome) : ∃ trace', trace.drawKernel k = .ok trace' := by
  obtain ⟨start, hstart⟩ := Option.isSome_iff_exists.mp hstart
  obtain ⟨endNs, hend⟩ := Option.isSome_iff_exists.mp hend
  exact ⟨_, drawKernel_eq_ok_iff.mpr ⟨start, endNs, hstart, hend, rfl⟩⟩

/-- The kernel loop draws no bar of a call. -/
theorem drawKernel_eq_ok {k : CuptiPayload} (h : trace.drawKernel k = .ok trace') :
    runtimeBars trace'.events = runtimeBars trace.events := by
  obtain ⟨start, endNs, -, -, rfl⟩ := drawKernel_eq_ok_iff.mp h
  have hcat : ∀ gpuPid, (kernelSlice k gpuPid start endNs).cat ≠ "cuda_runtime" := by
    intro gpuPid
    show "gpu_kernel" ≠ "cuda_runtime"
    decide
  rw [runtimeBars_append, kernelEvents_eq, runtimeBars_append,
    runtimeBars_complete_of_ne (hcat _)]
  -- neither the names nor the flow event are bars
  split <;> simp [runtimeBars, TraceEvent.runtimeBar]

/-- The linking loop draws one bar for each call, in order. -/
theorem linkRuntimes_bars {calls : List CuptiPayload}
    (h : calls.foldlM (CuptiTrace.linkRuntime slices kernelsMap) trace = .ok trace') :
    (∀ rt ∈ calls, rt.tid.isSome) ∧
      runtimeBars trace'.events = runtimeBars trace.events ++ calls.map (·.bar slices) := by
  -- one bar for each call seen so far
  refine List.foldlM_induction_seen
    (P := fun seen (t : CuptiTrace) => (∀ rt ∈ seen, rt.tid.isSome) ∧
      runtimeBars t.events = runtimeBars trace.events ++ seen.map (·.bar slices))
    ⟨by simp, by simp⟩ (fun seen rt t t' hrt hseen => ?_) h
  obtain ⟨htids, hbars⟩ := hseen
  obtain ⟨htid, hbar⟩ := linkRuntime_eq_ok hrt
  exact ⟨List.forall_mem_append.mpr ⟨htids, by simpa using htid⟩, by simp [hbar, hbars]⟩

/-- Keying the calls by their start keeps the calls and their order. -/
theorem map_snd_of_mapM_startKey {calls : List CuptiPayload} {keyed : List (ℤ × CuptiPayload)}
    (h : calls.mapM startKey = .ok keyed) : keyed.map Prod.snd = calls := by
  rw [List.mapM_eq_ok_iff_forall₂] at h
  induction h with
  | nil => rfl
  | cons hrt _ ih =>
    obtain ⟨start, -, heq⟩ := Except.bind_eq_ok_iff.mp hrt
    cases heq
    rw [List.map_cons, ih]

/-- Sorting keeps the calls. -/
theorem sortByStart_perm {calls sorted : List CuptiPayload} (h : sortByStart calls = .ok sorted) :
    sorted.Perm calls := by
  obtain ⟨keyed, hkeyed, h⟩ := Except.bind_eq_ok_iff.mp h
  cases h
  rw [← map_snd_of_mapM_startKey hkeyed]
  exact (List.sortBy_perm Prod.fst keyed).map Prod.snd

/-- Calls that all have a start can be sorted. -/
theorem exists_sortByStart {calls : List CuptiPayload} (h : ∀ rt ∈ calls, rt.startNs.isSome) :
    ∃ sorted, sortByStart calls = .ok sorted := by
  -- a key can be read from every call
  have hkey : ∀ rt ∈ calls, ∃ entry, startKey rt = .ok entry := by
    intro rt hrt
    obtain ⟨start, hstart⟩ := Option.isSome_iff_exists.mp (h rt hrt)
    rw [startKey, hstart]
    exact ⟨_, rfl⟩
  obtain ⟨keyed, hkeyed⟩ := List.exists_mapM_eq_ok hkey
  exact ⟨_, Except.bind_eq_ok_iff.mpr ⟨keyed, hkeyed, rfl⟩⟩

end Loops

/-! ## The conversion -/

/-- The bar of a record's payload is the record's. -/
theorem bar_recordPayload {slices : List DispatchSlice} {rec : UnifiedTraceRecord}
    (hapi : rec.type.IsApi) (htid : rec.tid ≠ 0) :
    (recordPayload rec).bar slices = rec.bar slices := by
  -- an API record always has a name
  have hname : (recordPayload rec).name = some (rec.bar slices).name := by
    unfold recordPayload UnifiedTraceRecord.bar
    cases hapi with
    | inl h => simp [h]
    | inr h => simp [h]
  unfold CuptiPayload.bar
  rw [hname, startNs_recordPayload, endNs_recordPayload, pid_recordPayload, tid_recordPayload,
    if_neg htid]
  rfl

/-- The records of a tracer are converted, one bar for each call, exactly when every runtime
    or driver record has a thread. -/
theorem convertible_iff (slices : List DispatchSlice) (records : List UnifiedTraceRecord) :
    Convertible slices records ↔ ∀ rec ∈ records, rec.type.IsApi → rec.tid ≠ 0 := by
  obtain ⟨hcalls, hkernels⟩ := cuptiRecords_sendRecordPayload records
  constructor
  · intro h rec hrec hapi htid
    obtain ⟨trace, htrace, -⟩ := h
    obtain ⟨sorted, hsorted, htrace⟩ := Except.bind_eq_ok_iff.mp htrace
    obtain ⟨linked, hlinked, -⟩ := Except.bind_eq_ok_iff.mp htrace
    have hmem : recordPayload rec ∈ sorted := by
      rw [(sortByStart_perm hsorted).mem_iff, hcalls]
      exact List.mem_map_of_mem (List.mem_filter.mpr ⟨hrec, by simpa using hapi⟩)
    have hsome := (linkRuntimes_bars hlinked).1 _ hmem
    rw [tid_recordPayload, if_pos htid] at hsome
    cases hsome
  · intro h
    have hstart : ∀ rec, (recordPayload rec).startNs.isSome := fun rec => by
      rw [startNs_recordPayload]; rfl
    have hend : ∀ rec, (recordPayload rec).endNs.isSome := fun rec => by
      rw [endNs_recordPayload]; rfl
    -- each of the three loops succeeds
    obtain ⟨sorted, hsorted⟩ : ∃ sorted,
        sortByStart (cuptiRecords (records.map sendRecordPayload)).cuptiEvents = .ok sorted := by
      apply exists_sortByStart
      rw [hcalls]
      intro rt hrt
      obtain ⟨rec, -, rfl⟩ := List.mem_map.mp hrt
      exact hstart rec
    have hperm := sortByStart_perm hsorted
    obtain ⟨linked, hlinked⟩ := List.exists_foldlM_eq_ok
      (f := CuptiTrace.linkRuntime slices
        (cuptiRecords (records.map sendRecordPayload)).allKernelsMap) (l := sorted) (by
        intro trace rt hrt
        rw [hperm.mem_iff, hcalls] at hrt
        obtain ⟨rec, hrec, rfl⟩ := List.mem_map.mp hrt
        obtain ⟨hmem, hapi⟩ := List.mem_filter.mp hrec
        apply exists_linkRuntime (hstart rec) (hend rec)
        rw [tid_recordPayload, if_neg (h rec hmem (by simpa using hapi))]
        rfl) {}
    obtain ⟨drawn, hdrawn⟩ := List.exists_foldlM_eq_ok (f := CuptiTrace.drawKernel)
      (l := (cuptiRecords (records.map sendRecordPayload)).eagerKernels) (by
        intro trace k hk
        obtain ⟨rec, -, rfl⟩ := hkernels k hk
        exact exists_drawKernel (hstart rec) (hend rec)) linked
    refine ⟨drawn, ?_, ?_⟩
    · exact Except.bind_eq_ok_iff.mpr ⟨sorted, hsorted,
        Except.bind_eq_ok_iff.mpr ⟨linked, hlinked, hdrawn⟩⟩
    · have hbars : runtimeBars drawn.events = runtimeBars linked.events :=
        List.foldlM_induction (P := fun trace => runtimeBars trace.events =
          runtimeBars linked.events) rfl (fun _ _ _ _ hk ih => (drawKernel_eq_ok hk).trans ih)
          hdrawn
      rw [hbars, (linkRuntimes_bars hlinked).2]
      have hpayloads : ((records.filter fun rec => rec.type.IsApi).map recordPayload).map
          (·.bar slices) = (records.filter fun rec => rec.type.IsApi).map (·.bar slices) := by
        rw [List.map_map]
        apply List.map_congr_left
        intro rec hrec
        obtain ⟨hmem, hapi⟩ := List.mem_filter.mp hrec
        have hapi : rec.type.IsApi := by simpa using hapi
        exact bar_recordPayload hapi (h rec hmem hapi)
      rw [← hpayloads, ← hcalls]
      exact hperm.map _

/-- A call that CUPTI reports without an enter callback, as when the tracer is turned on in the
    middle of it. -/
def unseenCall : List UnifiedTraceRecord :=
  bufferCompleted
    { pid := 4242
      -- the call was entered before the tracer subscribed
      corrToOstid := Dict.empty
      callbackName := fun _ _ => some "cudaLaunchKernel_v7000" } true
    [.api .runtimeApi {
      start := 1700000000000000000
      endNs := 1700000000000005000
      correlationId := 17
      processId := 4242
      cbid := 211 }]

/-- The conversion of such a call ends with a `KeyError`. -/
theorem not_convertible_unseenCall : ¬Convertible [] unseenCall := by
  intro h
  obtain ⟨trace, htrace, -⟩ := h
  have herror : processCupti [] (unseenCall.map sendRecordPayload) =
      .error (.keyError "tid") := by rfl
  rw [herror] at htrace
  cases htrace

/-- The records of a buffer have their threads when every call in it has been entered. -/
theorem tid_bufferCompleted_iff (ctx : BufferContext) (buffer : List Activity) :
    (∀ rec ∈ bufferCompleted ctx true buffer, rec.type.IsApi → rec.tid ≠ 0) ↔
      ∀ domain api, Activity.api domain api ∈ buffer →
        ctx.corrToOstid.getD api.correlationId 0 ≠ 0 := by
  rw [bufferCompleted, if_pos rfl]
  constructor
  · intro h domain api hmem
    apply h _ (List.mem_filterMap.mpr ⟨_, hmem, rfl⟩)
    cases domain
    · exact .inl rfl
    · exact .inr rfl
  · intro h rec hrec hapi
    -- only the activity of an API call becomes a record of one
    obtain ⟨activity, hmem, hrec⟩ := List.mem_filterMap.mp hrec
    cases activity with
    | kernel k =>
      cases hrec
      exact absurd (show RecordType.kernel.IsApi from hapi) (by decide)
    | memcpy m =>
      cases hrec
      exact absurd (show RecordType.memcpy.IsApi from hapi) (by decide)
    | memset m =>
      cases hrec
      exact absurd (show RecordType.memset.IsApi from hapi) (by decide)
    | api domain api =>
      cases hrec
      exact h domain api hmem
    | other => cases hrec

end DeLatency
