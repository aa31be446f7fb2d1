import DeLatency.Converter.Trace
import DeLatency.Spec.CuptiConvert

/-!
# Where slices start

Each family of slices is drawn from the events of one kind.  This file says, family by
family, which fields of these events the starts of the slices come from.
-/

namespace DeLatency

/-! ## Workers -/

/-- The times that a track remembers. -/
def WorkerState.times (state : WorkerState) : List ℤ :=
  state.tPreStart.toList ++ state.tFwdStart.toList

/-- What some track remembers. -/
def WorkerIntervals.Remembers (w : WorkerIntervals) (t : ℤ) : Prop :=
  ∃ key state, w.workerStates.get? key = some state ∧ t ∈ state.times

variable {w : WorkerIntervals} {t : ℤ}

/-- A track that is changed by one event remembers the event's time at most. -/
private theorem remembers_alter {ts : Option ℤ} {w' : WorkerIntervals}
    {key : Option ℤ × Option ℤ} {f : WorkerState → WorkerState}
    (hw : w'.workerStates = w.workerStates.alter key {} f)
    (hf : ∀ state, t ∈ (f state).times → ts = some t ∨ t ∈ state.times)
    (h : w'.Remembers t) : ts = some t ∨ w.Remembers t := by
  obtain ⟨key', state', hget, ht⟩ := h
  rw [hw, Dict.get?_alter] at hget
  split at hget
  · cases hget
    obtain hts | hold := hf _ ht
    · exact .inl hts
    · right
      rw [Dict.getD] at hold
      cases hstate : w.workerStates.get? key with
      | none =>
        -- a new track remembers nothing
        rw [hstate] at hold
        simp [WorkerState.times] at hold
      | some state =>
        rw [hstate] at hold
        exact ⟨key, state, hstate, hold⟩
  · exact .inr ⟨key', state', hget, ht⟩

/-- A sampling or bookkeeping span changes no track. -/
private theorem remembers_spanPhase {hasPrecisePhaseSpans : Bool} {ev : WorkerEvent}
    {key : Option ℤ × Option ℤ} {name : String}
    (h : (workerEvent.spanPhase hasPrecisePhaseSpans ev key w name).Remembers t) :
    w.Remembers t := by
  unfold workerEvent.spanPhase at h
  split at h
  · exact h
  · split at h
    · exact h
    · exact h

/-- After one turn of the worker loop, the tracks remember its time or what they did. -/
theorem remembers_workerEvent {hasPrecisePhaseSpans : Bool} {ev : WorkerEvent}
    (h : (workerEvent hasPrecisePhaseSpans w ev).Remembers t) :
    ev.ts = some t ∨ w.Remembers t := by
  unfold workerEvent at h
  dsimp only at h
  split at h
  · -- `gpu_execute_model`
    split at h
    · exact .inr h
    · exact .inr h
  · -- `gpu_phase_span`
    split at h
    · refine remembers_alter rfl (fun state hmem => .inr ?_) h
      split at hmem
      · exact hmem
      · exact hmem
    · exact .inr h
  · -- `worker_preprocess_start`
    split at h
    · exact .inr h
    · refine remembers_alter rfl (fun state hmem => .inl ?_) h
      simpa [WorkerState.times] using hmem
  · -- `gpu_forward_start`
    split at h
    · exact .inr h
    · split at h
      · split at h
        · next ts hpre hts =>
          refine remembers_alter (w := w.addPhase _ _ _) rfl (fun state hmem => ?_) h
          rw [hts]
          simp only [WorkerState.times, List.mem_append, Option.mem_toList] at hmem ⊢
          obtain hmem | hmem := hmem
          · exact .inr (.inl hmem)
          · exact .inl hmem
        · exact .inr h
      · exact .inr h
  · -- `gpu_forward_end`
    split at h
    · exact .inr h
    · split at h
      · split at h
        · refine remembers_alter (w := w.addPhase _ _ _) rfl (fun state hmem => .inr ?_) h
          exact hmem
        · exact .inr h
      · exact .inr h
  · exact .inr (remembers_spanPhase h)
  · exact .inr (remembers_spanPhase h)

/-- A slice of the worker loop starts at the time of its event, or at a remembered one. -/
theorem workerSlice_start {hasPrecisePhaseSpans : Bool} {ev : WorkerEvent} {s : Slice}
    (h : workerSlice hasPrecisePhaseSpans w ev = some s) :
    ev.ts = some s.tsNs ∨ w.Remembers s.tsNs := by
  have hspan : ∀ {name cat : String}, workerSlice.span ev name cat = some s →
      ev.ts = some s.tsNs := by
    intro name cat hs
    unfold workerSlice.span at hs
    split at hs
    · next tStart tEnd hstart hend =>
      cases hs
      rw [WorkerEvent.ts, hstart]
      rfl
    · cases hs
  unfold workerSlice at h
  dsimp only at h
  split at h
  · exact .inl (hspan h)
  · split at h
    · exact .inl (hspan h)
    · cases h
  · cases h
  · -- `gpu_forward_start` draws from the start of the preprocessing
    split at h
    · next t1 ts hpre hts =>
      cases h
      obtain ⟨hpre, -⟩ := Option.filter_eq_some_iff.mp hpre
      obtain ⟨state, hstate, htime⟩ := Option.bind_eq_some_iff.mp hpre
      exact .inr ⟨_, state, hstate, by simp [WorkerState.times, htime]⟩
    · cases h
  · split at h
    · next t2 ts hfwd hts =>
      cases h
      obtain ⟨hfwd, -⟩ := Option.filter_eq_some_iff.mp hfwd
      obtain ⟨state, hstate, htime⟩ := Option.bind_eq_some_iff.mp hfwd
      exact .inr ⟨_, state, hstate, by simp [WorkerState.times, htime]⟩
    · cases h
  · split at h
    · cases h
    · exact .inl (hspan h)
  · split at h
    · cases h
    · exact .inl (hspan h)

/-- The loop remembers the start of a slice on a track, or it has drawn the slice. -/
def KnowsSlice (s : Slice) (st : WorkerIntervals × List Slice) : Prop :=
  st.1.Remembers s.tsNs ∨ s ∈ st.2

/-- A slice that a worker turn adds starts at its event. -/
theorem knowsSlice_workerTurn {s : Slice} (hasPrecisePhaseSpans : Bool)
    (st : WorkerIntervals × List Slice) (ev : WorkerEvent)
    (h : KnowsSlice s (workerTurn hasPrecisePhaseSpans st ev)) :
    KnowsSlice s st ∨ ev.ts = some s.tsNs := by
  obtain h | h := h
  · obtain hts | hold := remembers_workerEvent h
    · exact .inr hts
    · exact .inl (.inl hold)
  · -- an earlier slice, or the one this event draws
    obtain hdrawn | hnew := List.mem_append.mp h
    · exact .inl (.inr hdrawn)
    · obtain hts | hold := workerSlice_start (Option.mem_toList.mp hnew)
      · exact .inr hts
      · exact .inl (.inl hold)

/-- Every worker slice starts at the time of a worker event. -/
theorem workerSlices_start {events : List WorkerEvent} {s : Slice} (hs : s ∈ workerSlices events) :
    ∃ ev ∈ events, ev.ts = some s.tsNs := by
  have hknows : KnowsSlice s (events.foldl
      (workerTurn (events.any fun ev => ev.type = .gpuPhaseSpan)) ({}, [])) := .inr hs
  obtain hstart | hev := List.exists_mem_of_foldl hknows (knowsSlice_workerTurn _)
  · -- at the start nothing is remembered or drawn
    obtain ⟨key, state, hget, -⟩ | hmem := hstart
    · cases hget
    · cases hmem
  · exact hev

/-! ## CUPTI -/

/-- A record of GPU work that is drawn: it has a start. -/
def CuptiMessage.IsEager (message : CuptiMessage) : Prop :=
  message.eventType ∈ ["kernel", "memset", "memcpy"] ∧ ∃ t, message.payload.startNs = some t ∧ 0 < t

/-- A start is converted to a positive time exactly when it is positive. -/
private theorem isSome_filter_toNsInt {start : Option ℤ} :
    ((start.bind fun n => toNsInt n).filter (0 < ·)).isSome ↔ ∃ t, start = some t ∧ 0 < t := by
  cases start with
  | none => simp
  | some t =>
    rw [Option.bind_some]
    constructor
    · intro h
      refine ⟨t, rfl, ?_⟩
      by_contra hle
      rw [toNsInt, if_pos (not_lt.mp hle)] at h
      cases h
    · intro h
      obtain ⟨t', ht', hpos⟩ := h
      cases ht'
      -- a positive number is always read
      have hsome : ∃ ns, toNsInt t = some ns := by
        unfold toNsInt
        rw [if_neg (not_le.mpr hpos)]
        split
        · exact ⟨_, rfl⟩
        · exact ⟨_, rfl⟩
      obtain ⟨ns, hns⟩ := hsome
      rw [hns, Option.filter_some, if_pos (by simpa using (le_of_toNsInt hns).1)]
      rfl

/-- A message adds a kernel when it is an eager one. -/
private theorem add_eagerKernels_iff {k : CuptiPayload} (st : CuptiRecords)
    (message : CuptiMessage) :
    k ∈ (st.add message).eagerKernels ↔
      k ∈ st.eagerKernels ∨ message.payload = k ∧ message.IsEager := by
  rw [eq_comm (a := message.payload)]
  unfold CuptiRecords.add CuptiMessage.IsEager
  dsimp only
  split
  · next hempty =>
    -- an empty payload has no start
    rw [hempty]
    simp
  · split
    · next hcall =>
      have hkind : message.eventType ∉ ["kernel", "memset", "memcpy"] := by
        intro hkind
        simp only [List.mem_cons, List.not_mem_nil, or_false] at hcall hkind
        obtain h | h := hcall
        all_goals rw [h] at hkind; revert hkind; decide
      split
      · simp [hkind]
      · simp [hkind]
    · split
      · next hkind =>
        rw [← isSome_filter_toNsInt]
        split
        · next hstart => simp [hkind, hstart]
        · next hstart =>
          split
          · simp [hstart]
          · simp [hstart]
      · next hkind => simp [hkind]

/-- A record of a call. -/
def CuptiMessage.IsCall (message : CuptiMessage) : Prop :=
  message.payload ≠ {} ∧ message.eventType ∈ ["runtime", "driver"]

/-- The calls of the messages. -/
theorem mem_cuptiEvents {messages : List CuptiMessage} {rt : CuptiPayload} :
    rt ∈ (cuptiRecords messages).cuptiEvents ↔
      ∃ message ∈ messages, message.payload = rt ∧ message.IsCall := by
  -- each message adds its payload when it is a call
  have hadd : ∀ (st : CuptiRecords) (message : CuptiMessage),
      rt ∈ (st.add message).cuptiEvents ↔
        rt ∈ st.cuptiEvents ∨ message.payload = rt ∧ message.IsCall := by
    intro st message
    by_cases hempty : message.payload = {}
    · have hsame : st.add message = st := by
        unfold CuptiRecords.add
        dsimp only
        rw [if_pos hempty]
      rw [hsame, or_iff_left fun h => h.2.1 hempty]
    · rw [add_cuptiEvents _ hempty, List.mem_append]
      apply or_congr_right
      split
      · next hcall =>
        rw [List.mem_singleton]
        exact ⟨fun h => ⟨h.symm, hempty, hcall⟩, fun h => h.1.symm⟩
      · next hcall =>
        exact ⟨fun h => absurd h List.not_mem_nil, fun h => absurd h.2.2 hcall⟩
  have hnil : rt ∉ ({} : CuptiRecords).cuptiEvents := List.not_mem_nil
  rw [cuptiRecords, List.foldl_iff_of_step (P := fun st => rt ∈ CuptiRecords.cuptiEvents st) hadd,
    or_iff_right hnil]

/-- The GPU work that is drawn. -/
theorem mem_eagerKernels {messages : List CuptiMessage} {k : CuptiPayload} :
    k ∈ (cuptiRecords messages).eagerKernels ↔
      ∃ message ∈ messages, message.payload = k ∧ message.IsEager := by
  have hnil : k ∉ ({} : CuptiRecords).eagerKernels := List.not_mem_nil
  rw [cuptiRecords, List.foldl_iff_of_step (P := fun st => k ∈ CuptiRecords.eagerKernels st)
    add_eagerKernels_iff, or_iff_right hnil]

/-- The starts of the complete events. -/
def sliceStarts (events : List TraceEvent) : List ℤ :=
  (events.filterMap TraceEvent.slice).map Slice.tsNs

/-- The starts of two lists are those of the first and then of the second. -/
@[simp] theorem sliceStarts_append (events events' : List TraceEvent) :
    sliceStarts (events ++ events') = sliceStarts events ++ sliceStarts events' := by
  rw [sliceStarts, List.filterMap_append, List.map_append]
  rfl

/-- A complete event starts a slice. -/
@[simp] theorem sliceStarts_complete (ev : CompleteEvent) (rest : List TraceEvent) :
    sliceStarts (.complete ev :: rest) = ev.tsNs :: sliceStarts rest := rfl

section Loops

variable {slices : List DispatchSlice} {kernelsMap : Dict CorrKey (List CuptiPayload)}
  {trace trace' : CuptiTrace}

/-- The turn of a call adds its start. -/
private theorem linkRuntime_starts {rt : CuptiPayload}
    (h : trace.linkRuntime slices kernelsMap rt = .ok trace') :
    sliceStarts trace'.events = sliceStarts trace.events ++ rt.startNs.toList := by
  obtain ⟨start, endNs, tid, hstart, -, -, rfl⟩ := linkRuntime_eq_ok_iff.mp h
  rw [sliceStarts_append, runtimeEvents, sliceStarts_complete, hstart]
  -- the flow event is no slice
  split <;> rfl

/-- The turn of a kernel adds its start. -/
private theorem drawKernel_starts {k : CuptiPayload} (h : trace.drawKernel k = .ok trace') :
    sliceStarts trace'.events = sliceStarts trace.events ++ k.startNs.toList := by
  obtain ⟨start, endNs, hstart, -, rfl⟩ := drawKernel_eq_ok_iff.mp h
  rw [sliceStarts_append, kernelEvents_eq, sliceStarts_append, sliceStarts_complete, hstart]
  -- neither the names nor the flow event are slices
  have hflow : ∀ flow : List FlowEvent, sliceStarts (flow.map .flow) = [] := by
    intro flow
    induction flow with
    | nil => rfl
    | cons ev rest ih => exact ih
  have hthread : ∀ (ev : NameEvent) (rest : List TraceEvent),
      sliceStarts (.threadName ev :: rest) = sliceStarts rest := fun _ _ => rfl
  have hprocess : ∀ (isNew : Prop) [Decidable isNew] (ev : NameEvent),
      sliceStarts (if isNew then [.processName ev] else []) = [] := by
    intro isNew _ ev
    split <;> rfl
  rw [hthread, hflow, hprocess, List.append_nil]
  rfl

/-- A turn that does not raise found the fields it indexes. -/
private theorem isSome_of_linkRuntime {rt : CuptiPayload}
    (h : trace.linkRuntime slices kernelsMap rt = .ok trace') :
    rt.startNs.isSome ∧ rt.endNs.isSome ∧ rt.tid.isSome := by
  obtain ⟨start, endNs, tid, hstart, hend, htid, -⟩ := linkRuntime_eq_ok_iff.mp h
  rw [hstart, hend, htid]
  exact ⟨rfl, rfl, rfl⟩

/-- A kernel is only drawn when it has an end. -/
private theorem isSome_of_drawKernel {k : CuptiPayload} (h : trace.drawKernel k = .ok trace') :
    k.endNs.isSome := by
  obtain ⟨start, endNs, -, hend, -⟩ := drawKernel_eq_ok_iff.mp h
  rw [hend]
  rfl

/-- A loop whose turns each draw one slice. -/
private theorem foldlM_starts {turn : CuptiTrace → CuptiPayload → Except PyError CuptiTrace}
    (hturn : ∀ {trace k trace'}, turn trace k = .ok trace' →
      sliceStarts trace'.events = sliceStarts trace.events ++ k.startNs.toList)
    {payloads : List CuptiPayload} (h : payloads.foldlM turn trace = .ok trace') :
    sliceStarts trace'.events = sliceStarts trace.events ++ payloads.filterMap (·.startNs) := by
  -- the invariant speaks of the payloads seen so far
  refine List.foldlM_induction_seen
    (P := fun seen (t : CuptiTrace) => sliceStarts t.events =
      sliceStarts trace.events ++ seen.filterMap (·.startNs))
    (by simp) (fun seen k t t' hk hseen => ?_) h
  rw [hturn hk, hseen, List.append_assoc, List.filterMap_append]
  cases hstart : k.startNs with
  | none => simp [hstart]
  | some start => simp [hstart]

/-- The CUPTI part raises when a field it indexes is missing. -/
theorem exists_processCupti_iff {messages : List CuptiMessage} :
    (∃ trace, processCupti slices messages = .ok trace) ↔
      (∀ message ∈ messages, message.IsCall → message.payload.startNs.isSome ∧
        message.payload.endNs.isSome ∧ message.payload.tid.isSome) ∧
      ∀ message ∈ messages, message.IsEager → message.payload.endNs.isSome := by
  constructor
  · intro h
    obtain ⟨trace, h⟩ := h
    -- each message has had its turn, which needed its fields
    obtain ⟨sorted, hsorted, h⟩ := Except.bind_eq_ok_iff.mp h
    obtain ⟨linked, hlinked, hdrawn⟩ := Except.bind_eq_ok_iff.mp h
    constructor
    · intro message hmem hcall
      have hrt := (sortByStart_perm hsorted).mem_iff.mpr
        (mem_cuptiEvents.mpr ⟨message, hmem, rfl, hcall⟩)
      obtain ⟨before, after, hturn⟩ := List.exists_turn_of_foldlM hlinked hrt
      exact isSome_of_linkRuntime hturn
    · intro message hmem heager
      obtain ⟨before, after, hturn⟩ := List.exists_turn_of_foldlM hdrawn
        (mem_eagerKernels.mpr ⟨message, hmem, rfl, heager⟩)
      exact isSome_of_drawKernel hturn
  · intro h
    obtain ⟨hcalls, hwork⟩ := h
    -- the calls can be sorted and drawn
    have hfields : ∀ rt ∈ (cuptiRecords messages).cuptiEvents, rt.startNs.isSome ∧
        rt.endNs.isSome ∧ rt.tid.isSome := by
      intro rt hrt
      obtain ⟨message, hmem, rfl, hcall⟩ := mem_cuptiEvents.mp hrt
      exact hcalls message hmem hcall
    obtain ⟨sorted, hsorted⟩ := exists_sortByStart fun rt hrt => (hfields rt hrt).1
    obtain ⟨linked, hlinked⟩ := List.exists_foldlM_eq_ok (l := sorted)
      (f := CuptiTrace.linkRuntime slices (cuptiRecords messages).allKernelsMap)
      (fun trace rt hrt => by
        obtain ⟨hstart, hend, htid⟩ := hfields rt ((sortByStart_perm hsorted).mem_iff.mp hrt)
        exact exists_linkRuntime hstart hend htid) {}
    obtain ⟨drawn, hdrawn⟩ := List.exists_foldlM_eq_ok
      (l := (cuptiRecords messages).eagerKernels) (f := CuptiTrace.drawKernel)
      (fun trace k hk => by
        obtain ⟨message, hmem, rfl, heager⟩ := mem_eagerKernels.mp hk
        obtain ⟨t, hstart, -⟩ := heager.2
        exact exists_drawKernel (by rw [hstart]; rfl) (hwork message hmem heager)) linked
    exact ⟨drawn, Except.bind_eq_ok_iff.mpr ⟨sorted, hsorted,
      Except.bind_eq_ok_iff.mpr ⟨linked, hlinked, hdrawn⟩⟩⟩

/-- The slices of the CUPTI part start with the calls and with the GPU work. -/
theorem processCupti_starts {messages : List CuptiMessage} {t : ℤ}
    (h : processCupti slices messages = .ok trace) :
    t ∈ sliceStarts trace.events ↔
      (∃ rt ∈ (cuptiRecords messages).cuptiEvents, rt.startNs = some t) ∨
        ∃ message ∈ messages, message.IsEager ∧ message.payload.startNs = some t := by
  obtain ⟨sorted, hsorted, h⟩ := Except.bind_eq_ok_iff.mp h
  obtain ⟨linked, hlinked, hdrawn⟩ := Except.bind_eq_ok_iff.mp h
  rw [foldlM_starts drawKernel_starts hdrawn, foldlM_starts linkRuntime_starts hlinked]
  have hempty : sliceStarts ({} : CuptiTrace).events = [] := rfl
  rw [hempty, List.nil_append, List.mem_append, List.mem_filterMap, List.mem_filterMap]
  -- the calls, which are only sorted, and then the kernels
  refine or_congr ?_ ?_
  · constructor
    · intro h
      obtain ⟨rt, hrt, hstart⟩ := h
      exact ⟨rt, (sortByStart_perm hsorted).mem_iff.mp hrt, hstart⟩
    · intro h
      obtain ⟨rt, hrt, hstart⟩ := h
      exact ⟨rt, (sortByStart_perm hsorted).mem_iff.mpr hrt, hstart⟩
  · constructor
    · intro h
      obtain ⟨k, hk, hstart⟩ := h
      obtain ⟨message, hmem, rfl, heager⟩ := mem_eagerKernels.mp hk
      exact ⟨message, hmem, heager, hstart⟩
    · intro h
      obtain ⟨message, hmem, heager, hstart⟩ := h
      exact ⟨message.payload, mem_eagerKernels.mpr ⟨message, hmem, rfl, heager⟩, hstart⟩

end Loops

/-! ## Requests -/

/-- An execution starts at the time that its event reports. -/
theorem reqGenerateExec_start {events : List CoroutineExecEvent} {rid : String}
    {gx : GenerateExec} (h : gx ∈ reqGenerateExec events rid) :
    ∃ ev ∈ events, ev.startNs = some gx.startNs := by
  obtain ⟨ev, hev, hgx⟩ := List.mem_filterMap.mp h
  refine ⟨ev, List.mem_of_mem_filter hev, ?_⟩
  unfold generateExec at hgx
  split at hgx
  · cases hgx
  · split at hgx
    · cases hgx
    · split at hgx
      · -- both times are there and in order
        next startNs endNs hstart hend =>
        split at hgx
        · cases hgx
          exact (Option.filter_eq_some_iff.mp hstart).1
        · cases hgx
      · cases hgx

/-- A stage starts at the converted time of its event. -/
theorem reqStageIntervals_start {events : List ReqStageEvent} {rid : String} {s : StageInterval}
    (h : s ∈ reqStageIntervals events rid) :
    ∃ ev ∈ events, ev.startNs.bind toNsInt = some s.startNs := by
  obtain ⟨ev, hev, hs⟩ := List.mem_filterMap.mp h
  refine ⟨ev, List.mem_of_mem_filter hev, ?_⟩
  unfold stageInterval at hs
  split at hs
  · cases hs
  · dsimp only at hs
    split at hs
    · cases hs
    · split at hs
      · cases hs
      · split at hs
        · -- both times are there and in order
          next startNs endNs hstart hend =>
          split at hs
          · cases hs
            exact hstart
          · cases hs
        · cases hs

/-! ## Communication and engine core -/

/-- A valid span starts at the time that was read. -/
theorem start_of_validSpan {start finish : Option ℤ} {span : ℤ × ℤ}
    (h : validSpan start finish = some span) : start.bind toNsInt = some span.1 := by
  unfold validSpan at h
  split at h
  · next startNs endNs hstart hend =>
    split at h
    · cases h
    · cases h
      exact hstart
  · cases h

/-- A transfer starts at the time that its event reports. -/
theorem ppCommSlices_start {dispatchSlices : List DispatchSlice} {events : List PpCommEvent}
    {s : Slice} (h : s ∈ ppCommSlices dispatchSlices events) :
    ∃ ev ∈ events, ev.startNs.bind toNsInt = some s.tsNs := by
  obtain ⟨span, hspan, rfl⟩ := List.mem_map.mp h
  obtain ⟨ev, hev, hspan⟩ := List.mem_filterMap.mp hspan
  obtain ⟨p, hp, rfl⟩ := Option.map_eq_some_iff.mp hspan
  refine ⟨ev, List.mem_sortBy.mp hev, (start_of_validSpan hp).trans (congrArg some ?_)⟩
  -- the attribution leaves the times as they are
  dsimp only [Slice.between]
  split
  · split
    · split <;> rfl
    · split <;> rfl
  · rfl

/-- A slice of the main loop starts at the time that its event reports. -/
theorem enginecoreLoopSlices_start {events : List EnginecoreLoopEvent} {s : Slice}
    (h : s ∈ enginecoreLoopSlices events) :
    ∃ ev ∈ events, ev.startNs.bind toNsInt = some s.tsNs := by
  obtain ⟨ev, hev, hs⟩ := List.mem_filterMap.mp h
  obtain ⟨p, hp, rfl⟩ := Option.map_eq_some_iff.mp hs
  exact ⟨ev, List.mem_sortBy.mp hev, start_of_validSpan hp⟩

end DeLatency
