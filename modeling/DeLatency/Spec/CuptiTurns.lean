import DeLatency.Converter.Cupti
import DeLatency.ForStd.ExceptLoop

/-!
# The turns of the CUPTI loops

What one turn of the linking loop and one of the kernel loop append to the trace, and what
they do to the tables.
-/

namespace DeLatency

/-! ## Calls -/

/-- The key of a call, in the process that the converter takes it to belong to. -/
def callKey (slices : List DispatchSlice) (rt : CuptiPayload) : CorrKey :=
  cuptiCorrKey rt rt.correlationId (runtimePid slices rt.pid)

/-- The key of a kernel, a copy or a fill. -/
def kernelKey (k : CuptiPayload) : CorrKey := cuptiCorrKey k k.correlationId (some (k.pid.getD 0))

/-- Work on the GPU whose call has started to run. -/
def startsWork (kernelsMap : Dict CorrKey (List CuptiPayload)) (key : CorrKey) : Bool :=
  (kernelsMap.getD key []).any fun k => 0 < k.startNs.getD 0

/-- A record that is linked to its call. -/
def isLinked (k : CuptiPayload) : Bool := (k.correlationId.filter (· ≠ 0)).isSome

/-- What a turn of the linking loop appends. -/
def runtimeEvents (slices : List DispatchSlice) (kernelsMap : Dict CorrKey (List CuptiPayload))
    (trace : CuptiTrace) (rt : CuptiPayload) (start endNs tid : ℤ) : List TraceEvent :=
  .complete (runtimeSlice rt (runtimePid slices rt.pid) start endNs tid
      (kernelsMap.getD (callKey slices rt) [])) ::
    if startsWork kernelsMap (callKey slices rt) then
      [.flow { ph := .start, tsNs := start, pid := runtimePid slices rt.pid, tid := some tid,
               id := (cuptiFlowId trace.flowIdByCorrKey (callKey slices rt)).2 }]
    else []

/-- What a call's turn needs, and what it draws then. -/
theorem linkRuntime_eq_ok_iff {slices : List DispatchSlice}
    {kernelsMap : Dict CorrKey (List CuptiPayload)} {trace trace' : CuptiTrace}
    {rt : CuptiPayload} :
    trace.linkRuntime slices kernelsMap rt = .ok trace' ↔ ∃ start endNs tid,
      rt.startNs = some start ∧ rt.endNs = some endNs ∧ rt.tid = some tid ∧ trace' = { trace with
        flowIdByCorrKey := (cuptiFlowId trace.flowIdByCorrKey (callKey slices rt)).1
        events := trace.events ++ runtimeEvents slices kernelsMap trace rt start endNs tid } := by
  unfold CuptiTrace.linkRuntime
  -- the turn succeeds exactly when its three items are there
  simp only [Except.bind_eq_ok_iff, item_eq_ok]
  constructor
  · intro hx
    obtain ⟨start, hstart, endNs, hend, tid, htid, h⟩ := hx
    exact ⟨start, endNs, tid, hstart, hend, htid, (Except.ok.inj h).symm⟩
  · intro hx
    obtain ⟨start, endNs, tid, hstart, hend, htid, rfl⟩ := hx
    exact ⟨start, hstart, endNs, hend, tid, htid, rfl⟩

/-! ## Work on the GPU -/

/-- The process and the device of a kernel, a copy or a fill. -/
def gpuKey (k : CuptiPayload) : ℤ × ℤ := (k.pid.getD 0, k.deviceId.getD 0)

/-- What a turn of the kernel loop appends. -/
def kernelEvents (trace : CuptiTrace) (k : CuptiPayload) (start endNs : ℤ) : List TraceEvent :=
  let gpuPid := (getGpuTrackPid trace.gpuTrackPidByKey (gpuKey k)).2
  .complete (kernelSlice k gpuPid start endNs) ::
    -- a device track is named once
    (if trace.gpuTrackNamesEmitted.contains (gpuKey k) then []
    else
      [.processName { pid := gpuPid,
                      name := "GPU local " ++ toString (gpuKey k).2 ++ " / source pid " ++
                        toString (gpuKey k).1 }]) ++
    -- a stream is named with each of its kernels
    .threadName { pid := gpuPid, tid := some (k.streamId.getD 0),
                  name := "Stream " ++ toString (k.streamId.getD 0) } ::
    (kernelFlow trace.flowIdByCorrKey k gpuPid start).2.map .flow

/-- A kernel draws its bar, and names its track the first time the track is used. -/
theorem kernelEvents_eq (trace : CuptiTrace) (k : CuptiPayload) (start endNs : ℤ) :
    kernelEvents trace k start endNs =
      .complete (kernelSlice k (getGpuTrackPid trace.gpuTrackPidByKey (gpuKey k)).2 start endNs) ::
        (if gpuKey k ∉ trace.gpuTrackNamesEmitted then
          [.processName { pid := (getGpuTrackPid trace.gpuTrackPidByKey (gpuKey k)).2,
                          name := "GPU local " ++ toString (gpuKey k).2 ++ " / source pid " ++
                            toString (gpuKey k).1 }]
        else []) ++
        .threadName { pid := (getGpuTrackPid trace.gpuTrackPidByKey (gpuKey k)).2,
                      tid := some (k.streamId.getD 0),
                      name := "Stream " ++ toString (k.streamId.getD 0) } ::
        (kernelFlow trace.flowIdByCorrKey k
          (getGpuTrackPid trace.gpuTrackPidByKey (gpuKey k)).2 start).2.map .flow := by
  unfold kernelEvents
  dsimp only
  -- the track has been named before, or is named now
  by_cases h : gpuKey k ∈ trace.gpuTrackNamesEmitted
  · rw [if_pos (List.contains_iff_mem.mpr h), if_neg (not_not_intro h)]
  · rw [if_neg fun hmem => h (List.contains_iff_mem.mp hmem), if_pos h]

/-- What a kernel's turn needs, and what it draws then. -/
theorem drawKernel_eq_ok_iff {trace trace' : CuptiTrace} {k : CuptiPayload} :
    trace.drawKernel k = .ok trace' ↔ ∃ start endNs, k.startNs = some start ∧
      k.endNs = some endNs ∧ trace' = {
        flowIdByCorrKey := (kernelFlow trace.flowIdByCorrKey k
          (getGpuTrackPid trace.gpuTrackPidByKey (gpuKey k)).2 start).1
        gpuTrackPidByKey := (getGpuTrackPid trace.gpuTrackPidByKey (gpuKey k)).1
        gpuTrackNamesEmitted := if gpuKey k ∉ trace.gpuTrackNamesEmitted
          then trace.gpuTrackNamesEmitted ++ [gpuKey k] else trace.gpuTrackNamesEmitted
        events := trace.events ++ kernelEvents trace k start endNs } := by
  unfold CuptiTrace.drawKernel
  -- the turn succeeds exactly when the kernel has both times
  simp only [Except.bind_eq_ok_iff, item_eq_ok]
  constructor
  · intro hx
    obtain ⟨start, hstart, endNs, hend, h⟩ := hx
    refine ⟨start, endNs, hstart, hend, ?_⟩
    rw [← Except.ok.inj h, kernelEvents_eq, ← List.append_assoc]
    rfl
  · intro hx
    obtain ⟨start, endNs, hstart, hend, rfl⟩ := hx
    refine ⟨start, hstart, endNs, hend, ?_⟩
    rw [kernelEvents_eq, ← List.append_assoc]
    rfl

end DeLatency
