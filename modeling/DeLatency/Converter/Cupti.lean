import DeLatency.Converter.PpComm
import DeLatency.Converter.TraceEvent

/-!
# CUPTI records

The converter collects runtime and driver calls on one side and kernels, copies and fills
on the other, draws the calls on the thread that made them and the GPU work on a track
for each process and device, and joins a call to its work by a flow arrow.

Two calls of different processes may have the same correlation id, so the key of a call
is its process with its correlation id.
-/

namespace DeLatency

/-- `cupti_corr_key`. -/
abbrev CorrKey := ℤ × Option ℤ

def cuptiCorrKey (payload : CuptiPayload) (corrId pidOverride : Option ℤ) : CorrKey :=
  ((pidOverride <|> payload.pid).getD 0, corrId <|> payload.correlationId)

/-- `cupti_flow_debug_key`. -/
def cuptiFlowDebugKey (key : CorrKey) : String :=
  toString key.1 ++ ":" ++ (key.2.map toString).getD "None"

/-- `cupti_flow_id`: the ids number the keys in the order in which they are first asked
    for. -/
def cuptiFlowId (flowIdByCorrKey : Dict CorrKey ℕ) (key : CorrKey) : Dict CorrKey ℕ × ℕ :=
  match flowIdByCorrKey.get? key with
  | some flowId => (flowIdByCorrKey, flowId)
  | none =>
    let flowId := flowIdByCorrKey.entries.length + 1
    (flowIdByCorrKey.alter key 0 fun _ => flowId, flowId)

/-! ## Classification -/

structure CuptiRecords where
  nonzeroMaxEndByPid : Dict ℤ ℤ := Dict.empty
  cuptiEvents : List CuptiPayload := []
  runtimeNameByCorr : Dict CorrKey String := Dict.empty
  allKernelsMap : Dict CorrKey (List CuptiPayload) := Dict.empty
  eagerKernels : List CuptiPayload := []
  zeroKernelRecords : List CuptiPayload := []

/-- The update of `cupti_nonzero_max_end_by_pid`. -/
def CuptiRecords.noteEnd (records : CuptiRecords) (pid startNs endNs : Option ℤ) :
    CuptiRecords :=
  match pid, startNs, endNs with
  | some pid, some startNs, some endNs =>
    -- only an end above the process's last one is noted, and a zero end never
    if 0 < startNs ∧ 0 < endNs ∧ records.nonzeroMaxEndByPid.getD pid 0 < endNs then
      { records with
        nonzeroMaxEndByPid := records.nonzeroMaxEndByPid.alter pid 0 fun _ => endNs }
    else records
  | _, _, _ => records

/-- The branch of `process_logs` for a CUPTI message. -/
def CuptiRecords.add (records : CuptiRecords) (message : CuptiMessage) : CuptiRecords :=
  let payload := message.payload
  -- an empty payload is skipped
  if payload = {} then records
  else
    let startNs := payload.startNs.bind fun n => toNsInt n
    let endNs := payload.endNs.bind fun n => toNsInt n
    let records := records.noteEnd payload.pid startNs endNs
    if message.eventType ∈ ["runtime", "driver"] then
      let records := { records with cuptiEvents := records.cuptiEvents ++ [payload] }
      -- driver calls are drawn but never name a correlation
      if message.eventType = "runtime" then
        { records with
          runtimeNameByCorr := records.runtimeNameByCorr.alter
            (cuptiCorrKey payload payload.correlationId payload.pid) ""
            fun _ => payload.name.getD "" }
      else records
    else if message.eventType ∈ ["kernel", "memset", "memcpy"] then
      let records := { records with
        allKernelsMap := records.allKernelsMap.push
          (cuptiCorrKey payload payload.correlationId none) payload }
      -- without a start it is not drawn; the kernels among them are counted for a warning
      if (startNs.filter (0 < ·)).isSome then
        { records with eagerKernels := records.eagerKernels ++ [payload] }
      else if message.eventType = "kernel" then
        { records with zeroKernelRecords := records.zeroKernelRecords ++ [payload] }
      else records
    else records

def cuptiRecords (messages : List CuptiMessage) : CuptiRecords :=
  messages.foldl CuptiRecords.add {}

/-! ## Runtime calls -/

/-- The events drawn so far, with the tables that number flows and GPU tracks. -/
structure CuptiTrace where
  flowIdByCorrKey : Dict CorrKey ℕ := Dict.empty
  gpuTrackPidByKey : Dict (ℤ × ℤ) ℕ := Dict.empty
  gpuTrackNamesEmitted : List (ℤ × ℤ) := []
  events : List TraceEvent := []

/-- `rt_pid`: a call without a process is taken to belong to the first dispatch slice's. -/
def runtimePid (generatedDispatchSlices : List DispatchSlice) (pid : Option ℤ) : Option ℤ :=
  match pid.filter (· ≠ 0), generatedDispatchSlices with
  | none, slice :: _ => slice.pid
  | _, _ => pid

def optInt (n : Option ℤ) : PyValue := (n.map PyValue.int).getD .null

/-- The bar of a runtime or driver call. -/
def runtimeSlice (rt : CuptiPayload) (rtPid : Option ℤ) (rtStart rtEnd rtTid : ℤ)
    (kernels : List CuptiPayload) : CompleteEvent :=
  let funcName := rt.name.getD "cuda_runtime"
  let kNames := kernels.map fun k => k.name.getD "unknown"
  { name := funcName
    cat := "cuda_runtime"
    tsNs := rtStart
    durNs := rtEnd - rtStart
    pid := rtPid
    tid := some rtTid
    args := [
      ("correlationId", optInt rt.correlationId),
      ("correlationKey", .str (cuptiFlowDebugKey (cuptiCorrKey rt rt.correlationId rtPid))),
      -- at most five of the kernels are listed
      ("kernels", .str ("\n".intercalate (kNames.take 5) ++
        if 5 < kNames.length then "..." else "")),
      ("is_graph", .bool (hasSubstring (funcName.toList.map Char.toLower) "graph"))] }

/-- One turn of the linking loop. -/
def CuptiTrace.linkRuntime (generatedDispatchSlices : List DispatchSlice)
    (allKernelsMap : Dict CorrKey (List CuptiPayload)) (trace : CuptiTrace) (rt : CuptiPayload) :
    Except PyError CuptiTrace := do
  -- a missing key raises, and with it the whole conversion
  let rtStart ← item "start_ns" rt.startNs
  let rtEnd ← item "end_ns" rt.endNs
  let rtTid ← item "tid" rt.tid
  let rtPid := runtimePid generatedDispatchSlices rt.pid
  let runtimeCorrKey := cuptiCorrKey rt rt.correlationId rtPid
  let (flowIdByCorrKey, runtimeFlowId) := cuptiFlowId trace.flowIdByCorrKey runtimeCorrKey
  let kernels := allKernelsMap.getD runtimeCorrKey []
  let slice := runtimeSlice rt rtPid rtStart rtEnd rtTid kernels
  let flow : List TraceEvent :=
    -- the arrow only starts when one of the kernels has a start to end it at
    if kernels.any fun k => 0 < k.startNs.getD 0 then
      [.flow { ph := .start, tsNs := rtStart, pid := rtPid, tid := some rtTid,
               id := runtimeFlowId }]
    else []
  return { trace with
    flowIdByCorrKey
    events := trace.events ++ .complete slice :: flow }

/-- The sort key of a call. -/
def startKey (rt : CuptiPayload) : Except PyError (ℤ × CuptiPayload) := do
  let start ← item "start_ns" rt.startNs
  return (start, rt)

/-- `cupti_events.sort(key=lambda x: x['start_ns'])`. -/
def sortByStart (cuptiEvents : List CuptiPayload) : Except PyError (List CuptiPayload) := do
  let keyed ← cuptiEvents.mapM startKey
  return (keyed.sortBy Prod.fst).map Prod.snd

/-! ## GPU work -/

/-- `get_gpu_track_pid`. -/
def getGpuTrackPid (gpuTrackPidByKey : Dict (ℤ × ℤ) ℕ) (key : ℤ × ℤ) : Dict (ℤ × ℤ) ℕ × ℕ :=
  match gpuTrackPidByKey.get? key with
  | some gpuPid => (gpuTrackPidByKey, gpuPid)
  | none =>
    let gpuPid := 9000 + gpuTrackPidByKey.entries.length
    (gpuTrackPidByKey.alter key 0 fun _ => gpuPid, gpuPid)

/-- The fields that a payload has, in the order in which they are added. -/
def CuptiPayload.fields (k : CuptiPayload) : List (String × PyValue) :=
  let int (key : String) (n : Option ℤ) := (n.map fun n => (key, PyValue.int n)).toList
  let str (key : String) (s : Option String) := (s.map fun s => (key, PyValue.str s)).toList
  int "pid" k.pid ++ int "tid" k.tid ++ str "type" k.type ++ int "start_ns" k.startNs ++
    int "end_ns" k.endNs ++ int "correlationId" k.correlationId ++ int "deviceId" k.deviceId ++
    int "contextId" k.contextId ++ int "streamId" k.streamId ++ str "copyKind" k.copyKind ++
    int "runtimeCorrelationId" k.runtimeCorrelationId ++ int "value" k.value ++
    int "cbid" k.cbid ++ str "name" k.name ++ int "gridX" k.gridX ++ int "gridY" k.gridY ++
    int "gridZ" k.gridZ ++ int "blockX" k.blockX ++ int "blockY" k.blockY ++
    int "blockZ" k.blockZ ++ int "staticSharedMemory" k.staticSharedMemory ++
    int "dynamicSharedMemory" k.dynamicSharedMemory

/-- The bar of a kernel, a copy or a fill. -/
def kernelSlice (k : CuptiPayload) (gpuPid : ℕ) (start endNs : ℤ) : CompleteEvent where
  name := k.name.getD "kernel"
  cat := "gpu_kernel"
  tsNs := start
  durNs := endNs - start
  pid := some gpuPid
  tid := some (k.streamId.getD 0)
  args := k.fields

/-- The end of the arrow to a kernel; work without a correlation id has none. -/
def kernelFlow (flowIdByCorrKey : Dict CorrKey ℕ) (k : CuptiPayload) (gpuPid : ℕ) (start : ℤ) :
    Dict CorrKey ℕ × List FlowEvent :=
  if (k.correlationId.filter (· ≠ 0)).isSome then
    let (ids, flowId) :=
      cuptiFlowId flowIdByCorrKey (cuptiCorrKey k k.correlationId (some (k.pid.getD 0)))
    (ids, [{ ph := .finish, tsNs := start, pid := some gpuPid,
             tid := some (k.streamId.getD 0), id := flowId }])
  else (flowIdByCorrKey, [])

/-- One turn of the kernel loop. -/
def CuptiTrace.drawKernel (trace : CuptiTrace) (k : CuptiPayload) :
    Except PyError CuptiTrace := do
  let start ← item "start_ns" k.startNs
  let endNs ← item "end_ns" k.endNs
  let stream := k.streamId.getD 0
  let gpuKey := (k.pid.getD 0, k.deviceId.getD 0)
  let (gpuTrackPidByKey, gpuPid) := getGpuTrackPid trace.gpuTrackPidByKey gpuKey
  -- the process of a GPU is named with its first kernel, the stream with every one
  let isNew := gpuKey ∉ trace.gpuTrackNamesEmitted
  let processName : List TraceEvent :=
    if isNew then
      [.processName { pid := gpuPid,
                      name := "GPU local " ++ toString gpuKey.2 ++ " / source pid " ++
                        toString gpuKey.1 }]
    else []
  let threadName : TraceEvent :=
    .threadName { pid := gpuPid, tid := some stream, name := "Stream " ++ toString stream }
  let (flowIdByCorrKey, flow) := kernelFlow trace.flowIdByCorrKey k gpuPid start
  return {
    flowIdByCorrKey
    gpuTrackPidByKey
    gpuTrackNamesEmitted :=
      if isNew then trace.gpuTrackNamesEmitted ++ [gpuKey] else trace.gpuTrackNamesEmitted
    events := trace.events ++ .complete (kernelSlice k gpuPid start endNs) :: processName ++
      threadName :: flow.map .flow }

/-- The CUPTI part of `process_logs`. -/
def processCupti (generatedDispatchSlices : List DispatchSlice) (messages : List CuptiMessage) :
    Except PyError CuptiTrace := do
  let records := cuptiRecords messages
  let cuptiEvents ← sortByStart records.cuptiEvents
  let trace ← cuptiEvents.foldlM
    (CuptiTrace.linkRuntime generatedDispatchSlices records.allKernelsMap) {}
  records.eagerKernels.foldlM CuptiTrace.drawKernel trace

end DeLatency
