import DeLatency.ForStd.Dict
import DeLatency.Tracer.Cupti

/-!
# CUPTI activity records

`bufferCompleted` turns the activity records of a buffer into `UnifiedTraceRecord`s, and
`send_record_payload` turns each of those into a JSON payload.  An API record carries the
thread that made the call, which the enter callback has left in `g_corr_to_ostid_map`
under the correlation id of the call.

C strings are `String`s here, and the fixed-width fields have the widths of the source;
a `(int)` cast is a change to the signed type of the same width.
-/

namespace DeLatency

/-! ## Activity records -/

/-- `CUpti_ActivityKernel4`, as far as it is read. -/
structure KernelActivity where
  start : UInt64
  endNs : UInt64
  correlationId : UInt32
  deviceId : UInt32
  contextId : UInt32
  streamId : UInt32
  name : String
  gridX : UInt32
  gridY : UInt32
  gridZ : UInt32
  blockX : UInt32
  blockY : UInt32
  blockZ : UInt32
  staticSharedMemory : UInt32
  dynamicSharedMemory : UInt32

/-- `CUpti_ActivityMemcpyKind`, as far as it has a name. -/
inductive MemcpyKind
  | htod
  | dtoh
  | dtod
  | other
deriving DecidableEq

def getMemcpyKindString : MemcpyKind → String
  | .htod => "HtoD"
  | .dtoh => "DtoH"
  | .dtod => "DtoD"
  | .other => "<unknown>"

/-- `CUpti_ActivityMemcpy`, as far as it is read. -/
structure MemcpyActivity where
  start : UInt64
  endNs : UInt64
  correlationId : UInt32
  deviceId : UInt32
  contextId : UInt32
  streamId : UInt32
  copyKind : MemcpyKind
  runtimeCorrelationId : UInt32

/-- `CUpti_ActivityMemset`, as far as it is read. -/
structure MemsetActivity where
  start : UInt64
  endNs : UInt64
  correlationId : UInt32
  deviceId : UInt32
  contextId : UInt32
  streamId : UInt32
  value : UInt32

/-- `CUpti_ActivityAPI`, as far as it is read. -/
structure ApiActivity where
  start : UInt64
  endNs : UInt64
  correlationId : UInt32
  processId : UInt32
  cbid : UInt32

/-- A record of a buffer. -/
inductive Activity
  | kernel (k : KernelActivity)
  | memcpy (m : MemcpyActivity)
  | memset (m : MemsetActivity)
  | api (domain : CallbackDomain) (api : ApiActivity)
  | other

/-! ## Unified records -/

inductive RecordType
  | kernel
  | memcpy
  | runtime
  | driver
  | memset
deriving DecidableEq

/-- The record of an API call, as opposed to one of work on the GPU. -/
def RecordType.IsApi (type : RecordType) : Prop := type = .runtime ∨ type = .driver

instance : DecidablePred RecordType.IsApi := fun _ => inferInstanceAs (Decidable (_ ∨ _))

/-- `record_type_str`. -/
def RecordType.str : RecordType → String
  | .kernel => "kernel"
  | .memcpy => "memcpy"
  | .memset => "memset"
  | .driver => "driver"
  | .runtime => "runtime"

structure UnifiedTraceRecord where
  type : RecordType
  startNs : UInt64 := 0
  endNs : UInt64 := 0
  pid : UInt32 := 0
  tid : UInt32 := 0
  correlationId : UInt32 := 0
  deviceId : UInt32 := 0
  contextId : UInt32 := 0
  streamId : UInt32 := 0
  cbid : UInt32 := 0
  name : String := ""
  memsetValue : UInt32 := 0
  memcpyRuntimeCorrelationId : UInt32 := 0
  gridX : UInt32 := 0
  gridY : UInt32 := 0
  gridZ : UInt32 := 0
  blockX : UInt32 := 0
  blockY : UInt32 := 0
  blockZ : UInt32 := 0
  staticSharedMemory : UInt32 := 0
  dynamicSharedMemory : UInt32 := 0

/-- What `bufferCompleted` finds around a buffer: the process, the thread of each call that
    has been entered, and CUPTI's names of the callbacks. -/
structure BufferContext where
  pid : UInt32
  corrToOstid : Dict UInt32 UInt32
  callbackName : CallbackDomain → UInt32 → Option String

/-- `strncpy` into the 256 characters of `name`, the last of which stays zero. -/
def strncpyName (s : String) : String := String.ofList (s.toList.take 255)

/-- The record of one activity; `none` when its kind is skipped. -/
def BufferContext.record (ctx : BufferContext) : Activity → Option UnifiedTraceRecord
  | .kernel k => some {
      type := .kernel
      pid := ctx.pid
      startNs := k.start
      endNs := k.endNs
      correlationId := k.correlationId
      deviceId := k.deviceId
      contextId := k.contextId
      streamId := k.streamId
      name := strncpyName k.name
      gridX := k.gridX
      gridY := k.gridY
      gridZ := k.gridZ
      blockX := k.blockX
      blockY := k.blockY
      blockZ := k.blockZ
      staticSharedMemory := k.staticSharedMemory
      dynamicSharedMemory := k.dynamicSharedMemory }
  | .memcpy m => some {
      type := .memcpy
      pid := ctx.pid
      startNs := m.start
      endNs := m.endNs
      correlationId := m.correlationId
      deviceId := m.deviceId
      contextId := m.contextId
      streamId := m.streamId
      name := strncpyName (getMemcpyKindString m.copyKind)
      memcpyRuntimeCorrelationId := m.runtimeCorrelationId }
  | .memset m => some {
      type := .memset
      pid := ctx.pid
      startNs := m.start
      endNs := m.endNs
      correlationId := m.correlationId
      deviceId := m.deviceId
      contextId := m.contextId
      streamId := m.streamId
      memsetValue := m.value }
  | .api domain api => some {
      type := match domain with
        | .driverApi => .driver
        | .runtimeApi => .runtime
      startNs := api.start
      endNs := api.endNs
      correlationId := api.correlationId
      pid := api.processId
      cbid := api.cbid
      name := match ctx.callbackName domain api.cbid with
        | some funcName => strncpyName funcName
        | none => ""
      -- zero when no enter callback has been seen for the call
      tid := ctx.corrToOstid.getD api.correlationId 0 }
  | .other => none

/-- The records `bufferCompleted` sends for one buffer. -/
def bufferCompleted (ctx : BufferContext) (cuptiEnabled : Bool) (buffer : List Activity) :
    List UnifiedTraceRecord :=
  if cuptiEnabled then buffer.filterMap ctx.record else []

/-! ## Payloads -/

/-- The payload of a CUPTI message.  A field that was not added is `none`. -/
structure CuptiPayload where
  pid : Option ℤ := none
  tid : Option ℤ := none
  type : Option String := none
  startNs : Option ℤ := none
  endNs : Option ℤ := none
  correlationId : Option ℤ := none
  deviceId : Option ℤ := none
  contextId : Option ℤ := none
  streamId : Option ℤ := none
  name : Option String := none
  gridX : Option ℤ := none
  gridY : Option ℤ := none
  gridZ : Option ℤ := none
  blockX : Option ℤ := none
  blockY : Option ℤ := none
  blockZ : Option ℤ := none
  staticSharedMemory : Option ℤ := none
  dynamicSharedMemory : Option ℤ := none
  copyKind : Option String := none
  runtimeCorrelationId : Option ℤ := none
  value : Option ℤ := none
  cbid : Option ℤ := none
deriving DecidableEq

/-- `json_object_new_int((int)x)`. -/
def jsonInt (x : UInt32) : Option ℤ := some x.toInt32.toInt

/-- `json_object_new_int64((long long)x)`. -/
def jsonInt64 (x : UInt64) : Option ℤ := some x.toInt64.toInt

/-- A string that is added only when it is not empty. -/
def jsonName (name : String) : Option String := if name = "" then none else some name

/-- The payload of a record. -/
def recordPayload (rec : UnifiedTraceRecord) : CuptiPayload :=
  let common : CuptiPayload := {
    pid := jsonInt rec.pid
    -- a thread that is not known is left out
    tid := if rec.tid = 0 then none else jsonInt rec.tid
    type := some rec.type.str
    startNs := jsonInt64 rec.startNs
    endNs := jsonInt64 rec.endNs
    correlationId := jsonInt rec.correlationId }
  match rec.type with
  | .kernel => { common with
      deviceId := jsonInt rec.deviceId
      contextId := jsonInt rec.contextId
      streamId := jsonInt rec.streamId
      name := jsonName rec.name
      gridX := jsonInt rec.gridX
      gridY := jsonInt rec.gridY
      gridZ := jsonInt rec.gridZ
      blockX := jsonInt rec.blockX
      blockY := jsonInt rec.blockY
      blockZ := jsonInt rec.blockZ
      staticSharedMemory := jsonInt rec.staticSharedMemory
      dynamicSharedMemory := jsonInt rec.dynamicSharedMemory }
  | .memcpy => { common with
      deviceId := jsonInt rec.deviceId
      contextId := jsonInt rec.contextId
      streamId := jsonInt rec.streamId
      copyKind := jsonName rec.name
      runtimeCorrelationId := jsonInt rec.memcpyRuntimeCorrelationId }
  | .memset => { common with
      deviceId := jsonInt rec.deviceId
      contextId := jsonInt rec.contextId
      streamId := jsonInt rec.streamId
      value := jsonInt rec.memsetValue }
  | .driver => { common with
      cbid := jsonInt rec.cbid
      -- an API call always has a name
      name := some (if rec.name = "" then "driver_unknown" else rec.name) }
  | .runtime => { common with
      cbid := jsonInt rec.cbid
      name := some (if rec.name = "" then "runtime_unknown" else rec.name) }

/-- A CUPTI message as `send_record_payload` sends it. -/
structure CuptiMessage where
  eventType : String
  payload : CuptiPayload
deriving DecidableEq

/-- `send_record_payload`. -/
def sendRecordPayload (rec : UnifiedTraceRecord) : CuptiMessage where
  eventType := rec.type.str
  payload := recordPayload rec

end DeLatency
