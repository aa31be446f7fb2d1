import DeLatency.ForStd.FirstSeen
import DeLatency.Converter.Value

/-!
# Rounds of the output handler

One round of the output handler takes a batch of outputs from the engine core, cuts it into
slices and processes the slices one by one.  The task that runs the rounds has a record in
`task_request_ctx`.  How long the task waited to be scheduled is noted in the record, and
charged, when the next slice is processed, to the requests that were still to be served.

Request ids are values of any type `ρ` that has a text and a truth value; the code tells
them apart by their text.
-/

namespace DeLatency

/-- A request id as Python sees it: `str(rid)` and `bool(rid)`. -/
class RequestIdValue (ρ : Type) where
  str : ρ → String
  truthy : ρ → Bool

open RequestIdValue (str truthy)

instance : RequestIdValue String := ⟨id, fun rid => rid ≠ ""⟩

/-- One output of the engine core, an object with a `request_id` or a dictionary. -/
inductive EngineCoreOutput (ρ : Type)
  | object (requestId : Option ρ)
  | dict (requestId reqId : Option ρ)
deriving DecidableEq

variable {ρ : Type} [RequestIdValue ρ]

/-- The request id that is read from an output. -/
def EngineCoreOutput.rid : EngineCoreOutput ρ → Option ρ
  | .object requestId => requestId
  -- `output.get("request_id") or output.get("req_id")`
  | .dict requestId reqId => (requestId.filter truthy).or reqId

/-- `_extract_req_ids_from_engine_core_outputs`. -/
def extractReqIds (engineCoreOutputs : Option (List (EngineCoreOutput ρ))) : List ρ :=
  match engineCoreOutputs with
  | none => []
  | some outputs => (outputs.filterMap EngineCoreOutput.rid).foldl (List.pushNew str) []

/-- `_dedupe_req_ids`. -/
def dedupeReqIds (reqIds : List ρ) : List ρ := reqIds.foldl (List.pushNew str) []

/-- `_same_req_id_list`. -/
def sameReqIdList (left right : List ρ) : Bool :=
  let left := dedupeReqIds left
  let right := dedupeReqIds right
  left.length = right.length && (left.zip right).all fun (lv, rv) => str lv = str rv

/-- The loop of `_build_output_handler_suffix_req_ids`, from the last slice backwards: each
    slice's ids, then those of the later slices that it does not have. -/
def suffixReqIds (sliceReqIds : List (List ρ)) : List (List ρ) :=
  match sliceReqIds with
  | [] => []
  | reqIds :: rest =>
    let suffixes := suffixReqIds rest
    (suffixes.headD []).foldl (List.pushNew str) reqIds :: suffixes

/-- `_build_output_handler_suffix_req_ids`. -/
def buildSuffixReqIds (outputSlices : List (List (EngineCoreOutput ρ))) :
    List (List ρ) × List (List ρ) :=
  let sliceReqIds := outputSlices.map fun outputsSlice =>
    dedupeReqIds (extractReqIds (some outputsSlice))
  (sliceReqIds, suffixReqIds sliceReqIds)

/-- `_chunk_output_handler_slices`, on the `outputs` of the batch. -/
def chunkOutputHandlerSlices {α : Type} (outputs : Option (List α)) (chunkSize : Option ℤ) :
    List (List α) :=
  match outputs with
  | none => []
  | some outputs =>
    if outputs.length = 0 then [outputs]
    else
      match chunkSize with
      | none => [outputs]
      | some chunkSize =>
        if chunkSize = 0 ∨ outputs.length ≤ chunkSize then [outputs]
        -- a range with a negative step is empty
        else if chunkSize < 0 then []
        else outputs.chunks chunkSize.toNat

/-! ## The record of the task -/

/-- A wait of the task until it was scheduled, never negative. -/
structure SchedWait where
  readyTsNs : ℤ
  runTsNs : ℤ
  ordered : readyTsNs ≤ runTsNs

def SchedWait.queueNs (wait : SchedWait) : ℤ := wait.runTsNs - wait.readyTsNs

/-- The record of an output handler task, with its initial values. -/
structure OutputHandlerInfo (ρ : Type) where
  taskId : ℕ
  taskName : Option String
  pendingSchedEvents : List SchedWait := []
  currentProcessReqIds : List ρ := []
  currentProcessSize : ℕ := 0
  processSeq : ℕ := 0
  activeRoundSeq : Option ℕ := none
  roundSliceReqIds : List (List ρ) := []
  roundSuffixReqIds : List (List ρ) := []
  roundNextSliceIdx : ℕ := 0

/-- An `output_handler_sched_latency` event. -/
structure OutputHandlerSchedLatency (ρ : Type) where
  wait : SchedWait
  queueNs : ℤ
  reqIds : List ρ
  batchSize : ℕ
  taskId : ℕ
  taskName : Option String
  roundSeq : ℕ

namespace OutputHandlerInfo

/-- `_set_output_handler_round_slices`: the record and the number of the round. -/
def setRoundSlices (info : OutputHandlerInfo ρ) (outputSlices : List (List (EngineCoreOutput ρ))) :
    OutputHandlerInfo ρ × Option ℕ :=
  let (sliceReqIds, suffixReqIds) := buildSuffixReqIds outputSlices
  let hasReqIds := sliceReqIds.any fun reqIds => !reqIds.isEmpty
  -- a round without requests takes no sequence number
  let processSeq := if hasReqIds then info.processSeq + 1 else info.processSeq
  let roundSeq := if hasReqIds then some processSeq else none
  ({ info with
      roundSliceReqIds := sliceReqIds
      roundSuffixReqIds := suffixReqIds
      roundNextSliceIdx := 0
      currentProcessReqIds := []
      currentProcessSize := 0
      processSeq := processSeq
      activeRoundSeq := roundSeq }, roundSeq)

/-- `_clear_output_handler_round_state`. -/
def clearRoundState (info : OutputHandlerInfo ρ) : OutputHandlerInfo ρ :=
  { info with
    roundSliceReqIds := []
    roundSuffixReqIds := []
    roundNextSliceIdx := 0
    activeRoundSeq := none
    currentProcessReqIds := []
    currentProcessSize := 0 }

/-- The part of a scheduled callback that concerns the record: the wait is noted when it is
    not negative. -/
def scheduledCallback (info : OutputHandlerInfo ρ) (readyTsNs runTsNs : ℤ) :
    OutputHandlerInfo ρ :=
  if h : readyTsNs ≤ runTsNs then
    { info with pendingSchedEvents := info.pendingSchedEvents ++ [⟨readyTsNs, runTsNs, h⟩] }
  else info

/-- `emit_output_handler_sched_latency`. -/
def emitSchedLatency (info : OutputHandlerInfo ρ) (reqIds : List ρ) (roundSeq : ℕ)
    (wait : SchedWait) : Option (OutputHandlerSchedLatency ρ) :=
  -- a wait that charges nobody is not sent
  if wait.queueNs < 0 ∨ reqIds.isEmpty then none
  else some
    { wait := wait
      queueNs := wait.queueNs
      reqIds := reqIds
      batchSize := reqIds.length
      taskId := info.taskId
      taskName := info.taskName
      roundSeq := roundSeq }

/-- `info.get("active_round_seq") or info.get("process_seq")`. -/
def currentSeq (info : OutputHandlerInfo ρ) : ℕ :=
  match info.activeRoundSeq with
  | some seq => if seq = 0 then info.processSeq else seq
  | none => info.processSeq

/-- `_flush_pending_output_handler_sched_events`: the record, the ids whose names are refreshed
    and the events that are sent. -/
def flushPending (info : OutputHandlerInfo ρ) (reqIds : Option (List ρ)) :
    OutputHandlerInfo ρ × List ρ × List (OutputHandlerSchedLatency ρ) :=
  let targetReqIds := reqIds.getD info.currentProcessReqIds
  let pending := info.pendingSchedEvents
  if pending.isEmpty then (info, [], [])
  else
    let flushed := { info with pendingSchedEvents := [] }
    -- the waits are forgotten also when there is nobody to charge
    if targetReqIds.isEmpty then (flushed, [], [])
    else (flushed, targetReqIds,
      pending.filterMap (info.emitSchedLatency targetReqIds info.currentSeq))

/-- What one call of `_begin_output_handler_process_outputs` leaves, returns and sends. -/
structure BeginResult (ρ : Type) where
  info : OutputHandlerInfo ρ
  reqIds : List ρ
  processSeq : Option ℕ
  remembered : List ρ
  sent : List (OutputHandlerSchedLatency ρ)

/-- The ids that a slice of the round is expected to have, unless the call brings others. -/
def sliceReqIds (expectedReqIds actualReqIds : List ρ) : List ρ :=
  if !expectedReqIds.isEmpty && !actualReqIds.isEmpty &&
      !sameReqIdList expectedReqIds actualReqIds then
    actualReqIds
  else if expectedReqIds.isEmpty then actualReqIds
  else expectedReqIds

/-- The ids that the waits are charged to. -/
def schedReqIds (suffixReqIds : Option (List ρ)) (reqIds : List ρ) : List ρ :=
  match suffixReqIds with
  | none => reqIds
  | some suffixReqIds =>
    let suffixReqIds := dedupeReqIds suffixReqIds
    if suffixReqIds.isEmpty then reqIds
    else if reqIds.isEmpty || reqIds.all fun rid => str rid ∈ suffixReqIds.map str then suffixReqIds
    else reqIds

/-- The end of a call: the current ids are noted and the waits sent. -/
def finishBegin (info : OutputHandlerInfo ρ) (reqIds schedReqIds : List ρ)
    (processSeq : Option ℕ) : BeginResult ρ :=
  let info := { info with
    currentProcessReqIds := reqIds
    currentProcessSize := reqIds.length }
  let (info, remembered, sent) := info.flushPending (some schedReqIds)
  { info, reqIds, processSeq, remembered, sent }

/-- `_begin_output_handler_process_outputs`. -/
def beginProcessOutputs (info : OutputHandlerInfo ρ)
    (engineCoreOutputs : Option (List (EngineCoreOutput ρ))) : BeginResult ρ :=
  let actualReqIds := dedupeReqIds (extractReqIds engineCoreOutputs)
  match info.roundSliceReqIds[info.roundNextSliceIdx]? with
  -- the next slice of a round that was announced
  | some expectedReqIds =>
    let reqIds := sliceReqIds (dedupeReqIds expectedReqIds) actualReqIds
    let suffixReqIds := info.roundSuffixReqIds[info.roundNextSliceIdx]?
    finishBegin { info with roundNextSliceIdx := info.roundNextSliceIdx + 1 } reqIds
      (schedReqIds suffixReqIds reqIds) info.activeRoundSeq
  | none =>
    -- outside a round a call without a request opens no new sequence number
    if actualReqIds.isEmpty then
      finishBegin info actualReqIds actualReqIds info.activeRoundSeq
    else
      let processSeq := info.processSeq + 1
      finishBegin { info with processSeq := processSeq, activeRoundSeq := some processSeq }
        actualReqIds actualReqIds (some processSeq)

end OutputHandlerInfo

/-! ## Runs -/

/-- What happens to the record. -/
inductive HandlerOp (ρ : Type)
  | callback (readyTsNs runTsNs : ℤ)
  | setRound (outputSlices : List (List (EngineCoreOutput ρ)))
  | begin (engineCoreOutputs : Option (List (EngineCoreOutput ρ)))
  | clear

/-- The record of a task and the events sent so far. -/
structure HandlerRun (ρ : Type) where
  info : OutputHandlerInfo ρ
  sent : List (OutputHandlerSchedLatency ρ) := []

namespace HandlerRun

def step (st : HandlerRun ρ) : HandlerOp ρ → HandlerRun ρ
  | .callback readyTsNs runTsNs =>
    { st with info := st.info.scheduledCallback readyTsNs runTsNs }
  | .setRound outputSlices => { st with info := (st.info.setRoundSlices outputSlices).1 }
  | .begin engineCoreOutputs =>
    let result := st.info.beginProcessOutputs engineCoreOutputs
    { info := result.info, sent := st.sent ++ result.sent }
  | .clear => { st with info := st.info.clearRoundState }

/-- From the registration of the task on. -/
def run (taskId : ℕ) (taskName : Option String) (ops : List (HandlerOp ρ)) : HandlerRun ρ :=
  ops.foldl step { info := { taskId, taskName } }

end HandlerRun

end DeLatency
