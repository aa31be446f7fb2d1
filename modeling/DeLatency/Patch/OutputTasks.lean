import DeLatency.Converter.Log
import DeLatency.Patch.OutputHandler

/-!
# The two output tasks

`process_outputs_socket` receives the outputs of the engine core and hands them to the task
`output_handler`, which processes them slice by slice.  Both tasks note their waits in their
records.  A task sends them with the requests that it serves next, and afterwards how long it
was busy with these.
-/

namespace DeLatency

variable {ρ : Type}

/-! ## Events -/

/-- An `output_socket_exec_slice` or `output_handler_exec_slice` event. -/
structure OutputExecSlice (ρ : Type) where
  startNs : ℤ
  endNs : ℤ
  reqIds : List ρ
  batchSize : ℕ
  taskId : ℕ
  taskName : Option String
  roundSeq : Option ℕ

/-- `emit_output_socket_exec_slice` and `emit_output_handler_exec_slice`. -/
def emitOutputExecSlice (startNs endNs : ℤ) (reqIds : List ρ) (taskId : ℕ)
    (taskName : Option String) (roundSeq : Option ℕ) : Option (OutputExecSlice ρ) :=
  if endNs ≤ startNs ∨ reqIds.isEmpty then none
  else some { startNs, endNs, reqIds, batchSize := reqIds.length, taskId, taskName, roundSeq }

/-- The events as the converter reads them. -/
def OutputHandlerSchedLatency.logged (ev : OutputHandlerSchedLatency String) : OutputSchedEvent where
  reqIds := ev.reqIds
  readyTsNs := some ev.wait.readyTsNs
  runTsNs := some ev.wait.runTsNs
  queueNs := some ev.queueNs
  timestampNs := some ev.wait.runTsNs

def OutputExecSlice.logged (ev : OutputExecSlice String) : OutputExecEvent where
  reqIds := ev.reqIds
  startNs := some ev.startNs
  endNs := some ev.endNs
  durationNs := some (ev.endNs - ev.startNs)
  timestampNs := some ev.endNs

/-! ## The output socket -/

/-- The record of the output socket task, with its initial values. -/
structure OutputSocketInfo (ρ : Type) where
  taskId : ℕ
  taskName : Option String
  pendingSchedEvents : List SchedWait := []
  currentProcessReqIds : List ρ := []
  currentProcessSize : ℕ := 0
  processSeq : ℕ := 0

namespace OutputSocketInfo

/-- The part of a scheduled callback that concerns the record. -/
def scheduledCallback (info : OutputSocketInfo ρ) (readyTsNs runTsNs : ℤ) : OutputSocketInfo ρ :=
  if h : readyTsNs ≤ runTsNs then
    { info with pendingSchedEvents := info.pendingSchedEvents ++ [⟨readyTsNs, runTsNs, h⟩] }
  else info

/-- `emit_output_socket_sched_latency`, with the same fields as that of the handler. -/
def emitSchedLatency (info : OutputSocketInfo ρ) (reqIds : List ρ) (wait : SchedWait) :
    Option (OutputHandlerSchedLatency ρ) :=
  -- a wait that charges nobody is not sent
  if wait.queueNs < 0 ∨ reqIds.isEmpty then none
  else some
    { wait := wait
      queueNs := wait.queueNs
      reqIds := reqIds
      batchSize := reqIds.length
      taskId := info.taskId
      taskName := info.taskName
      roundSeq := info.processSeq }

/-- `_flush_pending_output_socket_sched_events`: the record and the events that are sent. -/
def flushPending (info : OutputSocketInfo ρ) (reqIds : Option (List ρ)) :
    OutputSocketInfo ρ × List (OutputHandlerSchedLatency ρ) :=
  let targetReqIds := reqIds.getD info.currentProcessReqIds
  let pending := info.pendingSchedEvents
  if pending.isEmpty then (info, [])
  else
    -- the waits are gone even when there is no request to charge
    let info := { info with pendingSchedEvents := [] }
    let info := match reqIds with
      | some reqIds =>
        { info with currentProcessReqIds := reqIds, currentProcessSize := reqIds.length }
      | none => info
    if targetReqIds.isEmpty then (info, [])
    else (info, pending.filterMap (info.emitSchedLatency targetReqIds))

variable [RequestIdValue ρ]

/-- `_begin_output_socket_process_outputs`: the record, the ids and the number that are
    returned, and the events that are sent. -/
def beginProcessOutputs (info : OutputSocketInfo ρ) (outputs : Option (List (EngineCoreOutput ρ))) :
    OutputSocketInfo ρ × (List ρ × Option ℕ) × List (OutputHandlerSchedLatency ρ) :=
  let reqIds := extractReqIds outputs
  -- an empty batch does not count as a round
  let processSeq := if reqIds.isEmpty then none else some (info.processSeq + 1)
  let info := { info with
    currentProcessReqIds := reqIds
    currentProcessSize := reqIds.length
    processSeq := processSeq.getD info.processSeq }
  let (info, sent) := info.flushPending (some reqIds)
  (info, (reqIds, processSeq), sent)

end OutputSocketInfo

/-- A message of the engine core. -/
inductive SocketMessage (ρ : Type)
  | utilityOutput
  | outputs (outputs : Option (List (EngineCoreOutput ρ)))

/-- Where the task is: it waits for a message, or is busy with one since `execStartNs`. -/
inductive SocketPhase (ρ : Type)
  | receiving
  | processing (execStartNs : ℤ) (reqIds : List ρ) (processSeq : Option ℕ)
  | done

/-- The task `process_outputs_socket` and what it has sent. -/
structure SocketTask (ρ : Type) where
  info : OutputSocketInfo ρ
  phase : SocketPhase ρ := .receiving
  sentSched : List (OutputHandlerSchedLatency ρ) := []
  sentExec : List (OutputExecSlice ρ) := []

/-- What happens to the task. -/
inductive SocketStep (ρ : Type)
  /-- A callback that resumes the task. -/
  | callback (readyTsNs runTsNs : ℤ)
  | recv (execStartNs : ℤ) (message : SocketMessage ρ)
  /-- The handler of the client is done, and the outputs are in the queue. -/
  | processed (execEndNs : ℤ)
  /-- An error, a cancellation, or a client that is gone. -/
  | leave

namespace SocketTask

variable [RequestIdValue ρ]

/-- A turn of the loop up to the call of the client's handler. -/
def recv (task : SocketTask ρ) (execStartNs : ℤ) : SocketMessage ρ → SocketTask ρ
  | .utilityOutput => task
  | .outputs outputs =>
    let (info, (reqIds, processSeq), sent) := task.info.beginProcessOutputs outputs
    { task with
      info := info
      phase := .processing execStartNs reqIds processSeq
      sentSched := task.sentSched ++ sent }

/-- Its end. -/
def processed (task : SocketTask ρ) (execStartNs execEndNs : ℤ) (reqIds : List ρ)
    (processSeq : Option ℕ) : SocketTask ρ :=
  { task with
    phase := .receiving
    sentExec := task.sentExec ++ (emitOutputExecSlice execStartNs execEndNs reqIds task.info.taskId
      task.info.taskName processSeq).toList }

def step (task : SocketTask ρ) (st : SocketStep ρ) : SocketTask ρ :=
  match st, task.phase with
  | .callback readyTsNs runTsNs, _ =>
    { task with info := task.info.scheduledCallback readyTsNs runTsNs }
  | .recv execStartNs message, .receiving => task.recv execStartNs message
  | .processed execEndNs, .processing execStartNs reqIds processSeq =>
    task.processed execStartNs execEndNs reqIds processSeq
  | .leave, _ => { task with phase := .done }
  -- a step of another phase cannot happen, and changes nothing
  | _, _ => task

/-- From the registration of the task on. -/
def run (taskId : ℕ) (taskName : Option String) (steps : List (SocketStep ρ)) : SocketTask ρ :=
  steps.foldl step { info := { taskId, taskName } }

end SocketTask

/-! ## The output handler -/

/-- Where the task is: it waits for outputs, or has these slices of a round to process. -/
inductive HandlerPhase (ρ : Type)
  | receiving
  | processing (outputSlices : List (List (EngineCoreOutput ρ)))
  | done

/-- The task `output_handler`: its record with the waits that it has sent, and the slices of
    its work. -/
structure HandlerTask (ρ : Type) where
  record : HandlerRun ρ
  phase : HandlerPhase ρ := .receiving
  sentExec : List (OutputExecSlice ρ) := []

/-- What happens to the task. -/
inductive HandlerStep (ρ : Type)
  | callback (readyTsNs runTsNs : ℤ)
  | receive (outputs : Option (List (EngineCoreOutput ρ)))
  /-- `process_outputs` of the next slice, which may raise. -/
  | process (startNs endNs : ℤ) (raises : Bool)
  | finishRound
  /-- An error or a cancellation elsewhere. -/
  | leave

namespace HandlerTask

variable [RequestIdValue ρ]

/-- `patched_process_outputs`. -/
def processOutputs (task : HandlerTask ρ) (outputsSlice : List (EngineCoreOutput ρ))
    (startNs endNs : ℤ) : HandlerTask ρ :=
  let result := task.record.info.beginProcessOutputs (some outputsSlice)
  { task with
    record := task.record.step (.begin (some outputsSlice))
    sentExec := task.sentExec ++ (emitOutputExecSlice startNs endNs result.reqIds
      task.record.info.taskId task.record.info.taskName result.processSeq).toList }

/-- The round is over, and the task goes on with `phase`. -/
def clear (task : HandlerTask ρ) (phase : HandlerPhase ρ) : HandlerTask ρ :=
  { task with record := task.record.step .clear, phase }

def step (outputChunkSize : Option ℤ) (task : HandlerTask ρ) (st : HandlerStep ρ) : HandlerTask ρ :=
  match st, task.phase with
  | .callback readyTsNs runTsNs, _ =>
    { task with record := task.record.step (.callback readyTsNs runTsNs) }
  -- a message is cut into slices, and the round is announced before the first of them
  | .receive outputs, .receiving =>
    let outputSlices := chunkOutputHandlerSlices outputs outputChunkSize
    { task with
      record := task.record.step (.setRound outputSlices)
      phase := .processing outputSlices }
  | .process startNs endNs raises, .processing (outputsSlice :: outputSlices) =>
    let task := task.processOutputs outputsSlice startNs endNs
    -- an exception ends the task with what was done up to it
    if raises then task.clear .done else { task with phase := .processing outputSlices }
  -- all slices are done: the round is closed and the next message awaited
  | .finishRound, .processing [] => task.clear .receiving
  | .leave, .processing _ => task.clear .done
  | .leave, _ => { task with phase := .done }
  | _, _ => task

/-- From the registration of the task on. -/
def run (outputChunkSize : Option ℤ) (taskId : ℕ) (taskName : Option String)
    (steps : List (HandlerStep ρ)) : HandlerTask ρ :=
  steps.foldl (step outputChunkSize) { record := { info := { taskId, taskName } } }

end HandlerTask

end DeLatency
