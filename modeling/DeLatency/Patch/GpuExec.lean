import DeLatency.Converter.Log
import DeLatency.Patch.SchedulerOutput
import DeLatency.Patch.TensorPayload
import Mathlib.Logic.Function.Basic

/-!
# Model executions in a worker

A worker gets a step, hands it to its model runner, and the runner goes through named
phases; on the way tensors move between the stages of the pipeline.  The patches wrap each
of these calls.  Those of the worker and of the runner push a context on a stack of their
thread, and the wrappers of phases and transfers read the topmost one.

A call that is wrapped is entered and left, by a return or by an exception; in between its
thread can enter others.  The events are those that are handed to `TraceSender.emit`.
-/

namespace DeLatency

/-! ## Ranks -/

/-- What is read from a `parallel_config`; `none` stands for what `int` does not take. -/
structure ParallelConfig where
  rank : Option ℤ := none
  dataParallelRank : Option ℤ := none
  dataParallelSize : Option ℤ := none
  tensorParallelSize : Option ℤ := none
  pipelineParallelSize : Option ℤ := none

/-- A `GroupCoordinator`, with the identity of the object. -/
structure GroupCoordinator where
  id : ℕ
  ranks : List ℤ := []
  rankInGroup : Option ℤ := none
  worldSize : Option ℤ := none
  isFirstRank : Bool := false
  isLastRank : Bool := false

/-- `ranks` -/
structure RankInfo where
  rank : ℤ := -1
  dp : ℤ := -1
  tp : ℤ := -1
  pp : ℤ := -1
  dpSize : ℤ := -1
  tpSize : ℤ := -1
  ppSize : ℤ := -1
  isPpFirst : Option Bool := none
  isPpLast : Option Bool := none
deriving DecidableEq

/-- The ranks that a `parallel_config` gives. -/
def RankInfo.ofConfig (cfg : ParallelConfig) : RankInfo :=
  let rank := cfg.rank.getD (-1)
  let tpSize := cfg.tensorParallelSize.getD (-1)
  let ppSize := cfg.pipelineParallelSize.getD (-1)
  { rank
    dp := cfg.dataParallelRank.getD (-1)
    -- the ranks inside the groups follow from the global one, when the sizes are known
    tp := if 0 ≤ rank ∧ 0 < tpSize then rank % tpSize else -1
    pp := if 0 ≤ rank ∧ 0 < tpSize ∧ 0 < ppSize then rank / tpSize % ppSize else -1
    dpSize := cfg.dataParallelSize.getD (-1)
    tpSize
    ppSize }

/-- `_get_parallel_rank_info`.  A group is `none` where asking for it raises. -/
def getParallelRankInfo (cfg : Option ParallelConfig) (ppGroup tpGroup : Option GroupCoordinator) :
    RankInfo :=
  let ranks := (cfg.map RankInfo.ofConfig).getD {}
  -- the groups say more than the configuration, once they exist
  match ppGroup with
  | none => ranks
  | some ppGroup =>
    let ranks := { ranks with
      pp := ppGroup.rankInGroup.getD ranks.pp
      ppSize := ppGroup.worldSize.getD ranks.ppSize
      isPpFirst := some ppGroup.isFirstRank
      isPpLast := some ppGroup.isLastRank }
    -- the tensor group is only asked after the pipeline group
    match tpGroup with
    | none => ranks
    | some tpGroup =>
      { ranks with
        tp := tpGroup.rankInGroup.getD ranks.tp
        tpSize := tpGroup.worldSize.getD ranks.tpSize }

/-- `_is_pp_group` -/
def isPpGroup (group : GroupCoordinator) (ppGroup : Option GroupCoordinator) : Bool :=
  match ppGroup with
  | none => false
  | some ppGroup =>
    group.id = ppGroup.id ∨ (group.ranks = ppGroup.ranks ∧ 1 < group.worldSize.getD 1)

/-! ## Calls -/

/-- A context of `_GPU_EXEC_CONTEXT.stack`; `ρ` are the model runners. -/
structure ExecContext (ρ : Type) where
  runner : Option ρ
  pid : ℕ
  tid : ℕ
  reqIds : List String
  batchSize : ℤ
  inputType : String
  ranks : RankInfo
  dispatchKey : String

inductive PpCommOp
  | sendTensorDict
  | recvTensorDict
  | broadcastTensorDict
deriving DecidableEq

/-- `op` -/
def PpCommOp.name : PpCommOp → String
  | .sendTensorDict => "send_tensor_dict"
  | .recvTensorDict => "recv_tensor_dict"
  | .broadcastTensorDict => "broadcast_tensor_dict"

/-- A call that is wrapped. -/
inductive GpuCall (ρ : Type)
  /-- `Worker.execute_model` -/
  | workerExecuteModel (cfg : Option ParallelConfig) (modelRunner : Option ρ)
      (schedulerOutput : SchedulerOutput)
  /-- `GPUModelRunner.execute_model` -/
  | runnerExecuteModel (cfg : Option ParallelConfig) (runner : ρ)
      (schedulerOutput : SchedulerOutput)
  /-- A `with record_function_or_nullcontext(name)`. -/
  | phase (name : String)
  /-- A transfer; `peer` is what the caller passes as `src` or `dst`. -/
  | ppComm (op : PpCommOp) (group : GroupCoordinator) (peer : Option ℤ)
      (tensorDict : Option PyObj)

/-- What the wrappers ask for as they begin or end. -/
structure Moment (ρ : Type) where
  /-- `time.time_ns()` -/
  timeNs : ℤ
  /-- `CLOCK_MONOTONIC` -/
  monoNs : ℤ
  /-- `monkeypatch_enabled()` -/
  enabled : Bool := true
  ppGroup : Option GroupCoordinator := none
  tpGroup : Option GroupCoordinator := none
  /-- `runner.input_batch.req_ids` -/
  inputBatch : ρ → List (Option ReqItem) := fun _ => []

/-- `GPU_PHASE_SCOPE_NAMES` -/
def gpuPhaseScopeNames : List String :=
  ["Preprocess", "Forward", "Postprocess", "Sample", "Bookkeep", "Draft", "EPLB"]

/-! ## Events -/

/-- The payload of a `gpu_phase_span`. -/
structure GpuPhaseSpan where
  phase : String
  pid : ℕ
  tid : ℕ
  reqIds : List String
  batchSize : ℤ
  inputType : String
  ranks : RankInfo
  dispatchKey : String
  startNs : ℤ
  endNs : ℤ

/-- The payload of a `pp_comm_span`. -/
structure PpCommPayload where
  op : PpCommOp
  pid : ℕ
  tid : ℕ
  dispatchKey : Option String
  reqIds : List String
  ranks : RankInfo
  groupRank : ℤ
  groupWorldSize : ℤ
  groupRanks : List ℤ
  peerRank : Option ℤ
  src : Option ℤ
  dst : Option ℤ
  tensors : PayloadSummary
  startNs : ℤ
  endNs : ℤ
  durationNs : ℤ

/-- An event with its payload. -/
inductive GpuEvent
  | workerPreprocessStart (reqIds : List String) (dispatchKey : String) (ranks : RankInfo)
      (timestampNs : ℤ) (pid tid : ℕ)
  | workerModelExecuteSpan (reqIds : List String) (pid tid : ℕ) (dispatchKey : String)
      (ranks : RankInfo) (startNs endNs durationUs : ℤ)
  | gpuExecuteModel (pid tid : ℕ) (ranks : RankInfo) (batchSize : ℤ) (inputType : String)
      (reqIds : List String) (dispatchKey : String) (startNs endNs : ℤ)
  | gpuPhaseSpan (span : GpuPhaseSpan)
  | gpuForwardStart (pid tid : ℕ) (timestampNs : ℤ)
  | gpuForwardEnd (pid tid : ℕ) (timestampNs : ℤ)
  | gpuSample (pid tid : ℕ) (reqIds : List String) (startNs endNs : ℤ)
  | gpuBookkeeping (pid tid : ℕ) (reqIds : List String) (startNs endNs : ℤ)
  | ppCommSpan (payload : PpCommPayload)

/-- `_emit_legacy_gpu_phase_events` -/
def legacyGpuPhaseEvents (p : GpuPhaseSpan) : List GpuEvent :=
  if p.phase = "Forward" then
    [.gpuForwardStart p.pid p.tid p.startNs, .gpuForwardEnd p.pid p.tid p.endNs]
  else if p.phase = "Sample" then [.gpuSample p.pid p.tid p.reqIds p.startNs p.endNs]
  else if p.phase = "Bookkeep" then [.gpuBookkeeping p.pid p.tid p.reqIds p.startNs p.endNs]
  else []

/-! ## The wrappers -/

/-- What the wrapper of a call keeps in its local variables until the call returns. -/
inductive Wrapper (ρ : Type)
  /-- The call is passed on. -/
  | plain
  | worker (ctx : ExecContext ρ) (startMono : ℤ)
  | runner (ctx : ExecContext ρ) (startNs : ℤ)
  | phase (name : String) (startNs : ℤ)
  | ppComm (op : PpCommOp) (group : GroupCoordinator) (peer : Option ℤ)
      (tensorDict : Option PyObj) (startNs : ℤ)

/-- The context that a wrapper of `execute_model` makes. -/
def makeExecContext {ρ : Type} (hexdigest : List Char → List Char) (pid tid : ℕ)
    (cfg : Option ParallelConfig) (runner : Option ρ) (so : SchedulerOutput) (m : Moment ρ) :
    ExecContext ρ where
  runner := runner
  pid := pid
  tid := tid
  -- the ids as the scheduler named them; the batch may bring others later
  reqIds := so.extractReqIds
  batchSize := so.summarize.1
  inputType := so.summarize.2
  ranks := getParallelRankInfo cfg m.ppGroup m.tpGroup
  dispatchKey := so.makeDispatchKey hexdigest

/-- `_refresh_gpu_exec_context` -/
def ExecContext.refresh {ρ : Type} (ctx : ExecContext ρ) (m : Moment ρ) : ExecContext ρ :=
  match ctx.runner with
  | none => ctx
  | some runner =>
    let reqIds := normalizeReqIds (m.inputBatch runner)
    if reqIds = [] then ctx else { ctx with reqIds }

/-- The other stage of a transfer: what the caller passed, or the neighbour of the own rank. -/
def PpCommOp.peerRank (op : PpCommOp) (group : GroupCoordinator) (peer : Option ℤ) : Option ℤ :=
  -- the default peer is the next or the previous rank in the ring
  let neighbour (d : ℤ) : Option ℤ :=
    match group.rankInGroup, group.worldSize with
    | some rank, some size => if size = 0 then none else some ((rank + d).fmod size)
    | _, _ => none
  match op with
  | .sendTensorDict => peer.or (neighbour 1)
  | .recvTensorDict => peer.or (neighbour (-1))
  | .broadcastTensorDict => peer.or (some 0)

/-- `_pp_comm_context_payload`, for the topmost context. -/
def ppCommContextPayload {ρ : Type} (pid tid : ℕ) (ctx : Option (ExecContext ρ)) (op : PpCommOp)
    (group : GroupCoordinator) (peer : Option ℤ) (tensorPayload : Option PyObj) (startNs : ℤ)
    (m : Moment ρ) : PpCommPayload where
  op := op
  pid := pid
  tid := tid
  dispatchKey := ctx.map ExecContext.dispatchKey
  reqIds := (ctx.map ExecContext.reqIds).getD []
  ranks := (ctx.map ExecContext.ranks).getD (getParallelRankInfo none m.ppGroup m.tpGroup)
  groupRank := group.rankInGroup.getD (-1)
  groupWorldSize := group.worldSize.getD (-1)
  groupRanks := group.ranks
  peerRank := op.peerRank group peer
  -- a send has a destination, a receive a source
  src := if op = .sendTensorDict then none else op.peerRank group peer
  dst := if op = .sendTensorDict then op.peerRank group peer else none
  tensors := (tensorPayload.map fun value => estimateTensorPayload value 32).getD {}
  startNs := startNs
  endNs := m.timeNs
  -- a clock that went back gives no negative length
  durationNs := max 0 (m.timeNs - startNs)

/-- The value whose size a transfer reports. -/
def PpCommOp.tensorPayload (op : PpCommOp) (tensorDict result : Option PyObj) : Option PyObj :=
  match op with
  | .sendTensorDict => tensorDict
  | .recvTensorDict => result
  | .broadcastTensorDict => tensorDict.or result

/-! ## Threads -/

/-- The threads `τ` of a process: the contexts on the stack of each, the wrappers that it is
    in, both with the innermost first, and the events of all. -/
structure GpuThreads (τ ρ : Type) where
  stack : τ → List (ExecContext ρ) := fun _ => []
  wrappers : τ → List (Wrapper ρ) := fun _ => []
  emitted : List (τ × GpuEvent) := []

/-- A thread enters a wrapped call, or leaves the innermost one. -/
inductive GpuStep (τ ρ : Type)
  | enter (t : τ) (call : GpuCall ρ) (m : Moment ρ)
  | leave (t : τ) (m : Moment ρ) (result : Option PyObj)

def GpuStep.thread {τ ρ : Type} : GpuStep τ ρ → τ
  | .enter t _ _ => t
  | .leave t _ _ => t

def GpuStep.moment {τ ρ : Type} : GpuStep τ ρ → Moment ρ
  | .enter _ _ m => m
  | .leave _ m _ => m

namespace GpuThreads

variable {τ ρ : Type} [DecidableEq τ]

def emit (s : GpuThreads τ ρ) (t : τ) (events : List GpuEvent) : GpuThreads τ ρ :=
  { s with emitted := s.emitted ++ events.map (t, ·) }

def setStack (s : GpuThreads τ ρ) (t : τ) (stack : List (ExecContext ρ)) : GpuThreads τ ρ :=
  { s with stack := Function.update s.stack t stack }

def setWrappers (s : GpuThreads τ ρ) (t : τ) (wrappers : List (Wrapper ρ)) : GpuThreads τ ρ :=
  { s with wrappers := Function.update s.wrappers t wrappers }

def pushWrapper (s : GpuThreads τ ρ) (t : τ) (w : Wrapper ρ) : GpuThreads τ ρ :=
  s.setWrappers t (w :: s.wrappers t)

/-- `_push_gpu_exec_context` -/
def pushGpuExecContext (s : GpuThreads τ ρ) (t : τ) (ctx : ExecContext ρ) : GpuThreads τ ρ :=
  s.setStack t (ctx :: s.stack t)

/-- `_pop_gpu_exec_context` -/
def popGpuExecContext (s : GpuThreads τ ρ) (t : τ) : GpuThreads τ ρ :=
  s.setStack t (s.stack t).tail

/-- `_current_gpu_exec_context` -/
def currentGpuExecContext (s : GpuThreads τ ρ) (t : τ) : Option (ExecContext ρ) :=
  (s.stack t).head?

variable (hexdigest : List Char → List Char) (pid : ℕ) (tid : τ → ℕ)

/-- What the wrapper of a call does before the call. -/
def enter (s : GpuThreads τ ρ) (t : τ) (m : Moment ρ) : GpuCall ρ → GpuThreads τ ρ
  | .workerExecuteModel cfg modelRunner so =>
    let ctx := makeExecContext hexdigest pid (tid t) cfg modelRunner so m
    -- a step without requests announces no preprocessing
    let s := if ctx.reqIds = [] then s else
      s.emit t [.workerPreprocessStart ctx.reqIds ctx.dispatchKey ctx.ranks m.timeNs pid (tid t)]
    (s.pushGpuExecContext t ctx).pushWrapper t (.worker ctx m.monoNs)
  | .runnerExecuteModel cfg runner so =>
    let ctx := makeExecContext hexdigest pid (tid t) cfg (some runner) so m
    (s.pushGpuExecContext t ctx).pushWrapper t (.runner ctx m.timeNs)
  | .phase name =>
    -- any other scope is not reported
    s.pushWrapper t (if name ∈ gpuPhaseScopeNames then .phase name m.timeNs else .plain)
  | .ppComm op group peer tensorDict =>
    s.pushWrapper t (if m.enabled ∧ isPpGroup group m.ppGroup
      then .ppComm op group peer tensorDict m.timeNs else .plain)

/-- What a wrapper does after the call, in its `finally`. -/
def finish (s : GpuThreads τ ρ) (t : τ) (m : Moment ρ) (result : Option PyObj) :
    Wrapper ρ → GpuThreads τ ρ
  | .plain => s
  | .worker ctx startMono =>
    let s := s.popGpuExecContext t
    if ctx.reqIds = [] then s else
      s.emit t [.workerModelExecuteSpan ctx.reqIds pid (tid t) ctx.dispatchKey ctx.ranks startMono
        m.monoNs ((m.monoNs - startMono) / 1000)]
  | .runner ctx startNs =>
    -- `_pop_gpu_exec_context() or ctx`
    let popped := ((s.currentGpuExecContext t).getD ctx).refresh m
    (s.popGpuExecContext t).emit t [.gpuExecuteModel pid (tid t) ctx.ranks popped.batchSize
      popped.inputType popped.reqIds ctx.dispatchKey startNs m.timeNs]
  | .phase name startNs =>
    match s.currentGpuExecContext t with
    | none => s
    | some ctx =>
      -- the refresh writes to the object on the stack
      let ctx := ctx.refresh m
      let payload : GpuPhaseSpan := {
        phase := name
        pid := ctx.pid
        tid := ctx.tid
        reqIds := ctx.reqIds
        batchSize := ctx.batchSize
        inputType := ctx.inputType
        ranks := ctx.ranks
        dispatchKey := ctx.dispatchKey
        startNs
        endNs := m.timeNs }
      (s.setStack t (ctx :: (s.stack t).tail)).emit t
        (.gpuPhaseSpan payload :: legacyGpuPhaseEvents payload)
  | .ppComm op group peer tensorDict startNs =>
    s.emit t [.ppCommSpan (ppCommContextPayload pid (tid t) (s.currentGpuExecContext t) op group
      peer (op.tensorPayload tensorDict result) startNs m)]

/-- A thread leaves its innermost call. -/
def leave (s : GpuThreads τ ρ) (t : τ) (m : Moment ρ) (result : Option PyObj) : GpuThreads τ ρ :=
  match s.wrappers t with
  | [] => s
  | w :: rest => (s.setWrappers t rest).finish pid tid t m result w

def step (s : GpuThreads τ ρ) : GpuStep τ ρ → GpuThreads τ ρ
  | .enter t call m => s.enter hexdigest pid tid t m call
  | .leave t m result => s.leave pid tid t m result

/-- The threads after any number of steps, in the order in which they were taken. -/
def run (steps : List (GpuStep τ ρ)) : GpuThreads τ ρ :=
  steps.foldl (step hexdigest pid tid) {}

end GpuThreads

/-! ## In the log -/

/-- The ranks as the converter reads them. -/
def RankInfo.toRanks (ranks : RankInfo) : Ranks where
  dp := some (.int ranks.dp)
  pp := some (.int ranks.pp)
  tp := some (.int ranks.tp)

/-- A `pp_comm_span` as the converter reads it. -/
def PpCommPayload.toLog (p : PpCommPayload) : PpCommEvent where
  op := p.op.name
  pid := some p.pid
  tid := some p.tid
  dispatchKey := p.dispatchKey
  reqIds := p.reqIds
  ranks := p.ranks.toRanks
  peerRank := p.peerRank
  startNs := some p.startNs
  endNs := some p.endNs
  -- the report carries the end of the operation as its time
  timestampNs := some p.endNs

/-- A `gpu_phase_span` as the converter reads it. -/
def GpuPhaseSpan.toLog (p : GpuPhaseSpan) : WorkerEvent where
  type := .gpuPhaseSpan
  -- the report carries the end of the phase as its time
  timestampNs := some p.endNs
  startNs := some p.startNs
  endNs := some p.endNs
  pid := some p.pid
  tid := some p.tid
  phase := some p.phase
  reqIds := p.reqIds
  dispatchKey := some p.dispatchKey
  ranks := p.ranks.toRanks

/-- The worker events as the converter reads them; the other two have families of their own. -/
def GpuEvent.toWorkerEvent : GpuEvent → Option WorkerEvent
  | .workerPreprocessStart reqIds dispatchKey ranks timestampNs pid tid => some {
      type := .workerPreprocessStart
      timestampNs := some timestampNs
      pid := some pid
      tid := some tid
      reqIds
      dispatchKey := some dispatchKey
      ranks := ranks.toRanks }
  | .gpuExecuteModel pid tid ranks _ _ reqIds dispatchKey startNs endNs => some {
      type := .gpuExecuteModel
      startNs := some startNs
      endNs := some endNs
      pid := some pid
      tid := some tid
      reqIds
      dispatchKey := some dispatchKey
      ranks := ranks.toRanks }
  | .gpuPhaseSpan span => some span.toLog
  | .gpuForwardStart pid tid timestampNs => some {
      type := .gpuForwardStart
      timestampNs := some timestampNs
      pid := some pid
      tid := some tid }
  | .gpuForwardEnd pid tid timestampNs => some {
      type := .gpuForwardEnd
      timestampNs := some timestampNs
      pid := some pid
      tid := some tid }
  | .gpuSample pid tid reqIds startNs endNs => some {
      type := .gpuSample
      startNs := some startNs
      endNs := some endNs
      pid := some pid
      tid := some tid
      reqIds }
  | .gpuBookkeeping pid tid reqIds startNs endNs => some {
      type := .gpuBookkeeping
      startNs := some startNs
      endNs := some endNs
      pid := some pid
      tid := some tid
      reqIds }
  -- these two are no worker events for the converter
  | .workerModelExecuteSpan .. => none
  | .ppCommSpan _ => none

end DeLatency
