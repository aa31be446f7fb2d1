import DeLatency.Patch.OutputHandler
import DeLatency.Patch.RequestContext

/-!
# Callbacks of the event loops

The patched `call_soon` and `call_soon_threadsafe` of the loops wrap the callbacks that
belong to a task or to a request.  A wrapped callback reports how long it waited in the ready
queue of its loop, and afterwards how long it ran.  The waits of the two output tasks are kept
in the record of the task instead, until the task knows whose outputs it has.

A process has loops `ι`, each with a thread of its own, and contexts `κ`.  The records of
tasks are shared by all threads.
-/

namespace DeLatency

/-- `task_kind`. -/
inductive TaskKind
  | request
  | generateTask
  | outputHandler
  | outputSocket
deriving DecidableEq

/-- A record of `task_request_ctx`, without what the output tasks note about their rounds. -/
structure TaskInfo where
  requestId : Option String
  requestName : Option String
  taskName : Option String
  taskKind : TaskKind
  pendingSchedEvents : List SchedWait := []

/-- What `_make_scheduled_callback` captures, but for the task. -/
structure WrappedCallback where
  readyTsNs : ℤ
  requestId : Option String
  requestName : Option String

/-- A callback in the ready queue of a loop: the context that it will run in, the task whose
    method it is, and whether it is wrapped. -/
structure Handle (κ : Type) where
  ctx : κ
  task : Option ℕ
  wrapped : Option WrappedCallback

/-- A wrapped callback that runs, with the record that it has found. -/
structure RunningCallback (κ : Type) where
  ctx : κ
  task : Option ℕ
  info : TaskInfo
  runTsNs : ℤ

/-- A loop: its ready queue, and the callback that runs, of which nothing is known if it is not
    wrapped or has found no record. -/
structure LoopState (κ : Type) where
  ready : List (Handle κ) := []
  running : Option (Option (RunningCallback κ)) := none

/-- `coroutine_sched_latency`. -/
structure SchedLatency where
  requestId : Option String
  requestName : Option String
  taskId : Option ℕ
  taskName : Option String
  taskKind : TaskKind
  wait : SchedWait

/-- `coroutine_exec_slice`. -/
structure ExecSlice where
  requestId : Option String
  requestName : Option String
  taskId : Option ℕ
  taskName : Option String
  taskKind : TaskKind
  startNs : ℤ
  endNs : ℤ

inductive LoopReport
  | schedLatency (ev : SchedLatency)
  | execSlice (ev : ExecSlice)

/-- The loops of a process, and what their threads have given to `send_event`. -/
structure EventLoops (ι κ : Type) where
  contexts : RequestContexts κ := {}
  taskRequestCtx : Dict ℕ TaskInfo := Dict.empty
  loops : ι → LoopState κ := fun _ => {}
  sent : List (ι × LoopReport) := []

/-- What happens in the process. -/
inductive CallbackStep (ι κ : Type)
  | context (call : ContextCall κ)
  | registerTask (task : ℕ) (requestId requestName taskName : Option String) (taskKind : TaskKind)
  | unregisterTask (task : ℕ)
  /-- An output task sends its waits. -/
  | flushPending (task : ℕ)
  /-- Code in the context `caller` puts a callback into the queue, having read the time `now`.
      Without a context of its own the callback gets `copy`, a copy of the caller's. -/
  | callSoon (loop : ι) (now : ℤ) (enabled : Bool) (caller : κ) (context : Option κ) (copy : κ)
      (task : Option ℕ)
  /-- The `n`-th callback of the queue is cancelled. -/
  | cancel (loop : ι) (n : ℕ)
  /-- The loop begins with the next callback, and is done with it. -/
  | start (loop : ι) (now : ℤ)
  | finish (loop : ι) (now : ℤ)

namespace EventLoops

variable {ι κ : Type} [DecidableEq ι] [DecidableEq κ]

/-- `_register_task_context` -/
def registerTask (st : EventLoops ι κ) (task : ℕ) (requestId requestName taskName : Option String)
    (taskKind : TaskKind) : EventLoops ι κ :=
  let info : TaskInfo :=
    { requestId, requestName := strOr requestName requestId, taskName, taskKind }
  { st with taskRequestCtx := st.taskRequestCtx.alter task info fun _ => info }

/-- `_resolve_schedule_context`, the request and its name. -/
def resolveScheduleContext (st : EventLoops ι κ) (caller : κ) (context : Option κ)
    (task : Option ℕ) : Option String × Option String :=
  let vars := st.contexts.vars (context.getD caller)
  let current := st.contexts.vars caller
  let reqId := strOr vars.requestId current.requestId
  -- the name belongs to the id that was found
  let reqName :=
    if (vars.requestId.filter (· ≠ "")).isSome then vars.requestName
    else strOr vars.requestName current.requestName
  match task.bind st.taskRequestCtx.get? with
  -- the task's own request fills in what is missing
  | some info =>
    if (reqId.filter (· ≠ "")).isSome ∧ (reqName.filter (· ≠ "")).isSome then (reqId, reqName)
    else (strOr reqId info.requestId, strOr reqName info.requestName)
  | none => (reqId, reqName)

def setLoop (st : EventLoops ι κ) (loop : ι) (state : LoopState κ) : EventLoops ι κ :=
  { st with loops := Function.update st.loops loop state }

/-- The callback that is scheduled, wrapped if it belongs to a task or a request. -/
def newHandle (st : EventLoops ι κ) (now : ℤ) (enabled : Bool) (caller : κ) (context : Option κ)
    (copy : κ) (task : Option ℕ) : Handle κ :=
  let (reqId, reqName) := st.resolveScheduleContext caller context task
  let shouldTrack := task.isSome || (reqId.filter (· ≠ "")).isSome
  { ctx := context.getD copy
    task
    wrapped := if enabled && shouldTrack then some ⟨now, reqId, reqName⟩ else none }

/-- `patched_call_soon` and `patched_call_soon_threadsafe`. -/
def callSoon (st : EventLoops ι κ) (loop : ι) (now : ℤ) (enabled : Bool) (caller : κ)
    (context : Option κ) (copy : κ) (task : Option ℕ) : EventLoops ι κ :=
  let handle := st.newHandle now enabled caller context copy task
  let contexts := match context with
    | some _ => st.contexts
    | none => st.contexts.step (.copyContext caller copy)
  { st with contexts }.setLoop loop
    { st.loops loop with ready := (st.loops loop).ready ++ [handle] }

/-- The record that a wrapped callback finds, that of its task or one made from its request. -/
def callbackInfo (st : EventLoops ι κ) (task : Option ℕ) (wrapped : WrappedCallback) :
    Option TaskInfo :=
  match task.bind st.taskRequestCtx.get? with
  | some info => some info
  | none =>
    -- no task is known, so the context at scheduling speaks
    if (wrapped.requestId.filter (· ≠ "")).isSome then
      some { requestId := wrapped.requestId
             requestName := strOr wrapped.requestName wrapped.requestId
             taskName := none
             taskKind := .request }
    else none

/-- `emit_coroutine_sched_latency`. -/
def emitSchedLatency (st : EventLoops ι κ) (loop : ι) (ctx : κ) (task : Option ℕ)
    (info : TaskInfo) (wait : SchedWait) : EventLoops ι κ :=
  { st with
    contexts := st.contexts.rememberRequestName ctx info.requestId info.requestName
    sent := st.sent ++ [(loop, .schedLatency
      { requestId := info.requestId
        -- what `remember_request_name` returns
        requestName := st.contexts.rememberedName ctx info.requestId info.requestName
        taskId := task
        taskName := info.taskName
        taskKind := info.taskKind
        wait })] }

/-- `emit_coroutine_exec_slice`. -/
def emitExecSlice (st : EventLoops ι κ) (loop : ι) (run : RunningCallback κ) (endNs : ℤ) :
    EventLoops ι κ :=
  { st with
    -- reporting the slice caches the name as well
    contexts := st.contexts.rememberRequestName run.ctx run.info.requestId run.info.requestName
    sent := st.sent ++ [(loop, .execSlice
      { requestId := run.info.requestId
        requestName := st.contexts.rememberedName run.ctx run.info.requestId run.info.requestName
        taskId := run.task
        taskName := run.info.taskName
        taskKind := run.info.taskKind
        startNs := run.runTsNs
        endNs })] }

/-- The wait of a callback is kept in the record of an output task, and reported otherwise. -/
def noteWait (st : EventLoops ι κ) (loop : ι) (ctx : κ) (task : Option ℕ) (info : TaskInfo)
    (wait : SchedWait) : EventLoops ι κ :=
  match info.taskKind, task with
  | .outputHandler, some task | .outputSocket, some task =>
    { st with taskRequestCtx := st.taskRequestCtx.alter task info fun info =>
        { info with pendingSchedEvents := info.pendingSchedEvents ++ [wait] } }
  | _, _ => st.emitSchedLatency loop ctx task info wait

/-- `wrapped_callback` up to the call of the callback. -/
def start (st : EventLoops ι κ) (loop : ι) (now : ℤ) : EventLoops ι κ :=
  match (st.loops loop).running, (st.loops loop).ready with
  | none, handle :: ready =>
    match handle.wrapped.bind fun wrapped =>
        (st.callbackInfo handle.task wrapped).map fun info => (wrapped, info) with
    -- a callback that was not wrapped, or whose task is gone, runs without a report
    | none => st.setLoop loop { ready, running := some none }
    | some (wrapped, info) =>
      let run := { ctx := handle.ctx, task := handle.task, info, runTsNs := now }
      let st := st.setLoop loop { ready, running := some (some run) }
      if h : wrapped.readyTsNs ≤ now then
        st.noteWait loop handle.ctx handle.task info ⟨wrapped.readyTsNs, now, h⟩
      else st
  | _, _ => st

/-- Its `finally`. -/
def finish (st : EventLoops ι κ) (loop : ι) (now : ℤ) : EventLoops ι κ :=
  match (st.loops loop).running with
  | none => st
  | some running =>
    let st := st.setLoop loop { st.loops loop with running := none }
    match running with
    | none => st
    | some run =>
      -- only slices of requests are reported, and only with a length
      if run.runTsNs < now ∧ run.info.taskKind = .request then st.emitExecSlice loop run now
      else st

def step (st : EventLoops ι κ) : CallbackStep ι κ → EventLoops ι κ
  | .context call => { st with contexts := st.contexts.step call }
  | .registerTask task requestId requestName taskName taskKind =>
    st.registerTask task requestId requestName taskName taskKind
  | .unregisterTask task => { st with taskRequestCtx := st.taskRequestCtx.erase task }
  | .flushPending task =>
    match st.taskRequestCtx.get? task with
    | none => st
    | some info =>
      -- a task that is not registered has nothing pending
      { st with taskRequestCtx := st.taskRequestCtx.alter task info fun info =>
          { info with pendingSchedEvents := [] } }
  | .callSoon loop now enabled caller context copy task =>
    st.callSoon loop now enabled caller context copy task
  -- a cancelled handle leaves the queue without being run
  | .cancel loop n =>
    st.setLoop loop { st.loops loop with ready := (st.loops loop).ready.eraseIdx n }
  | .start loop now => st.start loop now
  | .finish loop now => st.finish loop now

/-- The process after any number of steps, in any order. -/
def run (steps : List (CallbackStep ι κ)) : EventLoops ι κ := steps.foldl step {}

end EventLoops

end DeLatency
