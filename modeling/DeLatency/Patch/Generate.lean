import DeLatency.Converter.Log

/-!
# The loop of a generate call

`AsyncLLM.generate` takes the outputs of its request from a `RequestOutputCollector`, which
holds one output and merges into it what is put meanwhile.  The patched `put` notes when the
collector stopped being empty.  The patched loop reports for each output that it takes how
long it has been there since, and how long it took to hand it on.

Both run on the event loop, so a turn of the loop is not interrupted.  The events are given
as the records of the converter's log.
-/

namespace DeLatency

/-- What comes of an output that is taken. -/
inductive TakenOutput
  | unfinished
  | finished
  | raises
deriving DecidableEq

/-- The collector of the engine: how it merges an output into the one that it holds, and what
    comes of taking one. -/
structure CollectorLib (ω : Type) where
  merge : ω → ω → ω
  taken : ω → TakenOutput

/-- A `RequestOutputCollector`, with `_de_latency_ready_since_ns`. -/
structure OutputCollector (ω : Type) where
  output : Option ω := none
  readySinceNs : Option ℤ := none

/-- Where a call of `generate` stands: before a turn of its loop or suspended in the `yield` of
    the last one, in `await q.get()`, or past the loop. -/
inductive GenerateStatus
  | looping
  | awaiting
  | done
deriving DecidableEq

/-- A call of `generate` that has its queue, and what it has reported. -/
structure GenerateCall (ω : Type) where
  requestId : String
  q : OutputCollector ω := {}
  status : GenerateStatus := .looping
  schedEvents : List CoroutineEvent := []
  execEvents : List CoroutineExecEvent := []

/-- What happens to a call. -/
inductive GenerateStep (ω : Type)
  /-- An output is put at `readyTsNs`. -/
  | put (readyTsNs : ℤ) (output : ω)
  /-- The loop runs, and reads these times. -/
  | turn (execStartNs execEndNs : ℤ)
  /-- The call is cancelled or closed where it is suspended. -/
  | abort

/-- The `coroutine_sched_latency` of an output. -/
def emitConsumeWait (requestId : String) (readyTsNs runTsNs : ℤ) : CoroutineEvent where
  type := .coroutineSchedLatency
  timestampNs := some runTsNs
  requestId := some requestId
  readyTsNs := some readyTsNs
  runTsNs := some runTsNs
  queueNs := some (runTsNs - readyTsNs)
  taskKind := some "generate_consume"

/-- Its `coroutine_exec_slice`. -/
def emitConsumeSlice (requestId : String) (startNs endNs : ℤ) : CoroutineExecEvent where
  requestId := some requestId
  startNs := some startNs
  endNs := some endNs
  durationNs := some (endNs - startNs)
  taskKind := some "generate_consume"
  timestampNs := some endNs

namespace GenerateCall

variable {ω : Type} (lib : CollectorLib ω)

/-- `patched_queue_put`. -/
def put (call : GenerateCall ω) (readyTsNs : ℤ) (output : ω) : GenerateCall ω :=
  match call.q.output with
  | none => { call with q := { output := some output, readySinceNs := some readyTsNs } }
  | some held => { call with q := { call.q with output := some (lib.merge held output) } }

/-- The rest of a turn that has taken an output. -/
def report (call : GenerateCall ω) (output : ω) (execStartNs execEndNs : ℤ) : GenerateCall ω :=
  { call with
    q := {}
    status := if lib.taken output = .finished then .done else .looping
    schedEvents := call.schedEvents ++
      -- the wait counts from the first output put since the last turn
      match call.q.readySinceNs with
      | some readySinceNs =>
        if readySinceNs ≤ execStartNs then
          [emitConsumeWait call.requestId readySinceNs execStartNs]
        else []
      | none => []
    execEvents := call.execEvents ++
      -- an execution that takes no time is not reported
      if execEndNs ≤ execStartNs then []
      else [emitConsumeSlice call.requestId execStartNs execEndNs] }

/-- A turn of the loop.  With nothing to take it awaits the next output; a call that awaits one
    goes on when there is one. -/
def turn (call : GenerateCall ω) (execStartNs execEndNs : ℤ) : GenerateCall ω :=
  if call.status = .done then call
  else
    match call.q.output with
    -- the queue is empty, so the task waits for the event
    | none => { call with status := .awaiting }
    | some output =>
      if lib.taken output = .raises then
        -- `get` has taken the output out before it raises
        { call with q := { call.q with output := none }, status := .done }
      else call.report lib output execStartNs execEndNs

def step (call : GenerateCall ω) : GenerateStep ω → GenerateCall ω
  | .put readyTsNs output => call.put lib readyTsNs output
  | .turn execStartNs execEndNs => call.turn lib execStartNs execEndNs
  | .abort => { call with status := .done }

/-- A call after any number of steps. -/
def run (requestId : String) (steps : List (GenerateStep ω)) : GenerateCall ω :=
  steps.foldl (step lib) { requestId }

end GenerateCall

end DeLatency
