import DeLatency.Converter.Log
import DeLatency.ForStd.Dict

/-!
# The input of the engine core

The input thread of the engine core preprocesses a request and puts it into a queue, from which
the main loop takes it.  The wrappers around these calls report how long each took and, from a
table of what has been preprocessed, how long the request was in the queue.
-/

namespace DeLatency

/-- A wrapped call, with the id of its request. -/
inductive EngineCall
  | preprocessAddRequest (requestId : Option String)
  | addRequest (requestId : Option String)
  | handleClientRequest (isAdd : Bool) (requestId : Option String)
deriving DecidableEq

/-- A call that a thread is in. -/
structure EngineFrame where
  call : EngineCall
  startNs : ℤ

/-- `emit_req_stage`. -/
def emitReqStage (enabled : Bool) (stage : String) (startNs endNs : ℤ)
    (requestId : Option String) : List ReqStageEvent :=
  -- a clock that went back reports nothing
  if enabled = true ∧ startNs ≤ endNs then
    [{ requestId
       stage := some stage
       startNs := some startNs
       endNs := some endNs
       durationNs := some (endNs - startNs)
       timestampNs := some endNs }]
  else []

/-- The engine core process with threads `τ`, and what has been sent. -/
structure EngineCore (τ : Type) where
  calls : τ → List EngineFrame := fun _ => []
  /-- `_CORE_PREPROCESS_DONE_NS` -/
  preprocessDoneNs : Dict String ℤ := Dict.empty
  sent : List ReqStageEvent := []

/-- A thread enters a wrapped call or leaves its innermost one, by a return or an error. -/
inductive EngineCallStep (τ : Type)
  | enter (thread : τ) (call : EngineCall) (now : ℤ) (enabled : Bool)
  | leave (thread : τ) (now : ℤ) (enabled : Bool)

namespace EngineCore

variable {τ : Type}

/-- `_remember_core_preprocess_done` -/
def rememberCorePreprocessDone (st : EngineCore τ) (requestId : Option String) (tsNs : ℤ) :
    EngineCore τ :=
  match requestId.filter (· ≠ "") with
  | some rid => { st with preprocessDoneNs := st.preprocessDoneNs.alter rid tsNs fun _ => tsNs }
  | none => st

def emit (st : EngineCore τ) (events : List ReqStageEvent) : EngineCore τ :=
  { st with sent := st.sent ++ events }

/-- `handle_client_request_wrapper` up to the call: `_pop_core_preprocess_done`, and the wait. -/
def takeFromQueue (st : EngineCore τ) (requestId : Option String) (handleStartNs : ℤ)
    (enabled : Bool) : EngineCore τ :=
  match requestId.filter (· ≠ "") with
  | none => st
  | some rid =>
    let taken := { st with preprocessDoneNs := st.preprocessDoneNs.erase rid }
    match st.preprocessDoneNs.get? rid with
    | some preprocessDoneNs =>
      -- a clock that went back reports no wait
      if preprocessDoneNs ≤ handleStartNs then
        taken.emit (emitReqStage enabled "engine_core.input_queue_wait_after_preprocess"
          preprocessDoneNs handleStartNs (some rid))
      else taken
    | none => taken

variable [DecidableEq τ]

def setStack (st : EngineCore τ) (thread : τ) (stack : List EngineFrame) : EngineCore τ :=
  { st with calls := Function.update st.calls thread stack }

def enter (st : EngineCore τ) (thread : τ) (call : EngineCall) (now : ℤ) (enabled : Bool) :
    EngineCore τ :=
  let st := st.setStack thread (⟨call, now⟩ :: st.calls thread)
  match call with
  | .handleClientRequest true requestId => st.takeFromQueue requestId now enabled
  | _ => st

/-- The `finally` of the wrappers. -/
def finish (st : EngineCore τ) (frame : EngineFrame) (now : ℤ) (enabled : Bool) : EngineCore τ :=
  match frame.call with
  | .preprocessAddRequest requestId =>
    (st.emit (emitReqStage enabled "engine_core.preprocess_add_request" frame.startNs now
      requestId)).rememberCorePreprocessDone requestId now
  | .addRequest requestId =>
    st.emit (emitReqStage enabled "engine_core.add_request" frame.startNs now requestId)
  | .handleClientRequest true requestId =>
    st.emit (emitReqStage enabled "engine_core.handle_client_add" frame.startNs now requestId)
  -- a request that is no addition is not reported
  | .handleClientRequest false _ => st

def step (st : EngineCore τ) : EngineCallStep τ → EngineCore τ
  | .enter thread call now enabled => st.enter thread call now enabled
  | .leave thread now enabled =>
    match st.calls thread with
    | [] => st
    | frame :: stack => (st.setStack thread stack).finish frame now enabled

/-- The process after any number of steps of its threads. -/
def run (steps : List (EngineCallStep τ)) : EngineCore τ := steps.foldl step {}

end EngineCore

end DeLatency
