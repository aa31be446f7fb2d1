import Mathlib.Data.Nat.Notation

/-!
# Runtime control of CUPTI

The tracer library turns CUPTI on when it is loaded, off when it is unloaded, and in
between on and off on command of a control socket.  Turning it on makes about ten calls
into CUPTI, each of which can fail on its own; when one fails, what was turned on is
turned off again.

CUPTI itself is not part of the repository.  What its calls return is an input of a
command, and every call is kept with its result in the order in which it was made.
-/

namespace DeLatency

/-- A `CUpti_SubscriberHandle` other than `NULL`. -/
abbrev SubscriberHandle := ℕ

/-- The callback domains the tracer uses. -/
inductive CallbackDomain
  | runtimeApi
  | driverApi
deriving DecidableEq

/-- The activity kinds the tracer uses. -/
inductive ActivityKind
  | kernel
  | memcpy
  | memset
  | driver
  | runtime
deriving DecidableEq

/-- A call into CUPTI.  A subscription comes with the handle it returned. -/
inductive CuptiCall
  | activityRegisterCallbacks
  | subscribe (subscriber : Option SubscriberHandle)
  | enableDomain (enable : Bool) (subscriber : SubscriberHandle) (domain : CallbackDomain)
  | activityEnable (kind : ActivityKind)
  | activityDisable (kind : ActivityKind)
  | activityFlushAll
  | unsubscribe (subscriber : SubscriberHandle)
deriving DecidableEq

/-- What CUPTI answers while it is turned off; `true` is `CUPTI_SUCCESS`. -/
structure DisableOutcomes where
  flush : Bool
  activityDisable : ActivityKind → Bool
  finalFlush : Bool
  disableDomain : CallbackDomain → Bool
  unsubscribe : Bool

/-- What CUPTI answers while it is turned on. -/
structure EnableOutcomes where
  register : Bool
  /-- A successful `cuptiSubscribe` returns a handle. -/
  subscribe : Option SubscriberHandle
  enableDomain : CallbackDomain → Bool
  activityEnable : ActivityKind → Bool
  rollback : DisableOutcomes

/-- What CUPTI answers during one command. -/
structure CuptiOutcomes where
  enable : EnableOutcomes
  disable : DisableOutcomes
  flush : Bool

/-- The global state of the tracer, and the calls it has made so far with their results. -/
structure Tracer where
  pid : ℕ
  controlSocketPath : String
  subscriber : Option SubscriberHandle := none
  activityCallbacksRegistered : Bool := false
  cuptiEnabled : Bool := false
  cuptiGeneration : UInt64 := 0
  calls : List (CuptiCall × Bool) := []

namespace Tracer

/-- Make calls one after the other, whatever they return, and tell whether all of them
    succeeded. -/
def callAll (t : Tracer) (calls : List (CuptiCall × Bool)) : Tracer × Bool :=
  ({ t with calls := t.calls ++ calls }, calls.all Prod.snd)

def registerActivityCallbacksLocked (t : Tracer) (outcome : Bool) : Tracer × Bool :=
  if t.activityCallbacksRegistered then (t, true)
  else
    let (t, ok) := t.callAll [(.activityRegisterCallbacks, outcome)]
    if ok then ({ t with activityCallbacksRegistered := true }, true) else (t, false)

def cuptiFlushLocked (t : Tracer) (outcome : Bool) : Tracer × Bool :=
  t.callAll [(.activityFlushAll, outcome)]

end Tracer

/-- The calls of `cupti_disable_locked` about the activity kinds. -/
def DisableOutcomes.activityCalls (o : DisableOutcomes) : List (CuptiCall × Bool) :=
  (.activityFlushAll, o.flush) ::
    ([.runtime, .driver, .memset, .memcpy, .kernel].map fun kind =>
      (.activityDisable kind, o.activityDisable kind)) ++
    [(.activityFlushAll, o.finalFlush)]

/-- The calls of `cupti_disable_locked` that switch the domains off.  Their results are only
    logged. -/
def DisableOutcomes.domainCalls (o : DisableOutcomes) (subscriber : SubscriberHandle) :
    List (CuptiCall × Bool) :=
  [.runtimeApi, .driverApi].map fun domain =>
    (.enableDomain false subscriber domain, o.disableDomain domain)

/-- The calls of `cupti_enable_locked` after the subscription. -/
def EnableOutcomes.calls (o : EnableOutcomes) (subscriber : SubscriberHandle) :
    List (CuptiCall × Bool) :=
  ([.runtimeApi, .driverApi].map fun domain =>
      (.enableDomain true subscriber domain, o.enableDomain domain)) ++
    [.kernel, .memcpy, .memset, .driver, .runtime].map fun kind =>
      (.activityEnable kind, o.activityEnable kind)

namespace Tracer

/-- `cupti_disable_locked`.  A graceful disable waits for the GPU before, which changes
    nothing here. -/
def cuptiDisableLocked (t : Tracer) (o : DisableOutcomes) : Tracer × Bool :=
  if ¬t.cuptiEnabled ∧ t.subscriber = none then (t, true)
  else
    let (t, ok) := t.callAll o.activityCalls
    let (t, ok) := match t.subscriber with
      | some subscriber =>
        let (t, _) := t.callAll (o.domainCalls subscriber)
        let (t, unsubscribed) := t.callAll [(.unsubscribe subscriber, o.unsubscribe)]
        -- the handle is dropped even when CUPTI has kept the subscription
        ({ t with subscriber := none }, unsubscribed && ok)
      | none => (t, ok)
    ({ t with cuptiEnabled := false }, ok)

/-- The subscription of `cupti_enable_locked`: the one there is or a new one. -/
def subscribeLocked (t : Tracer) (outcome : Option SubscriberHandle) :
    Tracer × Option SubscriberHandle :=
  match t.subscriber with
  | some subscriber => (t, some subscriber)
  | none =>
    let (t, _) := t.callAll [(.subscribe outcome, outcome.isSome)]
    ({ t with subscriber := outcome }, outcome)

/-- `cupti_enable_locked`. -/
def cuptiEnableLocked (t : Tracer) (o : EnableOutcomes) : Tracer × Bool :=
  -- already on: nothing to do
  if t.cuptiEnabled then (t, true)
  else
    match t.registerActivityCallbacksLocked o.register with
    | (t, false) => (t, false)
    | (t, true) =>
      match t.subscribeLocked o.subscribe with
      | (t, none) => (t, false)
      | (t, some subscriber) =>
        let (t, ok) := t.callAll (o.calls subscriber)
        -- one of the calls failed: what was enabled is rolled back
        if ¬ok then
          let (t, _) := t.cuptiDisableLocked o.rollback
          (t, false)
        else
          ({ t with cuptiGeneration := t.cuptiGeneration + 1, cuptiEnabled := true }, true)

/-- `build_status_response_locked`. -/
def buildStatusResponseLocked (t : Tracer) (lead : String) : String :=
  lead ++ " state=" ++ (if t.cuptiEnabled then "on" else "off") ++
    " generation=" ++ toString t.cuptiGeneration.toNat ++
    " subscriber=" ++ (if t.subscriber.isSome then "yes" else "no") ++
    " activity_callbacks=" ++ (if t.activityCallbacksRegistered then "yes" else "no") ++
    " pid=" ++ toString t.pid ++
    " socket=" ++ (if t.controlSocketPath = "" then "<disabled>" else t.controlSocketPath) ++ "\n"

/-- The state after a command and the reply about its result. -/
def respond (result : Tracer × Bool) (error : String) : Tracer × String :=
  (result.1, result.1.buildStatusResponseLocked (if result.2 then "ok" else error))

def handleControlCommand (t : Tracer) (command : String) (o : CuptiOutcomes) : Tracer × String :=
  if command = "status" then (t, t.buildStatusResponseLocked "ok")
  else if command = "on" ∨ command = "enable" then
    respond (t.cuptiEnableLocked o.enable) "error=enable_failed"
  else if command = "off" ∨ command = "disable" ∨ command = "off graceful" ∨
      command = "disable graceful" then
    respond (t.cuptiDisableLocked o.disable) "error=disable_failed"
  else if command = "off fast" ∨ command = "disable fast" then
    respond (t.cuptiDisableLocked o.disable) "error=disable_failed"
  else if command = "flush" then
    -- nothing to flush while it is off
    if ¬t.cuptiEnabled ∧ t.subscriber = none then (t, t.buildStatusResponseLocked "ok")
    else respond (t.cuptiFlushLocked o.flush) "error=flush_failed"
  else (t, "error=unknown_command\n")

end Tracer

/-- What makes the tracer turn CUPTI on or off.  The constructor looks at
    `TRACER_CUPTI_START_ENABLED`. -/
inductive TracerAction
  | initCuptiTracer (startEnabled : Bool)
  | controlCommand (command : String)
  | deinitCuptiTracer

namespace Tracer

/-- One action, with what CUPTI answers to its calls. -/
def step (t : Tracer) : TracerAction × CuptiOutcomes → Tracer
  | (.initCuptiTracer startEnabled, o) =>
    if startEnabled then (t.cuptiEnableLocked o.enable).1 else t
  | (.controlCommand command, o) => (t.handleControlCommand command o).1
  | (.deinitCuptiTracer, o) => (t.cuptiDisableLocked o.disable).1

/-- The tracer of a process after a sequence of actions. -/
def run (pid : ℕ) (controlSocketPath : String) (actions : List (TracerAction × CuptiOutcomes)) :
    Tracer :=
  actions.foldl step { pid, controlSocketPath }

end Tracer

end DeLatency
