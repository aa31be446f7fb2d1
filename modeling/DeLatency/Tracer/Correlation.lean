import DeLatency.Tracer.Record

/-!
# Correlation ids

Three parties share `g_corr_to_ostid_map`.  The enter callback of an API call stores the
thread of the call under its correlation id, `bufferCompleted` looks the ids of the
records up, and `cupti_disable_locked` clears the map.  Each holds `g_corr_mutex` while it
does so, and the first two look at `g_cupti_enabled` before.

A command holds the control mutex, which no callback takes: callbacks still come between
the clearing and the store to the flag.
-/

namespace DeLatency

namespace Tracer

/-- Whether `cupti_disable_locked` gets as far as clearing the map. -/
def disableClears (t : Tracer) : Bool := t.cuptiEnabled || t.subscriber.isSome

/-- Whether `cupti_enable_locked` clears the map, which its cleanup after an error does. -/
def enableClears (t : Tracer) (o : EnableOutcomes) : Bool :=
  if t.cuptiEnabled then false
  else
    match t.registerActivityCallbacksLocked o.register with
    | (_, false) => false
    -- a failed enable is rolled back by a disable, which clears the map
    | (t, true) =>
      match t.subscribeLocked o.subscribe with
      | (_, none) => false
      | (t, some subscriber) =>
        let (t, ok) := t.callAll (o.calls subscriber)
        !ok && t.disableClears

/-- Whether an action clears the map. -/
def clears (t : Tracer) : TracerAction × CuptiOutcomes → Bool
  | (.initCuptiTracer startEnabled, o) => startEnabled && t.enableClears o.enable
  | (.controlCommand command, o) =>
    if command = "on" ∨ command = "enable" then t.enableClears o.enable
    else if command = "off" ∨ command = "disable" ∨ command = "off graceful" ∨
        command = "disable graceful" ∨ command = "off fast" ∨ command = "disable fast" then
      t.disableClears
    else false
  | (.deinitCuptiTracer, _) => t.disableClears

end Tracer

/-- What happens to the map, in the order in which the locks are taken. -/
inductive CorrEvent
  /-- `api_callback` at the entry of a call. -/
  | apiEnter (correlationId osTid : UInt32)
  /-- `bufferCompleted`, with or without a socket to send to. -/
  | bufferCompleted (zmqPush : Bool) (buffer : List Activity)
  /-- An action up to and including the clearing, or all of one that clears nothing. -/
  | command (action : TracerAction) (outcomes : CuptiOutcomes)
  /-- The rest of an action that has cleared the map. -/
  | commandDone

/-- The tracer and its map.  The calls that have been entered and those whose records have
    been delivered are kept to speak about them; the code has no such lists. -/
structure CorrState where
  tracer : Tracer
  corrToOstid : Dict UInt32 UInt32 := .empty
  /-- An action that has cleared the map and not yet stored the flag. -/
  clearing : Option (TracerAction × CuptiOutcomes) := none
  entered : List UInt32 := []
  delivered : List UInt32 := []

namespace CorrState

variable (callbackName : CallbackDomain → UInt32 → Option String)

/-- What a call of `bufferCompleted` finds around its buffer. -/
def context (s : CorrState) : BufferContext where
  pid := .ofNat s.tracer.pid
  corrToOstid := s.corrToOstid
  callbackName := callbackName

/-- The records that a call of `bufferCompleted` delivers.  Without a socket it drops the
    buffer. -/
def sentRecords (s : CorrState) (zmqPush : Bool) (buffer : List Activity) :
    List UnifiedTraceRecord :=
  if zmqPush then
    DeLatency.bufferCompleted (s.context callbackName) s.tracer.cuptiEnabled buffer
  else []

/-- The calls whose records a call of `bufferCompleted` delivers. -/
def deliveredCalls (s : CorrState) (zmqPush : Bool) (buffer : List Activity) : List UInt32 :=
  ((s.sentRecords callbackName zmqPush buffer).filter fun rec => rec.type.IsApi).map
    UnifiedTraceRecord.correlationId

def apiEnter (s : CorrState) (correlationId osTid : UInt32) : CorrState :=
  { s with
    corrToOstid :=
      if s.tracer.cuptiEnabled then s.corrToOstid.alter correlationId osTid fun _ => osTid
      else s.corrToOstid
    entered := s.entered ++ [correlationId] }

def command (s : CorrState) (action : TracerAction × CuptiOutcomes) : CorrState :=
  match s.clearing with
  -- the mutex is held by the action before
  | some _ => s
  | none =>
    if s.tracer.clears action then { s with corrToOstid := .empty, clearing := some action }
    else { s with tracer := s.tracer.step action }

def commandDone (s : CorrState) : CorrState :=
  match s.clearing with
  | some action => { s with tracer := s.tracer.step action, clearing := none }
  | none => s

/-- One event.  `bufferCompleted` looks the ids up and leaves the map as it is. -/
def step (s : CorrState) : CorrEvent → CorrState
  | .apiEnter correlationId osTid => s.apiEnter correlationId osTid
  | .bufferCompleted zmqPush buffer =>
    { s with delivered := s.delivered ++ s.deliveredCalls callbackName zmqPush buffer }
  | .command action outcomes => s.command (action, outcomes)
  | .commandDone => s.commandDone

/-- The map of a process after a sequence of events. -/
def run (pid : ℕ) (controlSocketPath : String) (events : List CorrEvent) : CorrState :=
  events.foldl (step callbackName) { tracer := { pid, controlSocketPath } }

end CorrState

end DeLatency
