import DeLatency.Converter.Value

/-!
# Trace events

The converter writes three kinds of events: complete slices, the ends of flow arrows and
the names of processes and threads.  Times stay in nanoseconds; the division by 1000 and
the subtraction of the origin that follow are the same for all events.
-/

namespace DeLatency

/-- `create_perfetto_event` with phase `X`. -/
structure CompleteEvent where
  name : String
  cat : String
  tsNs : ℤ
  durNs : ℤ
  pid : Option ℤ
  tid : Option ℤ
  args : List (String × PyValue) := []
  cname : Option String := none

inductive FlowPhase
  | start
  | finish
deriving DecidableEq

/-- `create_flow_event`. -/
structure FlowEvent where
  ph : FlowPhase
  tsNs : ℤ
  pid : Option ℤ
  tid : Option ℤ
  id : ℕ
deriving DecidableEq

/-- A `process_name` or `thread_name` event; a process name has no thread. -/
structure NameEvent where
  pid : ℤ
  tid : Option ℤ := none
  name : String
deriving DecidableEq

inductive TraceEvent
  | complete (ev : CompleteEvent)
  | flow (ev : FlowEvent)
  | processName (ev : NameEvent)
  | threadName (ev : NameEvent)

end DeLatency
