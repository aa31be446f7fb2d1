import DeLatency.ForStd.BoundedMap

/-!
# eBPF scheduling monitor

Three hooks of the kernel scheduler keep, for every tracked thread that is not
running, the time at which it became runnable.  A wakeup and a preemption record it,
the switch to the thread reports the wait and forgets it.  The user-space side adds
threads to the white list while the hooks are running.

The hooks take their time from the kernel clock, so an event carries it.  Whether the
ring buffer had room for a report is part of the event too.
-/

namespace DeLatency

/-- `max_entries` of `target_tid_map` and `runnable_ts`. -/
def maxEntries : ℕ := 1024

/-- The `type` of a wait: 0 is a wakeup from sleep, 1 is a preemption. -/
def typeWakeup : UInt8 := 0

@[inherit_doc typeWakeup]
def typePreempt : UInt8 := 1

/-- `struct runnable_info`. -/
structure RunnableInfo where
  ts : UInt64
  type : UInt8
deriving DecidableEq

/-- `struct latency_event`. -/
structure LatencyEvent where
  startNs : UInt64
  endNs : UInt64
  tid : UInt32
  type : UInt8
deriving DecidableEq

/-- The maps of the BPF program and what it has put into the ring buffer. -/
structure Monitor where
  targetTidMap : BoundedMap UInt32 UInt8 maxEntries := .empty
  runnableTs : BoundedMap UInt32 RunnableInfo maxEntries := .empty
  events : List LatencyEvent := []

/-- What the monitor reacts to.  `reserved` tells whether `bpf_ringbuf_reserve` would
    succeed at this switch. -/
inductive MonitorEvent
  | schedWakeup (pid : UInt32) (now : UInt64)
  | schedWakeupNew (pid : UInt32) (now : UInt64)
  | schedSwitch (prevPid : UInt32) (prevState : Int64) (nextPid : UInt32) (now : UInt64)
      (reserved : Bool)
  | addTid (tid : UInt32)
deriving DecidableEq

namespace Monitor

def isTrackedTid (m : Monitor) (tid : UInt32) : Bool := (m.targetTidMap.lookup tid).isSome

/-- `record_runnable`: an update that fails leaves the map as it is. -/
def recordRunnable (m : Monitor) (tid : UInt32) (ts : UInt64) (type : UInt8) : Monitor :=
  { m with runnableTs := (m.runnableTs.update tid { ts, type }).getD m.runnableTs }

def sendEvent (m : Monitor) (tid : UInt32) (startNs endNs : UInt64) (type : UInt8)
    (reserved : Bool) : Monitor :=
  if reserved then { m with events := m.events ++ [{ startNs, endNs, tid, type }] } else m

def traceWakeupCommon (m : Monitor) (tid : UInt32) (now : UInt64) : Monitor :=
  if m.isTrackedTid tid then m.recordRunnable tid now typeWakeup else m

def handleSchedWakeup (m : Monitor) (pid : UInt32) (now : UInt64) : Monitor :=
  m.traceWakeupCommon pid now

def handleSchedWakeupNew (m : Monitor) (pid : UInt32) (now : UInt64) : Monitor :=
  m.traceWakeupCommon pid now

/-- Part A of `handle_sched_switch`: the thread that leaves the CPU. -/
def switchOut (m : Monitor) (prevTid : UInt32) (prevState : Int64) (now : UInt64) : Monitor :=
  -- `prev_state` is 0 for a thread that is still runnable
  if m.isTrackedTid prevTid ∧ prevState = 0 then m.recordRunnable prevTid now typePreempt else m

/-- Part B of `handle_sched_switch`: the thread that gets the CPU. -/
def switchIn (m : Monitor) (nextTid : UInt32) (now : UInt64) (reserved : Bool) : Monitor :=
  if m.isTrackedTid nextTid then
    match m.runnableTs.lookup nextTid with
    | some info =>
      if 0 < info.ts then
        -- unsigned: a start after `now` would wrap
        let durNs := now - info.ts
        let m := if 5000 < durNs then m.sendEvent nextTid info.ts now info.type reserved else m
        { m with runnableTs := m.runnableTs.delete nextTid }
      else m
    | none => m
  else m

def handleSchedSwitch (m : Monitor) (prevTid : UInt32) (prevState : Int64) (nextTid : UInt32)
    (now : UInt64) (reserved : Bool) : Monitor :=
  (m.switchOut prevTid prevState now).switchIn nextTid now reserved

/-- `add_tid_to_bpf_map`: 0 for a thread that is tracked already, 1 for a new one and
    -1 when the map is full. -/
def addTidToBpfMap (m : Monitor) (tid : UInt32) : Monitor × ℤ :=
  if m.isTrackedTid tid then (m, 0)
  else match m.targetTidMap.update tid 1 with
    | some targetTidMap => ({ m with targetTidMap }, 1)
    | none => (m, -1)

/-- One event. -/
def step (m : Monitor) : MonitorEvent → Monitor
  | .schedWakeup pid now => m.handleSchedWakeup pid now
  | .schedWakeupNew pid now => m.handleSchedWakeupNew pid now
  | .schedSwitch prevPid prevState nextPid now reserved =>
    m.handleSchedSwitch prevPid prevState nextPid now reserved
  | .addTid tid => (m.addTidToBpfMap tid).1

/-- The monitor after a sequence of events. -/
def run (events : List MonitorEvent) : Monitor := events.foldl step {}

end Monitor

end DeLatency
