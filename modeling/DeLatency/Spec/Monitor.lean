import DeLatency.Monitor.SchedLatency

/-!
# What one scheduler event does to the monitor

Every key of `runnable_ts` is a tracked thread, so an update of that map never fails
for capacity (`Covered.isSome_update`).  With that each hook has one lemma that says
what it leaves at a thread and what it reports.

A `sched_switch` is two things at once: one thread leaves the CPU and another gets
it.  The proofs about runs go over these single actions (`run_eq`).
-/

namespace DeLatency

namespace Monitor

/-- Only tracked threads have a runnable time. -/
def Covered (m : Monitor) : Prop := ∀ tid ∈ m.runnableTs.keys, tid ∈ m.targetTidMap.keys

/-- A thread is tracked when it is a key of the map. -/
theorem isTrackedTid_iff {m : Monitor} {tid : UInt32} :
    m.isTrackedTid tid ↔ tid ∈ m.targetTidMap.keys :=
  BoundedMap.isSome_lookup_iff

/-- Recording a tracked thread never fails for capacity. -/
theorem Covered.isSome_update {m : Monitor} (h : m.Covered) {tid : UInt32}
    (ht : m.isTrackedTid tid) (info : RunnableInfo) : (m.runnableTs.update tid info).isSome :=
  BoundedMap.isSome_update_of_subset h (isTrackedTid_iff.mp ht) info

/-! ## `record_runnable` -/

/-- Recording a tracked thread sets its own entry alone. -/
theorem lookup_recordRunnable {m : Monitor} (h : m.Covered) {tid : UInt32}
    (ht : m.isTrackedTid tid) (ts : UInt64) (type : UInt8) (x : UInt32) :
    (m.recordRunnable tid ts type).runnableTs.lookup x =
      if x = tid then some { ts, type } else m.runnableTs.lookup x := by
  obtain ⟨m', hm'⟩ := Option.isSome_iff_exists.mp (h.isSome_update ht { ts, type })
  unfold recordRunnable
  rw [hm', Option.getD_some]
  exact BoundedMap.lookup_update hm' x

/-- It keeps the entries within the tracked threads. -/
theorem Covered.recordRunnable {m : Monitor} (h : m.Covered) {tid : UInt32}
    (ht : m.isTrackedTid tid) (ts : UInt64) (type : UInt8) :
    (m.recordRunnable tid ts type).Covered := by
  intro x hx
  rw [← BoundedMap.isSome_lookup_iff, lookup_recordRunnable h ht] at hx
  show x ∈ m.targetTidMap.keys
  -- the thread recorded is tracked, the others were covered before
  by_cases hxt : x = tid
  · exact hxt ▸ isTrackedTid_iff.mp ht
  · rw [if_neg hxt, BoundedMap.isSome_lookup_iff] at hx
    exact h x hx

/-! ## The hooks -/

/-- A wakeup records the thread when it is tracked. -/
theorem traceWakeupCommon_cases (m : Monitor) (tid : UInt32) (now : UInt64) :
    (m.isTrackedTid tid ∧ m.traceWakeupCommon tid now = m.recordRunnable tid now typeWakeup) ∨
      (¬m.isTrackedTid tid ∧ m.traceWakeupCommon tid now = m) := by
  unfold traceWakeupCommon
  split
  · next h => exact .inl ⟨h, rfl⟩
  · next h => exact .inr ⟨h, rfl⟩

/-- A switch away from a thread records it when it is tracked and still runnable. -/
theorem switchOut_cases (m : Monitor) (tid : UInt32) (prevState : Int64) (now : UInt64) :
    (m.isTrackedTid tid ∧ prevState = 0 ∧
        m.switchOut tid prevState now = m.recordRunnable tid now typePreempt) ∨
      ((m.isTrackedTid tid → prevState ≠ 0) ∧ m.switchOut tid prevState now = m) := by
  unfold switchOut
  split
  · next h => exact .inl ⟨h.1, h.2, rfl⟩
  · next h => exact .inr ⟨fun ht hp => h ⟨ht, hp⟩, rfl⟩

/-- What a switch to `tid` reports of a recorded wait. -/
def report (tid : UInt32) (info : RunnableInfo) (now : UInt64) (reserved : Bool) :
    List LatencyEvent :=
  if 5000 < now - info.ts ∧ reserved then
    [{ startNs := info.ts, endNs := now, tid, type := info.type }]
  else []

/-- A switch to a thread either finds no wait, or reports it and forgets it. -/
theorem switchIn_cases (m : Monitor) (tid : UInt32) (now : UInt64) (reserved : Bool) :
    (m.switchIn tid now reserved = m ∧
        (m.isTrackedTid tid → ∀ info, m.runnableTs.lookup tid = some info → ¬0 < info.ts)) ∨
      ∃ info, m.runnableTs.lookup tid = some info ∧ 0 < info.ts ∧
        m.switchIn tid now reserved =
          { m with
            runnableTs := m.runnableTs.delete tid
            events := m.events ++ report tid info now reserved } := by
  unfold switchIn
  split
  · split
    · next info hinfo =>
      split
      · next hpos =>
        refine .inr ⟨info, hinfo, hpos, ?_⟩
        -- a report needs a wait that is long enough and room in the buffer
        unfold report sendEvent
        by_cases hdur : 5000 < now - info.ts
        · cases reserved <;> simp [hdur]
        · simp [hdur]
      · next hpos =>
        refine .inl ⟨rfl, fun _ info' hinfo' => ?_⟩
        rw [hinfo] at hinfo'
        cases hinfo'
        exact hpos
    · next hnone =>
      refine .inl ⟨rfl, fun _ info hinfo => ?_⟩
      cases hnone.symm.trans hinfo
  · next hnot => exact .inl ⟨rfl, fun ht => absurd ht hnot⟩

/-- Tracking a thread touches nothing but the white list, which only grows. -/
theorem addTidToBpfMap_spec (m : Monitor) (tid : UInt32) :
    (m.addTidToBpfMap tid).1.runnableTs = m.runnableTs ∧
      (m.addTidToBpfMap tid).1.events = m.events ∧
      ∀ x ∈ (m.addTidToBpfMap tid).1.targetTidMap.keys,
        x = tid ∨ x ∈ m.targetTidMap.keys := by
  unfold addTidToBpfMap
  split
  · exact ⟨rfl, rfl, fun x hx => .inr hx⟩
  · split
    · -- there was room for the thread
      next hupdate =>
      exact ⟨rfl, rfl, fun x hx => (BoundedMap.mem_keys_update hupdate).mp hx⟩
    · exact ⟨rfl, rfl, fun x hx => .inr hx⟩

/-- Adding a thread takes no other out of the map. -/
theorem mem_targetTidMap_addTidToBpfMap {m : Monitor} {tid x : UInt32}
    (hx : x ∈ m.targetTidMap.keys) : x ∈ (m.addTidToBpfMap tid).1.targetTidMap.keys := by
  unfold addTidToBpfMap
  split
  · exact hx
  · split
    · next hupdate => exact (BoundedMap.mem_keys_update hupdate).mpr (.inr hx)
    · exact hx

/-! ## Events as actions on single threads -/

end Monitor

/-- What happens to one thread. -/
inductive SchedAction
  | wakeup (tid : UInt32) (now : UInt64)
  | switchOut (tid : UInt32) (prevState : Int64) (now : UInt64)
  | switchIn (tid : UInt32) (now : UInt64) (reserved : Bool)
  | track (tid : UInt32)

/-- The actions of an event, in the order in which its hook treats them. -/
def MonitorEvent.actions : MonitorEvent → List SchedAction
  | .schedWakeup pid now => [.wakeup pid now]
  | .schedWakeupNew pid now => [.wakeup pid now]
  | .schedSwitch prevPid prevState nextPid now reserved =>
    [.switchOut prevPid prevState now, .switchIn nextPid now reserved]
  | .addTid tid => [.track tid]

/-- The actions of a sequence of events. -/
def schedActions (events : List MonitorEvent) : List SchedAction :=
  events.flatMap MonitorEvent.actions

namespace Monitor

/-- The effect of one action. -/
def act (m : Monitor) : SchedAction → Monitor
  | .wakeup tid now => m.traceWakeupCommon tid now
  | .switchOut tid prevState now => m.switchOut tid prevState now
  | .switchIn tid now reserved => m.switchIn tid now reserved
  | .track tid => (m.addTidToBpfMap tid).1

/-- A step carries out the actions of its event in order. -/
theorem step_eq (m : Monitor) (ev : MonitorEvent) : m.step ev = ev.actions.foldl act m := by
  cases ev <;> rfl

/-- A run is the run of its actions. -/
theorem run_eq (events : List MonitorEvent) : run events = (schedActions events).foldl act {} := by
  rw [run, schedActions, List.foldl_flatMap]
  congr
  funext m ev
  exact m.step_eq ev

/-! ## Coverage over a run -/

/-- A switch-out keeps the entries within the tracked threads. -/
theorem Covered.switchOut {m : Monitor} (h : m.Covered) (tid : UInt32) (prevState : Int64)
    (now : UInt64) : (m.switchOut tid prevState now).Covered := by
  obtain ⟨ht, -, hm⟩ | ⟨-, hm⟩ := m.switchOut_cases tid prevState now
  · rw [hm]
    exact h.recordRunnable ht now typePreempt
  · rwa [hm]

/-- A switch-in keeps the entries within the tracked threads. -/
theorem Covered.switchIn {m : Monitor} (h : m.Covered) (tid : UInt32) (now : UInt64)
    (reserved : Bool) : (m.switchIn tid now reserved).Covered := by
  obtain ⟨hm, -⟩ | ⟨info, -, -, hm⟩ := m.switchIn_cases tid now reserved
  · rwa [hm]
  · rw [hm]
    intro x hx
    exact h x (BoundedMap.mem_keys_delete.mp hx).1

/-- A wakeup keeps the entries within the tracked threads. -/
theorem Covered.traceWakeupCommon {m : Monitor} (h : m.Covered) (tid : UInt32) (now : UInt64) :
    (m.traceWakeupCommon tid now).Covered := by
  obtain ⟨ht, hm⟩ | ⟨-, hm⟩ := m.traceWakeupCommon_cases tid now
  · rw [hm]
    exact h.recordRunnable ht now typeWakeup
  · rwa [hm]

/-- Every action keeps the entries within the tracked threads. -/
theorem Covered.act {m : Monitor} (h : m.Covered) (a : SchedAction) : (m.act a).Covered := by
  cases a with
  | wakeup tid now => exact h.traceWakeupCommon tid now
  | switchOut tid prevState now => exact h.switchOut tid prevState now
  | switchIn tid now reserved => exact h.switchIn tid now reserved
  | track tid =>
    intro x hx
    rw [Monitor.act, (m.addTidToBpfMap_spec tid).1] at hx
    exact mem_targetTidMap_addTidToBpfMap (h x hx)

/-- The keys of `runnable_ts` are tracked threads after any actions. -/
theorem covered_foldl_act (actions : List SchedAction) : (actions.foldl act {}).Covered := by
  refine List.foldlRecOn actions act ?_ fun m hm a _ => hm.act a
  intro x hx
  cases hx

/-- After every run the entries are within the tracked threads. -/
theorem covered_run (events : List MonitorEvent) : (run events).Covered := by
  rw [run_eq]
  exact covered_foldl_act (schedActions events)

end Monitor

end DeLatency
