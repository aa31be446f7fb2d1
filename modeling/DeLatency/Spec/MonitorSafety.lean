import DeLatency.Spec.Monitor
import Mathlib.Data.List.Induction

/-!
# The monitor reports waits only

The scheduler promises two things about a thread: it gets the CPU and leaves it in
turns, and a thread that left it to sleep is woken before it gets it again.  Under
these the recorded time of a waiting thread is never before it left the CPU, and so
no reported wait contains time at which its thread was running (`monitor_safe`).

The invariant (`WaitInv`) looks at one thread and holds for any other events in
between, for wakeups that reach the thread while it is running, and for a thread that
is added to the white list at any moment.
-/

namespace DeLatency

/-! ## What the scheduler promises -/

/-- What a thread is doing; `unseen` until its first switch. -/
inductive TaskState
  | unseen
  | running
  | sleeping
  | ready
deriving DecidableEq

/-- A wakeup makes a sleeping thread ready. -/
def TaskState.woken : TaskState → TaskState
  | .sleeping => .ready
  | s => s

/-- Only a running thread leaves the CPU; with `prev_state` 0 it stays ready. -/
def TaskState.switchedOut (prevState : Int64) : TaskState → Option TaskState
  | .unseen | .running => some (if prevState = 0 then .ready else .sleeping)
  | .sleeping | .ready => none

/-- Only a ready thread gets the CPU. -/
def TaskState.switchedIn : TaskState → Option TaskState
  | .unseen | .ready => some .running
  | .running | .sleeping => none

/-- The state of the thread `tid` after one more action; `none` when the action breaks
    a promise. -/
def taskStep (tid : UInt32) (s : TaskState) : SchedAction → Option TaskState
  | .wakeup x _ => some (if x = tid then s.woken else s)
  | .switchOut x prevState _ => if x = tid then s.switchedOut prevState else some s
  | .switchIn x _ _ => if x = tid then s.switchedIn else some s
  | .track _ => some s

/-- The switches of a thread alternate, and after a switch out with `prev_state` other
    than 0 a wakeup comes before the next switch in. -/
def Schedulable (tid : UInt32) (events : List MonitorEvent) : Prop :=
  ((schedActions events).foldlM (taskStep tid) .unseen).isSome

/-- When an action happens. -/
def SchedAction.time? : SchedAction → Option UInt64
  | .wakeup _ now => some now
  | .switchOut _ _ now => some now
  | .switchIn _ now _ => some now
  | .track _ => none

/-- The kernel clock does not run backwards. -/
def TimesSorted (events : List MonitorEvent) : Prop :=
  ((schedActions events).filterMap SchedAction.time?).Pairwise (· ≤ ·)

instance (tid : UInt32) (events : List MonitorEvent) : Decidable (Schedulable tid events) :=
  inferInstanceAs (Decidable (Option.isSome _ = true))

instance (events : List MonitorEvent) : Decidable (TimesSorted events) :=
  inferInstanceAs (Decidable (List.Pairwise _ _))

/-! ## Running time -/

/-- Whether `tid` is on a CPU after one more action. -/
def onCpuStep (tid : UInt32) (on : Bool) : SchedAction → Bool
  | .switchOut x _ _ => if x = tid then false else on
  | .switchIn x _ _ => if x = tid then true else on
  | _ => on

/-- Whether `tid` is on a CPU after the actions. -/
def onCpu (tid : UInt32) (initial : Bool) (actions : List SchedAction) : Bool :=
  actions.foldl (onCpuStep tid) initial

/-- A thread whose first switch is away from the CPU was running from the start. -/
def startsOnCpu (tid : UInt32) : List SchedAction → Bool
  | [] => false
  | .switchOut x _ _ :: rest => if x = tid then true else startsOnCpu tid rest
  | .switchIn x _ _ :: rest => if x = tid then false else startsOnCpu tid rest
  | _ :: rest => startsOnCpu tid rest

/-- The actions up to time `t`. -/
def upTo (t : UInt64) (actions : List SchedAction) : List SchedAction :=
  actions.filter fun a => a.time?.all (· ≤ t)

/-- The thread is running at time `t`. -/
def RunningAt (tid : UInt32) (events : List MonitorEvent) (t : UInt64) : Prop :=
  onCpu tid (startsOnCpu tid (schedActions events)) (upTo t (schedActions events)) = true

/-! ## The invariant -/

/-- The reports about one thread. -/
def Monitor.reportsOf (m : Monitor) (tid : UInt32) : List LatencyEvent :=
  m.events.filter (·.tid = tid)

/-- A time at which one of the actions happened. -/
def TimeOf (actions : List SchedAction) (t : UInt64) : Prop := ∃ a ∈ actions, a.time? = some t

/-- A report about a stretch of more than 5 µs in which the thread is not running. -/
structure GoodReport (tid : UInt32) (initial : Bool) (actions : List SchedAction)
    (e : LatencyEvent) : Prop where
  timeOf_endNs : TimeOf actions e.endNs
  long : e.startNs.toNat + 5000 < e.endNs.toNat
  waiting : ∀ t, e.startNs ≤ t → t < e.endNs → onCpu tid initial (upTo t actions) = false

/-- The states in which a thread waits for the CPU. -/
def TaskState.Waits (initial : Bool) (s : TaskState) : Prop :=
  s = .ready ∨ (s = .unseen ∧ initial = false)

/-- The states in which a thread has the CPU. -/
def TaskState.HasCpu (initial : Bool) (s : TaskState) : Prop :=
  s = .running ∨ (s = .unseen ∧ initial = true)

/-- Every record and report of the monitor stems from one of the actions. -/
structure Traced (actions : List SchedAction) (m : Monitor) : Prop where
  timeOf_ts : ∀ tid info, m.runnableTs.lookup tid = some info → TimeOf actions info.ts
  track_of_key : ∀ tid ∈ m.targetTidMap.keys, .track tid ∈ actions
  track_of_report : ∀ e ∈ m.events, .track e.tid ∈ actions

/-- What holds of the thread `tid` after `actions`, when `s` is its state and `initial`
    tells whether it was running at the start. -/
structure WaitInv (tid : UInt32) (initial : Bool) (actions : List SchedAction) (s : TaskState)
    (m : Monitor) : Prop where
  onCpu_iff : onCpu tid initial actions = true ↔ s.HasCpu initial
  /-- A waiting thread left the CPU before its recorded time.  In the other states the
      record may be stale, from a wakeup while the thread was running. -/
  waiting : s.Waits initial → ∀ info, m.runnableTs.lookup tid = some info →
    ∀ t, info.ts ≤ t → onCpu tid initial (upTo t actions) = false
  reports : ∀ e ∈ m.reportsOf tid, GoodReport tid initial actions e
  reports_le : ∀ e ∈ m.reportsOf tid, ∀ info, m.runnableTs.lookup tid = some info →
    e.endNs ≤ info.ts
  ordered : (m.reportsOf tid).Pairwise fun a b => a.endNs ≤ b.startNs

/-- The invariant of a thread before any action. -/
theorem waitInv_initial (tid : UInt32) (initial : Bool) : WaitInv tid initial [] .unseen {} where
  onCpu_iff := by simp [onCpu, TaskState.HasCpu]
  waiting := by
    intro _ info hinfo
    cases hinfo
  reports := by simp [Monitor.reportsOf]
  reports_le := by simp [Monitor.reportsOf]
  ordered := List.Pairwise.nil

section Step

variable {tid : UInt32} {initial : Bool} {actions : List SchedAction} {s s' : TaskState}
  {m m' : Monitor} {a : SchedAction}

/-- Whether a thread runs after one more action. -/
theorem onCpu_concat (tid : UInt32) (initial : Bool) (actions : List SchedAction)
    (a : SchedAction) :
    onCpu tid initial (actions ++ [a]) = onCpuStep tid (onCpu tid initial actions) a := by
  simp [onCpu]

/-- A time of a prefix is one of the whole. -/
theorem TimeOf.concat {t : UInt64} (h : TimeOf actions t) (a : SchedAction) :
    TimeOf (actions ++ [a]) t := by
  obtain ⟨b, hb, ht⟩ := h
  exact ⟨b, List.mem_append_left _ hb, ht⟩

/-- The time of the last action is one of the whole. -/
theorem timeOf_last {t : UInt64} (h : a.time? = some t) : TimeOf (actions ++ [a]) t :=
  ⟨a, by simp, h⟩

/-- An action after time `t` does not show up to `t`. -/
theorem upTo_concat_of_lt {t u : UInt64} (hu : a.time? = some u) (h : t < u) :
    upTo t (actions ++ [a]) = upTo t actions := by
  have hnot : ¬u ≤ t := UInt64.not_le.mpr h
  simp [upTo, hu, hnot]

/-- An action that moves the thread neither on nor off a CPU can be left out. -/
theorem onCpu_upTo_concat (ha : ∀ on, onCpuStep tid on a = on) (t : UInt64) :
    onCpu tid initial (upTo t (actions ++ [a])) = onCpu tid initial (upTo t actions) := by
  unfold upTo
  by_cases hle : a.time?.all (· ≤ t)
  · simp [List.filter_append, hle, onCpu_concat, ha]
  · simp [List.filter_append, hle]

/-- Everything shows up to the time of the last action. -/
theorem upTo_eq_self {t u : UInt64} (hle : ∀ v, TimeOf actions v → v ≤ u) (h : u ≤ t) :
    upTo t actions = actions := by
  apply List.filter_eq_self.mpr
  intro b hb
  cases hv : b.time? with
  | none => rfl
  | some v => simpa using UInt64.le_trans (hle v ⟨b, hb, hv⟩) h

/-- No action is later than `a`. -/
def NotAfter (actions : List SchedAction) (a : SchedAction) : Prop :=
  ∀ u, a.time? = some u → ∀ t, TimeOf actions t → t ≤ u

/-- An action that is not before the earlier ones has the latest time. -/
theorem NotAfter.concat (h : NotAfter actions a) {u : UInt64} (hu : a.time? = some u) :
    ∀ t, TimeOf (actions ++ [a]) t → t ≤ u := by
  intro t ht
  obtain ⟨b, hb, hbt⟩ := ht
  -- the time of an earlier action, or of the last one
  cases List.mem_append.mp hb with
  | inl hb => exact h u hu t ⟨b, hb, hbt⟩
  | inr hb =>
    rw [List.mem_singleton.mp hb, hu] at hbt
    cases hbt
    exact UInt64.le_refl u

/-- A report stays good when later actions follow. -/
theorem GoodReport.concat {e : LatencyEvent} (h : GoodReport tid initial actions e)
    (hlast : NotAfter actions a) : GoodReport tid initial (actions ++ [a]) e where
  timeOf_endNs := h.timeOf_endNs.concat a
  long := h.long
  waiting := by
    intro t hstart hend
    cases hu : a.time? with
    | none =>
      -- only tracking a thread has no time
      cases a with
      | track x =>
        rw [onCpu_upTo_concat (fun _ => rfl) t]
        exact h.waiting t hstart hend
      | wakeup x now => cases hu
      | switchOut x prevState now => cases hu
      | switchIn x now reserved => cases hu
    | some u =>
      rw [upTo_concat_of_lt hu (UInt64.lt_of_lt_of_le hend (hlast u hu _ h.timeOf_endNs))]
      exact h.waiting t hstart hend

/-- An action that leaves the record of the thread and its reports alone. -/
theorem WaitInv.keep (h : WaitInv tid initial actions s m) (hlast : NotAfter actions a)
    (hlookup : m'.runnableTs.lookup tid = m.runnableTs.lookup tid)
    (hreports : m'.reportsOf tid = m.reportsOf tid)
    (hcpu : onCpu tid initial (actions ++ [a]) = true ↔ s'.HasCpu initial)
    (hwait : s'.Waits initial → ∀ info, m.runnableTs.lookup tid = some info →
      s.Waits initial ∧ ∀ on, onCpuStep tid on a = on) :
    WaitInv tid initial (actions ++ [a]) s' m' where
  onCpu_iff := hcpu
  -- a thread that still waits waited before, and the action did not put it on the CPU
  waiting := by
    intro hs' info hinfo t ht
    rw [hlookup] at hinfo
    obtain ⟨hs, ha⟩ := hwait hs' info hinfo
    rw [onCpu_upTo_concat ha]
    exact h.waiting hs info hinfo t ht
  -- no report of the thread was added
  reports := by
    intro e he
    rw [hreports] at he
    exact (h.reports e he).concat hlast
  reports_le := by
    intro e he info hinfo
    rw [hreports] at he
    rw [hlookup] at hinfo
    exact h.reports_le e he info hinfo
  ordered := hreports ▸ h.ordered

/-- An action that records the thread at its own time. -/
theorem WaitInv.record (h : WaitInv tid initial actions s m) (hlast : NotAfter actions a)
    {now : UInt64} (type : UInt8) (hnow : a.time? = some now)
    (hlookup : m'.runnableTs.lookup tid = some { ts := now, type })
    (hreports : m'.reportsOf tid = m.reportsOf tid)
    (hcpu : onCpu tid initial (actions ++ [a]) = true ↔ s'.HasCpu initial) :
    WaitInv tid initial (actions ++ [a]) s' m' where
  onCpu_iff := hcpu
  waiting := by
    intro hs' info hinfo t ht
    rw [hlookup] at hinfo
    cases hinfo
    rw [upTo_eq_self (hlast.concat hnow) ht, ← Bool.not_eq_true, hcpu]
    -- a thread that waits does not have the CPU
    obtain rfl | ⟨rfl, rfl⟩ := hs' <;> simp [TaskState.HasCpu]
  reports := by
    intro e he
    rw [hreports] at he
    exact (h.reports e he).concat hlast
  reports_le := by
    intro e he info hinfo
    rw [hreports] at he
    rw [hlookup] at hinfo
    cases hinfo
    exact hlast now hnow e.endNs (h.reports e he).timeOf_endNs
  ordered := hreports ▸ h.ordered

/-- A thread that is not tracked has no record. -/
theorem lookup_of_not_isTrackedTid (hc : m.Covered) (ht : ¬m.isTrackedTid tid) :
    m.runnableTs.lookup tid = none :=
  BoundedMap.lookup_eq_none_iff.mpr fun hk => ht (Monitor.isTrackedTid_iff.mpr (hc tid hk))

/-! ## Where records and reports come from -/

/-- A recorded thread keeps the trace. -/
theorem Traced.record (h : Traced actions m) (hc : m.Covered) {x : UInt32}
    (hx : m.isTrackedTid x) {now : UInt64} (type : UInt8) (hnow : a.time? = some now) :
    Traced (actions ++ [a]) (m.recordRunnable x now type) where
  timeOf_ts := by
    intro tid info hinfo
    rw [Monitor.lookup_recordRunnable hc hx] at hinfo
    split at hinfo
    · -- the new entry has the time of the action
      cases hinfo
      exact timeOf_last hnow
    · exact (h.timeOf_ts tid info hinfo).concat a
  track_of_key := fun tid htid => List.mem_append_left _ (h.track_of_key tid htid)
  track_of_report := fun e he => List.mem_append_left _ (h.track_of_report e he)

/-- An action that reports nothing keeps every report traced. -/
theorem Traced.skip (h : Traced actions m) (a : SchedAction) : Traced (actions ++ [a]) m where
  timeOf_ts := fun tid info hinfo => (h.timeOf_ts tid info hinfo).concat a
  track_of_key := fun tid htid => List.mem_append_left _ (h.track_of_key tid htid)
  track_of_report := fun e he => List.mem_append_left _ (h.track_of_report e he)

/-- Every action on the monitor keeps its reports traced. -/
theorem Traced.act (h : Traced actions m) (hc : m.Covered) (a : SchedAction) :
    Traced (actions ++ [a]) (m.act a) := by
  cases a with
  | wakeup x now =>
    obtain ⟨hx, hm⟩ | ⟨-, hm⟩ := m.traceWakeupCommon_cases x now
    · rw [Monitor.act, hm]
      exact h.record hc hx typeWakeup rfl
    · rw [Monitor.act, hm]
      exact h.skip _
  | switchOut x prevState now =>
    obtain ⟨hx, -, hm⟩ | ⟨-, hm⟩ := m.switchOut_cases x prevState now
    · rw [Monitor.act, hm]
      exact h.record hc hx typePreempt rfl
    · rw [Monitor.act, hm]
      exact h.skip _
  | switchIn x now reserved =>
    have hskip := h.skip (.switchIn x now reserved)
    obtain ⟨hm, -⟩ | ⟨info, hinfo, -, hm⟩ := m.switchIn_cases x now reserved
    · rw [Monitor.act, hm]
      exact hskip
    · rw [Monitor.act, hm]
      refine ⟨fun tid info' hinfo' => ?_, hskip.track_of_key, fun e he => ?_⟩
      · rw [BoundedMap.lookup_delete] at hinfo'
        split at hinfo'
        · cases hinfo'
        · exact hskip.timeOf_ts tid info' hinfo'
      · cases List.mem_append.mp he with
        | inl he => exact hskip.track_of_report e he
        | inr he =>
          -- a recorded thread is a tracked one
          have hx : x ∈ m.runnableTs.keys :=
            BoundedMap.isSome_lookup_iff.mp (Option.isSome_iff_exists.mpr ⟨info, hinfo⟩)
          unfold Monitor.report at he
          split at he
          · rw [List.mem_singleton.mp he]
            exact hskip.track_of_key x (hc x hx)
          · cases he
  | track x =>
    obtain ⟨hrunnable, hevents, hkeys⟩ := m.addTidToBpfMap_spec x
    have hskip := h.skip (.track x)
    refine ⟨fun tid info hinfo => ?_, fun tid htid => ?_, fun e he => ?_⟩
    · rw [Monitor.act, hrunnable] at hinfo
      exact hskip.timeOf_ts tid info hinfo
    · cases hkeys tid htid with
      | inl heq => exact heq ▸ List.mem_append_right _ List.mem_cons_self
      | inr hold => exact hskip.track_of_key tid hold
    · rw [Monitor.act, hevents] at he
      exact hskip.track_of_report e he

/-- Every report of a run is traced to the actions before it. -/
theorem traced_foldl_act (actions : List SchedAction) :
    Traced actions (actions.foldl Monitor.act {}) := by
  induction actions using List.reverseRecOn with
  | nil => constructor <;> simp
  | append_singleton actions a ih =>
    rw [List.foldl_append]
    exact ih.act (Monitor.covered_foldl_act actions) a

/-! ## One action -/

/-- Recording another thread is nothing to this one. -/
theorem lookup_recordRunnable_of_ne (hc : m.Covered) {x : UInt32} (hx : m.isTrackedTid x)
    (hne : x ≠ tid) (now : UInt64) (type : UInt8) :
    (m.recordRunnable x now type).runnableTs.lookup tid = m.runnableTs.lookup tid := by
  rw [Monitor.lookup_recordRunnable hc hx, if_neg hne.symm]

/-- A wakeup keeps the invariant: the wait may start anew, and not before its time. -/
theorem WaitInv.wakeup (h : WaitInv tid initial actions s m) (hc : m.Covered) {x : UInt32}
    {now : UInt64} (hlast : NotAfter actions (.wakeup x now))
    (hs : taskStep tid s (.wakeup x now) = some s') :
    WaitInv tid initial (actions ++ [.wakeup x now]) s' (m.traceWakeupCommon x now) := by
  cases hs
  have hcpu : ∀ t : TaskState, (t.HasCpu initial ↔ s.HasCpu initial) →
      (onCpu tid initial (actions ++ [.wakeup x now]) = true ↔ t.HasCpu initial) := by
    intro t ht
    rw [onCpu_concat, ht]
    exact h.onCpu_iff
  by_cases hx : x = tid
  · subst hx
    rw [if_pos rfl]
    have hcpu := hcpu s.woken (by cases s <;> simp [TaskState.woken, TaskState.HasCpu])
    obtain ⟨ht, hm⟩ | ⟨ht, hm⟩ := m.traceWakeupCommon_cases x now
    · rw [hm]
      refine h.record hlast typeWakeup rfl ?_ rfl hcpu
      rw [Monitor.lookup_recordRunnable hc ht, if_pos rfl]
    · rw [hm]
      apply h.keep hlast rfl rfl hcpu
      intro _ info hinfo
      -- the map holds no thread that is not tracked
      cases (lookup_of_not_isTrackedTid hc ht).symm.trans hinfo
  · rw [if_neg hx]
    have hcpu := hcpu s Iff.rfl
    have hwait : s.Waits initial → ∀ info, m.runnableTs.lookup tid = some info →
        s.Waits initial ∧ ∀ on, onCpuStep tid on (.wakeup x now) = on :=
      fun hs _ _ => ⟨hs, fun _ => rfl⟩
    obtain ⟨ht, hm⟩ | ⟨-, hm⟩ := m.traceWakeupCommon_cases x now
    · rw [hm]
      exact h.keep hlast (lookup_recordRunnable_of_ne hc ht hx now _) rfl hcpu hwait
    · rw [hm]
      exact h.keep hlast rfl rfl hcpu hwait

/-- A switch-out keeps the invariant: it starts a wait when the thread stays runnable. -/
theorem WaitInv.switchOut (h : WaitInv tid initial actions s m) (hc : m.Covered) {x : UInt32}
    {prevState : Int64} {now : UInt64} (hlast : NotAfter actions (.switchOut x prevState now))
    (hs : taskStep tid s (.switchOut x prevState now) = some s') :
    WaitInv tid initial (actions ++ [.switchOut x prevState now]) s'
      (m.switchOut x prevState now) := by
  rw [taskStep] at hs
  by_cases hx : x = tid
  · subst hx
    rw [if_pos rfl] at hs
    -- the thread was running, now it is ready or asleep
    have hs' : s' = if prevState = 0 then .ready else .sleeping := by
      cases s <;> simp_all [TaskState.switchedOut]
    have hcpu : onCpu x initial (actions ++ [.switchOut x prevState now]) = true ↔
        s'.HasCpu initial := by
      rw [onCpu_concat, hs']
      split <;> simp [onCpuStep, TaskState.HasCpu]
    obtain ⟨ht, -, hm⟩ | ⟨hnot, hm⟩ := m.switchOut_cases x prevState now
    · rw [hm]
      refine h.record hlast typePreempt rfl ?_ rfl hcpu
      rw [Monitor.lookup_recordRunnable hc ht, if_pos rfl]
    · rw [hm]
      apply h.keep hlast rfl rfl hcpu
      intro hwait info hinfo
      by_cases ht : m.isTrackedTid x
      · -- a tracked thread that is not recorded here sleeps
        rw [hs', if_neg (hnot ht)] at hwait
        simp [TaskState.Waits] at hwait
      · cases (lookup_of_not_isTrackedTid hc ht).symm.trans hinfo
  · rw [if_neg hx] at hs
    cases hs
    have hcpu : onCpu tid initial (actions ++ [.switchOut x prevState now]) = true ↔
        s.HasCpu initial := by
      rw [onCpu_concat, onCpuStep, if_neg hx]
      exact h.onCpu_iff
    have hwait : s.Waits initial → ∀ info, m.runnableTs.lookup tid = some info →
        s.Waits initial ∧ ∀ on, onCpuStep tid on (.switchOut x prevState now) = on :=
      fun hs _ _ => ⟨hs, fun _ => by rw [onCpuStep, if_neg hx]⟩
    obtain ⟨ht, -, hm⟩ | ⟨-, hm⟩ := m.switchOut_cases x prevState now
    · rw [hm]
      exact h.keep hlast (lookup_recordRunnable_of_ne hc ht hx now _) rfl hcpu hwait
    · rw [hm]
      exact h.keep hlast rfl rfl hcpu hwait

/-- A reported wait of a waiting thread is good. -/
theorem WaitInv.goodReport (h : WaitInv tid initial actions s m) (htraced : Traced actions m)
    {now : UInt64} {reserved : Bool} (hlast : NotAfter actions (.switchIn tid now reserved))
    (hwait : s.Waits initial) {info : RunnableInfo}
    (hinfo : m.runnableTs.lookup tid = some info) {e : LatencyEvent}
    (he : e ∈ Monitor.report tid info now reserved) :
    GoodReport tid initial (actions ++ [.switchIn tid now reserved]) e ∧ e.startNs = info.ts := by
  unfold Monitor.report at he
  split at he
  · next hdur =>
    rw [List.mem_singleton.mp he]
    refine ⟨⟨timeOf_last rfl, ?_, ?_⟩, rfl⟩
    · -- the record is not after the switch, so the subtraction does not wrap
      have hle : info.ts ≤ now := hlast now rfl info.ts (htraced.timeOf_ts tid info hinfo)
      have hlong := UInt64.lt_iff_toNat_lt.mp hdur.1
      rw [UInt64.toNat_sub_of_le _ _ hle] at hlong
      have hthreshold : (5000 : UInt64).toNat = 5000 := rfl
      show info.ts.toNat + 5000 < now.toNat
      omega
    · intro t hstart hend
      rw [upTo_concat_of_lt rfl hend]
      exact h.waiting hwait info hinfo t hstart
  · cases he

/-- A switch-in keeps the invariant: it reports the wait and clears it. -/
theorem WaitInv.switchIn (h : WaitInv tid initial actions s m) (htraced : Traced actions m)
    {x : UInt32} {now : UInt64} {reserved : Bool}
    (hlast : NotAfter actions (.switchIn x now reserved))
    (hs : taskStep tid s (.switchIn x now reserved) = some s')
    (hinitial : x = tid → s = .unseen → initial = false) :
    WaitInv tid initial (actions ++ [.switchIn x now reserved]) s' (m.switchIn x now reserved) := by
  rw [taskStep] at hs
  by_cases hx : x = tid
  · subst hx
    rw [if_pos rfl] at hs
    have hs' : s' = .running ∧ s.Waits initial := by
      cases s with
      | unseen => exact ⟨(Option.some.inj hs).symm, .inr ⟨rfl, hinitial rfl rfl⟩⟩
      | ready => exact ⟨(Option.some.inj hs).symm, .inl rfl⟩
      | running => cases hs
      | sleeping => cases hs
    obtain ⟨rfl, hwait⟩ := hs'
    have hcpu : onCpu x initial (actions ++ [.switchIn x now reserved]) = true ↔
        TaskState.running.HasCpu initial := by
      rw [onCpu_concat]
      simp [onCpuStep, TaskState.HasCpu]
    -- without a recorded time nothing is reported
    obtain ⟨hm, -⟩ | ⟨info, hinfo, -, hm⟩ := m.switchIn_cases x now reserved
    · rw [hm]
      exact h.keep hlast rfl rfl hcpu fun hw => absurd hw (by simp [TaskState.Waits])
    · rw [hm]
      -- the recorded time has been reported, and is forgotten
      have hnone : (m.runnableTs.delete x).lookup x = none := by
        rw [BoundedMap.lookup_delete, if_pos rfl]
      have hreports : ∀ m' : Monitor, m'.events = m.events ++ Monitor.report x info now reserved →
          m'.reportsOf x = m.reportsOf x ++ Monitor.report x info now reserved := by
        intro m' hm'
        rw [Monitor.reportsOf, hm', List.filter_append]
        congr 1
        unfold Monitor.report
        split <;> simp
      refine ⟨hcpu, ?_, ?_, ?_, ?_⟩
      · intro _ info' hinfo'
        cases hnone.symm.trans hinfo'
      · intro e he
        rw [hreports _ rfl] at he
        cases List.mem_append.mp he with
        | inl he => exact (h.reports e he).concat hlast
        | inr he => exact (h.goodReport htraced hlast hwait hinfo he).1
      · intro _ _ info' hinfo'
        cases hnone.symm.trans hinfo'
      · rw [hreports _ rfl, List.pairwise_append]
        refine ⟨h.ordered, ?_, fun e he e' he' => ?_⟩
        · unfold Monitor.report
          split <;> simp
        · rw [(h.goodReport htraced hlast hwait hinfo he').2]
          exact h.reports_le e he info hinfo
  · -- the CPU goes to another thread: what is known of this one stays
    rw [if_neg hx] at hs
    cases hs
    have hcpu : onCpu tid initial (actions ++ [.switchIn x now reserved]) = true ↔
        s.HasCpu initial := by
      rw [onCpu_concat, onCpuStep, if_neg hx]
      exact h.onCpu_iff
    have hwait : s.Waits initial → ∀ info, m.runnableTs.lookup tid = some info →
        s.Waits initial ∧ ∀ on, onCpuStep tid on (.switchIn x now reserved) = on :=
      fun hs _ _ => ⟨hs, fun _ => by rw [onCpuStep, if_neg hx]⟩
    obtain ⟨hm, -⟩ | ⟨info, -, -, hm⟩ := m.switchIn_cases x now reserved
    · rw [hm]
      exact h.keep hlast rfl rfl hcpu hwait
    · rw [hm]
      refine h.keep hlast ?_ ?_ hcpu hwait
      · rw [BoundedMap.lookup_delete, if_neg (Ne.symm hx)]
      · rw [Monitor.reportsOf, List.filter_append, Monitor.reportsOf]
        have hnil : (Monitor.report x info now reserved).filter (·.tid = tid) = [] := by
          unfold Monitor.report
          split <;> simp [hx]
        rw [hnil, List.append_nil]

/-- Tracking a thread keeps the invariant. -/
theorem WaitInv.track (h : WaitInv tid initial actions s m) {x : UInt32}
    (hlast : NotAfter actions (.track x)) (hs : taskStep tid s (.track x) = some s') :
    WaitInv tid initial (actions ++ [.track x]) s' (m.addTidToBpfMap x).1 := by
  cases hs
  obtain ⟨hrunnable, hevents, -⟩ := m.addTidToBpfMap_spec x
  refine h.keep hlast (by rw [hrunnable]) (by rw [Monitor.reportsOf, hevents]; rfl) ?_ ?_
  · rw [onCpu_concat]
    exact h.onCpu_iff
  · exact fun hs _ _ => ⟨hs, fun _ => rfl⟩

/-- The step lemma: one action of any kind keeps the invariant. -/
theorem WaitInv.act (h : WaitInv tid initial actions s m) (hc : m.Covered)
    (htraced : Traced actions m) (hlast : NotAfter actions a) (hs : taskStep tid s a = some s')
    {rest : List SchedAction} (hinitial : s = .unseen → startsOnCpu tid (a :: rest) = initial) :
    WaitInv tid initial (actions ++ [a]) s' (m.act a) := by
  cases a with
  | wakeup x now => exact h.wakeup hc hlast hs
  | switchOut x prevState now => exact h.switchOut hc hlast hs
  | switchIn x now reserved =>
    apply h.switchIn htraced hlast hs
    -- a thread that is switched in first was not running before
    intro hx hunseen
    rw [← hinitial hunseen, startsOnCpu, if_pos hx]
  | track x => exact h.track hlast hs

/-- A thread that is still unseen after an action was not switched by it. -/
theorem startsOnCpu_cons_of_unseen (rest : List SchedAction)
    (hs : taskStep tid s a = some .unseen) : s = .unseen ∧
      startsOnCpu tid (a :: rest) = startsOnCpu tid rest := by
  -- only an action of the thread itself tells where it is
  cases a with
  | wakeup x now =>
    refine ⟨?_, rfl⟩
    have hs := Option.some.inj hs
    split at hs
    · cases s <;> simp_all [TaskState.woken]
    · exact hs
  | switchOut x prevState now =>
    rw [taskStep] at hs
    split at hs
    · cases s <;> simp [TaskState.switchedOut] at hs <;> split at hs <;> simp at hs
    · next hx => exact ⟨Option.some.inj hs, by rw [startsOnCpu, if_neg hx]⟩
  | switchIn x now reserved =>
    rw [taskStep] at hs
    split at hs
    · cases s <;> simp [TaskState.switchedIn] at hs
    · next hx => exact ⟨Option.some.inj hs, by rw [startsOnCpu, if_neg hx]⟩
  | track x => exact ⟨Option.some.inj hs, rfl⟩

/-- In a sorted sequence no earlier action is later. -/
theorem notAfter_of_sorted (rest : List SchedAction)
    (h : ((actions ++ a :: rest).filterMap SchedAction.time?).Pairwise (· ≤ ·)) :
    NotAfter actions a := by
  intro u hu t ht
  obtain ⟨b, hb, hbt⟩ := ht
  rw [List.filterMap_append, List.pairwise_append] at h
  exact h.2.2 t (List.mem_filterMap.mpr ⟨b, hb, hbt⟩) u
    (List.mem_filterMap.mpr ⟨a, List.mem_cons_self, hu⟩)

/-- The run lemma: the invariant holds after the rest of the actions. -/
theorem WaitInv.run {rest : List SchedAction} (h : WaitInv tid initial actions s m)
    (hc : m.Covered) (htraced : Traced actions m)
    (hsorted : ((actions ++ rest).filterMap SchedAction.time?).Pairwise (· ≤ ·))
    (hrest : rest.foldlM (taskStep tid) s = some s')
    (hinitial : s = .unseen → startsOnCpu tid rest = initial) :
    WaitInv tid initial (actions ++ rest) s' (rest.foldl Monitor.act m) := by
  induction rest generalizing actions s m with
  | nil =>
    cases hrest
    simpa using h
  | cons a rest ih =>
    obtain ⟨s₁, hs₁, hrest⟩ := Option.bind_eq_some_iff.mp hrest
    have hstep := h.act hc htraced (notAfter_of_sorted rest hsorted) hs₁ hinitial
    rw [List.append_cons] at hsorted ⊢
    apply ih hstep (hc.act a) (htraced.act hc a) hsorted hrest
    intro hunseen
    -- the thread was unseen before the action, too
    subst hunseen
    obtain ⟨hs, heq⟩ := startsOnCpu_cons_of_unseen rest hs₁
    rw [← heq]
    exact hinitial hs

end Step

/-- The invariant holds after every run that keeps the kernel's promises. -/
theorem waitInv_of_run {events : List MonitorEvent} (htimes : TimesSorted events) {tid : UInt32}
    (hsched : Schedulable tid events) :
    ∃ s, WaitInv tid (startsOnCpu tid (schedActions events)) (schedActions events) s
      (Monitor.run events) := by
  obtain ⟨s, hs⟩ := Option.isSome_iff_exists.mp hsched
  rw [Monitor.run_eq]
  exact ⟨s, (waitInv_initial tid _).run (Monitor.covered_foldl_act []) (traced_foldl_act [])
    htimes hs fun _ => rfl⟩

/-! ## The result -/

/-- A tracking action comes from an event that adds the thread. -/
theorem track_mem_schedActions {events : List MonitorEvent} {tid : UInt32}
    (h : .track tid ∈ schedActions events) : .addTid tid ∈ events := by
  obtain ⟨ev, hev, ha⟩ := List.mem_flatMap.mp h
  cases ev with
  -- only this event tracks a thread
  | addTid x =>
    rw [MonitorEvent.actions, List.mem_singleton] at ha
    cases ha
    exact hev
  | schedWakeup pid now => simp [MonitorEvent.actions] at ha
  | schedWakeupNew pid now => simp [MonitorEvent.actions] at ha
  | schedSwitch prevPid prevState nextPid now reserved => simp [MonitorEvent.actions] at ha

/-- A record found by a switch is not after it, so that the subtraction is exact. -/
theorem ts_le_of_switch {pre post : List MonitorEvent} {prevPid nextPid : UInt32}
    {prevState : Int64} {now : UInt64} {reserved : Bool}
    (htimes : TimesSorted (pre ++ .schedSwitch prevPid prevState nextPid now reserved :: post))
    {info : RunnableInfo}
    (hinfo : ((Monitor.run pre).switchOut prevPid prevState now).runnableTs.lookup nextPid =
      some info) : info.ts ≤ now := by
  have htraced := (traced_foldl_act (schedActions pre)).act
    (Monitor.covered_foldl_act (schedActions pre)) (.switchOut prevPid prevState now)
  rw [← Monitor.run_eq] at htraced
  -- the switch comes after every action so far
  have hlast : NotAfter (schedActions pre ++ [.switchOut prevPid prevState now])
      (.switchIn nextPid now reserved) := by
    apply notAfter_of_sorted (schedActions post)
    simpa [TimesSorted, schedActions, MonitorEvent.actions] using htimes
  exact hlast now rfl info.ts (htraced.timeOf_ts nextPid info hinfo)

/-- A switch-in reports at most once. -/
theorem length_report_le (tid : UInt32) (info : RunnableInfo) (now : UInt64) (reserved : Bool) :
    (Monitor.report tid info now reserved).length ≤ 1 := by
  unfold Monitor.report
  split <;> simp

/-- A switch adds at most one report. -/
theorem exists_report_of_switch (m : Monitor) (prevPid nextPid : UInt32) (prevState : Int64)
    (now : UInt64) (reserved : Bool) :
    ∃ new, (m.step (.schedSwitch prevPid prevState nextPid now reserved)).events =
      m.events ++ new ∧ new.length ≤ 1 := by
  -- switching out reports nothing
  have hout : (m.switchOut prevPid prevState now).events = m.events := by
    obtain ⟨-, -, hm⟩ | ⟨-, hm⟩ := m.switchOut_cases prevPid prevState now <;> rw [hm]
    rfl
  rw [Monitor.step, Monitor.handleSchedSwitch, ← hout]
  obtain ⟨hm, -⟩ | ⟨info, -, -, hm⟩ :=
    (m.switchOut prevPid prevState now).switchIn_cases nextPid now reserved
  · exact ⟨[], by rw [hm, List.append_nil], Nat.zero_le 1⟩
  · exact ⟨Monitor.report nextPid info now reserved, by rw [hm], length_report_le _ _ _ _⟩

/-- In every run of a monitor on a machine that keeps the scheduler's promises: the
    keys of `runnable_ts` are tracked threads and always find room; a switch never
    subtracts a later time, and reports at most one wait; the reported waits of a thread
    follow each other, are longer than 5 µs and contain no time at which it runs. -/
theorem monitor_safe (events : List MonitorEvent) (htimes : TimesSorted events)
    (hsched : ∀ tid, .addTid tid ∈ events → Schedulable tid events) :
    (∀ pre post, events = pre ++ post →
      (∀ tid ∈ (Monitor.run pre).runnableTs.keys, tid ∈ (Monitor.run pre).targetTidMap.keys) ∧
      ∀ tid info, (Monitor.run pre).isTrackedTid tid →
        ((Monitor.run pre).runnableTs.update tid info).isSome) ∧
    (∀ pre prevPid prevState nextPid now reserved post,
      events = pre ++ .schedSwitch prevPid prevState nextPid now reserved :: post →
      (∀ info, ((Monitor.run pre).switchOut prevPid prevState now).runnableTs.lookup nextPid =
          some info →
        info.ts ≤ now ∧ (now - info.ts).toNat = now.toNat - info.ts.toNat) ∧
      ∃ new, ((Monitor.run pre).step
          (.schedSwitch prevPid prevState nextPid now reserved)).events =
        (Monitor.run pre).events ++ new ∧ new.length ≤ 1) ∧
    (∀ tid, ((Monitor.run events).reportsOf tid).Pairwise fun a b => a.endNs ≤ b.startNs) ∧
    ∀ e ∈ (Monitor.run events).events, e.startNs.toNat + 5000 < e.endNs.toNat ∧
      ∀ t, e.startNs ≤ t → t < e.endNs → ¬RunningAt e.tid events t := by
  have htraced := traced_foldl_act (schedActions events)
  rw [← Monitor.run_eq] at htraced
  refine ⟨fun pre post _ => ?_, fun pre prevPid prevState nextPid now reserved post heq => ?_,
    fun tid => ?_, fun e he => ?_⟩
  · have hc := Monitor.covered_run pre
    exact ⟨hc, fun tid info ht => hc.isSome_update ht info⟩
  · refine ⟨fun info hinfo => ?_, exists_report_of_switch _ prevPid nextPid prevState now reserved⟩
    subst heq
    have hle := ts_le_of_switch htimes hinfo
    exact ⟨hle, UInt64.toNat_sub_of_le _ _ hle⟩
  · by_cases htid : .addTid tid ∈ events
    · obtain ⟨s, hinv⟩ := waitInv_of_run htimes (hsched tid htid)
      exact hinv.ordered
    · -- a thread that was never tracked has no reports
      have hnil : (Monitor.run events).reportsOf tid = [] := by
        refine List.filter_eq_nil_iff.mpr fun e he heq => htid ?_
        rw [← of_decide_eq_true heq]
        exact track_mem_schedActions (htraced.track_of_report e he)
      rw [hnil]
      exact List.Pairwise.nil
  · have htid : .addTid e.tid ∈ events :=
      track_mem_schedActions (htraced.track_of_report e he)
    obtain ⟨s, hinv⟩ := waitInv_of_run htimes (hsched e.tid htid)
    have hgood := hinv.reports e (List.mem_filter.mpr ⟨he, by simp⟩)
    refine ⟨hgood.long, fun t hstart hend => ?_⟩
    rw [RunningAt, hgood.waiting t hstart hend]
    exact Bool.false_ne_true

/-- Thread 7 is preempted, wakes while running, sleeps and is woken. -/
def twoWaits : List MonitorEvent := [
  .addTid 7,
  .schedSwitch 7 0 9 1000 true,
  .schedSwitch 9 1 7 9000 true,
  .schedWakeup 7 9500,
  .schedSwitch 7 1 9 20000 true,
  .schedWakeup 7 30000,
  .schedSwitch 9 0 7 40000 true]

/-- A thread that waits twice: two reports, one after the other. -/
theorem monitor_safe_twoWaits :
    ((Monitor.run twoWaits).reportsOf 7).length = 2 ∧
      ((Monitor.run twoWaits).reportsOf 7).Pairwise (fun a b => a.endNs ≤ b.startNs) ∧
      ∀ e ∈ (Monitor.run twoWaits).events, e.startNs.toNat + 5000 < e.endNs.toNat ∧
        ∀ t, e.startNs ≤ t → t < e.endNs → ¬RunningAt e.tid twoWaits t := by
  -- the only thread that is added keeps the promises
  have htracked : ∀ tid, .addTid tid ∈ twoWaits → Schedulable tid twoWaits := by
    intro tid htid
    have h7 : tid = 7 := by simpa [twoWaits] using htid
    subst h7
    decide
  have h := monitor_safe twoWaits (by decide) htracked
  exact ⟨by decide, h.2.2.1 7, h.2.2.2⟩

end DeLatency
