import DeLatency.ForStd.ListExtra
import DeLatency.Spec.MonitorSafety

/-!
# Where a reported wait starts

`runnable_ts` is meant to hold the time at which a thread became runnable.  It is
written by every wakeup and every preemption, also when the thread is runnable
already, so what a switch reports is the last of these events and not the first.  The
two agree unless a wakeup reaches a thread that did not sleep (`startsRight_iff`).
-/

namespace DeLatency

/-! ## Since when a thread is runnable -/

/-- What a thread is doing and, when it is runnable, what made it so. -/
inductive Readiness
  | running
  | asleep
  | runnable (since : RunnableInfo)
deriving DecidableEq

/-- A switch out with `prev_state` 0 makes a thread runnable at once, otherwise the first
    wakeup after the switch does. -/
def readyStep (tid : UInt32) (r : Readiness) : SchedAction → Readiness
  | .wakeup x now =>
    if x = tid ∧ r = .asleep then .runnable { ts := now, type := typeWakeup } else r
  | .switchOut x prevState now =>
    if x = tid then
      if prevState = 0 then .runnable { ts := now, type := typePreempt } else .asleep
    else r
  | .switchIn x _ _ => if x = tid then .running else r
  | .track _ => r

/-- The readiness of a thread after the actions.  Before its first switch a thread waits
    for a wakeup. -/
def readiness (tid : UInt32) (actions : List SchedAction) : Readiness :=
  actions.foldl (readyStep tid) .asleep

/-- Every wait reported about `tid` starts with the event that made the thread runnable,
    and has its type. -/
def StartsRight (tid : UInt32) (events : List MonitorEvent) : Prop :=
  ∀ pre prevPid prevState nextPid now reserved post,
    events = pre ++ .schedSwitch prevPid prevState nextPid now reserved :: post →
    ∀ e : LatencyEvent,
      ((Monitor.run pre).step (.schedSwitch prevPid prevState nextPid now reserved)).events =
        (Monitor.run pre).events ++ [e] →
      e.tid = tid →
      readiness tid (schedActions pre ++ [.switchOut prevPid prevState now]) =
        .runnable { ts := e.startNs, type := e.type }

/-! ## The last event that saw the thread runnable -/

/-- A wakeup or a preemption of the thread, with its time and type. -/
def SchedAction.sees (tid : UInt32) : SchedAction → Option RunnableInfo
  | .wakeup x now => if x = tid then some { ts := now, type := typeWakeup } else none
  | .switchOut x prevState now =>
    if x = tid ∧ prevState = 0 then some { ts := now, type := typePreempt } else none
  | .switchIn _ _ _ => none
  | .track _ => none

/-- No wakeup or preemption of the thread, and no switch to it. -/
def SchedAction.Quiet (tid : UInt32) (a : SchedAction) : Prop :=
  a.sees tid = none ∧ ∀ now reserved, a ≠ .switchIn tid now reserved

section Quiet

variable {tid x : UInt32}

/-- A wakeup is quiet for the other threads. -/
theorem SchedAction.quiet_wakeup_iff {now : UInt64} : (wakeup x now).Quiet tid ↔ x ≠ tid := by
  simp [Quiet, sees]

/-- A switch-out is quiet for the other threads, and for one that goes to sleep. -/
theorem SchedAction.quiet_switchOut_iff {prevState : Int64} {now : UInt64} :
    (switchOut x prevState now).Quiet tid ↔ ¬(x = tid ∧ prevState = 0) := by
  simp [Quiet, sees]

/-- A switch-in is quiet for the other threads. -/
theorem SchedAction.quiet_switchIn_iff {now : UInt64} {reserved : Bool} :
    (switchIn x now reserved).Quiet tid ↔ x ≠ tid := by
  simp [Quiet, sees]

/-- Tracking is quiet for all threads. -/
theorem SchedAction.quiet_track : (track x).Quiet tid := by
  simp [Quiet, sees]

end Quiet

/-- The last wakeup or preemption of the thread since it last got the CPU. -/
def LastSeen (tid : UInt32) (actions : List SchedAction) (info : RunnableInfo) : Prop :=
  ∃ before a after, actions = before ++ a :: after ∧ a.sees tid = some info ∧
    ∀ b ∈ after, b.Quiet tid

/-- A switch at `now` reports a thread that was recorded as runnable with `info`. -/
def Reportable (info : RunnableInfo) (now : UInt64) (reserved : Bool) : Prop :=
  0 < info.ts ∧ 5000 < now - info.ts ∧ reserved = true

variable {tid : UInt32} {actions : List SchedAction} {info : RunnableInfo} {a : SchedAction}

/-- What was seen last is seen by the last action, or before it when that is quiet. -/
theorem lastSeen_concat :
    LastSeen tid (actions ++ [a]) info ↔
      a.sees tid = some info ∨ (a.Quiet tid ∧ LastSeen tid actions info) := by
  constructor
  · intro h
    obtain ⟨before, b, after, heq, hb, hquiet⟩ := h
    obtain ⟨-, rfl, -⟩ | ⟨after', rfl, hactions⟩ := List.concat_eq_append_cons heq
    · -- the last action is the one that saw it
      exact .inl hb
    · refine .inr ⟨hquiet a (by simp), before, b, after', hactions, hb, fun d hd => ?_⟩
      exact hquiet d (List.mem_append_left _ hd)
  · -- conversely a quiet action lengthens the quiet stretch
    intro h
    obtain ha | ⟨ha, before, b, after, rfl, hb, hquiet⟩ := h
    · exact ⟨actions, a, [], rfl, ha, by simp⟩
    · refine ⟨before, b, after ++ [a], by simp, hb, fun c hc => ?_⟩
      cases List.mem_append.mp hc with
      | inl hc => exact hquiet c hc
      | inr hc => exact List.mem_singleton.mp hc ▸ ha

/-- Without actions nothing was seen. -/
theorem not_lastSeen_nil : ¬LastSeen tid [] info := by
  intro h
  obtain ⟨before, b, after, heq, -⟩ := h
  simp at heq

/-- At most one event is the last. -/
theorem LastSeen.eq {info' : RunnableInfo} (h : LastSeen tid actions info)
    (h' : LastSeen tid actions info') : info = info' := by
  induction actions using List.reverseRecOn with
  | nil => exact absurd h not_lastSeen_nil
  | append_singleton actions a ih =>
    rw [lastSeen_concat] at h h'
    obtain ha | ⟨hquiet, h⟩ := h
    · obtain ha' | ⟨hquiet', -⟩ := h'
      · exact Option.some.inj (ha.symm.trans ha')
      · cases ha.symm.trans hquiet'.1
    · obtain ha' | ⟨-, h'⟩ := h'
      · cases ha'.symm.trans hquiet.1
      · exact ih h h'

/-! ## What the monitor has recorded -/

namespace Monitor

/-- The record of a tracked thread after one action, as far as a switch can report it. -/
theorem lookup_act_iff {m : Monitor} (hc : m.Covered) (ht : m.isTrackedTid tid)
    (hpos : 0 < info.ts) :
    (m.act a).runnableTs.lookup tid = some info ↔
      a.sees tid = some info ∨ (a.Quiet tid ∧ m.runnableTs.lookup tid = some info) := by
  -- a recorded action overwrites, a quiet one keeps
  have hrecord : ∀ {a : SchedAction} {x : UInt32} {ts : UInt64} {type : UInt8}, m.isTrackedTid x →
      (a.sees tid = if x = tid then some { ts, type } else none) →
      (∀ now reserved, a ≠ .switchIn tid now reserved) →
      ((m.recordRunnable x ts type).runnableTs.lookup tid = some info ↔
        a.sees tid = some info ∨ (a.Quiet tid ∧ m.runnableTs.lookup tid = some info)) := by
    intro a x ts type hx hsees hne
    rw [lookup_recordRunnable hc hx]
    by_cases hxt : x = tid
    · simp [hsees, hxt, SchedAction.Quiet]
    · simp [hsees, hxt, Ne.symm hxt, SchedAction.Quiet, hne]
  have hkeep : ∀ {a : SchedAction}, a.Quiet tid →
      (m.runnableTs.lookup tid = some info ↔
        a.sees tid = some info ∨ (a.Quiet tid ∧ m.runnableTs.lookup tid = some info)) := by
    intro a hquiet
    simp [hquiet, hquiet.1]
  cases a with
  | wakeup x now =>
    obtain ⟨hx, hm⟩ | ⟨hx, hm⟩ := m.traceWakeupCommon_cases x now
    · rw [act, hm]
      exact hrecord hx rfl (by simp)
    · rw [act, hm]
      have hne : x ≠ tid := fun h => hx (h ▸ ht)
      exact hkeep (SchedAction.quiet_wakeup_iff.mpr hne)
  | switchOut x prevState now =>
    obtain ⟨hx, hp, hm⟩ | ⟨hx, hm⟩ := m.switchOut_cases x prevState now
    · rw [act, hm]
      exact hrecord hx (by simp [SchedAction.sees, hp]) (by simp)
    · rw [act, hm]
      have hne : ¬(x = tid ∧ prevState = 0) := fun h => hx (h.1 ▸ ht) h.2
      exact hkeep (SchedAction.quiet_switchOut_iff.mpr hne)
  | switchIn x now reserved =>
    by_cases hxt : x = tid
    · subst hxt
      have hloud : ¬(SchedAction.switchIn x now reserved).Quiet x := fun h => h.2 now reserved rfl
      rw [act]
      obtain ⟨hm, hnone⟩ | ⟨_, -, -, hm⟩ := m.switchIn_cases x now reserved
      · rw [hm]
        simp only [SchedAction.sees, hloud, false_and, or_false, reduceCtorEq, iff_false]
        exact fun h => hnone ht info h hpos
      · rw [hm]
        simp [SchedAction.sees, hloud, BoundedMap.lookup_delete]
    · have hquiet : (SchedAction.switchIn x now reserved).Quiet tid :=
        SchedAction.quiet_switchIn_iff.mpr hxt
      rw [act]
      obtain ⟨hm, -⟩ | ⟨_, -, -, hm⟩ := m.switchIn_cases x now reserved
      · rw [hm]
        exact hkeep hquiet
      · rw [hm]
        show (m.runnableTs.delete x).lookup tid = some info ↔ _
        rw [BoundedMap.lookup_delete, if_neg (Ne.symm hxt)]
        exact hkeep hquiet
  | track x =>
    rw [act, (m.addTidToBpfMap_spec x).1]
    exact hkeep SchedAction.quiet_track

/-- A tracked thread stays tracked. -/
theorem isTrackedTid_act {m : Monitor} (ht : m.isTrackedTid tid) (a : SchedAction) :
    (m.act a).isTrackedTid tid := by
  rw [isTrackedTid_iff] at ht ⊢
  -- nothing takes a thread out of the map
  cases a with
  | wakeup x now =>
    obtain ⟨-, hm⟩ | ⟨-, hm⟩ := m.traceWakeupCommon_cases x now <;> rw [act, hm] <;> exact ht
  | switchOut x prevState now =>
    obtain ⟨-, -, hm⟩ | ⟨-, hm⟩ := m.switchOut_cases x prevState now <;> rw [act, hm] <;> exact ht
  | switchIn x now reserved =>
    obtain ⟨hm, -⟩ | ⟨_, -, -, hm⟩ := m.switchIn_cases x now reserved <;> rw [act, hm] <;> exact ht
  | track x => exact mem_targetTidMap_addTidToBpfMap ht

/-- A thread is tracked after it was added while there was room. -/
theorem isTrackedTid_addTidToBpfMap {m : Monitor} (h : m.targetTidMap.keys.length < maxEntries)
    (tid : UInt32) : (m.addTidToBpfMap tid).1.isTrackedTid tid := by
  unfold addTidToBpfMap
  split
  · next ht => exact ht
  · obtain ⟨map, hmap⟩ := Option.isSome_iff_exists.mp (BoundedMap.isSome_update_of_lt h tid 1)
    rw [hmap, isTrackedTid_iff]
    exact (BoundedMap.mem_keys_update hmap).mpr (.inl rfl)

/-- The run lemma: the record of a thread that is tracked from the start is the last event
    that saw it runnable. -/
theorem lookup_foldl_act_iff (tid : UInt32) (actions : List SchedAction) :
    ((SchedAction.track tid :: actions).foldl act {}).isTrackedTid tid ∧
      ∀ info : RunnableInfo, 0 < info.ts →
        (((SchedAction.track tid :: actions).foldl act {}).runnableTs.lookup tid = some info ↔
          LastSeen tid (.track tid :: actions) info) := by
  induction actions using List.reverseRecOn with
  | nil =>
    refine ⟨isTrackedTid_addTidToBpfMap (by decide) tid, fun info _ => ?_⟩
    have hnone : ¬LastSeen tid ([] ++ [.track tid]) info := by
      rw [lastSeen_concat]
      intro hx
      obtain h | ⟨-, h⟩ := hx
      · cases h
      · exact not_lastSeen_nil h
    -- nothing is recorded when the thread is put on the list
    show ((addTidToBpfMap {} tid).1.runnableTs.lookup tid = some info) ↔ _
    rw [(addTidToBpfMap_spec {} tid).1]
    refine ⟨fun h => ?_, fun h => absurd h hnone⟩
    cases h
  | append_singleton actions a ih =>
    obtain ⟨ht, hinfo⟩ := ih
    have hc := covered_foldl_act (.track tid :: actions)
    rw [← List.cons_append, List.foldl_append]
    refine ⟨isTrackedTid_act ht a, fun info hpos => ?_⟩
    rw [lastSeen_concat, ← hinfo info hpos]
    exact lookup_act_iff hc ht hpos

/-- What a switch reports, and when. -/
theorem events_step_schedSwitch_iff {m : Monitor} (hc : m.Covered) (prevPid : UInt32)
    (prevState : Int64) (nextPid : UInt32) (now : UInt64) (reserved : Bool) (e : LatencyEvent) :
    (m.step (.schedSwitch prevPid prevState nextPid now reserved)).events = m.events ++ [e] ↔
      ∃ info, (m.switchOut prevPid prevState now).runnableTs.lookup nextPid = some info ∧
        Reportable info now reserved ∧
        e = { startNs := info.ts, endNs := now, tid := nextPid, type := info.type } := by
  have hout : (m.switchOut prevPid prevState now).events = m.events := by
    obtain ⟨-, -, hm⟩ | ⟨-, hm⟩ := m.switchOut_cases prevPid prevState now <;> rw [hm]
    rfl
  have hc := hc.switchOut prevPid prevState now
  rw [step, handleSchedSwitch, ← hout]
  -- the thread that leaves the CPU is not reported
  generalize m.switchOut prevPid prevState now = m at hc
  obtain ⟨hm, hnone⟩ | ⟨info, hinfo, hpos, hm⟩ := m.switchIn_cases nextPid now reserved
  · rw [hm]
    constructor
    · intro h
      simp at h
    · intro hx
      obtain ⟨info, hinfo, hreport, -⟩ := hx
      -- every recorded thread is tracked
      have ht : m.isTrackedTid nextPid := by
        rw [isTrackedTid_iff]
        exact hc nextPid (BoundedMap.isSome_lookup_iff.mp (by rw [hinfo]; rfl))
      exact absurd hreport.1 (hnone ht info hinfo)
  · rw [hm]
    show m.events ++ report nextPid info now reserved = m.events ++ [e] ↔ _
    rw [List.append_cancel_left_eq]
    unfold report
    constructor
    · intro h
      split at h
      · next hlong => exact ⟨info, hinfo, ⟨hpos, hlong⟩, (List.singleton_inj.mp h).symm⟩
      · cases h
    · intro hx
      obtain ⟨info', hinfo', hreport, rfl⟩ := hx
      rw [hinfo] at hinfo'
      cases hinfo'
      rw [if_pos hreport.2]

end Monitor

/-! ## The result -/

/-- The wait that is reported at one switch starts where it should, if and only if the last
    event that saw the thread runnable is also the one that made it so. -/
theorem startsRight_at_iff {tid prevPid nextPid : UInt32} {prevState : Int64} {now : UInt64}
    {reserved : Bool} {events pre post : List MonitorEvent}
    (heq : .addTid tid :: events =
      pre ++ .schedSwitch prevPid prevState nextPid now reserved :: post) :
    (∀ e : LatencyEvent,
      ((Monitor.run pre).step (.schedSwitch prevPid prevState nextPid now reserved)).events =
        (Monitor.run pre).events ++ [e] →
      e.tid = tid →
      readiness tid (schedActions pre ++ [.switchOut prevPid prevState now]) =
        .runnable { ts := e.startNs, type := e.type }) ↔
      (nextPid = tid →
        ∀ info, LastSeen tid (schedActions pre ++ [.switchOut prevPid prevState now]) info →
          Reportable info now reserved →
          readiness tid (schedActions pre ++ [.switchOut prevPid prevState now]) =
            .runnable info) := by
  -- what the monitor has recorded at the switch
  have hrecord : ∀ {info : RunnableInfo}, 0 < info.ts →
      (((Monitor.run pre).switchOut prevPid prevState now).runnableTs.lookup tid = some info ↔
        LastSeen tid (schedActions pre ++ [.switchOut prevPid prevState now]) info) := by
    intro info hpos
    cases pre with
    | nil => cases heq
    | cons ev pre =>
      cases heq
      have h := (Monitor.lookup_foldl_act_iff tid
        (schedActions pre ++ [.switchOut prevPid prevState now])).2 info hpos
      rw [← List.cons_append, List.foldl_append] at h
      rw [Monitor.run_eq]
      exact h
  constructor
  · intro h hnext info hlast hreport
    subst hnext
    have hinfo := (hrecord hreport.1).mpr hlast
    exact h { startNs := info.ts, endNs := now, tid := nextPid, type := info.type }
      ((Monitor.events_step_schedSwitch_iff (Monitor.covered_run pre) ..).mpr
        ⟨info, hinfo, hreport, rfl⟩) rfl
  · intro h e hnew htid
    obtain ⟨info, hinfo, hreport, rfl⟩ :=
      (Monitor.events_step_schedSwitch_iff (Monitor.covered_run pre) ..).mp hnew
    cases htid
    exact h rfl info ((hrecord hreport.1).mp hinfo) hreport

/-- The reported waits of a tracked thread start where they should, if and only if at each
    switch that has something to report the last event that saw the thread runnable is
    also the one that made it so. -/
theorem startsRight_iff (tid : UInt32) (events : List MonitorEvent) :
    StartsRight tid (.addTid tid :: events) ↔
      ∀ pre prevPid prevState now reserved post,
        .addTid tid :: events = pre ++ .schedSwitch prevPid prevState tid now reserved :: post →
        ∀ info, LastSeen tid (schedActions pre ++ [.switchOut prevPid prevState now]) info →
          Reportable info now reserved →
          readiness tid (schedActions pre ++ [.switchOut prevPid prevState now]) =
            .runnable info := by
  constructor
  · intro h pre prevPid prevState now reserved post heq
    exact (startsRight_at_iff heq).mp (h pre prevPid prevState tid now reserved post heq) rfl
  · -- a switch to another thread asks for nothing
    intro h pre prevPid prevState nextPid now reserved post heq
    apply (startsRight_at_iff heq).mpr
    intro hnext
    subst hnext
    exact h pre prevPid prevState now reserved post heq

/-- Thread 7 sleeps, wakes at 1000 and gets a second wakeup at 50000 before it runs. -/
def lateWakeup : List MonitorEvent := [
  .addTid 7,
  .schedSwitch 7 1 9 500 true,
  .schedWakeup 7 1000,
  .schedWakeup 7 50000,
  .schedSwitch 9 0 7 100000 true]

/-- The reported wait starts at the second wakeup, although the scheduler keeps its
    promises. -/
theorem not_startsRight_lateWakeup : Schedulable 7 lateWakeup ∧ ¬StartsRight 7 lateWakeup := by
  refine ⟨by decide, fun h => ?_⟩
  have hreadiness := h (lateWakeup.take 4) 9 0 7 100000 true [] rfl
    { startNs := 50000, endNs := 100000, tid := 7, type := typeWakeup } (by decide) rfl
  exact absurd hreadiness (by decide)

/-! ## Threads that the scheduler treats as promised -/

/-- The last event that saw the thread runnable is a wakeup at `late` that found it
    runnable already. -/
def LateWakeup (tid : UInt32) (actions : List SchedAction) (since : RunnableInfo)
    (late : UInt64) : Prop :=
  ∃ before after, actions = before ++ .wakeup tid late :: after ∧
    readiness tid before = .runnable since ∧ ∀ b ∈ after, b.Quiet tid

/-- The readiness after one more action. -/
theorem readiness_concat (tid : UInt32) (actions : List SchedAction) (a : SchedAction) :
    readiness tid (actions ++ [a]) = readyStep tid (readiness tid actions) a := by
  simp [readiness]

/-- A quiet action leaves a runnable thread as it is or puts it to sleep. -/
theorem readyStep_of_quiet {r : Readiness} (h : a.Quiet tid) :
    readyStep tid r a = r ∨ readyStep tid r a = .asleep := by
  cases a with
  | wakeup x now =>
    have hx : x ≠ tid := SchedAction.quiet_wakeup_iff.mp h
    exact .inl (by simp [readyStep, hx])
  | switchOut x prevState now =>
    rw [readyStep]
    -- the thread's own switch-out is only quiet when it goes to sleep
    by_cases hx : x = tid
    · have hp : prevState ≠ 0 := fun hp => SchedAction.quiet_switchOut_iff.mp h ⟨hx, hp⟩
      exact .inr (by rw [if_pos hx, if_neg hp])
    · exact .inl (by rw [if_neg hx])
  | switchIn x now reserved =>
    have hx : x ≠ tid := SchedAction.quiet_switchIn_iff.mp h
    exact .inl (by simp [readyStep, hx])
  | track x => exact .inl rfl

/-- A runnable thread was last seen by what made it runnable, or by a late wakeup. -/
theorem lastSeen_or_lateWakeup {since : RunnableInfo}
    (h : readiness tid actions = .runnable since) :
    LastSeen tid actions since ∨ ∃ late, LateWakeup tid actions since late := by
  induction actions using List.reverseRecOn with
  | nil => cases h
  | append_singleton actions a ih =>
    rw [readiness_concat] at h
    by_cases hquiet : a.Quiet tid
    · obtain hstep | hstep := readyStep_of_quiet (r := readiness tid actions) hquiet
      · rw [hstep] at h
        -- a quiet action keeps what was last seen, and the late wakeup too
        obtain hlast | ⟨late, before, after, rfl, hbefore, hafter⟩ := ih h
        · exact .inl (lastSeen_concat.mpr (.inr ⟨hquiet, hlast⟩))
        · refine .inr ⟨late, before, after ++ [a], by simp, hbefore, fun b hb => ?_⟩
          cases List.mem_append.mp hb with
          | inl hb => exact hafter b hb
          | inr hb => exact List.mem_singleton.mp hb ▸ hquiet
      · cases hstep.symm.trans h
    · cases a with
      | wakeup x now =>
        have hx : x = tid := not_not.mp (mt SchedAction.quiet_wakeup_iff.mpr hquiet)
        rw [readyStep] at h
        split at h
        · next hasleep =>
          cases h
          exact .inl (lastSeen_concat.mpr (.inl (by rw [SchedAction.sees, if_pos hx])))
        · -- the thread was runnable already: this is the late wakeup
          exact .inr ⟨now, actions, [], by rw [hx], h, by simp⟩
      | switchOut x prevState now =>
        have hx : x = tid ∧ prevState = 0 :=
          not_not.mp (mt SchedAction.quiet_switchOut_iff.mpr hquiet)
        rw [readyStep, if_pos hx.1, if_pos hx.2] at h
        cases h
        exact .inl (lastSeen_concat.mpr (.inl (by rw [SchedAction.sees, if_pos hx])))
      | switchIn x now reserved =>
        have hx : x = tid := not_not.mp (mt SchedAction.quiet_switchIn_iff.mpr hquiet)
        rw [readyStep, if_pos hx] at h
        cases h
      | track x => exact absurd SchedAction.quiet_track hquiet

/-- A late wakeup is what was seen last. -/
theorem LateWakeup.lastSeen {since : RunnableInfo} {late : UInt64}
    (h : LateWakeup tid actions since late) :
    LastSeen tid actions { ts := late, type := typeWakeup } := by
  obtain ⟨before, after, heq, -, hafter⟩ := h
  exact ⟨before, .wakeup tid late, after, heq, by rw [SchedAction.sees, if_pos rfl], hafter⟩

/-- Over quiet actions the readiness stays, or the thread falls asleep. -/
theorem readyStep_foldl_of_quiet {r : Readiness} (h : ∀ b ∈ actions, b.Quiet tid) :
    actions.foldl (readyStep tid) r = r ∨ actions.foldl (readyStep tid) r = .asleep := by
  induction actions generalizing r with
  | nil => exact .inl rfl
  | cons a actions ih =>
    obtain ⟨ha, h⟩ := List.forall_mem_cons.mp h
    rw [List.foldl_cons]
    -- each quiet action keeps the state or puts the thread to sleep
    obtain hstep | hstep := readyStep_of_quiet (r := r) ha <;> rw [hstep]
    · exact ih h
    · exact .inr ((ih h).elim id id)

/-- A late wakeup leaves the thread runnable since an earlier event. -/
theorem LateWakeup.since_eq {since since' : RunnableInfo} {late : UInt64}
    (h : LateWakeup tid actions since late) (hready : readiness tid actions = .runnable since') :
    since' = since := by
  obtain ⟨before, after, rfl, hbefore, hafter⟩ := h
  rw [readiness, List.foldl_append, ← readiness, hbefore, List.foldl_cons] at hready
  -- waking a thread that is runnable does not change since when it is
  have hlate : readyStep tid (.runnable since) (.wakeup tid late) = .runnable since := by
    simp [readyStep]
  rw [hlate] at hready
  obtain hsame | hasleep := readyStep_foldl_of_quiet (r := .runnable since) hafter
  · exact Readiness.runnable.inj (hready.symm.trans hsame)
  · cases hready.symm.trans hasleep

/-- How the promises of the scheduler bound the readiness of a thread. -/
def TaskState.Agrees (tid : UInt32) (actions : List SchedAction) : TaskState → Prop
  | .unseen => (∃ since, readiness tid actions = .runnable since) ∨
      (readiness tid actions = .asleep ∧ ∀ info, ¬LastSeen tid actions info)
  | .running => readiness tid actions = .running
  | .sleeping => readiness tid actions = .asleep
  | .ready => ∃ since, readiness tid actions = .runnable since

/-- An action that the scheduler allows keeps the state and the history in agreement. -/
theorem TaskState.Agrees.step {s s' : TaskState} (h : s.Agrees tid actions)
    (hs : taskStep tid s a = some s') : s'.Agrees tid (actions ++ [a]) := by
  -- an action of another thread changes neither the state nor what was seen last
  have hquiet : a.Quiet tid → s' = s → readyStep tid (readiness tid actions) a =
      readiness tid actions → s'.Agrees tid (actions ++ [a]) := by
    intro hquiet heq hstep
    subst heq
    have hlast : ∀ info, LastSeen tid (actions ++ [a]) info ↔ LastSeen tid actions info := by
      intro info
      simp [lastSeen_concat, hquiet, hquiet.1]
    cases s' <;> simpa [Agrees, readiness_concat, hstep, hlast] using h
  cases a with
  | wakeup x now =>
    by_cases hx : x = tid
    · subst hx
      cases hs
      cases s with
      | unseen =>
        obtain ⟨since, h⟩ | ⟨h, -⟩ := h <;>
          simp [Agrees, TaskState.woken, readiness_concat, readyStep, h]
      | running => simp_all [Agrees, TaskState.woken, readiness_concat, readyStep]
      | sleeping => simp_all [Agrees, TaskState.woken, readiness_concat, readyStep]
      -- a thread that is ready stays ready since the same time
      | ready =>
        obtain ⟨since, h⟩ := h
        simp [Agrees, TaskState.woken, readiness_concat, readyStep, h]
    · rw [taskStep, if_neg hx] at hs
      exact hquiet (SchedAction.quiet_wakeup_iff.mpr hx) (Option.some.inj hs).symm
        (by simp [readyStep, hx])
  | switchOut x prevState now =>
    by_cases hx : x = tid
    · subst hx
      rw [taskStep, if_pos rfl] at hs
      have hs' : s' = if prevState = 0 then .ready else .sleeping := by
        cases s <;> simp_all [TaskState.switchedOut]
      rw [hs']
      by_cases hp : prevState = 0 <;> simp [hp, Agrees, readiness_concat, readyStep]
    · rw [taskStep, if_neg hx] at hs
      exact hquiet (SchedAction.quiet_switchOut_iff.mpr fun h => hx h.1) (Option.some.inj hs).symm
        (by simp [readyStep, hx])
  | switchIn x now reserved =>
    by_cases hx : x = tid
    · subst hx
      rw [taskStep, if_pos rfl] at hs
      have hs' : s' = .running := by cases s <;> simp_all [TaskState.switchedIn]
      rw [hs']
      simp [Agrees, readiness_concat, readyStep]
    · rw [taskStep, if_neg hx] at hs
      exact hquiet (SchedAction.quiet_switchIn_iff.mpr hx) (Option.some.inj hs).symm
        (by simp [readyStep, hx])
  | track x =>
    exact hquiet SchedAction.quiet_track (Option.some.inj hs).symm rfl

/-- After every run that the scheduler allows the state and the history agree. -/
theorem agrees_of_foldlM {s : TaskState} (h : actions.foldlM (taskStep tid) .unseen = some s) :
    s.Agrees tid actions := by
  induction actions using List.reverseRecOn generalizing s with
  | nil =>
    cases h
    exact .inr ⟨rfl, fun _ => not_lastSeen_nil⟩
  | append_singleton actions a ih =>
    rw [List.foldlM_append] at h
    -- the actions before the last one go through by themselves
    obtain ⟨s₁, hs₁, h⟩ := Option.bind_eq_some_iff.mp h
    apply (ih hs₁).step
    simpa using h

/-- A thread that is about to get the CPU is runnable, unless no event saw it so far. -/
theorem runnable_of_lastSeen (now : UInt64) (reserved : Bool) (rest : List SchedAction)
    (h : ((actions ++ .switchIn tid now reserved :: rest).foldlM (taskStep tid) .unseen).isSome)
    (hlast : LastSeen tid actions info) : ∃ since, readiness tid actions = .runnable since := by
  obtain ⟨s', hs'⟩ := Option.isSome_iff_exists.mp h
  rw [List.foldlM_append] at hs'
  obtain ⟨s, hs, hs'⟩ := Option.bind_eq_some_iff.mp hs'
  obtain ⟨s₁, hs₁, -⟩ := Option.bind_eq_some_iff.mp hs'
  rw [taskStep, if_pos rfl] at hs₁
  have hagrees := agrees_of_foldlM hs
  -- only a thread that is ready can be switched in
  cases s with
  | unseen => exact hagrees.elim id fun hnone => absurd hlast (hnone.2 info)
  | ready => exact hagrees
  | running => cases hs₁
  | sleeping => cases hs₁

/-- On a machine that keeps the scheduler's promises only late wakeups move the start of a
    reported wait. -/
theorem startsRight_iff_of_schedulable {events : List MonitorEvent}
    (hsched : Schedulable tid (.addTid tid :: events)) :
    StartsRight tid (.addTid tid :: events) ↔
      ∀ pre prevPid prevState now reserved post,
        .addTid tid :: events = pre ++ .schedSwitch prevPid prevState tid now reserved :: post →
        ∀ since late,
          LateWakeup tid (schedActions pre ++ [.switchOut prevPid prevState now]) since late →
          Reportable { ts := late, type := typeWakeup } now reserved →
          since = { ts := late, type := typeWakeup } := by
  -- a thread that gets the CPU with a record has been runnable since some time
  have hready : ∀ {pre prevPid prevState now reserved post},
      .addTid tid :: events = pre ++ .schedSwitch prevPid prevState tid now reserved :: post →
      ∀ {info}, LastSeen tid (schedActions pre ++ [.switchOut prevPid prevState now]) info →
        ∃ since, readiness tid (schedActions pre ++ [.switchOut prevPid prevState now]) =
          .runnable since := by
    intro pre prevPid prevState now reserved post heq info hlast
    refine runnable_of_lastSeen now reserved (schedActions post) ?_ hlast
    rw [Schedulable, heq] at hsched
    simpa [schedActions, MonitorEvent.actions] using hsched
  constructor
  · intro h pre prevPid prevState now reserved post heq since late hlate hreport
    have hsince := (startsRight_at_iff heq).mp
      (h pre prevPid prevState tid now reserved post heq) rfl _ hlate.lastSeen hreport
    exact (hlate.since_eq hsince).symm
  · intro h pre prevPid prevState nextPid now reserved post heq
    apply (startsRight_at_iff heq).mpr
    intro hnext info hlast hreport
    subst hnext
    obtain ⟨since, hsince⟩ := hready heq hlast
    obtain hfirst | ⟨late, hlate⟩ := lastSeen_or_lateWakeup hsince
    · rw [hlast.eq hfirst]
      exact hsince
    · have hinfo := hlast.eq hlate.lastSeen
      subst hinfo
      rw [hsince, h pre prevPid prevState now reserved post heq since late hlate hreport]

end DeLatency
