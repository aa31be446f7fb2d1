import DeLatency.Patch.EventLoop
import Mathlib.Data.List.Induction

/-!
# What the callbacks of a loop report

A loop runs one callback at a time and takes them from its queue in order.  With a clock that
does not go back, its reports are therefore in the order of their times, no two slices of it
overlap, a slice begins where the wait of its callback ends, and who was in the queue first was
run first (`loopInv_run`).
-/

namespace DeLatency

variable {ι κ : Type}

/-! ## The reports of a loop -/

/-- The time that a step reads. -/
def CallbackStep.now : CallbackStep ι κ → Option ℤ
  | .callSoon _ now .. | .start _ now | .finish _ now => some now
  | _ => none

/-- A loop reads no earlier time than has been read.  What `call_soon` reads may be before what
    others have read when it puts the callback into the queue. -/
def CallbackStep.ReadBefore (c : CallbackStep ι κ) : CallbackStep ι κ → Prop
  | .start _ now | .finish _ now => ∀ t ∈ c.now, t ≤ now
  | _ => True

/-- When a report begins and ends; a wait counts as its end only. -/
def LoopReport.fromNs : LoopReport → ℤ
  | .schedLatency ev => ev.wait.runTsNs
  | .execSlice ev => ev.startNs

def LoopReport.untilNs : LoopReport → ℤ
  | .schedLatency ev => ev.wait.runTsNs
  | .execSlice ev => ev.endNs

def LoopReport.latency : LoopReport → Option SchedLatency
  | .schedLatency ev => some ev
  | .execSlice _ => none

/-- The slice goes on where the wait of its callback ended. -/
structure SchedLatency.ContinuedBy (latency : SchedLatency) (slice : ExecSlice) : Prop where
  time : latency.wait.runTsNs = slice.startNs
  requestId : latency.requestId = slice.requestId
  taskId : latency.taskId = slice.taskId
  taskName : latency.taskName = slice.taskName
  taskKind : latency.taskKind = slice.taskKind

namespace EventLoops

/-- A wait that is noted changes no loop, and is reported, if at all, by its own. -/
theorem noteWait_spec (st : EventLoops ι κ) (loop : ι) (ctx : κ) (task : Option ℕ)
    (info : TaskInfo) (wait : SchedWait) :
    (st.noteWait loop ctx task info wait).loops = st.loops ∧
      (((st.noteWait loop ctx task info wait).sent = st.sent ∧ info.taskKind ≠ .request) ∨
        ∃ latency, (st.noteWait loop ctx task info wait).sent =
            st.sent ++ [(loop, .schedLatency latency)] ∧
          latency.wait = wait ∧ latency.requestId = info.requestId ∧ latency.taskId = task ∧
          latency.taskName = info.taskName ∧ latency.taskKind = info.taskKind) := by
  unfold noteWait
  split
  · -- the two output tasks keep their waits until they report them
    next hkind => exact ⟨rfl, .inl ⟨rfl, by rw [hkind]; decide⟩⟩
  · next hkind => exact ⟨rfl, .inl ⟨rfl, by rw [hkind]; decide⟩⟩
  · exact ⟨rfl, .inr ⟨_, rfl, rfl, rfl, rfl, rfl, rfl⟩⟩

/-- A clock reading of a prefix is one of the whole run. -/
theorem mem_now_concat {steps : List (CallbackStep ι κ)} {t : ℤ}
    (h : t ∈ steps.filterMap CallbackStep.now) (c : CallbackStep ι κ) :
    t ∈ (steps ++ [c]).filterMap CallbackStep.now := by
  rw [List.filterMap_append]
  exact List.mem_append_left _ h

/-- The times at which the callbacks in a queue were scheduled. -/
def queueStarts (ready : List (Handle κ)) : List ℤ :=
  (ready.filterMap (·.wrapped)).map (·.readyTsNs)

/-- A new callback has been scheduled now. -/
theorem queueStarts_newHandle [DecidableEq κ] (st : EventLoops ι κ) (now : ℤ) (enabled : Bool)
    (caller : κ) (context : Option κ) (copy : κ) (task : Option ℕ) :
    (queueStarts [st.newHandle now enabled caller context copy task]).Sublist [now] := by
  unfold newHandle
  dsimp only
  split
  · exact .refl _
  · exact List.nil_sublist _

variable [DecidableEq ι]

/-- What a loop has reported, in order. -/
def reports (st : EventLoops ι κ) (loop : ι) : List LoopReport :=
  (st.sent.filter (·.1 = loop)).map Prod.snd

/-- The times at which the reported waits of a loop began. -/
def waitStarts (reports : List LoopReport) : List ℤ :=
  (reports.filterMap LoopReport.latency).map (·.wait.readyTsNs)

/-- When callbacks were scheduled on a loop. -/
def callTimes (loop : ι) (steps : List (CallbackStep ι κ)) : List ℤ :=
  steps.filterMap fun
    | .callSoon loop' now .. => if loop' = loop then some now else none
    | _ => none

/-- What a loop was given is some of what was read. -/
theorem callTimes_sublist (loop : ι) (steps : List (CallbackStep ι κ)) :
    (callTimes loop steps).Sublist (steps.filterMap CallbackStep.now) := by
  induction steps with
  | nil => exact .slnil
  | cons c steps ih =>
    unfold callTimes at ih ⊢
    -- only a scheduling on this loop adds a time, and it reads the clock
    cases c with
    | callSoon loop' now =>
      simp only [List.filterMap_cons, CallbackStep.now]
      split
      · next hnone => exact ih.cons _
      · next t ht =>
        split at ht
        · cases ht
          exact ih.cons_cons _
        · cases ht
    | start => exact ih.cons _
    | finish => exact ih.cons _
    | _ => exact ih

/-- What holds of one loop after some steps. -/
structure LoopInv (loop : ι) (steps : List (CallbackStep ι κ)) (st : EventLoops ι κ) : Prop where
  ordered : (st.reports loop).Pairwise fun r r' => r.untilNs ≤ r'.fromNs
  past : ∀ r ∈ st.reports loop, r.untilNs ∈ steps.filterMap CallbackStep.now
  running : ∀ run, (st.loops loop).running = some (some run) →
    run.runTsNs ∈ steps.filterMap CallbackStep.now ∧
      (∀ r ∈ st.reports loop, r.untilNs ≤ run.runTsNs) ∧
      (run.info.taskKind = .request → ∃ latency, .schedLatency latency ∈ st.reports loop ∧
        latency.wait.runTsNs = run.runTsNs ∧ latency.requestId = run.info.requestId ∧
        latency.taskId = run.task ∧ latency.taskName = run.info.taskName ∧
        latency.taskKind = run.info.taskKind)
  queue : (waitStarts (st.reports loop) ++ queueStarts (st.loops loop).ready).Sublist
    (callTimes loop steps)
  continued : ∀ slice, .execSlice slice ∈ st.reports loop →
    slice.startNs < slice.endNs ∧
      ∃ latency, .schedLatency latency ∈ st.reports loop ∧ latency.ContinuedBy slice

/-! ## Steps without a report -/

/-- One more step adds the time of its own call, if it makes one. -/
theorem callTimes_concat (loop : ι) (steps : List (CallbackStep ι κ)) (c : CallbackStep ι κ) :
    callTimes loop (steps ++ [c]) = callTimes loop steps ++ callTimes loop [c] :=
  List.filterMap_append

/-- A step after which the loop has reported nothing new, runs what it ran, or nothing known,
    and has at most the callback in its queue that the step has scheduled. -/
theorem LoopInv.quiet {loop : ι} {steps : List (CallbackStep ι κ)} {st st' : EventLoops ι κ}
    (h : LoopInv loop steps st) {c : CallbackStep ι κ}
    (hreports : st'.reports loop = st.reports loop)
    (hrunning : ∀ run, (st'.loops loop).running = some (some run) →
      (st.loops loop).running = some (some run))
    (hready : (queueStarts (st'.loops loop).ready).Sublist
      (queueStarts (st.loops loop).ready ++ callTimes loop [c])) :
    LoopInv loop (steps ++ [c]) st' := by
  -- nothing was reported, so only the queue and the running callback can have changed
  refine ⟨?_, ?_, ?_, ?_, ?_⟩
  · rw [hreports]
    exact h.ordered
  · rw [hreports]
    exact fun r hr => mem_now_concat (h.past r hr) c
  · rw [hreports]
    intro run hrun
    obtain ⟨hread, hrest⟩ := h.running run (hrunning run hrun)
    exact ⟨mem_now_concat hread c, hrest⟩
  · rw [hreports, callTimes_concat]
    -- the queue lost some of its times or gained that of this call, at its end
    refine ((List.Sublist.refl _).append hready).trans ?_
    rw [← List.append_assoc]
    exact h.queue.append (.refl _)
  · rw [hreports]
    exact h.continued

/-- The loop is as it was, and has reported nothing. -/
structure Unseen (loop : ι) (st st' : EventLoops ι κ) : Prop where
  loops : st'.loops loop = st.loops loop
  reports : st'.reports loop = st.reports loop

/-- A step that the loop does not see keeps its invariant. -/
theorem LoopInv.unseen {loop : ι} {steps : List (CallbackStep ι κ)} {st st' : EventLoops ι κ}
    (h : LoopInv loop steps st) (hst : Unseen loop st st') (c : CallbackStep ι κ) :
    LoopInv loop (steps ++ [c]) st' := by
  refine h.quiet hst.reports ?_ ?_
  · rw [hst.loops]
    exact fun _ => id
  · rw [hst.loops]
    exact List.sublist_append_left _ _

/-- Setting one loop leaves the others alone. -/
theorem setLoop_loops_of_ne (st : EventLoops ι κ) {loop loop' : ι} (h : loop ≠ loop')
    (state : LoopState κ) : (st.setLoop loop' state).loops loop = st.loops loop :=
  Function.update_of_ne h _ _

/-- A loop that is set holds what it was set to. -/
@[simp] theorem setLoop_loops_self (st : EventLoops ι κ) (loop : ι) (state : LoopState κ) :
    (st.setLoop loop state).loops loop = state :=
  Function.update_self ..

/-- A report of another loop is not seen. -/
theorem reports_append_of_ne (st : EventLoops ι κ) {loop loop' : ι} (h : loop ≠ loop')
    (r : LoopReport) : ((st.sent ++ [(loop', r)]).filter (·.1 = loop)).map Prod.snd =
      st.reports loop := by
  rw [List.filter_append, List.filter_cons_of_neg (by simpa using h.symm), List.filter_nil,
    List.append_nil]
  rfl

/-- A report joins those of its loop. -/
theorem reports_append_self (st : EventLoops ι κ) (loop : ι) (r : LoopReport) :
    ((st.sent ++ [(loop, r)]).filter (·.1 = loop)).map Prod.snd = st.reports loop ++ [r] := by
  rw [List.filter_append, List.filter_cons_of_pos (by simp), List.filter_nil, List.map_append]
  rfl

/-! ## Steps of a loop -/

/-- What the beginning of a callback can do. -/
theorem start_cases (st : EventLoops ι κ) (loop : ι) (now : ℤ) :
    st.start loop now = st ∨
      ∃ handle ready, (st.loops loop).running = none ∧ (st.loops loop).ready = handle :: ready ∧
        (st.start loop now = st.setLoop loop { ready, running := some none } ∨
          ∃ wrapped info, handle.wrapped = some wrapped ∧
            let run := { ctx := handle.ctx, task := handle.task, info, runTsNs := now }
            (now < wrapped.readyTsNs ∧
                st.start loop now = st.setLoop loop { ready, running := some (some run) }) ∨
              ∃ h : wrapped.readyTsNs ≤ now, st.start loop now =
                (st.setLoop loop { ready, running := some (some run) }).noteWait loop handle.ctx
                  handle.task info ⟨wrapped.readyTsNs, now, h⟩) := by
  unfold start
  split
  · next handle ready hrunning hready =>
    refine .inr ⟨handle, ready, hrunning, hready, ?_⟩
    split
    · exact .inl rfl
    · -- the handle is wrapped and its task registered: the wait is noted unless the clock went back
      next wrapped info hinfo =>
      right
      obtain ⟨wrapped', hwrapped, hmap⟩ := Option.bind_eq_some_iff.mp hinfo
      obtain ⟨info', -, heq⟩ := Option.map_eq_some_iff.mp hmap
      cases heq
      refine ⟨wrapped, info, hwrapped, ?_⟩
      split
      · next hle => exact .inr ⟨hle, rfl⟩
      · next hlt => exact .inl ⟨not_le.mp hlt, rfl⟩
  · exact .inl rfl

/-- What its end can do. -/
theorem finish_cases (st : EventLoops ι κ) (loop : ι) (now : ℤ) :
    st.finish loop now = st ∨
      st.finish loop now = st.setLoop loop { st.loops loop with running := none } ∨
      ∃ run, (st.loops loop).running = some (some run) ∧ run.runTsNs < now ∧
        run.info.taskKind = .request ∧
        st.finish loop now =
          (st.setLoop loop { st.loops loop with running := none }).emitExecSlice loop run now := by
  unfold finish
  split
  · exact .inl rfl
  · next running hrunning =>
    right
    dsimp only
    split
    · exact .inl rfl
    · next run =>
      split
      · -- a request's task that ran for some time: its slice is reported
        next hemit => exact .inr ⟨run, hrunning, hemit.1, hemit.2, rfl⟩
      · exact .inl rfl

/-- The start times waiting in a queue are read handle by handle. -/
theorem queueStarts_append (ready ready' : List (Handle κ)) :
    queueStarts (ready ++ ready') = queueStarts ready ++ queueStarts ready' := by
  rw [queueStarts, List.filterMap_append, List.map_append]
  rfl

/-- The first handle's start comes first. -/
theorem queueStarts_cons (handle : Handle κ) (ready : List (Handle κ)) :
    queueStarts (handle :: ready) =
      (handle.wrapped.map (·.readyTsNs)).toList ++ queueStarts ready := by
  unfold queueStarts
  rw [List.filterMap_cons]
  cases handle.wrapped <;> rfl

section Step

variable {loop : ι} {steps : List (CallbackStep ι κ)} {st : EventLoops ι κ}

/-- A step of another loop is not seen. -/
theorem unseen_start {loop' : ι} (hne : loop ≠ loop') (st : EventLoops ι κ) (now : ℤ) :
    Unseen loop st (st.start loop' now) := by
  obtain heq | ⟨handle, ready, -, -, heq | ⟨wrapped, info, -, ⟨-, heq⟩ | ⟨hle, heq⟩⟩⟩ :=
    st.start_cases loop' now
  · rw [heq]
    exact ⟨rfl, rfl⟩
  · rw [heq]
    exact ⟨setLoop_loops_of_ne st hne _, rfl⟩
  · rw [heq]
    exact ⟨setLoop_loops_of_ne st hne _, rfl⟩
  · rw [heq]
    -- the wait goes out under the other loop's name
    obtain ⟨hloops, ⟨hsent, -⟩ | ⟨latency, hsent, -⟩⟩ := noteWait_spec
      (st.setLoop loop' { ready, running := some (some ⟨handle.ctx, handle.task, info, now⟩) })
      loop' handle.ctx handle.task info ⟨wrapped.readyTsNs, now, hle⟩
    · exact ⟨by rw [hloops, setLoop_loops_of_ne st hne], by rw [reports, hsent]; rfl⟩
    · refine ⟨by rw [hloops, setLoop_loops_of_ne st hne], ?_⟩
      rw [reports, hsent]
      exact reports_append_of_ne _ hne _

/-- Another loop does not see that a callback of this one ends. -/
theorem unseen_finish {loop' : ι} (hne : loop ≠ loop') (st : EventLoops ι κ) (now : ℤ) :
    Unseen loop st (st.finish loop' now) := by
  obtain heq | heq | ⟨run, -, -, -, heq⟩ := st.finish_cases loop' now
  · rw [heq]
    exact ⟨rfl, rfl⟩
  · rw [heq]
    exact ⟨setLoop_loops_of_ne st hne _, rfl⟩
  · rw [heq]
    exact ⟨setLoop_loops_of_ne st hne _, reports_append_of_ne _ hne _⟩

/-- Scheduling appends one handle to the queue of the loop. -/
theorem callSoon_loops [DecidableEq κ] (st : EventLoops ι κ) (loop : ι) (now : ℤ) (enabled : Bool)
    (caller : κ) (context : Option κ) (copy : κ) (task : Option ℕ) :
    (st.callSoon loop now enabled caller context copy task).loops loop =
      { st.loops loop with
        ready := (st.loops loop).ready ++
          [st.newHandle now enabled caller context copy task] } :=
  Function.update_self ..

/-- Scheduling keeps the invariant: the new handle waits from now. -/
theorem LoopInv.callSoon [DecidableEq κ] (h : LoopInv loop steps st) (now : ℤ) (enabled : Bool)
    (caller : κ) (context : Option κ) (copy : κ) (task : Option ℕ) :
    LoopInv loop (steps ++ [.callSoon loop now enabled caller context copy task])
      (st.callSoon loop now enabled caller context copy task) := by
  -- scheduling reports nothing, it only queues
  refine h.quiet rfl ?_ ?_
  · rw [callSoon_loops]
    exact fun _ => id
  · rw [callSoon_loops, queueStarts_append]
    refine (List.Sublist.refl _).append ?_
    refine (queueStarts_newHandle ..).trans ?_
    simp [callTimes]

/-- Cancelling keeps it: a cancelled handle is skipped, not reported. -/
theorem LoopInv.cancel (h : LoopInv loop steps st) (n : ℕ) :
    LoopInv loop (steps ++ [.cancel loop n])
      (st.setLoop loop { st.loops loop with ready := (st.loops loop).ready.eraseIdx n }) := by
  refine h.quiet rfl ?_ ?_
  · rw [setLoop_loops_self]
    exact fun _ => id
  · rw [setLoop_loops_self]
    refine List.Sublist.trans ?_ (List.sublist_append_left _ _)
    exact ((List.eraseIdx_sublist _ n).filterMap _).map _

/-- The start times of the reported waits are read report by report. -/
theorem waitStarts_append (reports reports' : List LoopReport) :
    waitStarts (reports ++ reports') = waitStarts reports ++ waitStarts reports' := by
  rw [waitStarts, List.filterMap_append, List.map_append]
  rfl

/-- A known callback begins, and its wait is reported or kept. -/
theorem LoopInv.begins (h : LoopInv loop steps st) {st' : EventLoops ι κ}
    {c : CallbackStep ι κ} {ready : List (Handle κ)} {run : RunningCallback κ}
    {waits : List LoopReport}
    (hloops : st'.loops loop = { ready, running := some (some run) })
    (hreports : st'.reports loop = st.reports loop ++ waits)
    (hnow : c.now = some run.runTsNs)
    (hclock : ∀ t ∈ steps.filterMap CallbackStep.now, t ≤ run.runTsNs)
    (hwaits : ∀ r ∈ waits, ∃ latency, r = .schedLatency latency ∧
      latency.wait.runTsNs = run.runTsNs ∧ latency.requestId = run.info.requestId ∧
      latency.taskId = run.task ∧ latency.taskName = run.info.taskName ∧
      latency.taskKind = run.info.taskKind)
    (hrequest : run.info.taskKind = .request → waits ≠ [])
    (hqueue : (waitStarts waits ++ queueStarts ready).Sublist
      (queueStarts (st.loops loop).ready)) :
    LoopInv loop (steps ++ [c]) st' := by
  have hread : run.runTsNs ∈ (steps ++ [c]).filterMap CallbackStep.now := by
    rw [List.filterMap_append, List.mem_append]
    exact .inr (by simp [hnow])
  have hbefore : ∀ r ∈ st.reports loop, r.untilNs ≤ run.runTsNs := fun r hr =>
    hclock _ (h.past r hr)
  have htimes : ∀ r ∈ waits, r.fromNs = run.runTsNs ∧ r.untilNs = run.runTsNs := by
    intro r hr
    obtain ⟨latency, rfl, htime, -⟩ := hwaits r hr
    exact ⟨htime, htime⟩
  refine ⟨?_, ?_, ?_, ?_, ?_⟩
  · -- all that was reported ended before this callback
    rw [hreports, List.pairwise_append]
    refine ⟨h.ordered, List.pairwise_of_forall_mem_list fun r hr r' hr' => ?_, ?_⟩
    · rw [(htimes r hr).2, (htimes r' hr').1]
    · intro r hr r' hr'
      rw [(htimes r' hr').1]
      exact hbefore r hr
  · rw [hreports]
    intro r hr
    rcases List.mem_append.mp hr with hr | hr
    · exact mem_now_concat (h.past r hr) c
    · rw [(htimes r hr).2]
      exact hread
  · -- the callback of a request has its wait among the reports
    rw [hreports, hloops]
    intro run' hrun
    cases hrun
    refine ⟨hread, ?_, fun hkind => ?_⟩
    · intro r hr
      rcases List.mem_append.mp hr with hr | hr
      · exact hbefore r hr
      · exact (htimes r hr).2.le
    · obtain ⟨r, hr⟩ := List.exists_mem_of_ne_nil _ (hrequest hkind)
      obtain ⟨latency, rfl, hlatency⟩ := hwaits r hr
      exact ⟨latency, List.mem_append_right _ hr, hlatency⟩
  · rw [hreports, hloops, waitStarts_append, List.append_assoc, callTimes_concat]
    refine (((List.Sublist.refl _).append hqueue).trans h.queue).trans ?_
    exact List.sublist_append_left _ _
  · rw [hreports]
    intro slice hslice
    rcases List.mem_append.mp hslice with hslice | hslice
    · obtain ⟨hlt, latency, hlatency, hcontinued⟩ := h.continued slice hslice
      exact ⟨hlt, latency, List.mem_append_left _ hlatency, hcontinued⟩
    · -- the new reports are waits, no slices
      obtain ⟨latency, heq, -⟩ := hwaits _ hslice
      cases heq

/-- The slice of a callback is reported. -/
theorem LoopInv.ends (h : LoopInv loop steps st) {st' : EventLoops ι κ} {c : CallbackStep ι κ}
    {run : RunningCallback κ} {slice : ExecSlice}
    (hrun : (st.loops loop).running = some (some run))
    (hkind : run.info.taskKind = .request)
    (hloops : st'.loops loop = { st.loops loop with running := none })
    (hreports : st'.reports loop = st.reports loop ++ [.execSlice slice])
    (hnow : c.now = some slice.endNs) (hlt : run.runTsNs < slice.endNs)
    (hslice : slice.startNs = run.runTsNs ∧ slice.requestId = run.info.requestId ∧
      slice.taskId = run.task ∧ slice.taskName = run.info.taskName ∧
      slice.taskKind = run.info.taskKind) :
    LoopInv loop (steps ++ [c]) st' := by
  obtain ⟨-, hbefore, hlatency⟩ := h.running run hrun
  obtain ⟨latency, hmem, htime, hreq, htask, hname, hsame⟩ := hlatency hkind
  refine ⟨?_, ?_, ?_, ?_, ?_⟩
  · -- the slice starts with its callback, after all that was reported
    rw [hreports, List.pairwise_append]
    refine ⟨h.ordered, List.pairwise_singleton _ _, fun r hr r' hr' => ?_⟩
    rw [List.mem_singleton.mp hr']
    exact (hbefore r hr).trans hslice.1.ge
  · rw [hreports]
    intro r hr
    rcases List.mem_append.mp hr with hr | hr
    · exact mem_now_concat (h.past r hr) c
    · rw [List.mem_singleton.mp hr, List.filterMap_append, List.mem_append]
      exact .inr (by simp [hnow, LoopReport.untilNs])
  · rw [hloops]
    intro run' hrun'
    cases hrun'
  · rw [hreports, hloops, waitStarts_append, callTimes_concat]
    refine List.Sublist.trans ?_ (List.sublist_append_left _ _)
    have hnone : waitStarts [LoopReport.execSlice slice] = [] := rfl
    rw [hnone, List.append_nil]
    exact h.queue
  · rw [hreports]
    intro slice' hslice'
    rcases List.mem_append.mp hslice' with hslice' | hslice'
    · obtain ⟨hlt', latency', hlatency', hcontinued⟩ := h.continued slice' hslice'
      exact ⟨hlt', latency', List.mem_append_left _ hlatency', hcontinued⟩
    · -- the new slice continues the wait of its callback
      cases List.mem_singleton.mp hslice'
      obtain ⟨hstart, hreq', htask', hname', hkind'⟩ := hslice
      exact ⟨hstart ▸ hlt, latency, List.mem_append_left _ hmem, htime.trans hstart.symm,
        hreq.trans hreq'.symm, htask.trans htask'.symm, hname.trans hname'.symm,
        hsame.trans hkind'.symm⟩

/-- Starting a callback keeps it: the wait that ends is reported, or dropped with its cancelled
    handle. -/
theorem LoopInv.start (h : LoopInv loop steps st) (now : ℤ)
    (hclock : ∀ t ∈ steps.filterMap CallbackStep.now, t ≤ now) :
    LoopInv loop (steps ++ [.start loop now]) (st.start loop now) := by
  obtain heq | ⟨handle, ready, hrunning, hready, heq | ⟨wrapped, info, hwrapped, hcases⟩⟩ :=
    st.start_cases loop now
  · rw [heq]
    exact h.unseen ⟨rfl, rfl⟩ _
  · rw [heq]
    refine h.quiet rfl ?_ ?_
    · rw [setLoop_loops_self]
      intro run hrun
      cases hrun
    · rw [setLoop_loops_self, hready, queueStarts_cons, List.append_assoc]
      exact (List.sublist_append_left _ _).trans (List.sublist_append_right _ _)
  · have hold : queueStarts (st.loops loop).ready = wrapped.readyTsNs :: queueStarts ready := by
      rw [hready, queueStarts_cons, hwrapped]
      rfl
    -- the callback was scheduled before
    have hle : wrapped.readyTsNs ≤ now := by
      refine hclock _ ((callTimes_sublist loop steps).subset (h.queue.subset ?_))
      rw [hold]
      simp
    obtain ⟨hlt, -⟩ | ⟨hle, heq⟩ := hcases
    · exact absurd hle (not_le.mpr hlt)
    · rw [heq]
      obtain ⟨hloops, hsent⟩ := noteWait_spec
        (st.setLoop loop { ready, running := some (some ⟨handle.ctx, handle.task, info, now⟩) })
        loop handle.ctx handle.task info ⟨wrapped.readyTsNs, now, hle⟩
      have hloops' := (congrFun hloops loop).trans (setLoop_loops_self ..)
      obtain ⟨hsent, hkind⟩ | ⟨latency, hsent, hwait, hlatency⟩ := hsent
      · refine h.begins hloops' (?_ : _ = _ ++ ([] : List LoopReport)) rfl hclock (by simp)
          (fun hk => absurd hk hkind) ?_
        · rw [reports, hsent, List.append_nil]
          rfl
        · rw [hold]
          exact List.sublist_cons_self _ _
      · refine h.begins hloops' (?_ : _ = _ ++ [LoopReport.schedLatency latency]) rfl hclock ?_
          (fun _ => by simp) ?_
        · rw [reports, hsent]
          exact reports_append_self _ loop _
        · intro r hr
          rw [List.mem_singleton.mp hr]
          exact ⟨latency, rfl, by rw [hwait], hlatency⟩
        · rw [hold, waitStarts]
          simp [LoopReport.latency, hwait]

/-- Ending a callback keeps the invariant. -/
theorem LoopInv.finish (h : LoopInv loop steps st) (now : ℤ) :
    LoopInv loop (steps ++ [.finish loop now]) (st.finish loop now) := by
  obtain heq | heq | ⟨run, hrun, hlt, hkind, heq⟩ := st.finish_cases loop now
  · -- no callback was running
    rw [heq]
    exact h.unseen ⟨rfl, rfl⟩ _
  · rw [heq]
    -- one ends without a report
    refine h.quiet rfl ?_ ?_
    · rw [setLoop_loops_self]
      intro run hrun
      cases hrun
    · rw [setLoop_loops_self]
      exact List.sublist_append_left _ _
  · rw [heq]
    -- one ends with the report that continues its wait
    exact h.ends hrun hkind (setLoop_loops_self ..) (reports_append_self _ loop _) rfl hlt
      ⟨rfl, rfl, rfl, rfl, rfl⟩

end Step

/-! ## Runs -/

/-- Every step keeps the invariant of a loop. -/
theorem LoopInv.step [DecidableEq κ] {loop : ι} {steps : List (CallbackStep ι κ)}
    {st : EventLoops ι κ} (h : LoopInv loop steps st) (c : CallbackStep ι κ)
    (hclock : ∀ c' ∈ steps, c'.ReadBefore c) : LoopInv loop (steps ++ [c]) (st.step c) := by
  -- a step of another loop, or of no loop at all, is not seen by this one
  cases c with
  | context call => exact h.unseen (⟨rfl, rfl⟩ : Unseen loop st (st.step (.context call))) _
  | registerTask task requestId requestName taskName taskKind =>
    have hunseen : Unseen loop st
        (st.step (.registerTask task requestId requestName taskName taskKind)) := ⟨rfl, rfl⟩
    exact h.unseen hunseen _
  | unregisterTask task =>
    exact h.unseen (⟨rfl, rfl⟩ : Unseen loop st (st.step (.unregisterTask task))) _
  | flushPending task =>
    refine h.unseen ?_ _
    simp only [EventLoops.step]
    split <;> exact ⟨rfl, rfl⟩
  | callSoon loop' now enabled caller context copy task =>
    by_cases hloop : loop = loop'
    · subst hloop
      exact h.callSoon now enabled caller context copy task
    · have hunseen : Unseen loop st (st.callSoon loop' now enabled caller context copy task) :=
        ⟨Function.update_of_ne hloop _ _, rfl⟩
      exact h.unseen hunseen _
  | cancel loop' n =>
    by_cases hloop : loop = loop'
    · subst hloop
      exact h.cancel n
    · have hunseen : Unseen loop st (st.step (.cancel loop' n)) :=
        ⟨setLoop_loops_of_ne st hloop _, rfl⟩
      exact h.unseen hunseen _
  | start loop' now =>
    by_cases hloop : loop = loop'
    · subst hloop
      refine h.start now fun t ht => ?_
      obtain ⟨c, hc, ht⟩ := List.mem_filterMap.mp ht
      exact hclock c hc t ht
    · exact h.unseen (unseen_start hloop st now) _
  | finish loop' now =>
    by_cases hloop : loop = loop'
    · subst hloop
      exact h.finish now
    · exact h.unseen (unseen_finish hloop st now) _

/-- The invariant of a loop holds after every run whose clock does not go back. -/
theorem loopInv_run [DecidableEq κ] (loop : ι) (steps : List (CallbackStep ι κ))
    (hclock : steps.Pairwise CallbackStep.ReadBefore) : LoopInv loop steps (run steps) := by
  unfold run
  induction steps using List.reverseRecOn with
  | nil => exact ⟨.nil, by simp [reports], by simp, .slnil, by simp [reports]⟩
  | append_singleton steps c ih =>
    obtain ⟨hsteps, -, hlast⟩ := List.pairwise_append.mp hclock
    rw [List.foldl_concat]
    exact (ih hsteps).step c fun c' hc' => hlast c' hc' c (List.mem_singleton_self c)

/-- Two loops at the same time, one of which runs two callbacks of a task. -/
def twoLoops : List (CallbackStep Bool ℕ) :=
  [.registerTask 7 (some "r1") none none .request, .registerTask 8 (some "r2") none none .request,
    .callSoon true 10 true 0 none 1 (some 7), .callSoon false 11 true 0 none 2 (some 8),
    .start true 12, .callSoon true 13 true 1 none 3 (some 7), .start false 14, .finish true 15,
    .start true 16, .finish false 17, .finish true 18]

end EventLoops

end DeLatency
