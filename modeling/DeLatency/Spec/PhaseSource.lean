import DeLatency.Converter.PpGap
import DeLatency.Spec.PyText
import DeLatency.Spec.TransferSource

/-!
# From a phase to its step

The threads of the workers report the phases that they go through and the executions around
them, and the converter collects both for each request and matches them with the dispatches of
the request by their keys.  Two of the phases and the forward pass are reported in an older form
too, which counts only in a log without the new one; no report of a run is counted twice
(`stepPhases_of_runs`).
-/

namespace DeLatency

variable {τ ρ : Type}

/-! ## Workers -/

/-- A worker process, with the native ids of its threads. -/
structure WorkerProcess (τ ρ : Type) where
  pid : ℕ
  tid : τ → ℕ
  steps : List (GpuStep τ ρ)

/-- A thread of the process enters an execution of a step that has the request, or whose runner
    the thread sees with the request in its input batch. -/
def WorkerProcess.Executes (p : WorkerProcess τ ρ) (rid : String) (so : SchedulerOutput) : Prop :=
  ∃ st ∈ p.steps, st.executes = some so ∧
    (rid ∈ so.extractReqIds ∨ ∃ st' ∈ p.steps, st'.thread = st.thread ∧
      ∃ runner, st.runner = some runner ∧ rid ∈ normalizeReqIds (st'.moment.inputBatch runner))

/-- What the threads of the process hand to `TraceSender.emit`. -/
def WorkerProcess.reports [DecidableEq τ] (hexdigest : List Char → List Char)
    (p : WorkerProcess τ ρ) : List GpuEvent :=
  (GpuThreads.run hexdigest p.pid p.tid p.steps).emitted.map Prod.snd

/-- What they would hand to it if they looked up the innermost `execute_model`. -/
def WorkerProcess.lexicalReports [DecidableEq τ] (hexdigest : List Char → List Char)
    (p : WorkerProcess τ ρ) : List GpuEvent :=
  (LexicalThreads.run hexdigest p.pid p.tid p.steps).emitted.map Prod.snd

/-- A phase as it is charged to a request. -/
def GpuPhaseSpan.interval (span : GpuPhaseSpan) : PhaseInterval where
  startNs := span.startNs
  endNs := span.endNs
  dispatchKey := some span.dispatchKey
  ranks := span.ranks.toRanks

/-- What a report adds to the intervals of a phase: the phase itself, for each time that its
    requests name the request. -/
def GpuEvent.phaseIntervals (rid name : String) : GpuEvent → List PhaseInterval
  | .gpuPhaseSpan span =>
    if span.phase = name then List.replicate (span.reqIds.count rid) span.interval else []
  | _ => []

/-- What a report adds to the executions. -/
def GpuEvent.stepExecutions (rid : String) : GpuEvent → List StepExecution
  | .gpuExecuteModel pid tid ranks _ _ reqIds dispatchKey startNs endNs =>
    List.replicate (reqIds.count rid) {
      pid := some pid
      tid := some tid
      startNs
      endNs
      dispatchKey := some dispatchKey
      ranks := ranks.toRanks }
  | _ => []

/-! ## The loop of the converter -/

section Loop

/-- What an event adds to the intervals of a phase. -/
def WorkerEvent.phaseIntervals (rid name : String) (ev : WorkerEvent) : List PhaseInterval :=
  match ev.startNs, ev.endNs with
  | some startNs, some endNs =>
    if ev.type = .gpuPhaseSpan ∧ ev.phase = some name then
      List.replicate ((normalizeRequestIds ev.reqIds).count rid) {
        startNs
        endNs
        dispatchKey := ev.dispatchKey
        ranks := ev.ranks }
    else []
  | _, _ => []

/-- What an event adds to the executions. -/
def WorkerEvent.stepExecutions (rid : String) (ev : WorkerEvent) : List StepExecution :=
  match ev.startNs, ev.endNs with
  | some startNs, some endNs =>
    if ev.type = .gpuExecuteModel then
      List.replicate ((normalizeRequestIds ev.reqIds).count rid) {
        pid := ev.pid
        tid := ev.tid
        startNs
        endNs
        dispatchKey := ev.dispatchKey
        ranks := ev.ranks }
    else []
  | _, _ => []

/-- The event has no phase of the older form. -/
def WorkerEvent.IsNew (ev : WorkerEvent) : Prop :=
  ev.type = .workerPreprocessStart ∨ ev.type = .gpuExecuteModel ∨ ev.type = .gpuPhaseSpan

/-- Pushing n times adds n copies under the one name. -/
theorem getD_iterate_push (d : Dict String (List PhaseInterval)) (name name' : String)
    (interval : PhaseInterval) (n : ℕ) :
    ((·.push name' interval)^[n] d).getD name [] =
      d.getD name [] ++ if name' = name then List.replicate n interval else [] := by
  induction n generalizing d with
  | zero => simp
  | succ n ih =>
    rw [Function.iterate_succ_apply, ih, Dict.getD_push]
    -- the pushes go to one key, so only that key's list grows
    by_cases hname : name' = name
    · subst hname
      simp [List.replicate_succ]
    · simp [hname, Ne.symm hname]

/-- A phase is added as often as the request is named. -/
theorem getD_addPhase (w : WorkerIntervals) (reqIds : List String) (name name' : String)
    (interval : PhaseInterval) (rid : String) :
    ((w.addPhase reqIds name' interval).phaseIntervals rid).getD name [] =
      (w.phaseIntervals rid).getD name [] ++
        if name' = name then List.replicate ((normalizeRequestIds reqIds).count rid) interval
        else [] := by
  -- a request that the event names twice is charged twice
  have hfold := List.foldl_update_apply
    (fun d : Dict String (List PhaseInterval) => d.push name' interval)
    (normalizeRequestIds reqIds) w.phaseIntervals rid
  exact (congrArg (·.getD name []) hfold).trans (getD_iterate_push ..)

variable {rid name : String} (w : WorkerIntervals) (ev : WorkerEvent)

/-- What one event adds to a request's phases. -/
theorem getD_phaseIntervals_workerEvent {precise : Bool} (hname : name ≠ "")
    (h : precise = true ∨ ev.IsNew) :
    ((workerEvent precise w ev).phaseIntervals rid).getD name [] =
      (w.phaseIntervals rid).getD name [] ++ ev.phaseIntervals rid name := by
  have hnone (hspan : ev.type ≠ .gpuPhaseSpan) : ev.phaseIntervals rid name = [] := by
    unfold WorkerEvent.phaseIntervals
    split
    · rw [if_neg fun h => hspan h.1]
    · rfl
  cases htype : ev.type with
  | gpuPhaseSpan =>
    cases hstart : ev.startNs with
    | none => simp [workerEvent, WorkerEvent.phaseIntervals, htype, hstart]
    | some startNs =>
      cases hend : ev.endNs with
      | none => simp [workerEvent, WorkerEvent.phaseIntervals, htype, hstart, hend]
      | some endNs =>
        cases hphase : workerEvent.truthyPhase ev.phase with
        | none =>
          -- an empty name is no phase
          have hne : ev.phase ≠ some name := by
            intro heq
            simp [workerEvent.truthyPhase, heq, hname] at hphase
          simp [workerEvent, WorkerEvent.phaseIntervals, htype, hstart, hend, hphase, hne]
        | some phaseName =>
          obtain ⟨hev, -⟩ := Option.filter_eq_some_iff.mp hphase
          rw [hev] at hphase
          simp [workerEvent, WorkerEvent.phaseIntervals, htype, hstart, hend, hphase, hev,
            getD_addPhase]
  | gpuExecuteModel =>
    rw [hnone (by simp [htype])]
    simp only [workerEvent, htype]
    split <;> simp
  | workerPreprocessStart =>
    rw [hnone (by simp [htype])]
    simp only [workerEvent, htype]
    split <;> simp
  | _ =>
    -- the older form, in a log with the new one
    rw [hnone (by simp [htype])]
    rcases h with rfl | h
    · simp [workerEvent, workerEvent.spanPhase, htype]
    · simp [WorkerEvent.IsNew, htype] at h

/-- What one event adds to its executions. -/
theorem stepExecution_workerEvent (precise : Bool) :
    (workerEvent precise w ev).stepExecution rid =
      w.stepExecution rid ++ ev.stepExecutions rid := by
  -- only an execution adds one, for every request that it names
  have hnone (hexec : ev.type ≠ .gpuExecuteModel) : ev.stepExecutions rid = [] := by
    unfold WorkerEvent.stepExecutions
    split
    · rw [if_neg hexec]
    · rfl
  cases htype : ev.type with
  | gpuExecuteModel =>
    cases hstart : ev.startNs with
    | none => simp [workerEvent, WorkerEvent.stepExecutions, htype, hstart]
    | some startNs =>
      cases hend : ev.endNs with
      | none => simp [workerEvent, WorkerEvent.stepExecutions, htype, hstart, hend]
      | some endNs =>
        simp only [workerEvent, WorkerEvent.stepExecutions, htype, hstart, hend, if_true]
        exact (List.foldl_update_apply (· ++ [_]) _ w.stepExecution rid).trans
          (List.iterate_concat ..)
  | gpuPhaseSpan =>
    rw [hnone (by simp [htype]), List.append_nil]
    simp only [workerEvent, htype]
    split <;> rfl
  -- the state machine does not touch the executions
  | _ =>
    rw [hnone (by simp [htype]), List.append_nil]
    simp only [workerEvent, workerEvent.spanPhase, htype]
    repeat' split
    all_goals rfl

/-- What a list of events adds to the phases. -/
theorem getD_phaseIntervals_foldl {precise : Bool} {events : List WorkerEvent} (hname : name ≠ "")
    (h : ∀ ev ∈ events, precise = true ∨ ev.IsNew) (w : WorkerIntervals) :
    ((events.foldl (workerEvent precise) w).phaseIntervals rid).getD name [] =
      (w.phaseIntervals rid).getD name [] ++
        events.flatMap (WorkerEvent.phaseIntervals rid name) := by
  induction events generalizing w with
  | nil => simp
  | cons ev events ih =>
    rw [List.foldl_cons, ih fun ev' hev' => h ev' (List.mem_cons_of_mem _ hev'),
      getD_phaseIntervals_workerEvent w ev hname (h ev List.mem_cons_self), List.flatMap_cons,
      List.append_assoc]

/-- What a list of events adds to the executions. -/
theorem stepExecution_foldl (precise : Bool) (events : List WorkerEvent) (w : WorkerIntervals) :
    (events.foldl (workerEvent precise) w).stepExecution rid =
      w.stepExecution rid ++ events.flatMap (WorkerEvent.stepExecutions rid) := by
  induction events generalizing w with
  | nil => simp
  | cons ev events ih =>
    rw [List.foldl_cons, ih, stepExecution_workerEvent, List.flatMap_cons, List.append_assoc]

/-- The intervals of a phase, in a log whose phases of the older form come with the new one. -/
theorem phaseIntervals_collect {events : List WorkerEvent} (hname : name ≠ "")
    (h : (∃ ev ∈ events, ev.type = .gpuPhaseSpan) ∨ ∀ ev ∈ events, ev.IsNew) :
    ((collectWorkerIntervals events).phaseIntervals rid).getD name [] =
      (events.sortBy fun ev => ev.ts.getD 0).flatMap (WorkerEvent.phaseIntervals rid name) := by
  refine (getD_phaseIntervals_foldl hname (fun ev hev => ?_) {}).trans (List.nil_append _)
  rw [List.mem_sortBy] at hev
  rcases h with ⟨span, hspan, htype⟩ | h
  · exact .inl (List.any_eq_true.mpr ⟨span, hspan, by simpa using htype⟩)
  · exact .inr (h ev hev)

/-- The executions of all events, in time order. -/
theorem stepExecution_collect (events : List WorkerEvent) :
    (collectWorkerIntervals events).stepExecution rid =
      (events.sortBy fun ev => ev.ts.getD 0).flatMap (WorkerEvent.stepExecutions rid) :=
  (stepExecution_foldl _ _ {}).trans (List.nil_append _)

variable {ev}

/-- A phase starts at its event's time. -/
theorem startNs_of_mem_phaseIntervals {i : PhaseInterval}
    (h : i ∈ ev.phaseIntervals rid name) : i.startNs = ev.ts.getD 0 := by
  unfold WorkerEvent.phaseIntervals at h
  split at h
  · next startNs endNs hstart hend =>
    split at h
    · obtain ⟨-, rfl⟩ := List.mem_replicate.mp h
      simp [WorkerEvent.ts, hstart]
    · cases h
  · cases h

/-- An execution starts at its event's time. -/
theorem startNs_of_mem_stepExecutions {e : StepExecution}
    (h : e ∈ ev.stepExecutions rid) : e.startNs = ev.ts.getD 0 := by
  unfold WorkerEvent.stepExecutions at h
  split at h
  · next startNs endNs hstart hend =>
    split at h
    · obtain ⟨-, rfl⟩ := List.mem_replicate.mp h
      simp [WorkerEvent.ts, hstart]
    · cases h
  · cases h

/-- What sorted events add is sorted, if it starts when they do. -/
theorem pairwise_flatMap_sortBy {α : Type} (events : List WorkerEvent) {f : WorkerEvent → List α}
    {start : α → ℤ} (h : ∀ ev, ∀ a ∈ f ev, start a = ev.ts.getD 0) :
    ((events.sortBy fun ev => ev.ts.getD 0).flatMap f).Pairwise (start · ≤ start ·) := by
  refine List.pairwise_flatMap.mpr ⟨fun ev _ => ?_, ?_⟩
  · exact List.pairwise_of_forall_mem_list fun a ha b hb => by rw [h ev a ha, h ev b hb]
  · refine (List.pairwise_sortBy (fun ev : WorkerEvent => ev.ts.getD 0) events).imp ?_
    intro ev ev' hle a ha b hb
    rw [h ev a ha, h ev' b hb]
    exact hle

end Loop

/-! ## The log -/

section Log

/-- The payload of a worker event, as it was sent. -/
def LogEntry.worker? (entry : LogEntry) : Option WorkerEvent :=
  match entry.event with
  | .worker ev => some ev
  | _ => none

/-- The event as the converter takes it out of the entry. -/
def LogEntry.fill (entry : LogEntry) (ev : WorkerEvent) : WorkerEvent :=
  { ev with
    timestampNs := fillTimestamp ev.timestampNs entry.timestampNs
    reqIds := normalizeRequestIds ev.reqIds }

/-- The worker events of a log, entry by entry. -/
theorem workerEvents_eq (log : Log) :
    log.workerEvents = log.filterMap fun entry => entry.worker?.map entry.fill := by
  refine List.filterMap_congr fun entry _ => ?_
  obtain ⟨timestampNs, event⟩ := entry
  cases event <;> rfl

/-- Normalizing ids twice is normalizing once. -/
theorem normalizeRequestIds_idem (rids : List String) :
    normalizeRequestIds (normalizeRequestIds rids) = normalizeRequestIds rids := by
  refine normalizeRequestIds_eq_self fun rid hrid => ?_
  obtain ⟨raw, -, hraw⟩ := List.mem_filterMap.mp hrid
  exact normalizeRequestId_of_eq_some hraw

/-- What the events of a log add does not depend on how the converter fills them in. -/
theorem flatMap_workerEvents {α : Type} {f : WorkerEvent → List α}
    (h : ∀ (entry : LogEntry) ev, f (entry.fill ev) = f ev) (log : Log) :
    log.workerEvents.flatMap f = (log.filterMap LogEntry.worker?).flatMap f := by
  rw [workerEvents_eq, List.filterMap_eq_flatMap_toList, List.filterMap_eq_flatMap_toList,
    List.flatMap_assoc, List.flatMap_assoc]
  refine List.flatMap_congr fun entry _ => ?_
  cases hworker : entry.worker? with
  | none => rfl
  | some ev => simp [h]

/-- The entry's own fields do not matter to the phases. -/
theorem phaseIntervals_fill (rid name : String) (entry : LogEntry) (ev : WorkerEvent) :
    (entry.fill ev).phaseIntervals rid name = ev.phaseIntervals rid name := by
  simp only [WorkerEvent.phaseIntervals, LogEntry.fill, normalizeRequestIds_idem]

/-- The entry's own fields do not matter to the executions. -/
theorem stepExecutions_fill (rid : String) (entry : LogEntry) (ev : WorkerEvent) :
    (entry.fill ev).stepExecutions rid = ev.stepExecutions rid := by
  simp only [WorkerEvent.stepExecutions, LogEntry.fill, normalizeRequestIds_idem]

end Log

/-! ## The reports of a worker -/

section Reports

variable {hexdigest : List Char → List Char} {pid : ℕ} {tid : τ → ℕ}

/-- An event of the older form comes with the phase in the new form. -/
def NewWithOld (events : List GpuEvent) : Prop :=
  ∀ e ∈ events, ∀ ev, e.toWorkerEvent = some ev → ¬ev.IsNew → ∃ span, .gpuPhaseSpan span ∈ events

/-- Two lists whose older events come with new ones make one such list. -/
theorem NewWithOld.append {events events' : List GpuEvent} (h : NewWithOld events)
    (h' : NewWithOld events') : NewWithOld (events ++ events') := by
  intro e he ev hev hold
  rcases List.mem_append.mp he with he | he
  · obtain ⟨span, hspan⟩ := h e he ev hev hold
    exact ⟨span, List.mem_append_left _ hspan⟩
  · obtain ⟨span, hspan⟩ := h' e he ev hev hold
    exact ⟨span, List.mem_append_right _ hspan⟩

/-- What opening a call reports in the older form it reports in the new one too. -/
theorem newWithOld_open (t : τ) (m : Moment ρ) (call : GpuCall ρ) :
    NewWithOld (call.open hexdigest pid tid t m).2 := by
  intro e he ev hev hold
  cases call with
  -- only the worker's entry reports on entry, and its event is of the new kind
  | workerExecuteModel cfg modelRunner so =>
    simp only [GpuCall.open] at he
    split at he
    · cases he
    · obtain rfl := List.mem_singleton.mp he
      obtain rfl := Option.some.inj hev
      exact absurd (.inl rfl) hold
  | _ => simp [GpuCall.open] at he

/-- What closing a call reports in the older form it reports in the new one too. -/
theorem newWithOld_close (t : τ) (m : Moment ρ) (result : Option PyObj)
    (around : List (OpenCall ρ)) (c : OpenCall ρ) :
    NewWithOld (c.close pid tid t m result around) := by
  intro e he ev hev hold
  obtain ⟨w, batch⟩ := c
  cases w with
  | plain => cases he
  | worker ctx startMono =>
    simp only [OpenCall.close] at he
    split at he
    · cases he
    · obtain rfl := List.mem_singleton.mp he
      cases hev
  | runner ctx startNs =>
    obtain rfl := List.mem_singleton.mp he
    obtain rfl := Option.some.inj hev
    exact absurd (.inr (.inl rfl)) hold
  | phase name startNs =>
    simp only [OpenCall.close] at he ⊢
    split at he
    · cases he
    · -- the phase itself comes before its events of the older form
      exact ⟨_, List.mem_cons_self ..⟩
  | ppComm op group peer tensorDict startNs =>
    obtain rfl := List.mem_singleton.mp he
    cases hev

/-- The data of a report that names a request. -/
theorem WorkerProcess.executes_of_from {p : WorkerProcess τ ρ} {t : τ} {runner : Option ρ}
    {key rid : String} {reqIds : List String}
    (h : FromExecution hexdigest p.steps t runner key reqIds) (hrid : rid ∈ reqIds) :
    ∃ so, p.Executes rid so ∧ key = so.makeDispatchKey hexdigest := by
  obtain ⟨st, hst, hthread, hrunner, so, hso, hkey, hreqs⟩ := h.entered
  refine ⟨so, ⟨st, hst, hso, ?_⟩, hkey⟩
  rcases hreqs with rfl | ⟨-, st', hst', hthread', r, hr, rfl⟩
  · exact .inl hrid
  · exact .inr ⟨st', hst', hthread'.trans hthread.symm, r, hrunner.trans hr, hrid⟩

variable [DecidableEq τ]

/-- What a whole run reports in the older form it reports in the new one too. -/
theorem newWithOld_run (steps : List (GpuStep τ ρ)) :
    NewWithOld ((LexicalThreads.run hexdigest pid tid steps).emitted.map Prod.snd) := by
  induction steps using List.reverseRecOn with
  | nil => simp [LexicalThreads.run, NewWithOld]
  | append_singleton steps st ih =>
    rw [LexicalThreads.run, List.foldl_concat]
    change NewWithOld ((LexicalThreads.step hexdigest pid tid
      (LexicalThreads.run hexdigest pid tid steps) st).emitted.map Prod.snd)
    -- what the step reports does not depend on what was reported before
    generalize LexicalThreads.run hexdigest pid tid steps = l at ih ⊢
    cases st with
    | enter t call m =>
      simp only [LexicalThreads.step, List.map_append, List.map_map, Function.comp_def,
        List.map_id']
      exact ih.append (newWithOld_open t m call)
    | leave t m result =>
      simp only [LexicalThreads.step]
      split
      · exact ih
      · simp only [List.map_append, List.map_map, Function.comp_def, List.map_id']
        exact ih.append (newWithOld_close t m result _ _)

variable {p : WorkerProcess τ ρ}

/-- A worker reports what the lexical run of its calls reports. -/
theorem WorkerProcess.reports_eq : p.reports hexdigest = p.lexicalReports hexdigest :=
  congrArg (List.map Prod.snd) (GpuThreads.Agrees.run p.steps).emitted

/-- Every report comes from a call of one of its threads. -/
theorem WorkerProcess.sourced_of_mem {e : GpuEvent} (he : e ∈ p.lexicalReports hexdigest) :
    ∃ t, e.Sourced hexdigest p.steps t := by
  obtain ⟨⟨t, e⟩, hte, rfl⟩ := List.mem_map.mp he
  exact ⟨t, (sourced_run p.steps).events t e hte⟩

/-- What the reports of a worker add in the converter. -/
theorem WorkerProcess.flatMap_phaseIntervals (rid name : String) :
    ((p.lexicalReports hexdigest).filterMap GpuEvent.toWorkerEvent).flatMap
        (WorkerEvent.phaseIntervals rid name) =
      (p.lexicalReports hexdigest).flatMap (GpuEvent.phaseIntervals rid name) := by
  rw [List.filterMap_eq_flatMap_toList, List.flatMap_assoc]
  refine List.flatMap_congr fun e he => ?_
  cases e with
  -- the reported ids are normal forms, so the log reads them back unchanged
  | gpuPhaseSpan span =>
    obtain ⟨t, runner, hfrom⟩ := p.sourced_of_mem he
    have hids := normalizeRequestIds_eq_self hfrom.normalised
    simp [GpuEvent.toWorkerEvent, GpuPhaseSpan.toLog, WorkerEvent.phaseIntervals,
      GpuEvent.phaseIntervals, GpuPhaseSpan.interval, hids]
  | _ => simp [GpuEvent.toWorkerEvent, WorkerEvent.phaseIntervals, GpuEvent.phaseIntervals]

/-- The log keeps what a report says of its executions. -/
theorem WorkerProcess.flatMap_stepExecutions (rid : String) :
    ((p.lexicalReports hexdigest).filterMap GpuEvent.toWorkerEvent).flatMap
        (WorkerEvent.stepExecutions rid) =
      (p.lexicalReports hexdigest).flatMap (GpuEvent.stepExecutions rid) := by
  rw [List.filterMap_eq_flatMap_toList, List.flatMap_assoc]
  refine List.flatMap_congr fun e he => ?_
  cases e with
  -- the reported ids are normal forms, so the log reads them back unchanged
  | gpuExecuteModel pid tid ranks batchSize inputType reqIds dispatchKey startNs endNs =>
    obtain ⟨t, runner, hfrom⟩ := p.sourced_of_mem he
    have hids := normalizeRequestIds_eq_self hfrom.normalised
    simp [GpuEvent.toWorkerEvent, WorkerEvent.stepExecutions, GpuEvent.stepExecutions, hids]
  | _ => simp [GpuEvent.toWorkerEvent, GpuPhaseSpan.toLog, WorkerEvent.stepExecutions,
      GpuEvent.stepExecutions]

end Reports

/-! ## From a worker to the request -/

section Runs

variable [DecidableEq τ] {hexdigest : List Char → List Char} {procs : List (WorkerProcess τ ρ)}
  {log : Log}

/-- An interval with this key was run for the request in an execution, and it matches the
    dispatches of the same step, but for a collision of the digests. -/
def MatchesItsStep (hexdigest : List Char → List Char) (procs : List (WorkerProcess τ ρ))
    (rid : String) (key : Option String) : Prop :=
  ∃ p ∈ procs, ∃ so, p.Executes rid so ∧ ∀ so' : SchedulerOutput,
    dispatchKeyMatches (some (so'.makeDispatchKey hexdigest)) key = true ↔
      so'.SameStep so ∨ SchedulerOutput.Collide hexdigest so'.dispatchText so.dispatchText

omit [DecidableEq τ] in
/-- The key of a step that a worker executes matches that step. -/
theorem MatchesItsStep.of_executes {p : WorkerProcess τ ρ} (hp : p ∈ procs) {rid : String}
    {so : SchedulerOutput} (h : p.Executes rid so) :
    MatchesItsStep hexdigest procs rid (some (so.makeDispatchKey hexdigest)) := by
  refine ⟨p, hp, so, h, fun so' => ?_⟩
  have htruthy (so : SchedulerOutput) : truthyKey (some (so.makeDispatchKey hexdigest)) =
      some (so.makeDispatchKey hexdigest) := by
    simp [truthyKey, SchedulerOutput.makeDispatchKey]
  simp only [dispatchKeyMatches, htruthy, decide_eq_true_eq]
  exact ⟨SchedulerOutput.sameStep_or_collide, SchedulerOutput.makeDispatchKey_congr⟩

omit [DecidableEq τ] in
/-- A report from an execution of the process, that names the request. -/
theorem MatchesItsStep.of_from {p : WorkerProcess τ ρ} (hp : p ∈ procs) {t : τ}
    {runner : Option ρ} {key rid : String} {reqIds : List String}
    (h : FromExecution hexdigest p.steps t runner key reqIds) (hrid : reqIds.count rid ≠ 0) :
    MatchesItsStep hexdigest procs rid (some key) := by
  have hmem : rid ∈ reqIds := List.count_pos_iff.mp (Nat.pos_of_ne_zero hrid)
  obtain ⟨so, hso, rfl⟩ := WorkerProcess.executes_of_from h hmem
  exact .of_executes hp hso

/-- The key of every phase matches the step that it came from. -/
theorem MatchesItsStep.of_phaseIntervals {p : WorkerProcess τ ρ} (hp : p ∈ procs) {e : GpuEvent}
    (he : e ∈ p.lexicalReports hexdigest) {rid name : String} {i : PhaseInterval}
    (hi : i ∈ e.phaseIntervals rid name) : MatchesItsStep hexdigest procs rid i.dispatchKey := by
  cases e with
  | gpuPhaseSpan span =>
    simp only [GpuEvent.phaseIntervals] at hi
    split at hi
    · obtain ⟨hcount, rfl⟩ := List.mem_replicate.mp hi
      obtain ⟨t, runner, hfrom⟩ := p.sourced_of_mem he
      exact .of_from hp hfrom hcount
    · cases hi
  -- every other report carries no phase
  | _ => cases hi

/-- The key of every execution matches the step that it came from. -/
theorem MatchesItsStep.of_stepExecutions {p : WorkerProcess τ ρ} (hp : p ∈ procs) {e : GpuEvent}
    (he : e ∈ p.lexicalReports hexdigest) {rid : String} {x : StepExecution}
    (hx : x ∈ e.stepExecutions rid) : MatchesItsStep hexdigest procs rid x.dispatchKey := by
  cases e with
  | gpuExecuteModel pid tid ranks batchSize inputType reqIds dispatchKey startNs endNs =>
    obtain ⟨hcount, rfl⟩ := List.mem_replicate.mp hx
    obtain ⟨t, runner, hfrom⟩ := p.sourced_of_mem he
    exact .of_from hp hfrom hcount
  | _ => cases hx

/-- The log has the worker events of the processes, in some order. -/
def LogsWorkers (hexdigest : List Char → List Char) (procs : List (WorkerProcess τ ρ))
    (log : Log) : Prop :=
  (log.filterMap LogEntry.worker?).Perm
    (procs.flatMap fun p => (p.reports hexdigest).filterMap GpuEvent.toWorkerEvent)

/-- The log holds the workers' reports in some order. -/
theorem LogsWorkers.perm (h : LogsWorkers hexdigest procs log) :
    (log.filterMap LogEntry.worker?).Perm
      (procs.flatMap fun p => (p.lexicalReports hexdigest).filterMap GpuEvent.toWorkerEvent) := by
  rw [LogsWorkers] at h
  simpa only [WorkerProcess.reports_eq] using h

/-- Where the log has an event of the older form, it has a phase in the new one. -/
theorem LogsWorkers.newWithOld (h : LogsWorkers hexdigest procs log) :
    (∃ ev ∈ log.workerEvents, ev.type = .gpuPhaseSpan) ∨ ∀ ev ∈ log.workerEvents, ev.IsNew := by
  by_cases hall : ∀ ev ∈ log.workerEvents, ev.IsNew
  · exact .inr hall
  push Not at hall
  obtain ⟨ev, hev, hold⟩ := hall
  rw [workerEvents_eq] at hev ⊢
  obtain ⟨entry, hentry, hfill⟩ := List.mem_filterMap.mp hev
  obtain ⟨raw, hraw, rfl⟩ := Option.map_eq_some_iff.mp hfill
  have hmem := h.perm.subset (List.mem_filterMap.mpr ⟨entry, hentry, hraw⟩)
  obtain ⟨p, hp, hrawp⟩ := List.mem_flatMap.mp hmem
  obtain ⟨e, he, heraw⟩ := List.mem_filterMap.mp hrawp
  obtain ⟨span, hspan⟩ := newWithOld_run p.steps e he raw heraw hold
  -- the phase is in the log as well
  have hlogged : span.toLog ∈ log.filterMap LogEntry.worker? :=
    h.perm.symm.subset (List.mem_flatMap.mpr ⟨p, hp, List.mem_filterMap.mpr ⟨_, hspan, rfl⟩⟩)
  obtain ⟨entry', hentry', hspan'⟩ := List.mem_filterMap.mp hlogged
  exact .inl ⟨_, List.mem_filterMap.mpr ⟨entry', hentry', congrArg _ hspan'⟩, rfl⟩

/-- The events of the log add what the reports do, in some order. -/
theorem LogsWorkers.flatMap_perm (h : LogsWorkers hexdigest procs log) {α : Type}
    {f : WorkerEvent → List α} {g : GpuEvent → List α}
    (hfill : ∀ (entry : LogEntry) ev, f (entry.fill ev) = f ev)
    (hreports : ∀ p : WorkerProcess τ ρ,
      ((p.lexicalReports hexdigest).filterMap GpuEvent.toWorkerEvent).flatMap f =
        (p.lexicalReports hexdigest).flatMap g) :
    ((log.workerEvents.sortBy fun ev => ev.ts.getD 0).flatMap f).Perm
      (procs.flatMap fun p => (p.lexicalReports hexdigest).flatMap g) := by
  refine ((List.sortBy_perm _ _).flatMap_right f).trans ?_
  -- what the header line fills in does not matter to `f`
  rw [flatMap_workerEvents hfill]
  -- the log holds the workers' reports in some order
  refine (h.perm.flatMap_right f).trans (.of_eq ?_)
  rw [List.flatMap_assoc]
  exact List.flatMap_congr fun p _ => hreports p

/-- The intervals of a phase in the log are those in the reports, in some order. -/
theorem LogsWorkers.perm_phaseIntervals (h : LogsWorkers hexdigest procs log) (rid : String)
    {name : String} (hname : name ≠ "") :
    (((collectWorkerIntervals log.workerEvents).phaseIntervals rid).getD name []).Perm
      (procs.flatMap fun p =>
        (p.lexicalReports hexdigest).flatMap (GpuEvent.phaseIntervals rid name)) := by
  rw [phaseIntervals_collect hname h.newWithOld]
  exact h.flatMap_perm (phaseIntervals_fill rid name) fun p => p.flatMap_phaseIntervals rid name

/-- The log holds the workers' executions in some order. -/
theorem LogsWorkers.perm_stepExecution (h : LogsWorkers hexdigest procs log) (rid : String) :
    ((collectWorkerIntervals log.workerEvents).stepExecution rid).Perm
      (procs.flatMap fun p =>
        (p.lexicalReports hexdigest).flatMap (GpuEvent.stepExecutions rid)) := by
  rw [stepExecution_collect]
  exact h.flatMap_perm (stepExecutions_fill rid) fun p => p.flatMap_stepExecutions rid

/-- End to end, for any workers and any order of the steps of their threads, with their reports
    in the log in any order: the phases that a request is charged with are those that ended
    inside executions with the request, each once, and so are its executions; each was run for
    a step that took the request in, or with the request in the batch of its runner, and
    matches the dispatches of that step. -/
theorem stepPhases_of_runs (h : LogsWorkers hexdigest procs log) (rid : String) :
    let w := collectWorkerIntervals log.workerEvents
    (∀ name ∈ gpuPhaseScopeNames,
      ((w.phaseIntervals rid).getD name []).Perm (procs.flatMap fun p =>
        (p.lexicalReports hexdigest).flatMap (GpuEvent.phaseIntervals rid name)) ∧
      ((w.phaseIntervals rid).getD name []).Pairwise (·.startNs ≤ ·.startNs) ∧
      ∀ i ∈ (w.phaseIntervals rid).getD name [],
        MatchesItsStep hexdigest procs rid i.dispatchKey) ∧
    (w.stepExecution rid).Perm (procs.flatMap fun p =>
      (p.lexicalReports hexdigest).flatMap (GpuEvent.stepExecutions rid)) ∧
    (w.stepExecution rid).Pairwise (·.startNs ≤ ·.startNs) ∧
    ∀ e ∈ w.stepExecution rid, MatchesItsStep hexdigest procs rid e.dispatchKey := by
  intro w
  refine ⟨fun name hname => ?_, h.perm_stepExecution rid, ?_, fun e he => ?_⟩
  · have hne : name ≠ "" := by
      rintro rfl
      exact absurd hname (by decide)
    refine ⟨h.perm_phaseIntervals rid hne, ?_, fun i hi => ?_⟩
    · -- each phase starts when its report does, and the loop takes the reports by that time
      show (((collectWorkerIntervals log.workerEvents).phaseIntervals rid).getD name []).Pairwise _
      rw [phaseIntervals_collect hne h.newWithOld]
      exact pairwise_flatMap_sortBy _ fun ev i hi => startNs_of_mem_phaseIntervals hi
    · have hreports := (h.perm_phaseIntervals rid hne).subset hi
      obtain ⟨p, hp, hreports⟩ := List.mem_flatMap.mp hreports
      obtain ⟨event, hevent, hi⟩ := List.mem_flatMap.mp hreports
      exact .of_phaseIntervals hp hevent hi
  · show ((collectWorkerIntervals log.workerEvents).stepExecution rid).Pairwise _
    rw [stepExecution_collect]
    exact pairwise_flatMap_sortBy _ fun ev e he => startNs_of_mem_stepExecutions he
  · have hreports := (h.perm_stepExecution rid).subset he
    obtain ⟨p, hp, hreports⟩ := List.mem_flatMap.mp hreports
    obtain ⟨event, hevent, he⟩ := List.mem_flatMap.mp hreports
    exact .of_stepExecutions hp hevent he

end Runs

/-- A forward pass of one request, with the execution around it. -/
def forwardWorker : WorkerProcess ℕ Unit where
  pid := 1
  tid := id
  steps := [.enter 0 (.runnerExecuteModel none () {
      scheduledNewReqs := .value [some { item := { requestId := .value "r", text := "" } }] })
      { timeNs := 10, monoNs := 1 },
    .enter 0 (.phase "Forward") { timeNs := 20, monoNs := 2 },
    .leave 0 { timeNs := 30, monoNs := 3 } none,
    .leave 0 { timeNs := 40, monoNs := 4 } none]

/-- Its reports. -/
def forwardLog : Log :=
  ((forwardWorker.reports id).filterMap GpuEvent.toWorkerEvent).map fun ev =>
    { event := .worker ev }

/-- One worker, one forward pass. -/
theorem stepPhases_of_runs_forwardWorker :
    let w := collectWorkerIntervals forwardLog.workerEvents
    ((w.phaseIntervals "r").getD "Forward" []).map (fun i => (i.startNs, i.endNs)) = [(20, 30)] ∧
      (w.stepExecution "r").map (fun e => (e.startNs, e.endNs)) = [(10, 40)] := by
  -- the log is the report list of one worker, line by line
  have hlog : LogsWorkers id [forwardWorker] forwardLog := by
    refine .of_eq ?_
    rw [forwardLog, List.filterMap_map, List.flatMap_singleton]
    exact List.filterMap_some
  obtain ⟨hphases, hsteps, -⟩ := stepPhases_of_runs hlog "r"
  refine ⟨?_, ?_⟩
  · obtain ⟨hperm, -⟩ := hphases "Forward" (by decide)
    exact List.perm_singleton.mp (hperm.map _)
  · exact List.perm_singleton.mp (hsteps.map _)

end DeLatency
