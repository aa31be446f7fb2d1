import DeLatency.Converter.PpComm
import DeLatency.Spec.DispatchKey
import DeLatency.Spec.GpuExec

/-!
# From a transfer to its requests

A transfer is reported with the dispatch key and the requests of the execution it was made in,
and the converter infers what a report does not name.  Between the two
(`ppCommSpan_attribution`): nothing is inferred about a transfer of an execution that has
requests.
-/

namespace DeLatency

variable {τ ρ : Type}

/-! ## Where a context comes from -/

/-- A thread enters an `execute_model` with this output of the scheduler. -/
def GpuStep.executes : GpuStep τ ρ → Option SchedulerOutput
  | .enter _ (.workerExecuteModel _ _ so) _ => some so
  | .enter _ (.runnerExecuteModel _ _ so) _ => some so
  | _ => none

/-- The model runner of an `execute_model`. -/
def GpuStep.runner : GpuStep τ ρ → Option ρ
  | .enter _ (.workerExecuteModel _ modelRunner _) _ => modelRunner
  | .enter _ (.runnerExecuteModel _ runner _) _ => some runner
  | _ => none

/-- The requests of an execution: those of its step, or those that its thread has seen in the
    input batch of its runner, which never replaces them by none. -/
def ReqIdsOf (steps : List (GpuStep τ ρ)) (t : τ) (runner : Option ρ) (so : SchedulerOutput)
    (reqIds : List String) : Prop :=
  reqIds = so.extractReqIds ∨ reqIds ≠ [] ∧ ∃ st ∈ steps, st.thread = t ∧
    ∃ r, runner = some r ∧ reqIds = normalizeReqIds (st.moment.inputBatch r)

/-- The dispatch key and the requests of an execution that the thread has entered. -/
structure FromExecution (hexdigest : List Char → List Char) (steps : List (GpuStep τ ρ)) (t : τ)
    (runner : Option ρ) (dispatchKey : String) (reqIds : List String) : Prop where
  entered : ∃ st ∈ steps, st.thread = t ∧ st.runner = runner ∧ ∃ so, st.executes = some so ∧
    dispatchKey = so.makeDispatchKey hexdigest ∧ ReqIdsOf steps t runner so reqIds
  normalised : ∀ rid ∈ reqIds, normalizeRequestId rid = some rid

/-- A transfer has the data of an execution, or none. -/
def PpCommPayload.Sourced (hexdigest : List Char → List Char) (steps : List (GpuStep τ ρ)) (t : τ)
    (p : PpCommPayload) : Prop :=
  (∃ runner key, p.dispatchKey = some key ∧
    FromExecution hexdigest steps t runner key p.reqIds) ∨ (p.dispatchKey = none ∧ p.reqIds = [])

/-- The events that name a step and requests have them from an execution. -/
def GpuEvent.Sourced (hexdigest : List Char → List Char) (steps : List (GpuStep τ ρ)) (t : τ) :
    GpuEvent → Prop
  | .ppCommSpan p => p.Sourced hexdigest steps t
  | .gpuPhaseSpan span =>
    ∃ runner, FromExecution hexdigest steps t runner span.dispatchKey span.reqIds
  | .gpuExecuteModel _ _ _ _ _ reqIds dispatchKey _ _ =>
    ∃ runner, FromExecution hexdigest steps t runner dispatchKey reqIds
  | _ => True

section Sources

variable {hexdigest : List Char → List Char} {pid : ℕ} {tid : τ → ℕ}
  {steps : List (GpuStep τ ρ)} {t : τ}

/-- An execution whose step has requests is never without. -/
theorem ReqIdsOf.ne_nil {runner : Option ρ} {so : SchedulerOutput} {reqIds : List String}
    (h : ReqIdsOf steps t runner so reqIds) (hso : so.extractReqIds ≠ []) : reqIds ≠ [] := by
  rcases h with rfl | ⟨hne, -⟩
  · exact hso
  · exact hne

/-- A further step takes no requests back. -/
theorem ReqIdsOf.concat {runner : Option ρ} {so : SchedulerOutput} {reqIds : List String}
    (h : ReqIdsOf steps t runner so reqIds) (st : GpuStep τ ρ) :
    ReqIdsOf (steps ++ [st]) t runner so reqIds := by
  rcases h with h | ⟨hne, seen, hseen, hseent, hbatch⟩
  · exact .inl h
  · exact .inr ⟨hne, seen, List.mem_append_left _ hseen, hseent, hbatch⟩

/-- What comes from an execution comes from it after further steps too. -/
theorem FromExecution.concat {runner : Option ρ} {key : String} {reqIds : List String}
    (h : FromExecution hexdigest steps t runner key reqIds) (st : GpuStep τ ρ) :
    FromExecution hexdigest (steps ++ [st]) t runner key reqIds := by
  obtain ⟨⟨st', hmem, ht, hrunner, so, hso, hkey, hreqs⟩, hnorm⟩ := h
  exact ⟨⟨st', List.mem_append_left _ hmem, ht, hrunner, so, hso, hkey, hreqs.concat st⟩, hnorm⟩

/-- A context has its data from an execution. -/
def ExecContext.Sourced (hexdigest : List Char → List Char) (steps : List (GpuStep τ ρ)) (t : τ)
    (ctx : ExecContext ρ) : Prop :=
  FromExecution hexdigest steps t ctx.runner ctx.dispatchKey ctx.reqIds

/-- Refreshing a context at a step of its thread keeps it that execution's. -/
theorem ExecContext.Sourced.refresh {ctx : ExecContext ρ} (h : ctx.Sourced hexdigest steps t)
    {st : GpuStep τ ρ} (hst : st ∈ steps) (ht : st.thread = t) :
    (ctx.refresh st.moment).Sourced hexdigest steps t := by
  rw [refresh_eq, ExecContext.Sourced]
  cases hbatch : ctx.batchAt st.moment with
  | none => exact h
  | some reqIds =>
    -- an empty input batch is not taken over
    obtain ⟨hids, hne⟩ := Option.filter_eq_some_iff.mp hbatch
    obtain ⟨runner, hrunner, rfl⟩ := Option.map_eq_some_iff.mp hids
    obtain ⟨st', hmem, ht', hrunner', so, hso, hkey, -⟩ := h.entered
    have hseen : ReqIdsOf steps t ctx.runner so (normalizeReqIds (st.moment.inputBatch runner)) :=
      .inr ⟨by simpa using hne, st, hst, ht, runner, hrunner, rfl⟩
    exact ⟨⟨st', hmem, ht', hrunner', so, hso, hkey, hseen⟩,
      fun _ => normalizeRequestId_of_mem_normalizeReqIds⟩

/-- The contexts of a thread's calls come from executions that it has entered. -/
def CallsSourced (hexdigest : List Char → List Char) (steps : List (GpuStep τ ρ)) (t : τ)
    (calls : List (OpenCall ρ)) : Prop :=
  ∀ ctx ∈ calls.filterMap OpenCall.context, ctx.Sourced hexdigest steps t

/-- The calls around a call are sourced with it. -/
theorem CallsSourced.of_cons {c : OpenCall ρ} {around : List (OpenCall ρ)}
    (h : CallsSourced hexdigest steps t (c :: around)) : CallsSourced hexdigest steps t around := by
  intro ctx hctx
  refine h ctx ?_
  rw [List.filterMap_cons]
  split
  · exact hctx
  · exact List.mem_cons_of_mem _ hctx

/-- A further step keeps the open calls sourced. -/
theorem CallsSourced.concat {calls : List (OpenCall ρ)}
    (h : CallsSourced hexdigest steps t calls) (st : GpuStep τ ρ) :
    CallsSourced hexdigest (steps ++ [st]) t calls :=
  fun ctx hctx => FromExecution.concat (h ctx hctx) st

/-- Noting a batch keeps them sourced. -/
theorem CallsSourced.noteBatch {calls : List (OpenCall ρ)}
    (h : CallsSourced hexdigest steps t calls) {st : GpuStep τ ρ} (hst : st ∈ steps)
    (ht : st.thread = t) : CallsSourced hexdigest steps t (noteBatch st.moment calls) := by
  intro ctx hctx
  rw [filterMap_context_noteBatch] at hctx
  rw [CallsSourced] at h
  cases hcalls : calls.filterMap OpenCall.context with
  | nil => simp [hcalls] at hctx
  | cons top rest =>
    rw [hcalls] at h hctx
    -- only the innermost context takes the batch
    rcases List.mem_cons.mp hctx with rfl | hctx
    · exact (h top (List.mem_cons_self ..)).refresh hst ht
    · exact h ctx (List.mem_cons_of_mem _ hctx)

/-- The context of the innermost execution is that execution's. -/
theorem CallsSourced.innermost {calls : List (OpenCall ρ)} {ctx : ExecContext ρ}
    (h : CallsSourced hexdigest steps t calls) (hctx : innermost calls = some ctx) :
    ctx.Sourced hexdigest steps t := by
  rw [← head?_filterMap_context] at hctx
  exact h ctx (List.mem_of_head? hctx)

/-- A transfer reports the execution that it happens in. -/
theorem CallsSourced.transfer {calls : List (OpenCall ρ)}
    (h : CallsSourced hexdigest steps t calls) (op : PpCommOp) (group : GroupCoordinator)
    (peer : Option ℤ) (tensorPayload : Option PyObj) (startNs : ℤ) (m : Moment ρ) (tid : ℕ) :
    (ppCommContextPayload pid tid (DeLatency.innermost calls) op group peer tensorPayload startNs
      m).Sourced hexdigest steps t := by
  cases hctx : DeLatency.innermost calls with
  | none => exact .inr ⟨rfl, rfl⟩
  | some ctx => exact .inl ⟨ctx.runner, ctx.dispatchKey, rfl, h.innermost hctx⟩

/-- The reports of a phase come from its execution. -/
theorem ExecContext.Sourced.phaseEvents {ctx : ExecContext ρ} (h : ctx.Sourced hexdigest steps t)
    {name : String} {startNs : ℤ} {m : Moment ρ} {e : GpuEvent}
    (he : e ∈ phaseEvents ctx name startNs m) : e.Sourced hexdigest steps t := by
  simp only [DeLatency.phaseEvents, legacyGpuPhaseEvents, List.mem_cons] at he
  -- the span carries the context, the legacy events carry no step
  rcases he with rfl | he
  · exact ⟨ctx.runner, h⟩
  · split_ifs at he with hforward hsample hbookkeep
    · rcases List.mem_pair.mp he with rfl | rfl <;> trivial
    · obtain rfl := List.mem_singleton.mp he
      trivial
    · obtain rfl := List.mem_singleton.mp he
      trivial
    · cases he

/-- What opening a call reports has a source. -/
theorem sourced_open {m : Moment ρ} {call : GpuCall ρ} {e : GpuEvent}
    (he : e ∈ (call.open hexdigest pid tid t m).2) : e.Sourced hexdigest steps t := by
  cases call with
  | workerExecuteModel cfg modelRunner so =>
    simp only [GpuCall.open] at he
    split at he
    · cases he
    · obtain rfl := List.mem_singleton.mp he
      trivial
  | _ => simp [GpuCall.open] at he

/-- What closing a call reports has a source. -/
theorem CallsSourced.close {c : OpenCall ρ} {around : List (OpenCall ρ)}
    (h : CallsSourced hexdigest steps t (c :: around)) {st : GpuStep τ ρ} (hst : st ∈ steps)
    (ht : st.thread = t) {result : Option PyObj} {e : GpuEvent}
    (he : e ∈ c.close pid tid t st.moment result around) : e.Sourced hexdigest steps t := by
  obtain ⟨w, batch⟩ := c
  cases w with
  | plain => simp [OpenCall.close] at he
  | worker ctx startMono =>
    simp only [OpenCall.close] at he
    split at he
    · cases he
    · obtain rfl := List.mem_singleton.mp he
      trivial
  | runner ctx startNs =>
    obtain rfl := List.mem_singleton.mp he
    -- the report has the context as it is when the execution ends
    have hown := (h _ (by simp [OpenCall.context, Wrapper.ctx]) :
      ExecContext.Sourced hexdigest steps t { ctx with reqIds := batch.getD ctx.reqIds })
    have hleft := hown.refresh hst ht
    rw [refresh_eq] at hleft
    refine ⟨ctx.runner, ?_⟩
    simpa [OpenCall.note, Wrapper.ctx, ExecContext.batchAt, Option.getD_or, ExecContext.Sourced]
      using hleft
  | phase name startNs =>
    simp only [OpenCall.close] at he
    split at he
    · cases he
    · next ctx hctx => exact ((h.of_cons.noteBatch hst ht).innermost hctx).phaseEvents he
  | ppComm op group peer tensorDict startNs =>
    obtain rfl := List.mem_singleton.mp he
    exact h.of_cons.transfer op group peer _ startNs st.moment (tid t)

/-- Leaving a call keeps the calls around it sourced. -/
theorem CallsSourced.leaveTo {c : OpenCall ρ} {around : List (OpenCall ρ)}
    (h : CallsSourced hexdigest steps t around) {st : GpuStep τ ρ} (hst : st ∈ steps)
    (ht : st.thread = t) : CallsSourced hexdigest steps t (c.leaveTo st.moment around) := by
  obtain ⟨w, batch⟩ := c
  cases w with
  | phase name startNs => exact h.noteBatch hst ht
  | _ => exact h

/-- An execution that is entered. -/
theorem sourced_makeExecContext (st : GpuStep τ ρ) {so : SchedulerOutput}
    (hst : st.executes = some so) (ht : st.thread = t) (cfg : Option ParallelConfig)
    (m : Moment ρ) (tid : ℕ) :
    (makeExecContext hexdigest pid tid cfg st.runner so m).Sourced hexdigest (steps ++ [st]) t :=
  ⟨⟨st, by simp, ht, rfl, so, hst, rfl, .inl rfl⟩,
    fun _ => normalizeRequestId_of_mem_extractReqIds⟩

/-- Entering a call puts one more sourced call on top. -/
theorem CallsSourced.cons_open {calls : List (OpenCall ρ)}
    (h : CallsSourced hexdigest steps t calls) (m : Moment ρ) (call : GpuCall ρ) :
    CallsSourced hexdigest (steps ++ [.enter t call m]) t
      ({ wrapper := (call.open hexdigest pid tid t m).1 } :: calls) := by
  -- the calls around stay sourced; only an execution adds a context
  have hold := h.concat (.enter t call m)
  intro ctx hctx
  cases call with
  | workerExecuteModel cfg modelRunner so =>
    rcases List.mem_cons.mp hctx with rfl | hctx
    · exact sourced_makeExecContext (.enter t (.workerExecuteModel cfg modelRunner so) m)
        rfl rfl cfg m (tid t)
    · exact hold ctx hctx
  | runnerExecuteModel cfg runner so =>
    rcases List.mem_cons.mp hctx with rfl | hctx
    · exact sourced_makeExecContext (.enter t (.runnerExecuteModel cfg runner so) m)
        rfl rfl cfg m (tid t)
    · exact hold ctx hctx
  | phase name =>
    rw [List.filterMap_cons_none] at hctx
    · exact hold ctx hctx
    · simp only [OpenCall.context, GpuCall.open]
      split <;> rfl
  | ppComm op group peer tensorDict =>
    rw [List.filterMap_cons_none] at hctx
    · exact hold ctx hctx
    · simp only [OpenCall.context, GpuCall.open]
      split <;> rfl

/-- A report keeps its source over further steps. -/
theorem GpuEvent.Sourced.concat {e : GpuEvent} (h : e.Sourced hexdigest steps t)
    (st : GpuStep τ ρ) : e.Sourced hexdigest (steps ++ [st]) t := by
  cases e with
  -- either the span's step is there already, or it had none
  | ppCommSpan p =>
    rcases h with ⟨runner, key, hkey, hfrom⟩ | h
    · exact .inl ⟨runner, key, hkey, hfrom.concat st⟩
    · exact .inr h
  | gpuPhaseSpan span =>
    obtain ⟨runner, hfrom⟩ := h
    exact ⟨runner, hfrom.concat st⟩
  | gpuExecuteModel =>
    obtain ⟨runner, hfrom⟩ := h
    exact ⟨runner, hfrom.concat st⟩
  | _ => trivial

variable [DecidableEq τ]

/-- What the threads have and have emitted comes from the executions of `steps`. -/
structure LexicalThreads.Sourced (hexdigest : List Char → List Char) (steps : List (GpuStep τ ρ))
    (l : LexicalThreads τ ρ) : Prop where
  calls : ∀ t, CallsSourced hexdigest steps t (l.calls t)
  events : ∀ t e, (t, e) ∈ l.emitted → e.Sourced hexdigest steps t

/-- Every step keeps calls and reports sourced. -/
theorem LexicalThreads.Sourced.step {l : LexicalThreads τ ρ} (h : l.Sourced hexdigest steps)
    (st : GpuStep τ ρ) :
    (l.step hexdigest pid tid st).Sourced hexdigest (steps ++ [st]) := by
  cases st with
  | enter t call m =>
    refine ⟨fun u => ?_, fun u e he => ?_⟩
    · by_cases hu : u = t
      · subst hu
        simpa [LexicalThreads.step] using (h.calls u).cons_open m call
      · simpa [LexicalThreads.step, hu] using (h.calls u).concat (.enter t call m)
    · rcases List.mem_append.mp he with he | he
      · exact (h.events u e he).concat _
      · obtain ⟨e', he', heq⟩ := List.mem_map.mp he
        obtain ⟨rfl, rfl⟩ := Prod.mk.inj heq
        exact sourced_open he'
  | leave t m result =>
    -- the calls around it note what the runner's batch is now
    have hst : GpuStep.leave t m result ∈ steps ++ [.leave t m result] := by simp
    cases hcalls : l.calls t with
    | nil =>
      -- a return outside of any wrapper
      have hsame : l.step hexdigest pid tid (.leave t m result) = l := by
        simp [LexicalThreads.step, hcalls]
      rw [hsame]
      exact ⟨fun u => (h.calls u).concat _, fun u e he => (h.events u e he).concat _⟩
    | cons c around =>
      have hall : CallsSourced hexdigest (steps ++ [.leave t m result]) t (c :: around) :=
        hcalls ▸ (h.calls t).concat _
      refine ⟨fun u => ?_, fun u e he => ?_⟩
      · by_cases hu : u = t
        · subst hu
          have hleft : CallsSourced hexdigest (steps ++ [.leave u m result]) u
              (c.leaveTo m around) := hall.of_cons.leaveTo hst rfl
          simpa [LexicalThreads.step, hcalls] using hleft
        · simpa [LexicalThreads.step, hcalls, hu] using (h.calls u).concat (.leave t m result)
      · simp only [LexicalThreads.step, hcalls] at he
        rcases List.mem_append.mp he with he | he
        · exact (h.events u e he).concat _
        · obtain ⟨e', he', heq⟩ := List.mem_map.mp he
          obtain ⟨rfl, rfl⟩ := Prod.mk.inj heq
          exact hall.close hst rfl he'

/-- After every run calls and reports are sourced. -/
theorem sourced_run (steps : List (GpuStep τ ρ)) :
    (LexicalThreads.run hexdigest pid tid steps).Sourced hexdigest steps := by
  induction steps using List.reverseRecOn with
  | nil =>
    exact ⟨fun t ctx hctx => by simp [LexicalThreads.run] at hctx, by simp [LexicalThreads.run]⟩
  | append_singleton steps st ih =>
    rw [LexicalThreads.run, List.foldl_concat]
    exact ih.step st

end Sources

/-- The requests of a transfer that names none and has no dispatch key are inferred. -/
theorem reqIds_ppCommSpan (slices : List DispatchSlice) {ev : PpCommEvent} {startNs endNs : ℤ}
    (hids : normalizeRequestIds ev.reqIds = []) (hkey : truthyKey ev.dispatchKey = none)
    (hspan : validSpan ev.startNs ev.endNs = some (startNs, endNs)) :
    (ppCommSpan slices ev).map PpCommSpan.reqIds =
      some (inferPpCommRequestContext slices startNs endNs ev.pid ev.ranks ev.dispatchKey).1 := by
  simp only [ppCommSpan, hspan, hids, hkey, Option.map_some, true_or, if_true, true_and]
  by_cases hinf : (inferPpCommRequestContext slices startNs endNs ev.pid ev.ranks
      ev.dispatchKey).1 = []
  · split <;> simp [hinf]
  · split <;> simp

/-! ## In the converter -/

section Converter

variable [DecidableEq τ] {hexdigest : List Char → List Char} {pid : ℕ} {tid : τ → ℕ}

/-- Where the converter has the requests of a transfer from.  Either the report has the dispatch
    key and the requests of an execution of its thread, and if that execution has requests the
    converter takes both from the report, whatever model executions the log has; or the report
    names neither, and the requests are inferred from the overlaps. -/
def PpCommPayload.Attributed (hexdigest : List Char → List Char) (steps : List (GpuStep τ ρ))
    (t : τ) (slices : List DispatchSlice) (startNs endNs : ℤ) (p : PpCommPayload) : Prop :=
  (∃ st ∈ steps, st.thread = t ∧ ∃ so, st.executes = some so ∧
    p.dispatchKey = some (so.makeDispatchKey hexdigest) ∧
    ReqIdsOf steps t st.runner so p.reqIds ∧
    (so.extractReqIds ≠ [] ∨ p.reqIds ≠ [] → ppCommSpan slices p.toLog = some {
      startNs
      endNs
      dispatchKey := p.dispatchKey
      reqIds := p.reqIds
      attributionSource := .payloadReqIds
      attributionOverlapNs := 0
      source := p.toLog })) ∨
  (p.dispatchKey = none ∧ p.reqIds = [] ∧
    (ppCommSpan slices p.toLog).map PpCommSpan.reqIds =
      some (inferPpCommRequestContext slices startNs endNs (some p.pid) p.ranks.toRanks none).1)

/-- A receive inside an execution. -/
def receiveSteps : List (GpuStep ℕ Unit) :=
  let group : GroupCoordinator := { id := 0, ranks := [0, 1], rankInGroup := some 1,
                                    worldSize := some 2 }
  [.enter 0 (.runnerExecuteModel none () {
      scheduledNewReqs := .value [some { item := { requestId := .value "req-1", text := "" } }] })
      { timeNs := 10 ^ 15, monoNs := 1 },
    .enter 0 (.ppComm .recvTensorDict group none none)
      { timeNs := 10 ^ 15 + 1, monoNs := 2, ppGroup := some group },
    .leave 0 { timeNs := 10 ^ 15 + 2, monoNs := 3 } none]

end Converter

end DeLatency
