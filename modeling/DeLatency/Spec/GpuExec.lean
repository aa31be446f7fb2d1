import DeLatency.Patch.GpuExec

/-!
# The context of a phase

The patches find the execution that a phase or a transfer belongs to on a stack of its
thread.  What it belongs to has nothing to do with a stack: it is the innermost
`execute_model` that the thread is in.  `LexicalThreads` keeps the calls that each thread is in
and no stack, and looks the context up among them; the patches emit the same events
(`run_eq_lexical`), in any order of the steps of any number of threads.
-/

namespace DeLatency

variable {τ ρ : Type}

/-! ## Calls and their contexts -/

/-- A call that a thread is in, with the requests that its phases have last seen in the input
    batch of the runner. -/
structure OpenCall (ρ : Type) where
  wrapper : Wrapper ρ
  batch : Option (List String) := none

def Wrapper.ctx : Wrapper ρ → Option (ExecContext ρ)
  | .worker ctx _ => some ctx
  | .runner ctx _ => some ctx
  | _ => none

/-- The context of an `execute_model`. -/
def OpenCall.context (c : OpenCall ρ) : Option (ExecContext ρ) :=
  c.wrapper.ctx.map fun ctx => { ctx with reqIds := c.batch.getD ctx.reqIds }

/-- The requests that the input batch of a runner lists, if any. -/
def ExecContext.batchAt (ctx : ExecContext ρ) (m : Moment ρ) : Option (List String) :=
  (ctx.runner.map fun runner => normalizeReqIds (m.inputBatch runner)).filter (· ≠ [])

/-- The innermost `execute_model` around. -/
def innermost (calls : List (OpenCall ρ)) : Option (ExecContext ρ) :=
  calls.findSome? OpenCall.context

/-- An execution takes note of the input batch of its runner. -/
def OpenCall.note (c : OpenCall ρ) (m : Moment ρ) : OpenCall ρ :=
  { c with batch := (c.wrapper.ctx.bind fun ctx => ctx.batchAt m).or c.batch }

/-- The innermost `execute_model` takes note of the input batch. -/
def noteBatch (m : Moment ρ) : List (OpenCall ρ) → List (OpenCall ρ)
  | [] => []
  | c :: rest => if c.wrapper.ctx.isSome then c.note m :: rest else c :: noteBatch m rest

/-- The events of a phase that ends inside an execution. -/
def phaseEvents (ctx : ExecContext ρ) (name : String) (startNs : ℤ) (m : Moment ρ) :
    List GpuEvent :=
  let span : GpuPhaseSpan := {
    phase := name
    pid := ctx.pid
    tid := ctx.tid
    reqIds := ctx.reqIds
    batchSize := ctx.batchSize
    inputType := ctx.inputType
    ranks := ctx.ranks
    dispatchKey := ctx.dispatchKey
    startNs
    endNs := m.timeNs }
  -- the span, and the events that older logs had in its place
  .gpuPhaseSpan span :: legacyGpuPhaseEvents span

/-- The threads of a process, without stacks. -/
structure LexicalThreads (τ ρ : Type) where
  calls : τ → List (OpenCall ρ) := fun _ => []
  emitted : List (τ × GpuEvent) := []

section Lexical

variable [DecidableEq τ] (hexdigest : List Char → List Char) (pid : ℕ) (tid : τ → ℕ)

/-- The wrapper of a call, and what it emits before the call. -/
def GpuCall.open (t : τ) (m : Moment ρ) : GpuCall ρ → Wrapper ρ × List GpuEvent
  | .workerExecuteModel cfg modelRunner so =>
    let ctx := makeExecContext hexdigest pid (tid t) cfg modelRunner so m
    -- an idle step is not announced
    (.worker ctx m.monoNs, if ctx.reqIds = [] then [] else
      [.workerPreprocessStart ctx.reqIds ctx.dispatchKey ctx.ranks m.timeNs pid (tid t)])
  | .runnerExecuteModel cfg runner so =>
    (.runner (makeExecContext hexdigest pid (tid t) cfg (some runner) so m) m.timeNs, [])
  | .phase name => (if name ∈ gpuPhaseScopeNames then .phase name m.timeNs else .plain, [])
  | .ppComm op group peer tensorDict =>
    (if m.enabled ∧ isPpGroup group m.ppGroup then .ppComm op group peer tensorDict m.timeNs
      else .plain, [])

/-- What a call emits when it is left, inside the calls `around`. -/
def OpenCall.close (t : τ) (m : Moment ρ) (result : Option PyObj) (around : List (OpenCall ρ))
    (c : OpenCall ρ) : List GpuEvent :=
  match c.wrapper with
  | .plain => []
  | .worker ctx startMono =>
    -- a worker's execution without requests is not reported
    if ctx.reqIds = [] then [] else
      [.workerModelExecuteSpan ctx.reqIds pid (tid t) ctx.dispatchKey ctx.ranks startMono m.monoNs
        ((m.monoNs - startMono) / 1000)]
  | .runner ctx startNs =>
    [.gpuExecuteModel pid (tid t) ctx.ranks ctx.batchSize ctx.inputType
      -- the batch that was noted while the call ran, or the requests of the step
      (((c.note m).batch).getD ctx.reqIds) ctx.dispatchKey startNs m.timeNs]
  | .phase name startNs =>
    match innermost (noteBatch m around) with
    -- a phase outside of any execution is not reported
    | none => []
    | some ctx => phaseEvents ctx name startNs m
  | .ppComm op group peer tensorDict startNs =>
    [.ppCommSpan (ppCommContextPayload pid (tid t) (innermost around) op group peer
      (op.tensorPayload tensorDict result) startNs m)]

/-- What becomes of the calls around a call that is left. -/
def OpenCall.leaveTo (m : Moment ρ) (around : List (OpenCall ρ)) (c : OpenCall ρ) :
    List (OpenCall ρ) :=
  match c.wrapper with
  | .phase _ _ => noteBatch m around
  | _ => around

namespace LexicalThreads

def step (s : LexicalThreads τ ρ) : GpuStep τ ρ → LexicalThreads τ ρ
  | .enter t call m =>
    let (wrapper, events) := call.open hexdigest pid tid t m
    { calls := Function.update s.calls t ({ wrapper } :: s.calls t)
      emitted := s.emitted ++ events.map (t, ·) }
  | .leave t m result =>
    match s.calls t with
    -- a return without a call cannot happen
    | [] => s
    | c :: around =>
      { calls := Function.update s.calls t (c.leaveTo m around)
        emitted := s.emitted ++ (c.close pid tid t m result around).map (t, ·) }

def run (steps : List (GpuStep τ ρ)) : LexicalThreads τ ρ :=
  steps.foldl (step hexdigest pid tid) {}

end LexicalThreads

end Lexical

/-! ## Fields -/

namespace GpuThreads

section Fields

variable (s : GpuThreads τ ρ) (t : τ)

/-- Emitting leaves the stacks alone. -/
@[simp] theorem emit_stack (events : List GpuEvent) : (s.emit t events).stack = s.stack := rfl

/-- Emitting leaves the open wrappers alone. -/
@[simp] theorem emit_wrappers (events : List GpuEvent) :
    (s.emit t events).wrappers = s.wrappers := rfl

/-- The events emitted join the earlier ones, under their thread. -/
@[simp] theorem emit_emitted (events : List GpuEvent) :
    (s.emit t events).emitted = s.emitted ++ events.map (t, ·) := rfl

variable [DecidableEq τ]

/-- Setting a stack sets that of the thread alone. -/
@[simp] theorem setStack_stack (stack : List (ExecContext ρ)) :
    (s.setStack t stack).stack = Function.update s.stack t stack := rfl

/-- Setting a stack leaves the open wrappers alone. -/
@[simp] theorem setStack_wrappers (stack : List (ExecContext ρ)) :
    (s.setStack t stack).wrappers = s.wrappers := rfl

/-- Setting a stack emits nothing. -/
@[simp] theorem setStack_emitted (stack : List (ExecContext ρ)) :
    (s.setStack t stack).emitted = s.emitted := rfl

/-- Setting the open wrappers leaves the stacks alone. -/
@[simp] theorem setWrappers_stack (wrappers : List (Wrapper ρ)) :
    (s.setWrappers t wrappers).stack = s.stack := rfl

/-- Setting the open wrappers sets those of the thread alone. -/
@[simp] theorem setWrappers_wrappers (wrappers : List (Wrapper ρ)) :
    (s.setWrappers t wrappers).wrappers = Function.update s.wrappers t wrappers := rfl

/-- Setting the open wrappers emits nothing. -/
@[simp] theorem setWrappers_emitted (wrappers : List (Wrapper ρ)) :
    (s.setWrappers t wrappers).emitted = s.emitted := rfl

end Fields

end GpuThreads

/-! ## The stack holds the contexts of the calls -/

/-- The first context among the open calls is that of the innermost execution. -/
theorem head?_filterMap_context (calls : List (OpenCall ρ)) :
    (calls.filterMap OpenCall.context).head? = innermost calls := by
  rw [innermost, List.head?_filterMap]

/-- What the refresh of a context leaves as it is, and what it makes of the requests. -/
theorem refresh_eq (ctx : ExecContext ρ) (m : Moment ρ) :
    ctx.refresh m = { ctx with reqIds := (ctx.batchAt m).getD ctx.reqIds } := by
  obtain ⟨runner⟩ := ctx
  cases runner with
  | none => rfl
  | some runner =>
    by_cases hids : normalizeReqIds (m.inputBatch runner) = [] <;>
      simp [ExecContext.refresh, ExecContext.batchAt, hids, Option.filter]

/-- The refresh of a context is a note of its execution. -/
theorem context_note {c : OpenCall ρ} {ctx : ExecContext ρ} (h : c.context = some ctx)
    (m : Moment ρ) : (c.note m).context = some (ctx.refresh m) := by
  obtain ⟨w, batch⟩ := c
  simp only [OpenCall.context, Option.map_eq_some_iff] at h
  obtain ⟨own, hw, rfl⟩ := h
  simp only [OpenCall.context, OpenCall.note, hw, Option.map_some, Option.bind_some, refresh_eq,
    Option.getD_or]
  rfl

/-- A note goes to the topmost context of the stack. -/
theorem filterMap_context_noteBatch (m : Moment ρ) (calls : List (OpenCall ρ)) :
    (noteBatch m calls).filterMap OpenCall.context =
      match calls.filterMap OpenCall.context with
      | [] => []
      | ctx :: rest => ctx.refresh m :: rest := by
  induction calls with
  | nil => rfl
  | cons c calls ih =>
    rw [noteBatch]
    -- only the innermost context is refreshed; calls without one are passed over
    cases hctx : c.context with
    | none =>
      have hw : c.wrapper.ctx = none := by simpa [OpenCall.context] using hctx
      simp only [hw, Option.isSome_none, Bool.false_eq_true, if_false,
        List.filterMap_cons_none hctx, ih]
    | some ctx =>
      have hw : c.wrapper.ctx.isSome := by
        obtain ⟨own, hown, -⟩ := Option.map_eq_some_iff.mp hctx
        simp [hown]
      rw [if_pos hw, List.filterMap_cons_some (context_note hctx m),
        List.filterMap_cons_some hctx]

/-- Noting a batch leaves the wrappers as they are. -/
theorem map_wrapper_noteBatch (m : Moment ρ) (calls : List (OpenCall ρ)) :
    (noteBatch m calls).map OpenCall.wrapper = calls.map OpenCall.wrapper := by
  induction calls with
  | nil => rfl
  | cons c calls ih =>
    rw [noteBatch]
    split <;> simp [OpenCall.note, ih]

/-- The threads with stacks agree with those without. -/
structure GpuThreads.Agrees (s : GpuThreads τ ρ) (l : LexicalThreads τ ρ) : Prop where
  wrappers : ∀ t, s.wrappers t = (l.calls t).map OpenCall.wrapper
  stack : ∀ t, s.stack t = (l.calls t).filterMap OpenCall.context
  emitted : s.emitted = l.emitted

section Steps

open GpuThreads

variable {s : GpuThreads τ ρ} {l : LexicalThreads τ ρ}

/-- The top of a thread's stack is the context of its innermost execution. -/
theorem GpuThreads.Agrees.current (h : s.Agrees l) (t : τ) :
    s.currentGpuExecContext t = innermost (l.calls t) := by
  rw [GpuThreads.currentGpuExecContext, h.stack t, head?_filterMap_context]

variable [DecidableEq τ] {hexdigest : List Char → List Char} {pid : ℕ} {tid : τ → ℕ}

/-- The threads agree again when one of them has got the same calls and contexts. -/
theorem GpuThreads.Agrees.update (h : s.Agrees l) {t : τ} {s' : GpuThreads τ ρ}
    {calls : List (OpenCall ρ)} {events : List GpuEvent}
    (hw : s'.wrappers = Function.update s.wrappers t (calls.map OpenCall.wrapper))
    (hs : s'.stack = Function.update s.stack t (calls.filterMap OpenCall.context))
    (he : s'.emitted = s.emitted ++ events.map (t, ·)) :
    s'.Agrees { calls := Function.update l.calls t calls
                emitted := l.emitted ++ events.map (t, ·) } where
  wrappers := by
    intro u
    rw [hw]
    -- only the thread of the step has changed
    by_cases hu : u = t
    · subst hu; simp
    · simp [hu, h.wrappers u]
  stack := by
    intro u
    rw [hs]
    by_cases hu : u = t
    · subst hu; simp
    · simp [hu, h.stack u]
  emitted := by rw [he, h.emitted]

/-- The stack of a thread that stays as it is. -/
theorem GpuThreads.Agrees.update_stack (h : s.Agrees l) (t : τ) :
    s.stack = Function.update s.stack t ((l.calls t).filterMap OpenCall.context) := by
  rw [← h.stack t, Function.update_eq_self]

/-- A call without a context is entered. -/
theorem GpuThreads.Agrees.pushWrapper (h : s.Agrees l) (t : τ) {w : Wrapper ρ}
    (hw : w.ctx = none) :
    (s.pushWrapper t w).Agrees
      { calls := Function.update l.calls t ({ wrapper := w } :: l.calls t)
        emitted := l.emitted ++ ([] : List GpuEvent).map (t, ·) } := by
  refine h.update ?_ ?_ ?_
  · simp [GpuThreads.pushWrapper, h.wrappers t]
  · -- the wrapper has no context, so the thread's stack stays
    rw [List.filterMap_cons_none (by simp [OpenCall.context, hw])]
    exact h.update_stack t
  · simp [GpuThreads.pushWrapper]

/-- Entering a call keeps the stacks and the calls in agreement. -/
theorem GpuThreads.Agrees.enter (h : s.Agrees l) (t : τ) (m : Moment ρ) (call : GpuCall ρ) :
    (s.step hexdigest pid tid (.enter t call m)).Agrees
      (l.step hexdigest pid tid (.enter t call m)) := by
  cases call with
  | workerExecuteModel cfg modelRunner so =>
    refine h.update ?_ ?_ ?_ <;>
      simp only [step, GpuThreads.enter, pushGpuExecContext] <;>
      split <;>
      simp [GpuThreads.pushWrapper, h.wrappers t, h.stack t, OpenCall.context, Wrapper.ctx]
  -- the two executions push a context
  | runnerExecuteModel cfg runner so =>
    refine h.update ?_ ?_ ?_ <;>
      simp [step, GpuThreads.enter, GpuThreads.pushWrapper, pushGpuExecContext, h.wrappers t,
        h.stack t, OpenCall.context, Wrapper.ctx]
  -- phases and transfers only push a wrapper
  | phase name =>
    refine h.pushWrapper t ?_
    split <;> rfl
  | ppComm op group peer tensorDict =>
    refine h.pushWrapper t ?_
    split <;> rfl

/-- Leaving a call keeps the stacks and the calls in agreement. -/
theorem GpuThreads.Agrees.leave (h : s.Agrees l) (t : τ) (m : Moment ρ) (result : Option PyObj) :
    (s.step hexdigest pid tid (.leave t m result)).Agrees
      (l.step hexdigest pid tid (.leave t m result)) := by
  have hwrap := h.wrappers t
  have hstack := h.stack t
  simp only [step, LexicalThreads.step, GpuThreads.leave]
  cases hcalls : l.calls t with
  | nil =>
    -- a return outside of any wrapper
    rw [hcalls] at hwrap
    simpa [hwrap] using h
  | cons c around =>
    obtain ⟨w, batch⟩ := c
    rw [hcalls] at hwrap hstack
    simp only [hwrap, List.map_cons]
    cases w with
    | plain =>
      refine h.update (by simp [finish, OpenCall.leaveTo]) ?_ (by simp [finish, OpenCall.close])
      rw [List.filterMap_cons_none rfl] at hstack
      simp [finish, OpenCall.leaveTo, ← hstack]
    | worker ctx startMono =>
      refine h.update ?_ ?_ ?_ <;>
        simp only [finish, OpenCall.leaveTo, OpenCall.close] <;>
        split <;>
        simp [popGpuExecContext, hstack, OpenCall.context, Wrapper.ctx]
    | runner ctx startNs =>
      -- the context on top is its own, with what was noted of the batch
      have hown : s.stack t = { ctx with reqIds := batch.getD ctx.reqIds } ::
          around.filterMap OpenCall.context := by
        rw [hstack]
        exact List.filterMap_cons_some rfl
      refine h.update ?_ ?_ ?_
      · simp [finish, OpenCall.leaveTo, popGpuExecContext]
      · simp [finish, OpenCall.leaveTo, popGpuExecContext, hown]
      · simp only [finish, OpenCall.close, popGpuExecContext, currentGpuExecContext, emit_emitted,
          setStack_emitted, setWrappers_emitted, setWrappers_stack, hown, List.head?_cons,
          Option.getD_some, refresh_eq, OpenCall.note, Wrapper.ctx, Option.bind_some,
          Option.getD_or]
        rfl
    | phase name startNs =>
      rw [List.filterMap_cons_none rfl] at hstack
      have htop := filterMap_context_noteBatch m around
      rw [← hstack] at htop
      cases hs : s.stack t with
      | nil =>
        rw [hs] at htop
        -- outside of any execution nothing is emitted
        have hout : innermost (noteBatch m around) = none := by
          rw [← head?_filterMap_context, htop, List.head?_nil]
        refine h.update ?_ ?_ ?_
        · simp [finish, currentGpuExecContext, hs, OpenCall.leaveTo, map_wrapper_noteBatch]
        · simp [finish, currentGpuExecContext, hs, OpenCall.leaveTo, htop]
        · simp [finish, currentGpuExecContext, hs, OpenCall.close, hout]
      | cons ctx rest =>
        rw [hs] at htop
        -- the phase takes the batch as it is when it ends
        have hin : innermost (noteBatch m around) = some (ctx.refresh m) := by
          rw [← head?_filterMap_context, htop, List.head?_cons]
        refine h.update ?_ ?_ ?_
        · simp [finish, currentGpuExecContext, hs, OpenCall.leaveTo, map_wrapper_noteBatch]
        · simp [finish, currentGpuExecContext, hs, OpenCall.leaveTo, htop]
        · simp [finish, currentGpuExecContext, hs, OpenCall.close, hin, phaseEvents]
    | ppComm op group peer tensorDict startNs =>
      rw [List.filterMap_cons_none rfl] at hstack
      refine h.update ?_ ?_ ?_
      · simp [finish, OpenCall.leaveTo]
      · simp [finish, OpenCall.leaveTo, ← hstack]
      · simp [finish, OpenCall.close, currentGpuExecContext, hstack, innermost]

/-- Every step keeps the stacks and the calls in agreement. -/
theorem GpuThreads.Agrees.step (h : s.Agrees l) (st : GpuStep τ ρ) :
    (s.step hexdigest pid tid st).Agrees (l.step hexdigest pid tid st) := by
  cases st with
  | enter t call m => exact h.enter t m call
  | leave t m result => exact h.leave t m result

/-- The stacks and the calls agree after every run. -/
theorem GpuThreads.Agrees.run (steps : List (GpuStep τ ρ)) :
    (GpuThreads.run hexdigest pid tid steps).Agrees
      (LexicalThreads.run hexdigest pid tid steps) := by
  induction steps using List.reverseRecOn with
  | nil => exact ⟨fun _ => rfl, fun _ => rfl, rfl⟩
  | append_singleton steps st ih =>
    rw [GpuThreads.run, LexicalThreads.run, List.foldl_concat, List.foldl_concat]
    exact ih.step st

variable (hexdigest pid tid)

/-- In any order of the steps of any threads, the patches emit what they would emit if they
    looked up the innermost `execute_model` among the calls, and the stack of a thread has the
    contexts of its calls: none where it is in no execution. -/
theorem run_eq_lexical (steps : List (GpuStep τ ρ)) :
    (GpuThreads.run hexdigest pid tid steps).emitted =
        (LexicalThreads.run hexdigest pid tid steps).emitted ∧
      ∀ t, (GpuThreads.run hexdigest pid tid steps).stack t =
        ((LexicalThreads.run hexdigest pid tid steps).calls t).filterMap OpenCall.context :=
  ⟨(GpuThreads.Agrees.run steps).emitted, (GpuThreads.Agrees.run steps).stack⟩

end Steps

end DeLatency
