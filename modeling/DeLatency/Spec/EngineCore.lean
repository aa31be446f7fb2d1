import DeLatency.Converter.Breakdown
import DeLatency.ForStd.Sweep
import DeLatency.Patch.EngineCore
import DeLatency.Spec.Intervals
import DeLatency.Spec.PyText

/-!
# The time of a request before the scheduler

What the threads of the engine core do with a request is a sequence of marks: it has been
preprocessed, or its handling begins.  The table holds the end of the preprocessing if that is
the last mark, so a wait in the queue is reported exactly when the two marks follow one another,
whatever else the threads do in between.
-/

namespace DeLatency

open Intervals

/-- A request has been preprocessed, or its handling begins. -/
inductive EngineMark
  | preprocessed (startNs endNs : ℤ) (enabled : Bool)
  | handled (startNs : ℤ) (enabled : Bool)

namespace EngineMark

def doneNs : EngineMark → Option ℤ
  | .preprocessed _ endNs _ => some endNs
  | .handled .. => none

/-- The slice of a preprocessing. -/
def slice : EngineMark → Option (ℤ × ℤ)
  | .preprocessed startNs endNs true => if startNs < endNs then some (startNs, endNs) else none
  | _ => none

/-- The wait between a preprocessing and the handling that follows. -/
def queued : EngineMark × EngineMark → Option (ℤ × ℤ)
  | (.preprocessed _ endNs _, .handled startNs true) =>
    if endNs < startNs then some (endNs, startNs) else none
  | _ => none

end EngineMark

def EngineCall.requestId : EngineCall → Option String
  | .preprocessAddRequest requestId => requestId
  | .addRequest requestId => requestId
  | .handleClientRequest _ requestId => requestId

/-- The stage that is reported when a call ends. -/
def EngineCall.stage : EngineCall → Option String
  | .preprocessAddRequest _ => some "engine_core.preprocess_add_request"
  | .addRequest _ => some "engine_core.add_request"
  | .handleClientRequest true _ => some "engine_core.handle_client_add"
  | .handleClientRequest false _ => none

namespace EngineCall

variable {call : EngineCall} {rid : String}

/-- No call reports under the name of the queue wait. -/
theorem stage_ne_queue : call.stage ≠ some "engine_core.input_queue_wait_after_preprocess" := by
  cases call with
  | handleClientRequest isAdd => cases isAdd <;> simp [stage]
  | _ => simp [stage]

/-- Only the preprocessing of a request reports under its stage. -/
theorem eq_preprocess_of_stage (hid : call.requestId = some rid)
    (hstage : call.stage = some "engine_core.preprocess_add_request") :
    call = .preprocessAddRequest (some rid) := by
  cases call with
  | preprocessAddRequest requestId => exact congrArg _ hid
  | handleClientRequest isAdd => cases isAdd <;> simp [stage] at hstage
  | addRequest => simp [stage] at hstage

/-- Only the handling of a client's add reports under its stage. -/
theorem eq_handle_of_stage (hid : call.requestId = some rid)
    (hstage : call.stage = some "engine_core.handle_client_add") :
    call = .handleClientRequest true (some rid) := by
  cases call with
  | handleClientRequest isAdd requestId =>
    cases isAdd with
    | true => exact congrArg _ hid
    | false => simp [stage] at hstage
  | _ => simp [stage] at hstage

end EngineCall

/-- The reports of a stage that name a request. -/
def namedStages (events : List ReqStageEvent) (rid stage : String) : List ReqStageEvent :=
  events.filter fun ev => ev.requestId = some rid ∧ ev.stage = some stage

/-- A report counts for its own request and stage. -/
theorem namedStages_emitReqStage (enabled : Bool) (stage stage' : String) (startNs endNs : ℤ)
    (requestId : Option String) (rid : String) :
    namedStages (emitReqStage enabled stage' startNs endNs requestId) rid stage =
      if requestId = some rid ∧ stage' = stage then
        emitReqStage enabled stage startNs endNs (some rid)
      else [] := by
  unfold namedStages emitReqStage
  split
  · -- the report is of this request and stage, or does not count
    by_cases h : requestId = some rid ∧ stage' = stage
    · obtain ⟨rfl, rfl⟩ := h
      simp
    · rw [if_neg h, List.filter_cons_of_neg (by simpa using h), List.filter_nil]
  · simp

namespace EngineCore

variable {τ : Type}

/-- The mark of a step. -/
def mark (st : EngineCore τ) (rid : String) : EngineCallStep τ → Option EngineMark
  | .enter _ (.handleClientRequest true requestId) now enabled =>
    if requestId = some rid then some (.handled now enabled) else none
  | .leave thread now enabled =>
    match st.calls thread with
    | ⟨.preprocessAddRequest requestId, startNs⟩ :: _ =>
      if requestId = some rid then some (.preprocessed startNs now enabled) else none
    | _ => none
  | _ => none

/-- What is emitted joins what had been sent. -/
theorem namedStages_emit (st : EngineCore τ) (events : List ReqStageEvent) (rid stage : String) :
    namedStages (st.emit events).sent rid stage =
      namedStages st.sent rid stage ++ namedStages events rid stage :=
  List.filter_append ..

/-! ## What the wrappers do to one request -/

section Wrappers

variable (st : EngineCore τ) (requestId : Option String) (now : ℤ) (enabled : Bool) {rid : String}

/-- Taking from the queue leaves the open calls alone. -/
theorem takeFromQueue_calls : (st.takeFromQueue requestId now enabled).calls = st.calls := by
  unfold takeFromQueue
  split
  · rfl
  · dsimp only
    split
    · split <;> rfl
    · rfl

/-- The request that is handled is taken out of the table. -/
theorem takeFromQueue_get? (hrid : rid ≠ "") :
    (st.takeFromQueue requestId now enabled).preprocessDoneNs.get? rid =
      if requestId = some rid then none else st.preprocessDoneNs.get? rid := by
  unfold takeFromQueue
  split
  · next hnone =>
    rw [if_neg]
    rintro rfl
    simp [hrid] at hnone
  · -- whatever is reported, the entry of the request is taken out
    next rid' hsome =>
    obtain ⟨rfl, -⟩ := Option.filter_eq_some_iff.mp hsome
    have herase : (st.preprocessDoneNs.erase rid').get? rid =
        if some rid' = some rid then none else st.preprocessDoneNs.get? rid := by
      rw [Dict.get?_erase]
      simp only [Option.some.injEq, eq_comm]
    dsimp only
    split
    · split
      · exact herase
      · exact herase
    · exact herase

/-- Its wait is reported, if it was there. -/
theorem takeFromQueue_sent (hrid : rid ≠ "") (stage : String) :
    namedStages (st.takeFromQueue requestId now enabled).sent rid stage =
      namedStages st.sent rid stage ++
        if requestId = some rid ∧ "engine_core.input_queue_wait_after_preprocess" = stage then
          (st.preprocessDoneNs.get? rid).toList.flatMap fun doneNs =>
            emitReqStage enabled stage doneNs now (some rid)
        else [] := by
  unfold takeFromQueue
  split
  · -- no request id
    next hnone =>
    rw [if_neg, List.append_nil]
    rintro ⟨rfl, -⟩
    simp [hrid] at hnone
  · next rid' hsome =>
    obtain ⟨rfl, -⟩ := Option.filter_eq_some_iff.mp hsome
    dsimp only
    by_cases heq : some rid' = some rid ∧
        "engine_core.input_queue_wait_after_preprocess" = stage
    · obtain ⟨hrid', rfl⟩ := heq
      cases hrid'
      rw [if_pos ⟨rfl, rfl⟩]
      split
      · next doneNs hdone =>
        rw [hdone, Option.toList_some, List.flatMap_singleton]
        split
        · rw [namedStages_emit, namedStages_emitReqStage, if_pos ⟨rfl, rfl⟩]
        · -- an end after the start of the handling is dropped
          next hlate =>
          rw [emitReqStage, if_neg fun h => hlate h.2, List.append_nil]
      · next hnone =>
        rw [hnone, Option.toList_none, List.flatMap_nil, List.append_nil]
    · rw [if_neg heq, List.append_nil]
      split
      · split
        · rw [namedStages_emit, namedStages_emitReqStage, if_neg heq, List.append_nil]
        · rfl
      · rfl

variable (frame : EngineFrame)

/-- Reporting a finished call leaves the other open calls alone. -/
theorem finish_calls : (st.finish frame now enabled).calls = st.calls := by
  unfold finish
  split
  · unfold rememberCorePreprocessDone
    split <;> rfl
  · rfl
  · rfl
  · rfl

/-- The table has the end of the last preprocessing. -/
theorem finish_get? (hrid : rid ≠ "") :
    (st.finish frame now enabled).preprocessDoneNs.get? rid =
      if frame.call = .preprocessAddRequest (some rid) then some now
      else st.preprocessDoneNs.get? rid := by
  unfold finish
  split
  · next requestId hcall =>
    rw [hcall]
    unfold rememberCorePreprocessDone
    split
    · next rid' hsome =>
      obtain ⟨rfl, -⟩ := Option.filter_eq_some_iff.mp hsome
      simp only [emit]
      rw [Dict.get?_alter]
      -- the end of the preprocessing is noted for its own request
      by_cases heq : rid = rid'
      · rw [if_pos heq, heq, if_pos rfl]
      · rw [if_neg heq, if_neg (by simpa using Ne.symm heq)]
    · next hnone =>
      rw [if_neg]
      · rfl
      · intro h
        cases h
        simp [hrid] at hnone
  -- no other call notes anything
  all_goals
    next hcall => exact (if_neg (by rw [hcall]; simp)).symm

/-- Every call but one reports itself. -/
theorem finish_sent (rid stage : String) :
    namedStages (st.finish frame now enabled).sent rid stage =
      namedStages st.sent rid stage ++
        if frame.call.requestId = some rid ∧ frame.call.stage = some stage then
          emitReqStage enabled stage frame.startNs now (some rid)
        else [] := by
  unfold finish
  split
  · next requestId hcall =>
    -- noting the end of the preprocessing reports nothing
    have hsent : ∀ st : EngineCore τ,
        (st.rememberCorePreprocessDone requestId now).sent = st.sent := by
      intro st
      unfold rememberCorePreprocessDone
      split <;> rfl
    rw [hsent, namedStages_emit, namedStages_emitReqStage, hcall]
    simp only [EngineCall.requestId, EngineCall.stage, Option.some.injEq]
  · next requestId hcall =>
    rw [namedStages_emit, namedStages_emitReqStage, hcall]
    simp only [EngineCall.requestId, EngineCall.stage, Option.some.injEq]
  · next requestId hcall =>
    rw [namedStages_emit, namedStages_emitReqStage, hcall]
    simp only [EngineCall.requestId, EngineCall.stage, Option.some.injEq]
  · next hcall =>
    rw [hcall]
    simp [EngineCall.stage]

end Wrappers

/-! ## Runs -/

/-- The reports of the waits in the queue, and of the preprocessing. -/
def queueEvents (rid : String) : EngineMark × EngineMark → List ReqStageEvent
  | (before, .handled startNs enabled) =>
    before.doneNs.toList.flatMap fun doneNs =>
      emitReqStage enabled "engine_core.input_queue_wait_after_preprocess" doneNs startNs (some rid)
  | _ => []

def preprocessEvents (rid : String) : EngineMark → List ReqStageEvent
  | .preprocessed startNs endNs enabled =>
    emitReqStage enabled "engine_core.preprocess_add_request" startNs endNs (some rid)
  | _ => []

/-- The table and the reports are what the marks of the request say. -/
structure MarkInv (rid : String) (marks : List EngineMark) (st : EngineCore τ) : Prop where
  table : st.preprocessDoneNs.get? rid = marks.getLast?.bind EngineMark.doneNs
  queue : namedStages st.sent rid "engine_core.input_queue_wait_after_preprocess" =
    (steps marks).flatMap (queueEvents rid)
  preprocess : namedStages st.sent rid "engine_core.preprocess_add_request" =
    marks.flatMap (preprocessEvents rid)
  handling : ∀ thread, ∀ frame ∈ st.calls thread,
    frame.call = .handleClientRequest true (some rid) →
      ∃ enabled, .handled frame.startNs enabled ∈ marks
  handled : ∀ ev ∈ namedStages st.sent rid "engine_core.handle_client_add",
    ∃ startNs enabled, .handled startNs enabled ∈ marks ∧ ev.startNs = some startNs

/-- A step without a mark of the request. -/
theorem MarkInv.unmarked {rid : String} {marks : List EngineMark} {st st' : EngineCore τ}
    (h : MarkInv rid marks st)
    (htable : st'.preprocessDoneNs.get? rid = st.preprocessDoneNs.get? rid)
    (hqueue : namedStages st'.sent rid "engine_core.input_queue_wait_after_preprocess" =
      namedStages st.sent rid "engine_core.input_queue_wait_after_preprocess")
    (hpreprocess : namedStages st'.sent rid "engine_core.preprocess_add_request" =
      namedStages st.sent rid "engine_core.preprocess_add_request")
    (hcalls : ∀ thread, ∀ frame ∈ st'.calls thread, frame ∈ st.calls thread ∨
      frame.call ≠ .handleClientRequest true (some rid))
    (hhandled : ∀ ev ∈ namedStages st'.sent rid "engine_core.handle_client_add",
      ev ∈ namedStages st.sent rid "engine_core.handle_client_add" ∨
        ∃ thread, ∃ frame ∈ st.calls thread, frame.call = .handleClientRequest true (some rid) ∧
          ev.startNs = some frame.startNs) :
    MarkInv rid marks st' := by
  -- the three readings are as before; a report comes from a call that was open
  refine ⟨htable.trans h.table, hqueue.trans h.queue, hpreprocess.trans h.preprocess, ?_, ?_⟩
  · intro thread frame hframe hcall
    exact h.handling thread frame ((hcalls thread frame hframe).resolve_right fun hne => hne hcall)
      hcall
  · intro ev hev
    rcases hhandled ev hev with hev | ⟨thread, frame, hframe, hcall, hstart⟩
    · exact h.handled ev hev
    · obtain ⟨enabled, hmark⟩ := h.handling thread frame hframe hcall
      exact ⟨frame.startNs, enabled, hmark, hstart⟩

/-- The handling of the request begins. -/
theorem MarkInv.handle {rid : String} {marks : List EngineMark} {st st' : EngineCore τ}
    (h : MarkInv rid marks st) {startNs : ℤ} {enabled : Bool}
    (htable : st'.preprocessDoneNs.get? rid = none)
    (hsent : ∀ stage, namedStages st'.sent rid stage = namedStages st.sent rid stage ++
      if "engine_core.input_queue_wait_after_preprocess" = stage then
        (st.preprocessDoneNs.get? rid).toList.flatMap fun doneNs =>
          emitReqStage enabled stage doneNs startNs (some rid)
      else [])
    (hcalls : ∀ thread, ∀ frame ∈ st'.calls thread, frame ∈ st.calls thread ∨
      frame.startNs = startNs) :
    MarkInv rid (marks ++ [.handled startNs enabled]) st' := by
  refine ⟨?_, ?_, ?_, ?_, ?_⟩
  · -- the table has no end for the request any more
    rw [htable, List.getLast?_concat]
    rfl
  · -- the wait reaches from the last mark to this one, if that is the end of a preprocessing
    rw [hsent, if_pos rfl, h.queue, h.table, steps_concat, List.flatMap_append]
    congr 1
    cases marks.getLast? with
    | none => rfl
    | some mark => exact (List.flatMap_singleton ..).symm
  · rw [hsent, if_neg (by decide), List.append_nil, h.preprocess, List.flatMap_append]
    exact (List.append_nil _).symm
  · intro thread frame hframe hcall
    rcases hcalls thread frame hframe with hframe | hstart
    · obtain ⟨enabled', hmark⟩ := h.handling thread frame hframe hcall
      exact ⟨enabled', List.mem_append_left _ hmark⟩
    · exact ⟨enabled, List.mem_append_right _ (hstart ▸ List.mem_singleton_self _)⟩
  · intro ev hev
    rw [hsent, if_neg (by decide), List.append_nil] at hev
    obtain ⟨startNs', enabled', hmark, hstart⟩ := h.handled ev hev
    exact ⟨startNs', enabled', List.mem_append_left _ hmark, hstart⟩

/-- The request has been preprocessed. -/
theorem MarkInv.preprocessEnd {rid : String} {marks : List EngineMark} {st st' : EngineCore τ}
    (h : MarkInv rid marks st) {startNs endNs : ℤ} {enabled : Bool}
    (htable : st'.preprocessDoneNs.get? rid = some endNs)
    (hsent : ∀ stage, namedStages st'.sent rid stage = namedStages st.sent rid stage ++
      if "engine_core.preprocess_add_request" = stage then
        emitReqStage enabled stage startNs endNs (some rid)
      else [])
    (hcalls : ∀ thread, ∀ frame ∈ st'.calls thread, frame ∈ st.calls thread) :
    MarkInv rid (marks ++ [.preprocessed startNs endNs enabled]) st' := by
  refine ⟨?_, ?_, ?_, ?_, ?_⟩
  · rw [htable, List.getLast?_concat]
    rfl
  · -- an end of preprocessing closes no wait
    rw [hsent, if_neg (by decide), List.append_nil, h.queue, steps_concat, List.flatMap_append]
    cases marks.getLast? <;> exact (List.append_nil _).symm
  · -- it is reported itself
    rw [hsent, if_pos rfl, h.preprocess, List.flatMap_append, List.flatMap_singleton]
    rfl
  · intro thread frame hframe hcall
    obtain ⟨enabled', hmark⟩ := h.handling thread frame (hcalls thread frame hframe) hcall
    exact ⟨enabled', List.mem_append_left _ hmark⟩
  · intro ev hev
    rw [hsent, if_neg (by decide), List.append_nil] at hev
    obtain ⟨startNs', enabled', hmark, hstart⟩ := h.handled ev hev
    exact ⟨startNs', enabled', List.mem_append_left _ hmark, hstart⟩

variable [DecidableEq τ]

/-- The marks of a request in a run, in order. -/
def marksFrom (rid : String) : EngineCore τ → List (EngineCallStep τ) → List EngineMark
  | _, [] => []
  | st, c :: steps => (st.mark rid c).toList ++ marksFrom rid (st.step c) steps

def marks (rid : String) (steps : List (EngineCallStep τ)) : List EngineMark :=
  marksFrom rid {} steps

/-- One more step leaves at most one more mark. -/
theorem marks_concat (rid : String) (steps : List (EngineCallStep τ)) (c : EngineCallStep τ) :
    marks rid (steps ++ [c]) = marks rid steps ++ ((run steps).mark rid c).toList := by
  -- from any state, since the state moves with the run
  have hfrom : ∀ st : EngineCore τ, marksFrom rid st (steps ++ [c]) =
      marksFrom rid st steps ++ ((steps.foldl step st).mark rid c).toList := by
    induction steps with
    | nil => simp [marksFrom]
    | cons c' steps ih =>
      intro st
      rw [List.cons_append, marksFrom, marksFrom, ih, List.append_assoc]
      rfl
  exact hfrom {}


/-- A call that is open after a stack is replaced was open or is on the new stack. -/
theorem mem_setStack_calls {st : EngineCore τ} {thread thread' : τ} {stack : List EngineFrame}
    {frame : EngineFrame} (h : frame ∈ (st.setStack thread stack).calls thread') :
    frame ∈ st.calls thread' ∨ thread' = thread ∧ frame ∈ stack := by
  simp only [setStack] at h
  -- only the named thread's stack is replaced
  by_cases hthread : thread' = thread
  · subst hthread
    rw [Function.update_self] at h
    exact .inr ⟨rfl, h⟩
  · rw [Function.update_of_ne hthread] at h
    exact .inl h

/-- What is entered marks the request when it is the handling of it. -/
theorem MarkInv.enter {rid : String} (hrid : rid ≠ "") {marks : List EngineMark}
    {st : EngineCore τ} (h : MarkInv rid marks st) (thread : τ) (call : EngineCall) (now : ℤ)
    (enabled : Bool) :
    MarkInv rid (marks ++ (st.mark rid (.enter thread call now enabled)).toList)
      (st.enter thread call now enabled) := by
  set pushed := st.setStack thread (⟨call, now⟩ :: st.calls thread) with hpushed
  have hnew : ∀ thread', ∀ frame ∈ pushed.calls thread', frame ∈ st.calls thread' ∨
      frame = ⟨call, now⟩ := by
    intro thread' frame hframe
    rcases mem_setStack_calls hframe with hframe | ⟨rfl, hframe⟩
    · exact .inl hframe
    · exact (List.mem_cons.mp hframe).symm
  -- a call that is not the handling of the request only lies on the stack
  have hother : ∀ st' : EngineCore τ, call ≠ .handleClientRequest true (some rid) →
      st'.calls = pushed.calls →
      st'.preprocessDoneNs.get? rid = st.preprocessDoneNs.get? rid →
      (∀ stage, namedStages st'.sent rid stage = namedStages st.sent rid stage) →
      MarkInv rid marks st' := by
    intro st' hcall hcalls htable hsent
    refine h.unmarked htable (hsent _) (hsent _) ?_ fun ev hev => .inl (hsent _ ▸ hev)
    intro thread' frame hframe
    rw [hcalls] at hframe
    refine (hnew thread' frame hframe).imp_right ?_
    rintro rfl
    exact hcall
  cases call with
  | handleClientRequest isAdd requestId =>
    cases isAdd with
    | false => exact (List.append_nil marks).symm ▸ hother pushed (by simp) rfl rfl fun _ => rfl
    | true =>
      have hcalls := pushed.takeFromQueue_calls requestId now enabled
      have htable := pushed.takeFromQueue_get? requestId now enabled hrid
      have hsent := pushed.takeFromQueue_sent requestId now enabled hrid
      by_cases heq : requestId = some rid
      · simp only [EngineCore.mark]
        rw [if_pos heq, Option.toList_some]
        rw [if_pos heq] at htable
        simp only [heq, true_and] at hsent
        refine h.handle htable ?_ ?_
        · rw [← heq] at hsent
          exact heq ▸ hsent
        · intro thread' frame hframe
          rw [EngineCore.enter, hcalls] at hframe
          refine (hnew thread' frame hframe).imp_right ?_
          rintro rfl
          rfl
      · simp only [EngineCore.mark]
        rw [if_neg heq, Option.toList_none, List.append_nil]
        rw [if_neg heq] at htable
        refine hother _ (by simpa using heq) hcalls htable fun stage => ?_
        rw [EngineCore.enter, hsent stage, if_neg fun hboth => heq hboth.1, List.append_nil]
        rfl
  | preprocessAddRequest requestId =>
    exact (List.append_nil marks).symm ▸ hother pushed (by simp) rfl rfl fun _ => rfl
  | addRequest requestId =>
    exact (List.append_nil marks).symm ▸ hother pushed (by simp) rfl rfl fun _ => rfl

/-- What is left marks the request when it is the preprocessing of it. -/
theorem MarkInv.leave {rid : String} (hrid : rid ≠ "") {marks : List EngineMark}
    {st : EngineCore τ} (h : MarkInv rid marks st) (thread : τ) (now : ℤ) (enabled : Bool) :
    MarkInv rid (marks ++ (st.mark rid (.leave thread now enabled)).toList)
      (st.step (.leave thread now enabled)) := by
  simp only [EngineCore.step, EngineCore.mark]
  cases hstack : st.calls thread with
  | nil => exact (List.append_nil marks).symm ▸ h
  | cons frame stack =>
    dsimp only
    set popped := st.setStack thread stack with hpopped
    have hframe : frame ∈ st.calls thread := hstack ▸ List.mem_cons_self
    have hcalls : ∀ thread', ∀ frame' ∈ (popped.finish frame now enabled).calls thread',
        frame' ∈ st.calls thread' := by
      intro thread' frame' hframe'
      rw [finish_calls] at hframe'
      rcases mem_setStack_calls hframe' with hmem | ⟨hthread, hmem⟩
      · exact hmem
      · rw [hthread, hstack]
        exact List.mem_cons_of_mem _ hmem
    have htable := popped.finish_get? now enabled frame hrid
    have hsent := popped.finish_sent now enabled frame rid
    by_cases hcall : frame.call = .preprocessAddRequest (some rid)
    · -- the table has the end of this preprocessing now
      obtain ⟨call, startNs⟩ := frame
      cases hcall
      rw [if_pos rfl] at htable
      simp only [↓reduceIte, Option.toList_some]
      simp only [EngineCall.requestId, EngineCall.stage, Option.some.injEq, true_and] at hsent
      exact h.preprocessEnd htable hsent hcalls
    · have hmark : (match frame :: stack with
          | ⟨.preprocessAddRequest requestId, startNs⟩ :: _ =>
            if requestId = some rid then some (.preprocessed startNs now enabled) else none
          | _ => none : Option EngineMark) = none := by
        obtain ⟨call, startNs⟩ := frame
        cases call with
        | preprocessAddRequest requestId => exact if_neg (by simpa using hcall)
        | _ => rfl
      rw [hmark, Option.toList_none, List.append_nil]
      rw [if_neg hcall] at htable
      refine h.unmarked htable ?_ ?_ (fun _ _ hframe' => .inl (hcalls _ _ hframe')) ?_
      · rw [hsent, if_neg fun hboth => EngineCall.stage_ne_queue hboth.2, List.append_nil]
        rfl
      · rw [hsent, if_neg fun hboth => hcall (EngineCall.eq_preprocess_of_stage hboth.1 hboth.2),
          List.append_nil]
        rfl
      · intro ev hev
        rw [hsent] at hev
        refine (List.mem_append.mp hev).imp_right fun hev => ?_
        split at hev
        · next hthis =>
          refine ⟨thread, frame, hframe, EngineCall.eq_handle_of_stage hthis.1 hthis.2, ?_⟩
          unfold emitReqStage at hev
          split at hev
          · rw [List.mem_singleton.mp hev]
          · cases hev
        · cases hev

/-- The invariant that ties the reports to the marks holds after every run. -/
theorem markInv_run {rid : String} (hrid : rid ≠ "") (steps : List (EngineCallStep τ)) :
    MarkInv rid (marks rid steps) (run steps) := by
  induction steps using List.reverseRecOn with
  | nil => exact ⟨rfl, rfl, rfl, by simp [run], by simp [run, namedStages]⟩
  | append_singleton steps c ih =>
    have hrun : run (steps ++ [c]) = (run steps).step c := List.foldl_concat ..
    rw [marks_concat, hrun]
    -- a call is entered or left, on some thread
    cases c with
    | enter thread call now enabled => exact ih.enter hrid thread call now enabled
    | leave thread now enabled => exact ih.leave hrid thread now enabled

end EngineCore

/-! ## Times -/

/-- The time that a step reads. -/
def EngineCallStep.now {τ : Type} : EngineCallStep τ → ℤ
  | .enter _ _ now _ => now
  | .leave _ now _ => now

/-- The times of a mark are read as nanoseconds. -/
def EngineMark.Timed : EngineMark → Prop
  | .preprocessed startNs endNs _ => NsTime startNs ∧ NsTime endNs
  | .handled startNs _ => NsTime startNs

namespace EngineCore

variable {τ : Type} [DecidableEq τ]

/-- A call that is entered stands on top of its thread's stack. -/
theorem enter_calls (st : EngineCore τ) (thread : τ) (call : EngineCall) (now : ℤ)
    (enabled : Bool) : (st.enter thread call now enabled).calls =
      (st.setStack thread (⟨call, now⟩ :: st.calls thread)).calls := by
  unfold enter
  dsimp only
  split
  · exact takeFromQueue_calls ..
  · rfl

/-- The calls that the threads are in began at times that were read. -/
theorem calls_timed {steps : List (EngineCallStep τ)} (htimes : ∀ c ∈ steps, NsTime c.now) :
    ∀ thread, ∀ frame ∈ (run steps).calls thread, NsTime frame.startNs := by
  induction steps using List.reverseRecOn with
  | nil => simp [run]
  | append_singleton steps c ih =>
    have hbefore := ih fun c hc => htimes c (List.mem_append_left _ hc)
    have hnow := htimes c (List.mem_append_right _ (List.mem_singleton_self c))
    have hrun : run (steps ++ [c]) = (run steps).step c := List.foldl_concat ..
    rw [hrun]
    intro thread frame hframe
    cases c with
    | enter thread' call now enabled =>
      rw [step, enter_calls] at hframe
      rcases mem_setStack_calls hframe with hmem | ⟨rfl, hmem⟩
      · exact hbefore thread frame hmem
      · -- the call that is entered starts now
        rcases List.mem_cons.mp hmem with rfl | hmem
        · exact hnow
        · exact hbefore _ frame hmem
    | leave thread' now enabled =>
      simp only [step] at hframe
      split at hframe
      · exact hbefore thread frame hframe
      · next top stack hstack =>
        rw [finish_calls] at hframe
        rcases mem_setStack_calls hframe with hmem | ⟨-, hmem⟩
        · exact hbefore thread frame hmem
        · exact hbefore thread' frame (hstack ▸ List.mem_cons_of_mem _ hmem)

/-- Clock readings in nanoseconds give marks in nanoseconds. -/
theorem marks_timed {steps : List (EngineCallStep τ)} (htimes : ∀ c ∈ steps, NsTime c.now)
    (rid : String) : ∀ m ∈ marks rid steps, m.Timed := by
  induction steps using List.reverseRecOn with
  | nil => intro m hm; cases hm
  | append_singleton steps c ih =>
    have hsteps : ∀ c ∈ steps, NsTime c.now := fun c hc => htimes c (List.mem_append_left _ hc)
    have hnow := htimes c (List.mem_append_right _ (List.mem_singleton_self c))
    intro m hm
    rw [marks_concat] at hm
    -- a mark was left before, or by this step
    rcases List.mem_append.mp hm with hm | hm
    · exact ih hsteps m hm
    · rw [Option.mem_toList] at hm
      unfold mark at hm
      split at hm
      · split at hm
        · cases hm
          exact hnow
        · cases hm
      · split at hm
        · next hstack =>
          split at hm
          · cases hm
            exact ⟨calls_timed hsteps _ _ (hstack ▸ List.mem_cons_self), hnow⟩
          · cases hm
        · cases hm
      · cases hm

end EngineCore

/-! ## What the converter draws -/

/-- The reports of a stage that are read as the request's. -/
def stageReports (events : List ReqStageEvent) (rid stage : String) : List ReqStageEvent :=
  events.filter fun ev => requestIdOf ev.requestId ev.reqId = some rid ∧ ev.stage = some stage

/-- The slices of a stage. -/
def RequestInputs.stageSlices (r : RequestInputs) (stage : String) : List (ℤ × ℤ) :=
  (r.stageIntervals.filter (·.stage = stage)).map fun s => (s.startNs, s.endNs)

/-- The interval of a report is that of its stage. -/
theorem stage_stageInterval {ev : ReqStageEvent} {s : StageInterval}
    (h : stageInterval ev = some s) : ev.stage = some s.stage := by
  unfold stageInterval at h
  split at h
  · cases h
  · -- the interval takes its stage from the report; the later splits only drop reports
    next stage hstage =>
    have hstage := (Option.filter_eq_some_iff.mp hstage).1
    dsimp only at h
    split at h
    · cases h
    · split at h
      · cases h
      · split at h
        · split at h
          · cases h
            exact hstage
          · cases h
        · cases h

/-- It starts where the report does. -/
theorem startNs_stageInterval {ev : ReqStageEvent} {s : StageInterval} {startNs : ℤ}
    (htime : NsTime startNs) (hstart : ev.startNs = some startNs)
    (h : stageInterval ev = some s) : s.startNs = startNs := by
  unfold stageInterval at h
  rw [hstart, Option.bind_some, htime.toNsInt] at h
  split at h
  · cases h
  · dsimp only at h
    split at h
    · cases h
    · split at h
      · cases h
      · split at h
        · -- both times were read, and the start is the one that stands there
          next start finish hstart' _ =>
          split at h
          · cases h
            exact (Option.some.inj hstart').symm
          · cases h
        · cases h

/-- The slices of one stage come from the reports of that stage alone. -/
theorem filter_reqStageIntervals (events : List ReqStageEvent) (rid stage : String) :
    (reqStageIntervals events rid).filter (·.stage = stage) =
      (stageReports events rid stage).filterMap stageInterval := by
  unfold reqStageIntervals stageReports
  rw [List.filter_filterMap, List.filterMap_filter, List.filterMap_filter]
  refine List.filterMap_congr fun ev _ => ?_
  -- both sides drop the reports of other requests
  by_cases hrid : requestIdOf ev.requestId ev.reqId = some rid
  · cases hev : stageInterval ev with
    | none => simp
    | some s =>
      have hstage := stage_stageInterval hev
      by_cases heq : s.stage = stage
      · simp [hrid, hstage, heq]
      · simp [hrid, hstage, heq]
  · simp [hrid]

/-- A report is drawn when reporting is on and it takes time. -/
theorem filterMap_stageInterval_emit {stage : String} (hstage : stage ≠ "") {startNs endNs : ℤ}
    (hstart : NsTime startNs) (hend : NsTime endNs) (enabled : Bool) (rid : String) :
    (emitReqStage enabled stage startNs endNs (some rid)).filterMap stageInterval =
      if enabled = true ∧ startNs < endNs then [{ stage, startNs, endNs }] else [] := by
  unfold emitReqStage
  -- a report that would end before it starts is not sent
  by_cases hle : enabled = true ∧ startNs ≤ endNs
  · rw [if_pos hle, List.filterMap_eq_flatMap_toList, List.flatMap_singleton]
    have hfilter : (some stage).filter (· ≠ "") = some stage := by simp [Option.filter, hstage]
    simp only [stageInterval, hfilter, eventDuration, Option.bind_some, hstart.toNsInt,
      hend.toNsInt]
    rw [if_neg (not_lt.mpr (sub_nonneg.mpr hle.2))]
    -- one that takes no time is sent but not drawn
    by_cases hlt : startNs < endNs
    · rw [if_pos hlt, if_pos ⟨hle.1, hlt⟩]
      rfl
    · rw [if_neg hlt, if_neg fun h => hlt h.2]
      rfl
  · rw [if_neg hle, if_neg fun h => hle ⟨h.1, h.2.le⟩, List.filterMap_nil]

/-- The stages of the engine core that lie before the scheduler. -/
def engineStages : List String := [
  "engine_core.preprocess_add_request",
  "engine_core.input_queue_wait_after_preprocess",
  "engine_core.handle_client_add"]

/-- The slices of a stage are those of the reports that the log holds. -/
theorem stageSlices_eq {log : Log} {rid stage : String} {events : List ReqStageEvent}
    (hlog : stageReports log.reqStageEvents rid stage = events) :
    (requestInputs log rid).stageSlices stage =
      (events.filterMap stageInterval).map fun s => (s.startNs, s.endNs) := by
  rw [← hlog, ← filter_reqStageIntervals]
  rfl

/-- A mark is drawn as its own slice. -/
theorem slice_of_timed {m : EngineMark} (h : m.Timed) (rid : String) :
    ((EngineCore.preprocessEvents rid m).filterMap stageInterval).map
      (fun s => (s.startNs, s.endNs)) = m.slice.toList := by
  cases m with
  -- only the preprocessing has a slice of its own
  | handled startNs enabled => rfl
  | preprocessed startNs endNs enabled =>
    rw [EngineCore.preprocessEvents, filterMap_stageInterval_emit (by decide) h.1 h.2]
    cases enabled with
    | false => simp [EngineMark.slice]
    | true =>
      simp only [EngineMark.slice, true_and]
      split <;> rfl

/-- Two following marks are drawn as the wait between them. -/
theorem queued_of_timed {p : EngineMark × EngineMark} (h : p.1.Timed) (h' : p.2.Timed)
    (rid : String) :
    ((EngineCore.queueEvents rid p).filterMap stageInterval).map
      (fun s => (s.startNs, s.endNs)) = (EngineMark.queued p).toList := by
  obtain ⟨m, m'⟩ := p
  -- a wait needs a handled request after a preprocessed one
  cases m' with
  | preprocessed startNs endNs enabled => cases m <;> rfl
  | handled startNs enabled =>
    cases m with
    | handled startNs' enabled' => rfl
    | preprocessed startNs' endNs enabled' =>
      simp only [EngineCore.queueEvents, EngineMark.doneNs]
      rw [Option.toList_some, List.flatMap_singleton,
        filterMap_stageInterval_emit (by decide) h.2 h']
      cases enabled with
      | false => simp [EngineMark.queued]
      | true =>
        simp only [EngineMark.queued, true_and]
        split <;> rfl

/-- End to end, in every order of the steps of the threads of the engine core: the waits that the
    converter counts as a request's time in the queue of the engine core are, in order, those
    between a preprocessing of the request and the handling that follows it, with no other mark of
    the request in between; each begins where the slice of that preprocessing ends, and ends
    where the slice of that handling begins. -/
theorem enginecoreQueue_of_run {τ : Type} [DecidableEq τ] (steps : List (EngineCallStep τ))
    (htimes : ∀ c ∈ steps, NsTime c.now) {rid : String} (hrid : rid ≠ "") (log : Log)
    (hlog : ∀ stage ∈ engineStages, stageReports log.reqStageEvents rid stage =
      namedStages (EngineCore.run steps).sent rid stage) :
    let marks := EngineCore.marks rid steps
    (requestInputs log rid).enginecoreQueue =
        (Intervals.steps marks).filterMap EngineMark.queued ∧
      (requestInputs log rid).stageSlices "engine_core.preprocess_add_request" =
        marks.filterMap EngineMark.slice ∧
      ∀ p ∈ (requestInputs log rid).stageSlices "engine_core.handle_client_add",
        ∃ enabled, .handled p.1 enabled ∈ marks := by
  intro marks
  have h := EngineCore.markInv_run hrid steps
  have htimed := EngineCore.marks_timed htimes rid
  have hmem : ∀ p ∈ Intervals.steps marks, p.1 ∈ marks ∧ p.2 ∈ marks := fun p hp =>
    ⟨(List.of_mem_zip hp).1, List.mem_of_mem_tail (List.of_mem_zip hp).2⟩
  refine ⟨?_, ?_, ?_⟩
  · -- one slice for each two marks in a row
    refine (stageSlices_eq (hlog "engine_core.input_queue_wait_after_preprocess"
      (by decide))).trans ?_
    rw [h.queue, List.filterMap_flatMap, List.map_flatMap, List.filterMap_eq_flatMap_toList]
    refine List.flatMap_congr fun p hp => ?_
    exact queued_of_timed (htimed p.1 (hmem p hp).1) (htimed p.2 (hmem p hp).2) rid
  · -- one slice for each end of a preprocessing
    rw [stageSlices_eq (hlog _ (by decide)), h.preprocess, List.filterMap_flatMap,
      List.map_flatMap, List.filterMap_eq_flatMap_toList]
    exact List.flatMap_congr fun m hm => slice_of_timed (htimed m hm) rid
  · rw [stageSlices_eq (hlog _ (by decide))]
    intro p hp
    obtain ⟨s, hs, rfl⟩ := List.mem_map.mp hp
    obtain ⟨ev, hev, hs⟩ := List.mem_filterMap.mp hs
    obtain ⟨startNs, enabled, hmark, hstart⟩ := h.handled ev hev
    refine ⟨enabled, ?_⟩
    have hsame : s.startNs = startNs := startNs_stageInterval (htimed _ hmark) hstart hs
    rwa [hsame]

/-- The input thread preprocesses `r1` while the main loop handles `r0`. -/
def queuedSteps : List (EngineCallStep Bool) :=
  [.enter true (.preprocessAddRequest (some "r1")) (10 ^ 15) true,
    .enter false (.handleClientRequest true (some "r0")) (10 ^ 15 + 2) true,
    .leave true (10 ^ 15 + 5) true, .leave false (10 ^ 15 + 6) true,
    .enter false (.handleClientRequest true (some "r1")) (10 ^ 15 + 9) true,
    .leave false (10 ^ 15 + 12) true]

/-- Its log. -/
def queuedLog : Log := (EngineCore.run queuedSteps).sent.map fun ev => { event := .reqStage ev }

/-- One request, preprocessed and then taken: its wait is drawn once. -/
theorem enginecoreQueue_of_queuedSteps :
    (requestInputs queuedLog "r1").enginecoreQueue = [(10 ^ 15 + 5, 10 ^ 15 + 9)] := by
  have hlog : ∀ stage ∈ engineStages, stageReports queuedLog.reqStageEvents "r1" stage =
      namedStages (EngineCore.run queuedSteps).sent "r1" stage :=
    List.forall_mem_cons.mpr ⟨rfl, List.forall_mem_cons.mpr ⟨rfl,
      List.forall_mem_singleton.mpr rfl⟩⟩
  exact (enginecoreQueue_of_run queuedSteps (by decide) (by decide) _ hlog).1.trans (by decide)

end DeLatency
