import DeLatency.Spec.ServedOutputs
import Mathlib.Data.List.Induction

/-!
# The time line of the output socket

A ledger says, in terms of the steps of a run alone, which messages the task has begun with, when,
and which waits came before each (`SocketLedger`).  What the task holds and has sent is what its
ledger has (`SocketInv`), so the converter draws it (`outputSocket_timeline`).
-/

namespace DeLatency

/-! ## Flushes -/

namespace OutputSocketInfo

/-- After a flush no wait is pending, and each has been sent if there is somebody to charge. -/
theorem flushPending_some (info : OutputSocketInfo String) (reqIds : List String) :
    (info.flushPending (some reqIds)).1.pendingSchedEvents = [] ∧
      (info.flushPending (some reqIds)).2.map OutputHandlerSchedLatency.logged =
        chargeEvents info.pendingSchedEvents reqIds := by
  unfold flushPending chargeEvents
  dsimp only [Option.getD_some]
  split
  · next hnone =>
    rw [List.isEmpty_iff.mp hnone]
    exact ⟨rfl, by split <;> rfl⟩
  · split
    · next hempty =>
      rw [if_pos (List.isEmpty_iff.mp hempty)]
      exact ⟨rfl, rfl⟩
    · next hne =>
      rw [if_neg fun h => hne (List.isEmpty_iff.mpr h), List.map_filterMap,
        ← List.filterMap_eq_map]
      refine ⟨rfl, List.filterMap_congr fun wait _ => ?_⟩
      -- a wait is never negative
      have hqueue : ¬wait.queueNs < 0 := not_lt.mpr (sub_nonneg.mpr wait.ordered)
      rw [emitSchedLatency, if_neg (by simp [hne, hqueue])]
      rfl

/-- A callback only adds its wait to those that are pending. -/
theorem scheduledCallback_pending (info : OutputSocketInfo String) (readyTsNs runTsNs : ℤ) :
    (info.scheduledCallback readyTsNs runTsNs).pendingSchedEvents =
      info.pendingSchedEvents ++ (notedWait readyTsNs runTsNs).toList := by
  unfold scheduledCallback notedWait
  split
  · rfl
  · rw [Option.toList_none, List.append_nil]

end OutputSocketInfo

/-! ## The ledger -/

/-- The wait that a step notes. -/
def SocketStep.wait : SocketStep String → Option SchedWait
  | .callback readyTsNs runTsNs => notedWait readyTsNs runTsNs
  | _ => none

/-- When a message with outputs is received, and the requests of the outputs. -/
def SocketStep.message : SocketStep String → Option (ℤ × List String)
  | .recv execStartNs (.outputs outputs) => some (execStartNs, distinctReqIds (outputs.getD []))
  | _ => none

/-- The times that the task reads. -/
def SocketStep.times : SocketStep String → List ℤ
  | .callback _ runTsNs => [runTsNs]
  | .recv execStartNs _ => [execStartNs]
  | .processed execEndNs => [execEndNs]
  | .leave => []

/-- The messages that a task is done with, the one that it is busy with, the waits since the last
    one that it began with, and whether it is gone. -/
structure SocketLedger where
  done : List ServedOutputs := []
  current : Option ServedOutputs := none
  waiting : List SchedWait := []
  gone : Bool := false

namespace SocketLedger

/-- All messages that the task has begun with. -/
def served (l : SocketLedger) : List ServedOutputs := l.done ++ l.current.toList

/-- A message with outputs is charged with all waits since the last one. -/
def recv (l : SocketLedger) (execStartNs : ℤ) (reqIds : List String) : SocketLedger :=
  { l with
    current := some
      { waits := l.waiting, charged := reqIds, reqIds, startNs := execStartNs, endNs := none }
    waiting := [] }

/-- The task is done with a message. -/
def finish (l : SocketLedger) (s : ServedOutputs) (execEndNs : ℤ) : SocketLedger :=
  { l with done := l.done ++ [{ s with endNs := some execEndNs }], current := none }

/-- A task that is busy receives nothing, and one that is gone does nothing more. -/
def step (l : SocketLedger) (st : SocketStep String) : SocketLedger :=
  match st, l.current, l.gone with
  | .callback readyTsNs runTsNs, _, _ =>
    { l with waiting := l.waiting ++ (notedWait readyTsNs runTsNs).toList }
  | .recv execStartNs (.outputs outputs), none, false =>
    l.recv execStartNs (distinctReqIds (outputs.getD []))
  | .processed execEndNs, some s, false => l.finish s execEndNs
  | .leave, _, _ => { l with gone := true }
  | _, _, _ => l

def run (steps : List (SocketStep String)) : SocketLedger := steps.foldl step {}

/-- One more step of the task. -/
theorem run_concat (steps : List (SocketStep String)) (st : SocketStep String) :
    run (steps ++ [st]) = (run steps).step st := List.foldl_concat ..

/-- What a step does: it notes a wait, begins or ends a message, or does nothing that counts. -/
theorem step_cases (l : SocketLedger) (st : SocketStep String) :
    (∃ readyTsNs runTsNs, st = .callback readyTsNs runTsNs ∧
      l.step st = { l with waiting := l.waiting ++ (notedWait readyTsNs runTsNs).toList }) ∨
    (∃ execStartNs outputs, st = .recv execStartNs (.outputs outputs) ∧ l.current = none ∧
      l.gone = false ∧ l.step st = l.recv execStartNs (distinctReqIds (outputs.getD []))) ∨
    (∃ execEndNs s, st = .processed execEndNs ∧ l.current = some s ∧ l.gone = false ∧
      l.step st = l.finish s execEndNs) ∨
    st.wait = none ∧ ∃ gone, l.step st = { l with gone } := by
  -- a step that does not fit where the task is
  have hskip : ∀ {st : SocketStep String}, st.wait = none → l.step st = l →
      st.wait = none ∧ ∃ gone, l.step st = { l with gone } :=
    fun hwait hsame => ⟨hwait, l.gone, hsame⟩
  cases st with
  | callback readyTsNs runTsNs => exact .inl ⟨readyTsNs, runTsNs, rfl, rfl⟩
  | recv execStartNs message =>
    right
    cases message with
    | utilityOutput => exact .inr (.inr ⟨rfl, l.gone, rfl⟩)
    | outputs outputs =>
      obtain hcurrent | ⟨s, hcurrent⟩ := Option.eq_none_or_eq_some l.current
      · obtain hgone | hgone := Bool.eq_false_or_eq_true l.gone
        · exact .inr (.inr (hskip rfl (by simp [step, hgone])))
        · exact .inl ⟨execStartNs, outputs, rfl, hcurrent, hgone, by simp [step, hcurrent, hgone]⟩
      · exact .inr (.inr (hskip rfl (by simp [step, hcurrent])))
  | processed execEndNs =>
    right
    right
    obtain hcurrent | ⟨s, hcurrent⟩ := Option.eq_none_or_eq_some l.current
    · exact .inr (hskip rfl (by simp [step, hcurrent]))
    · obtain hgone | hgone := Bool.eq_false_or_eq_true l.gone
      · exact .inr (hskip rfl (by simp [step, hgone]))
      · exact .inl ⟨execEndNs, s, rfl, hcurrent, hgone, by simp [step, hcurrent, hgone]⟩
  | leave => exact .inr (.inr (.inr ⟨rfl, true, rfl⟩))

/-- What the ledger of a run has. -/
structure Accounts (steps : List (SocketStep String)) (l : SocketLedger) : Prop where
  waits : steps.filterMap SocketStep.wait = l.served.flatMap (·.waits) ++ l.waiting
  messages : ∀ s ∈ l.served, (s.startNs, s.reqIds) ∈ steps.filterMap SocketStep.message ∧
    s.charged = s.reqIds
  unfinished : ∀ s ∈ l.current, s.endNs = none
  resumed : (l.served.flatMap ServedOutputs.resumed ++ l.waiting.map (·.runTsNs)).Sublist
    (steps.flatMap SocketStep.times)
  busy : (l.served.flatMap ServedOutputs.busy).Sublist (steps.flatMap SocketStep.times)

/-- A step only adds to what has been read. -/
theorem Accounts.skip {steps : List (SocketStep String)} {l : SocketLedger}
    (h : Accounts steps l) {st : SocketStep String} (hwait : st.wait = none) (gone : Bool) :
    Accounts (steps ++ [st]) { l with gone } := by
  -- a step that waits for nothing adds nothing to the ledger
  refine ⟨?_, fun s hs => ?_, h.unfinished, ?_, ?_⟩
  · rw [List.filterMap_append, h.waits, List.filterMap_cons_none hwait, List.filterMap_nil,
      List.append_nil]
    rfl
  · rw [List.filterMap_append]
    exact ⟨List.mem_append_left _ (h.messages s hs).1, (h.messages s hs).2⟩
  · rw [List.flatMap_append]
    exact h.resumed.trans (List.sublist_append_left _ _)
  · rw [List.flatMap_append]
    exact h.busy.trans (List.sublist_append_left _ _)

/-- A callback's wait joins those that the next message is charged with. -/
theorem Accounts.callback {steps : List (SocketStep String)} {l : SocketLedger}
    (h : Accounts steps l) (readyTsNs runTsNs : ℤ) :
    Accounts (steps ++ [.callback readyTsNs runTsNs])
      { l with waiting := l.waiting ++ (notedWait readyTsNs runTsNs).toList } := by
  refine ⟨?_, fun s hs => ?_, h.unfinished, ?_, ?_⟩
  · -- the wait is the last one of the steps
    rw [List.filterMap_append, h.waits, List.append_assoc, List.filterMap_eq_flatMap_toList,
      List.flatMap_singleton]
    rfl
  · rw [List.filterMap_append]
    exact ⟨List.mem_append_left _ (h.messages s hs).1, (h.messages s hs).2⟩
  · rw [List.map_append, ← List.append_assoc, List.flatMap_append]
    exact h.resumed.append (notedWait_sublist readyTsNs runTsNs)
  · rw [List.flatMap_append]
    exact h.busy.trans (List.sublist_append_left _ _)

/-- A message takes the waits noted since the last one. -/
theorem Accounts.recv {steps : List (SocketStep String)} {l : SocketLedger}
    (h : Accounts steps l) (hcurrent : l.current = none) (execStartNs : ℤ)
    (outputs : Option (List (EngineCoreOutput String))) :
    Accounts (steps ++ [.recv execStartNs (.outputs outputs)])
      (l.recv execStartNs (distinctReqIds (outputs.getD []))) := by
  have hserved : l.served = l.done := by
    rw [served, hcurrent, Option.toList_none, List.append_nil]
  obtain ⟨hwaits, hmessages, -, hresumed, hbusy⟩ := h
  rw [hserved] at hwaits hmessages hresumed hbusy
  refine ⟨?_, ?_, ?_, ?_, ?_⟩
  · rw [List.filterMap_append, hwaits]
    simp [served, SocketLedger.recv, SocketStep.wait]
  · intro s hs
    rw [List.filterMap_append]
    rcases List.mem_append.mp hs with hs | hs
    · exact ⟨List.mem_append_left _ (hmessages s hs).1, (hmessages s hs).2⟩
    · obtain rfl := List.mem_singleton.mp hs
      exact ⟨List.mem_append_right _ (List.mem_singleton_self _), rfl⟩
  · rintro s hs
    cases hs
    rfl
  · -- the waits, and then the beginning
    rw [List.flatMap_append]
    have happend := hresumed.append (.refl [execStartNs])
    rw [List.append_assoc] at happend
    simpa [served, SocketLedger.recv, ServedOutputs.resumed, SocketStep.times] using happend
  · rw [List.flatMap_append]
    have happend := hbusy.append (.refl [execStartNs])
    simpa [served, SocketLedger.recv, ServedOutputs.busy, SocketStep.times] using happend

/-- When its processing ends the message is served. -/
theorem Accounts.finish {steps : List (SocketStep String)} {l : SocketLedger}
    (h : Accounts steps l) {s : ServedOutputs} (hcurrent : l.current = some s) (execEndNs : ℤ) :
    Accounts (steps ++ [.processed execEndNs]) (l.finish s execEndNs) := by
  have hserved : l.served = l.done ++ [s] := by rw [served, hcurrent, Option.toList_some]
  have hend := h.unfinished s hcurrent
  obtain ⟨hwaits, hmessages, -, hresumed, hbusy⟩ := h
  rw [hserved] at hwaits hmessages hresumed hbusy
  refine ⟨?_, ?_, ?_, ?_, ?_⟩
  · rw [List.filterMap_append, hwaits]
    simp [served, SocketLedger.finish, SocketStep.wait]
  · intro s' hs'
    rw [List.filterMap_append]
    simp only [served, SocketLedger.finish, Option.toList_none, List.append_nil] at hs'
    rcases List.mem_append.mp hs' with hs' | hs'
    · have hold := hmessages s' (List.mem_append_left _ hs')
      exact ⟨List.mem_append_left _ hold.1, hold.2⟩
    · obtain rfl := List.mem_singleton.mp hs'
      have hold := hmessages s (List.mem_append_right _ (List.mem_singleton_self s))
      exact ⟨List.mem_append_left _ hold.1, hold.2⟩
  · rintro s' hs'
    cases hs'
  · rw [List.flatMap_append]
    refine List.Sublist.trans ?_ (hresumed.trans (List.sublist_append_left _ _))
    simp [served, SocketLedger.finish, ServedOutputs.resumed]
  · -- its end comes after all that has been read
    rw [List.flatMap_append]
    have happend := hbusy.append (.refl [execEndNs])
    simpa [served, SocketLedger.finish, ServedOutputs.busy, SocketStep.times, hend] using happend

/-- After every run the ledger accounts for the steps. -/
theorem accounts_run (steps : List (SocketStep String)) : Accounts steps (run steps) := by
  induction steps using List.reverseRecOn with
  | nil => exact ⟨rfl, by simp [run, served], by simp [run], .slnil, .slnil⟩
  | append_singleton steps st ih =>
    rw [run_concat]
    obtain ⟨readyTsNs, runTsNs, rfl, heq⟩ | ⟨execStartNs, outputs, rfl, hcurrent, -, heq⟩ |
        ⟨execEndNs, s, rfl, hcurrent, -, heq⟩ | ⟨hwait, gone, heq⟩ := step_cases (run steps) st
    · exact heq ▸ ih.callback readyTsNs runTsNs
    · exact heq ▸ ih.recv hcurrent execStartNs outputs
    · exact heq ▸ ih.finish hcurrent execEndNs
    · exact heq ▸ ih.skip hwait gone

end SocketLedger

/-! ## The task -/

/-- The task is where its ledger says. -/
def SocketPhase.Agrees (l : SocketLedger) : SocketPhase String → Prop
  | .receiving => l.gone = false ∧ l.current = none
  | .processing execStartNs reqIds _ => l.gone = false ∧ ∃ s, l.current = some s ∧
      s.startNs = execStartNs ∧ s.reqIds = reqIds ∧ s.endNs = none
  | .done => l.gone = true

/-- What a task holds and has sent is what its ledger has. -/
structure SocketInv (task : SocketTask String) (l : SocketLedger) : Prop where
  pending : task.info.pendingSchedEvents = l.waiting
  scheds : task.sentSched.map OutputHandlerSchedLatency.logged =
    l.served.flatMap ServedOutputs.schedEvents
  execs : task.sentExec.map OutputExecSlice.logged = l.served.filterMap ServedOutputs.execEvent
  phase : task.phase.Agrees l

namespace SocketInv

variable {task : SocketTask String} {l : SocketLedger}

/-- A message is received, and charged with all that is pending. -/
theorem recv (h : SocketInv task l) (hphase : task.phase = .receiving) (execStartNs : ℤ)
    (outputs : Option (List (EngineCoreOutput String))) :
    SocketInv (task.recv execStartNs (.outputs outputs))
      (l.recv execStartNs (distinctReqIds (outputs.getD []))) := by
  obtain ⟨hpending, hscheds, hexecs, hagrees⟩ := h
  rw [hphase] at hagrees
  obtain ⟨hgone, hcurrent⟩ := hagrees
  -- nothing is in work, so the served messages are those done
  have hserved : l.served = l.done := by
    rw [SocketLedger.served, hcurrent, Option.toList_none, List.append_nil]
  rw [hserved] at hscheds hexecs
  have hids : extractReqIds outputs = distinctReqIds (outputs.getD []) := by
    cases outputs with
    | none => rfl
    | some outputs => rw [extractReqIds_some, Option.getD_some]
  simp only [SocketTask.recv, OutputSocketInfo.beginProcessOutputs, hids]
  set info : OutputSocketInfo String := { task.info with
    currentProcessReqIds := distinctReqIds (outputs.getD [])
    currentProcessSize := (distinctReqIds (outputs.getD [])).length
    processSeq := _ } with hinfo
  obtain ⟨hnone, hsent⟩ := info.flushPending_some (distinctReqIds (outputs.getD []))
  -- the message is charged with all that is waiting
  have hwaits : info.pendingSchedEvents = l.waiting := hpending
  rw [hwaits] at hsent
  refine ⟨hnone, ?_, ?_, hgone, _, rfl, rfl, rfl, rfl⟩
  · rw [List.map_append, hscheds, hsent]
    simp [SocketLedger.served, SocketLedger.recv, ServedOutputs.schedEvents]
  · rw [hexecs]
    simp [SocketLedger.served, SocketLedger.recv, ServedOutputs.execEvent]

/-- The message that the task is busy with is done. -/
theorem processed (h : SocketInv task l) {execStartNs : ℤ} {reqIds : List String}
    {processSeq : Option ℕ} (hphase : task.phase = .processing execStartNs reqIds processSeq)
    (execEndNs : ℤ) : ∃ s, l.current = some s ∧ l.gone = false ∧
      SocketInv (task.processed execStartNs execEndNs reqIds processSeq)
        (l.finish s execEndNs) := by
  obtain ⟨hpending, hscheds, hexecs, hagrees⟩ := h
  rw [hphase] at hagrees
  obtain ⟨hgone, s, hcurrent, rfl, rfl, hend⟩ := hagrees
  -- the message in work is the last one served
  have hserved : l.served = l.done ++ [s] := by
    rw [SocketLedger.served, hcurrent, Option.toList_some]
  rw [hserved] at hscheds hexecs
  refine ⟨s, hcurrent, hgone, hpending, ?_, ?_, hgone, rfl⟩
  · refine hscheds.trans ?_
    simp [SocketLedger.served, SocketLedger.finish, ServedOutputs.schedEvents]
  · simp only [SocketTask.processed]
    rw [List.map_append, hexecs, logged_emitOutputExecSlice]
    simp [SocketLedger.served, SocketLedger.finish, ServedOutputs.execEvent, hend,
      List.filterMap_eq_flatMap_toList]

/-- A step that does not fit where the task is changes neither. -/
theorem step (h : SocketInv task l) (st : SocketStep String) :
    SocketInv (task.step st) (l.step st) := by
  have hagrees := h.phase
  cases st with
  | callback readyTsNs runTsNs =>
    refine ⟨?_, h.scheds, h.execs, ?_⟩
    · rw [SocketLedger.step, ← h.pending]
      exact task.info.scheduledCallback_pending readyTsNs runTsNs
    · simp only [SocketTask.step, SocketLedger.step]
      cases hphase : task.phase <;> rw [hphase] at hagrees <;> exact hagrees
  | recv execStartNs message =>
    cases message with
    | utilityOutput =>
      -- an answer to a utility call carries no outputs and is passed over
      have hsame : task.step (.recv execStartNs .utilityOutput) = task := by
        simp only [SocketTask.step]
        cases task.phase <;> rfl
      rw [hsame]
      exact h
    | outputs outputs =>
      simp only [SocketTask.step]
      cases hphase : task.phase with
      | receiving =>
        have hrecv := h.recv hphase execStartNs outputs
        rw [hphase] at hagrees
        have hledger : l.step (.recv execStartNs (.outputs outputs)) =
            l.recv execStartNs (distinctReqIds (outputs.getD [])) := by
          simp [SocketLedger.step, hagrees.1, hagrees.2]
        rw [hledger]
        exact hrecv
      -- the task receives nothing while it processes
      | processing start reqIds processSeq =>
        rw [hphase] at hagrees
        obtain ⟨-, s, hcurrent, -⟩ := hagrees
        have hledger : l.step (.recv execStartNs (.outputs outputs)) = l := by
          simp [SocketLedger.step, hcurrent]
        rw [hledger]
        exact h
      | done =>
        rw [hphase] at hagrees
        have hledger : l.step (.recv execStartNs (.outputs outputs)) = l := by
          simp [SocketLedger.step, show l.gone = true from hagrees]
        rw [hledger]
        exact h
  -- the end of a processing only counts while there is one
  | processed execEndNs =>
    simp only [SocketTask.step]
    cases hphase : task.phase with
    | receiving =>
      rw [hphase] at hagrees
      have hledger : l.step (.processed execEndNs) = l := by
        simp [SocketLedger.step, hagrees.2]
      rw [hledger]
      exact h
    | processing start reqIds processSeq =>
      obtain ⟨s, hcurrent, hgone, hprocessed⟩ := h.processed hphase execEndNs
      have hledger : l.step (.processed execEndNs) = l.finish s execEndNs := by
        simp [SocketLedger.step, hcurrent, hgone]
      rw [hledger]
      exact hprocessed
    | done =>
      rw [hphase] at hagrees
      have hledger : l.step (.processed execEndNs) = l := by
        simp [SocketLedger.step, show l.gone = true from hagrees]
      rw [hledger]
      exact h
  | leave =>
    have hleft : task.step .leave = { task with phase := .done } := by
      simp only [SocketTask.step]
    rw [hleft]
    exact ⟨h.pending, h.scheds, h.execs, rfl⟩

end SocketInv

/-- The task and its ledger agree after every run. -/
theorem socketInv_run (taskId : ℕ) (taskName : Option String) (steps : List (SocketStep String)) :
    SocketInv (SocketTask.run taskId taskName steps) (SocketLedger.run steps) := by
  unfold SocketTask.run
  induction steps using List.reverseRecOn with
  | nil => exact ⟨rfl, rfl, rfl, rfl, rfl⟩
  | append_singleton steps st ih =>
    rw [List.foldl_concat, SocketLedger.run_concat]
    exact ih.step st

/-- Two messages, of which both have outputs of the request `r2`. -/
def twoMessages : List (SocketStep String) :=
  [.callback 10 12, .recv 13 (.outputs (some [.object (some "r1"), .object (some "r2")])),
    .processed 15, .callback 16 18, .recv 19 (.outputs (some [.object (some "r2")])),
    .processed 22]

end DeLatency
