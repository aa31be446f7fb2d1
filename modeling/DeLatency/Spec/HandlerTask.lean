import DeLatency.Spec.ServedOutputs
import Mathlib.Data.List.Chain
import Mathlib.Data.List.Induction

/-!
# The time line of the output handler

A ledger says, in terms of the steps of a run alone, which slices of which rounds the task has
processed, when, and which waits came before each (`HandlerLedger`).  What the task holds and has
sent is what its ledger has (`HandlerInv`), so the converter draws it (`outputHandler_timeline`).
-/

namespace DeLatency

/-! ## Slices -/

/-- A slice of a round that the handler has processed: the waits before it, the outputs of the
    round before it, its own and those after it, and when it was processed. -/
structure ServedSlice where
  waits : List SchedWait
  before : List (EngineCoreOutput String)
  outputs : List (EngineCoreOutput String)
  later : List (EngineCoreOutput String)
  startNs : ℤ
  endNs : ℤ

namespace ServedSlice

/-- The outputs of its round. -/
def round (s : ServedSlice) : List (EngineCoreOutput String) := s.before ++ s.outputs ++ s.later

/-- The waits before a slice are charged to all requests that are still to be served. -/
def served (s : ServedSlice) : ServedOutputs where
  waits := s.waits
  charged := distinctReqIds (s.outputs ++ s.later)
  reqIds := distinctReqIds s.outputs
  startNs := s.startNs
  endNs := some s.endNs

def times (s : ServedSlice) : List ℤ := s.waits.map (·.runTsNs) ++ [s.startNs, s.endNs]

/-- The slice is the last one of its round and the next one the first of another, or the next one
    goes on where it ends. -/
def Next (s s' : ServedSlice) : Prop :=
  s.later = [] ∧ s'.before = [] ∨
    s'.before = s.before ++ s.outputs ∧ s.later = s'.outputs ++ s'.later

end ServedSlice

/-- The wait that a step notes. -/
def HandlerStep.wait : HandlerStep String → Option SchedWait
  | .callback readyTsNs runTsNs => notedWait readyTsNs runTsNs
  | _ => none

/-- The outputs that are received. -/
def HandlerStep.received : HandlerStep String → Option (List (EngineCoreOutput String))
  | .receive outputs => outputs
  | _ => none

/-- The times that the task reads. -/
def HandlerStep.times : HandlerStep String → List ℤ
  | .callback _ runTsNs => [runTsNs]
  | .process startNs endNs _ => [startNs, endNs]
  | _ => []

namespace OutputHandlerInfo

/-- A callback only adds its wait to those that are pending. -/
theorem scheduledCallback_pending (info : OutputHandlerInfo String) (readyTsNs runTsNs : ℤ) :
    (info.scheduledCallback readyTsNs runTsNs).pendingSchedEvents =
      info.pendingSchedEvents ++ (notedWait readyTsNs runTsNs).toList := by
  unfold scheduledCallback notedWait
  split
  · rfl
  · rw [Option.toList_none, List.append_nil]

variable {info : OutputHandlerInfo String} {slices : List (List (EngineCoreOutput String))} {i : ℕ}
  {seq : Option ℕ}

/-- What a call with the slice of its turn leaves and sends. -/
theorem InRound.begin_spec (h : info.InRound slices i seq) {slice : List (EngineCoreOutput String)}
    (hslice : slices[i]? = some slice) :
    (info.beginProcessOutputs (some slice)).info.InRound slices (i + 1) seq ∧
      (info.beginProcessOutputs (some slice)).info.pendingSchedEvents = [] ∧
      (info.beginProcessOutputs (some slice)).reqIds = distinctReqIds slice ∧
      (info.beginProcessOutputs (some slice)).sent.map OutputHandlerSchedLatency.logged =
        chargeEvents info.pendingSchedEvents (distinctReqIds (slices.drop i).flatten) := by
  -- the call moves on to the next slice and clears the waits
  rw [h.begin_eq hslice, finishBegin_info, finishBegin_reqIds, finishBegin_sent, chargeEvents]
  refine ⟨⟨h.sliceReqIds, h.suffixReqIds, rfl, h.activeRoundSeq⟩, rfl, rfl, ?_⟩
  split
  · rfl
  · rw [List.map_map]
    rfl

end OutputHandlerInfo

/-- The slices of a round are those of the outputs that were received, if there are any. -/
theorem chunkOutputHandlerSlices_cases (outputs : Option (List (EngineCoreOutput String)))
    (chunkSize : Option ℤ) :
    chunkOutputHandlerSlices outputs chunkSize = [] ∨
      outputs = some (chunkOutputHandlerSlices outputs chunkSize).flatten := by
  cases outputs with
  | none => exact .inl rfl
  | some outputs =>
    simp only [chunkOutputHandlerSlices]
    by_cases hempty : outputs.length = 0
    · rw [if_pos hempty, List.flatten_singleton]
      exact .inr rfl
    · rw [if_neg hempty]
      cases chunkSize with
      | none =>
        dsimp only
        rw [List.flatten_singleton]
        exact .inr rfl
      | some c =>
        dsimp only
        by_cases hshort : c = 0 ∨ outputs.length ≤ c
        · rw [if_pos hshort, List.flatten_singleton]
          exact .inr rfl
        · rw [if_neg hshort]
          -- a negative chunk size gives an empty range, and all outputs are lost
          by_cases hneg : c < 0
          · rw [if_pos hneg]
            exact .inl rfl
          · rw [if_neg hneg, List.flatten_chunks (by omega)]
            exact .inr rfl

/-! ## The ledger -/

/-- What a task has to do: wait for outputs, or process the slices of a round after the outputs
    of it that it has processed. -/
inductive HandlerWork
  | receiving
  | round (before : List (EngineCoreOutput String)) (slices : List (List (EngineCoreOutput String)))
  | done

/-- The slices that a task has processed, the waits since the last one, and what it has to do. -/
structure HandlerLedger where
  served : List ServedSlice := []
  waiting : List SchedWait := []
  work : HandlerWork := .receiving

namespace HandlerLedger

/-- The next slice of the round is charged with all waits since the last one. -/
def process (l : HandlerLedger) (before slice : List (EngineCoreOutput String))
    (slices : List (List (EngineCoreOutput String))) (startNs endNs : ℤ) (raises : Bool) :
    HandlerLedger where
  served := l.served ++
    [{ waits := l.waiting, before, outputs := slice, later := slices.flatten, startNs, endNs }]
  waiting := []
  work := if raises then .done else .round (before ++ slice) slices

/-- Every step keeps the task and its ledger in agreement. -/
def step (outputChunkSize : Option ℤ) (l : HandlerLedger) (st : HandlerStep String) :
    HandlerLedger :=
  match st, l.work with
  | .callback readyTsNs runTsNs, _ =>
    { l with waiting := l.waiting ++ (notedWait readyTsNs runTsNs).toList }
  | .receive outputs, .receiving =>
    { l with work := .round [] (chunkOutputHandlerSlices outputs outputChunkSize) }
  | .process startNs endNs raises, .round before (slice :: slices) =>
    l.process before slice slices startNs endNs raises
  -- the round is over when no slice is left
  | .finishRound, .round _ [] => { l with work := .receiving }
  | .leave, _ => { l with work := .done }
  | _, _ => l

def run (outputChunkSize : Option ℤ) (steps : List (HandlerStep String)) : HandlerLedger :=
  steps.foldl (step outputChunkSize) {}

/-- One more step of the task. -/
theorem run_concat (outputChunkSize : Option ℤ) (steps : List (HandlerStep String))
    (st : HandlerStep String) :
    run outputChunkSize (steps ++ [st]) = (run outputChunkSize steps).step outputChunkSize st :=
  List.foldl_concat ..

/-- How what there is to do goes on from the slice that was processed last. -/
def Follows (steps : List (HandlerStep String)) (last : Option ServedSlice) :
    HandlerWork → Prop
  | .receiving => ∀ s ∈ last, s.later = []
  | .round before slices =>
    (slices ≠ [] → before ++ slices.flatten ∈ steps.filterMap HandlerStep.received) ∧
      (last = none → before = []) ∧
      ∀ s ∈ last, before = [] ∧ s.later = [] ∨
        before = s.before ++ s.outputs ∧ s.later = slices.flatten
  | .done => True

/-- What the ledger of a run has. -/
structure Accounts (steps : List (HandlerStep String)) (l : HandlerLedger) : Prop where
  waits : steps.filterMap HandlerStep.wait = l.served.flatMap (·.waits) ++ l.waiting
  times : (l.served.flatMap ServedSlice.times ++ l.waiting.map (·.runTsNs)).Sublist
    (steps.flatMap HandlerStep.times)
  received : ∀ s ∈ l.served, s.round ∈ steps.filterMap HandlerStep.received
  first : ∀ s ∈ l.served.head?, s.before = []
  chain : l.served.IsChain ServedSlice.Next
  work : Follows steps l.served.getLast? l.work

namespace Accounts

variable {steps : List (HandlerStep String)} {l : HandlerLedger}

/-- A message that was received stays received. -/
theorem received_concat (h : Accounts steps l) (st : HandlerStep String) :
    ∀ s ∈ l.served, s.round ∈ (steps ++ [st]).filterMap HandlerStep.received := by
  intro s hs
  rw [List.filterMap_append]
  exact List.mem_append_left _ (h.received s hs)

/-- What follows the last slice still does after a further step. -/
theorem follows_concat {last : Option ServedSlice} {work : HandlerWork}
    (h : Follows steps last work) (st : HandlerStep String) :
    Follows (steps ++ [st]) last work := by
  cases work with
  | round before slices =>
    -- the batch of the round was received at an earlier step
    obtain ⟨hreceived, hlast⟩ := h
    refine ⟨fun hne => ?_, hlast⟩
    rw [List.filterMap_append]
    exact List.mem_append_left _ (hreceived hne)
  | _ => exact h

/-- A step that serves nothing and notes no wait. -/
theorem quiet (h : Accounts steps l) {st : HandlerStep String} (hwait : st.wait = none)
    {work : HandlerWork} (hwork : Follows (steps ++ [st]) l.served.getLast? work) :
    Accounts (steps ++ [st]) { l with work } := by
  refine ⟨?_, ?_, h.received_concat st, h.first, h.chain, hwork⟩
  · rw [List.filterMap_append, h.waits, List.filterMap_cons_none hwait, List.filterMap_nil,
      List.append_nil]
  · rw [List.flatMap_append]
    exact h.times.trans (List.sublist_append_left _ _)

/-- A callback's wait joins those that the next slice is charged with. -/
theorem callback (h : Accounts steps l) (readyTsNs runTsNs : ℤ) :
    Accounts (steps ++ [.callback readyTsNs runTsNs])
      { l with waiting := l.waiting ++ (notedWait readyTsNs runTsNs).toList } := by
  refine ⟨?_, ?_, h.received_concat _, h.first, h.chain, follows_concat h.work _⟩
  · rw [List.filterMap_append, h.waits, List.append_assoc, List.filterMap_eq_flatMap_toList,
      List.flatMap_singleton]
    rfl
  · rw [List.map_append, ← List.append_assoc, List.flatMap_append]
    exact h.times.append (notedWait_sublist readyTsNs runTsNs)

/-- A slice is processed. -/
theorem process (h : Accounts steps l) {before slice : List (EngineCoreOutput String)}
    {slices : List (List (EngineCoreOutput String))}
    (hwork : l.work = .round before (slice :: slices)) (startNs endNs : ℤ) (raises : Bool) :
    Accounts (steps ++ [.process startNs endNs raises])
      (l.process before slice slices startNs endNs raises) := by
  have hfollows := h.work
  rw [hwork] at hfollows
  obtain ⟨hreceived, hfirst, hlast⟩ := hfollows
  have hround := hreceived (List.cons_ne_nil _ _)
  rw [List.flatten_cons, ← List.append_assoc] at hround
  refine ⟨?_, ?_, ?_, ?_, ?_, ?_⟩
  · -- the waits that were noted are charged to the slice
    rw [List.filterMap_append, h.waits]
    simp [HandlerLedger.process, HandlerStep.wait]
  · have happend := h.times.append (.refl [startNs, endNs])
    rw [List.append_assoc] at happend
    simpa [HandlerLedger.process, List.flatMap_append, ServedSlice.times, HandlerStep.times]
      using happend
  · -- its round is one that was received
    intro s hs
    rcases List.mem_append.mp hs with hs | hs
    · exact h.received_concat _ s hs
    · rw [List.mem_singleton.mp hs, List.filterMap_append]
      exact List.mem_append_left _ hround
  · intro s hs
    cases hserved : l.served with
    | nil =>
      rw [HandlerLedger.process, hserved] at hs
      cases hs
      exact hfirst (by rw [hserved]; rfl)
    | cons s' served =>
      rw [HandlerLedger.process, hserved] at hs
      exact h.first s (by rw [hserved]; exact hs)
  · -- it comes next after the last slice of its round, or is the first one of another
    refine h.chain.append (.singleton _) fun last hmem s' hs' => ?_
    cases hs'
    exact (hlast last hmem).imp (fun hnew => ⟨hnew.2, hnew.1⟩) id
  · rw [HandlerLedger.process, List.getLast?_concat]
    cases raises with
    | true => trivial
    | false =>
      refine ⟨fun _ => ?_, nofun, fun s hs => ?_⟩
      · rw [List.filterMap_append]
        exact List.mem_append_left _ hround
      · cases hs
        exact .inr ⟨rfl, rfl⟩

end Accounts

/-- The slices of a round are those of the outputs that were received, if there are any. -/
theorem follows_receive {steps : List (HandlerStep String)} {last : Option ServedSlice}
    (h : Follows steps last .receiving) (outputs : Option (List (EngineCoreOutput String)))
    (outputChunkSize : Option ℤ) :
    Follows (steps ++ [.receive outputs]) last
      (.round [] (chunkOutputHandlerSlices outputs outputChunkSize)) := by
  refine ⟨fun hne => ?_, fun _ => rfl, fun s hs => .inl ⟨rfl, h s hs⟩⟩
  have hall := (chunkOutputHandlerSlices_cases outputs outputChunkSize).resolve_left hne
  rw [List.filterMap_append, List.nil_append]
  exact List.mem_append_right _ (List.mem_filterMap.mpr ⟨_, List.mem_singleton_self _, hall⟩)

/-- Every step keeps the ledger a true account of the steps. -/
theorem accounts_step {steps : List (HandlerStep String)} {l : HandlerLedger}
    (h : Accounts steps l) (outputChunkSize : Option ℤ) (st : HandlerStep String) :
    Accounts (steps ++ [st]) (l.step outputChunkSize st) := by
  -- a step that does not fit changes nothing
  have hidle : ∀ {st : HandlerStep String}, st.wait = none → Accounts (steps ++ [st]) l :=
    fun {st} hwait => h.quiet hwait (Accounts.follows_concat h.work st)
  have hwork := h.work
  cases st with
  | callback readyTsNs runTsNs => exact h.callback readyTsNs runTsNs
  | receive outputs =>
    simp only [step]
    cases hcase : l.work with
    | receiving =>
      rw [hcase] at hwork
      exact h.quiet rfl (follows_receive hwork outputs outputChunkSize)
    | _ => exact hidle rfl
  | process startNs endNs raises =>
    simp only [step]
    cases hcase : l.work with
    | round before slices =>
      cases slices with
      | nil => exact hidle rfl
      | cons slice slices => exact h.process hcase startNs endNs raises
    | _ => exact hidle rfl
  | finishRound =>
    simp only [step]
    cases hcase : l.work with
    | round before slices =>
      cases slices with
      | nil =>
        rw [hcase] at hwork
        refine h.quiet rfl fun s hs => ?_
        exact (hwork.2.2 s hs).elim And.right And.right
      | cons slice slices => exact hidle rfl
    | _ => exact hidle rfl
  | leave => exact h.quiet rfl trivial

/-- After every run the ledger accounts for the steps. -/
theorem accounts_run (outputChunkSize : Option ℤ) (steps : List (HandlerStep String)) :
    Accounts steps (run outputChunkSize steps) := by
  induction steps using List.reverseRecOn with
  | nil => exact ⟨rfl, .slnil, by simp [run], by simp [run], .nil, fun s hs => by cases hs⟩
  | append_singleton steps st ih =>
    rw [run_concat]
    exact accounts_step ih outputChunkSize st

end HandlerLedger

/-! ## The task -/

/-- The task is where its ledger says. -/
def HandlerPhase.Agrees (info : OutputHandlerInfo String) :
    HandlerWork → HandlerPhase String → Prop
  | .receiving, .receiving => True
  | .round _ slices, .processing rest =>
    rest = slices ∧ ∃ all i seq, info.InRound all i seq ∧ all.drop i = slices
  | .done, .done => True
  | _, _ => False

/-- What a task holds and has sent is what its ledger has. -/
structure HandlerInv (task : HandlerTask String) (l : HandlerLedger) : Prop where
  pending : task.record.info.pendingSchedEvents = l.waiting
  scheds : task.record.sent.map OutputHandlerSchedLatency.logged =
    (l.served.map ServedSlice.served).flatMap ServedOutputs.schedEvents
  execs : task.sentExec.map OutputExecSlice.logged =
    (l.served.map ServedSlice.served).filterMap ServedOutputs.execEvent
  phase : task.phase.Agrees task.record.info l.work

namespace HandlerInv

variable {task : HandlerTask String} {l : HandlerLedger}

/-- A callback keeps the task and its ledger in agreement. -/
theorem callback (h : HandlerInv task l) (readyTsNs runTsNs : ℤ) :
    HandlerInv { task with record := task.record.step (.callback readyTsNs runTsNs) }
      { l with waiting := l.waiting ++ (notedWait readyTsNs runTsNs).toList } := by
  -- the wait goes into the record; the phase stays as it was
  have hphase := h.phase
  refine ⟨?_, h.scheds, h.execs, ?_⟩
  · rw [← h.pending]
    exact task.record.info.scheduledCallback_pending readyTsNs runTsNs
  · dsimp only
    unfold HandlerPhase.Agrees at hphase ⊢
    split at hphase
    · trivial
    · obtain ⟨hrest, all, i, seq, hround, hdrop⟩ := hphase
      exact ⟨hrest, all, i, seq, hround.scheduledCallback readyTsNs runTsNs, hdrop⟩
    · trivial
    · exact hphase

/-- A step that neither sends nor notes anything. -/
theorem quiet (h : HandlerInv task l) {task' : HandlerTask String} {work : HandlerWork}
    (hpending : task'.record.info.pendingSchedEvents = task.record.info.pendingSchedEvents)
    (hsent : task'.record.sent = task.record.sent) (hexec : task'.sentExec = task.sentExec)
    (hphase : task'.phase.Agrees task'.record.info work) :
    HandlerInv task' { l with work } :=
  ⟨hpending.trans h.pending, hsent ▸ h.scheds, hexec ▸ h.execs, hphase⟩

/-- A slice is processed: the waits that were pending are charged to the requests from it on. -/
theorem process (h : HandlerInv task l) {slice : List (EngineCoreOutput String)}
    {before : List (EngineCoreOutput String)} {slices : List (List (EngineCoreOutput String))}
    (hwork : l.work = .round before (slice :: slices))
    (hphase : task.phase = .processing (slice :: slices)) (startNs endNs : ℤ) :
    HandlerInv { task.processOutputs slice startNs endNs with phase := .processing slices }
      (l.process before slice slices startNs endNs false) := by
  have hagrees := h.phase
  rw [hwork, hphase] at hagrees
  obtain ⟨-, all, i, seq, hround, hdrop⟩ := hagrees
  -- where the slice stands in its round
  have hslice : all[i]? = some slice := by
    rw [← List.head?_drop, hdrop, List.head?_cons]
  have hrest : all.drop (i + 1) = slices := by
    rw [← List.drop_drop, hdrop, List.drop_one, List.tail_cons]
  obtain ⟨hnext, hnone, hreqIds, hsent⟩ := hround.begin_spec hslice
  refine ⟨hnone, ?_, ?_, rfl, all, i + 1, seq, hnext, hrest⟩
  · simp only [HandlerTask.processOutputs, HandlerRun.step]
    rw [List.map_append, h.scheds, hsent, hdrop, h.pending]
    simp [HandlerLedger.process, ServedSlice.served, ServedOutputs.schedEvents]
  · simp only [HandlerTask.processOutputs]
    rw [List.map_append, h.execs, hreqIds, logged_emitOutputExecSlice]
    simp [HandlerLedger.process, ServedSlice.served, ServedOutputs.execEvent,
      List.filterMap_eq_flatMap_toList]

/-- So does every step. -/
theorem step (h : HandlerInv task l) (outputChunkSize : Option ℤ) (st : HandlerStep String) :
    HandlerInv (task.step outputChunkSize st) (l.step outputChunkSize st) := by
  have hagrees := h.phase
  cases st with
  | callback readyTsNs runTsNs => exact h.callback readyTsNs runTsNs
  -- a message is only taken while none is in work, and opens its round before the first slice
  | receive outputs =>
    simp only [HandlerTask.step, HandlerLedger.step]
    cases hphase : task.phase with
    | receiving =>
      cases hwork : l.work with
      | receiving =>
        exact h.quiet rfl rfl rfl ⟨rfl, _, 0, _, task.record.info.inRound_setRoundSlices _, rfl⟩
      | _ => rw [hphase, hwork] at hagrees; exact hagrees.elim
    | _ =>
      cases hwork : l.work with
      | receiving => rw [hphase, hwork] at hagrees; exact hagrees.elim
      | _ => exact h
  -- the task and the ledger hold the same rest of the round, so both do nothing at its end
  | process startNs endNs raises =>
    simp only [HandlerTask.step, HandlerLedger.step]
    cases hphase : task.phase with
    | processing rest =>
      cases hwork : l.work with
      | round before slices =>
        have hsame := hagrees
        rw [hphase, hwork] at hsame
        obtain rfl := hsame.1
        cases rest with
        | nil => exact h
        | cons slice slices =>
          have hprocess := h.process hwork hphase startNs endNs
          dsimp only
          cases raises with
          | false => exact hprocess
          -- an exception ends the task with what it sent before
          | true => exact ⟨hprocess.pending, hprocess.scheds, hprocess.execs, trivial⟩
      | _ => rw [hphase, hwork] at hagrees; exact hagrees.elim
    | _ =>
      cases hwork : l.work with
      | round before slices => rw [hphase, hwork] at hagrees; exact hagrees.elim
      | _ => exact h
  -- the round may only be closed when no slice is left
  | finishRound =>
    simp only [HandlerTask.step, HandlerLedger.step]
    cases hphase : task.phase with
    | processing rest =>
      cases hwork : l.work with
      | round before slices =>
        have hsame := hagrees
        rw [hphase, hwork] at hsame
        obtain rfl := hsame.1
        cases rest with
        | nil => exact h.quiet rfl rfl rfl trivial
        | cons slice slices => exact h
      | _ => rw [hphase, hwork] at hagrees; exact hagrees.elim
    | _ =>
      cases hwork : l.work with
      | round before slices => rw [hphase, hwork] at hagrees; exact hagrees.elim
      | _ => exact h
  | leave =>
    simp only [HandlerTask.step, HandlerLedger.step]
    cases task.phase with
    | processing rest => exact h.quiet rfl rfl rfl trivial
    | _ => exact h.quiet rfl rfl rfl trivial

end HandlerInv

/-- The task and its ledger agree after every run. -/
theorem handlerInv_run (outputChunkSize : Option ℤ) (taskId : ℕ) (taskName : Option String)
    (steps : List (HandlerStep String)) :
    HandlerInv (HandlerTask.run outputChunkSize taskId taskName steps)
      (HandlerLedger.run outputChunkSize steps) := by
  unfold HandlerTask.run
  induction steps using List.reverseRecOn with
  | nil => exact ⟨rfl, rfl, rfl, trivial⟩
  | append_singleton steps st ih =>
    rw [List.foldl_concat, HandlerLedger.run_concat]
    -- the ledger takes the step with the task
    exact ih.step outputChunkSize st

/-- The distinct ids are those of some output. -/
theorem mem_distinctReqIds {outputs : List (EngineCoreOutput String)} {rid : String} :
    rid ∈ distinctReqIds outputs ↔ ∃ output ∈ outputs, output.rid = some rid := by
  have hkeys : rid ∈ (List.firstSeen RequestIdValue.str
      (outputs.filterMap EngineCoreOutput.rid)).map RequestIdValue.str ↔ _ := List.mem_map_firstSeen
  have hid : ∀ l : List String, l.map RequestIdValue.str = l := List.map_id
  rw [hid, hid, List.mem_filterMap] at hkeys
  exact hkeys

/-- No output of a round is lost in its slices, unless the chunk size is negative. -/
theorem flatten_slices_of_nonneg (outputs : List (EngineCoreOutput String))
    {outputChunkSize : Option ℤ} (h : ∀ chunkSize ∈ outputChunkSize, 0 ≤ chunkSize) :
    (chunkOutputHandlerSlices (some outputs) outputChunkSize).flatten = outputs := by
  cases outputChunkSize with
  | none =>
    simp [chunkOutputHandlerSlices]
  | some chunkSize =>
    -- a size of zero means no slicing
    rcases (h chunkSize rfl).eq_or_lt with hzero | hpos
    · subst hzero
      simp [chunkOutputHandlerSlices]
    · exact flatten_chunkOutputHandlerSlices outputs hpos

/-- A round of two slices; the request `r2` waits for the one of `r1`. -/
def twoSlices : List (HandlerStep String) :=
  [.callback 10 12, .receive (some [.object (some "r1"), .object (some "r2")]),
    .process 13 15 false, .callback 16 18, .process 19 22 false, .finishRound]

end DeLatency
