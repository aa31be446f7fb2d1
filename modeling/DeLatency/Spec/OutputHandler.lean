import DeLatency.Patch.OutputHandler
import Mathlib.Data.List.DropRight
import Mathlib.Data.List.Induction

/-!
# What a round of the output handler accounts for

Inside a round the record knows the ids of every slice and of every suffix of slices.  Each
call therefore returns the ids of its own slice and charges the waits to the ids from its
slice on; the number of the round stays fixed and only grows from round to round.
-/

namespace DeLatency

open RequestIdValue (str truthy)

variable {ρ : Type} [RequestIdValue ρ]

/-- The distinct request ids of some outputs, in first-seen order. -/
def distinctReqIds (outputs : List (EngineCoreOutput ρ)) : List ρ :=
  (outputs.filterMap EngineCoreOutput.rid).firstSeen str

/-- The ids of some outputs are their distinct ids. -/
@[simp] theorem extractReqIds_some (outputs : List (EngineCoreOutput ρ)) :
    extractReqIds (some outputs) = distinctReqIds outputs := List.foldl_pushNew_nil _

/-- Removing repetitions keeps the first of each id. -/
@[simp] theorem dedupeReqIds_eq (reqIds : List ρ) :
    dedupeReqIds reqIds = reqIds.firstSeen str := List.foldl_pushNew_nil reqIds

/-- Distinct ids have no repetition to remove. -/
@[simp] theorem firstSeen_distinctReqIds (outputs : List (EngineCoreOutput ρ)) :
    (distinctReqIds outputs).firstSeen str = distinctReqIds outputs := List.firstSeen_firstSeen _

/-- The ids of a slice are among those of the slices from it on. -/
theorem str_mem_distinctReqIds_append {outputs : List (EngineCoreOutput ρ)} {rid : ρ}
    (h : rid ∈ distinctReqIds outputs) (later : List (EngineCoreOutput ρ)) :
    str rid ∈ (distinctReqIds (outputs ++ later)).map str := by
  rw [distinctReqIds, List.mem_map_firstSeen, List.filterMap_append, List.map_append]
  exact List.mem_append_left _ (List.mem_map_of_mem ((List.firstSeen_sublist _).subset h))

/-- The slices name a request exactly when one of them does. -/
theorem distinctReqIds_flatten_ne_nil {slices : List (List (EngineCoreOutput ρ))} :
    distinctReqIds slices.flatten ≠ [] ↔ ∃ s ∈ slices, distinctReqIds s ≠ [] := by
  simp only [distinctReqIds, ne_eq, List.firstSeen_eq_nil, List.filterMap_eq_nil_iff,
    List.mem_flatten]
  -- some output has an id
  push Not
  constructor
  · intro h
    obtain ⟨output, ⟨s, hs, hmem⟩, hne⟩ := h
    exact ⟨s, hs, output, hmem, hne⟩
  · intro h
    obtain ⟨s, hs, output, hmem, hne⟩ := h
    exact ⟨output, ⟨s, hs, hmem⟩, hne⟩

/-! ## Slices -/

/-- Put together the slices are the outputs. -/
theorem flatten_chunkOutputHandlerSlices {α : Type} (outputs : List α) {chunkSize : ℤ}
    (hpos : 0 < chunkSize) :
    (chunkOutputHandlerSlices (some outputs) (some chunkSize)).flatten = outputs := by
  rw [chunkOutputHandlerSlices]
  split
  · exact List.flatten_singleton
  · split
    · exact List.flatten_singleton
    · rw [if_neg (not_lt.mpr hpos.le)]
      exact List.flatten_chunks (by omega) outputs

/-- No slice is longer than the chunk size. -/
theorem length_le_of_mem_chunkOutputHandlerSlices {α : Type} {outputs slice : List α}
    {chunkSize : ℤ} (hpos : 0 < chunkSize)
    (h : slice ∈ chunkOutputHandlerSlices (some outputs) (some chunkSize)) :
    slice.length ≤ chunkSize := by
  rw [chunkOutputHandlerSlices] at h
  split at h
  · -- nothing to cut: the one slice is empty
    next hzero =>
    rw [List.mem_singleton] at h
    rw [h, hzero]
    omega
  · split at h
    · -- fewer outputs than the chunk size: one slice
      next hle =>
      rw [List.mem_singleton] at h
      rw [h]
      exact hle.resolve_left hpos.ne'
    · rw [if_neg (not_lt.mpr hpos.le)] at h
      have := List.length_le_of_mem_chunks h
      omega

/-! ## The suffixes of a round -/

/-- The suffix of a slice names the requests of it and of all later slices. -/
theorem suffixReqIds_map (slices : List (List (EngineCoreOutput ρ))) :
    (suffixReqIds (slices.map distinctReqIds)).headD [] = distinctReqIds slices.flatten ∧
    ∀ i slice, slices[i]? = some slice →
      (suffixReqIds (slices.map distinctReqIds))[i]? =
        some (distinctReqIds (slices.drop i).flatten) := by
  induction slices with
  | nil => exact ⟨rfl, by simp⟩
  | cons slice rest ih =>
    -- the head of the suffixes is what the loop has gathered from the end
    have hhead : (distinctReqIds rest.flatten).foldl (List.pushNew str) (distinctReqIds slice) =
        distinctReqIds (slice :: rest).flatten := by
      rw [List.foldl_pushNew, firstSeen_distinctReqIds, List.flatten_cons, distinctReqIds,
        distinctReqIds, distinctReqIds, List.filterMap_append, List.firstSeen_append]
      congr 1
      exact List.filter_congr fun rid _ => by simp only [List.mem_map_firstSeen]
    rw [List.map_cons, suffixReqIds, ih.1]
    refine ⟨hhead, ?_⟩
    intro i later hi
    cases i with
    | zero => exact congrArg some hhead
    | succ i => exact ih.2 i later hi

/-! ## Flushing -/

namespace OutputHandlerInfo

section Flushing

omit [RequestIdValue ρ]

/-- The event that charges a wait to some ids. -/
def latencyEvent (info : OutputHandlerInfo ρ) (reqIds : List ρ) (wait : SchedWait) :
    OutputHandlerSchedLatency ρ where
  wait := wait
  queueNs := wait.queueNs
  reqIds := reqIds
  batchSize := reqIds.length
  taskId := info.taskId
  taskName := info.taskName
  roundSeq := info.currentSeq

/-- A wait is never negative, so it is sent to whoever is there. -/
theorem emitSchedLatency_eq (info : OutputHandlerInfo ρ) {reqIds : List ρ} (h : reqIds ≠ [])
    (wait : SchedWait) :
    info.emitSchedLatency reqIds info.currentSeq wait = some (info.latencyEvent reqIds wait) := by
  have hqueue : ¬wait.queueNs < 0 := by
    have := wait.ordered
    rw [SchedWait.queueNs]
    omega
  rw [emitSchedLatency, if_neg]
  · rfl
  · simp [h, hqueue]

/-- After a flush no wait is pending. -/
theorem flushPending_info (info : OutputHandlerInfo ρ) (reqIds : Option (List ρ)) :
    (info.flushPending reqIds).1 = { info with pendingSchedEvents := [] } := by
  unfold flushPending
  dsimp only
  split
  · next hnone =>
    rw [← List.isEmpty_iff.mp hnone]
  · split <;> rfl

/-- A flush sends every pending wait, unless there is nobody to charge it to. -/
theorem flushPending_sent (info : OutputHandlerInfo ρ) (reqIds : List ρ) :
    (info.flushPending (some reqIds)).2.2 =
      if reqIds = [] then [] else info.pendingSchedEvents.map (info.latencyEvent reqIds) := by
  unfold flushPending
  dsimp only [Option.getD_some]
  split
  · next hnone =>
    rw [List.isEmpty_iff.mp hnone, List.map_nil, ite_self]
  · split
    · next hempty => rw [if_pos (List.isEmpty_iff.mp hempty)]
    · -- each wait goes out with all the ids
      next hne =>
      have hne : reqIds ≠ [] := fun h => hne (List.isEmpty_iff.mpr h)
      rw [if_neg hne, ← List.filterMap_eq_map]
      exact List.filterMap_congr fun wait _ => info.emitSchedLatency_eq hne wait

variable (info : OutputHandlerInfo ρ) (reqIds charged : List ρ) (processSeq : Option ℕ)

/-- Beginning a slice notes its requests and clears the pending waits that it charges. -/
theorem finishBegin_info : (finishBegin info reqIds charged processSeq).info =
    { info with
      currentProcessReqIds := reqIds
      currentProcessSize := reqIds.length
      pendingSchedEvents := [] } := by
  simp only [finishBegin, flushPending_info]

/-- It sends the pending waits when there is a request to charge. -/
theorem finishBegin_sent : (finishBegin info reqIds charged processSeq).sent =
    if charged = [] then [] else info.pendingSchedEvents.map (info.latencyEvent charged) := by
  simp only [finishBegin, flushPending_sent]
  rfl

/-- The call keeps the ids of its slice. -/
@[simp] theorem finishBegin_reqIds :
    (finishBegin info reqIds charged processSeq).reqIds = reqIds := rfl

/-- The call keeps its sequence number. -/
@[simp] theorem finishBegin_processSeq :
    (finishBegin info reqIds charged processSeq).processSeq = processSeq := rfl

end Flushing

/-! ## One call -/

/-- A call processes one slice or none; what it leaves alone and what it returns. -/
theorem beginProcessOutputs_cases (info : OutputHandlerInfo ρ)
    (outputs : Option (List (EngineCoreOutput ρ))) :
    ∃ (info' : OutputHandlerInfo ρ) (reqIds charged : List ρ),
      info.beginProcessOutputs outputs = finishBegin info' reqIds charged info'.activeRoundSeq ∧
      info'.pendingSchedEvents = info.pendingSchedEvents ∧
      (info'.processSeq = info.processSeq ∧ info'.activeRoundSeq = info.activeRoundSeq ∨
        info'.processSeq = info.processSeq + 1 ∧
          info'.activeRoundSeq = some (info.processSeq + 1)) := by
  unfold beginProcessOutputs
  dsimp only
  split
  · exact ⟨_, _, _, rfl, rfl, .inl ⟨rfl, rfl⟩⟩
  · split
    · exact ⟨_, _, _, rfl, rfl, .inl ⟨rfl, rfl⟩⟩
    · -- outside a round with requests: a new sequence number is opened
      exact ⟨{ info with
        processSeq := info.processSeq + 1
        activeRoundSeq := some (info.processSeq + 1) }, _, _, rfl, rfl, .inr ⟨rfl, rfl⟩⟩

/-- The call after `i` calls of a round with these slices. -/
structure InRound (info : OutputHandlerInfo ρ) (slices : List (List (EngineCoreOutput ρ)))
    (i : ℕ) (seq : Option ℕ) : Prop where
  sliceReqIds : info.roundSliceReqIds = slices.map distinctReqIds
  suffixReqIds : info.roundSuffixReqIds = DeLatency.suffixReqIds (slices.map distinctReqIds)
  nextSliceIdx : info.roundNextSliceIdx = i
  activeRoundSeq : info.activeRoundSeq = seq

/-- The number of a round, when it is set up. -/
def roundSeqOf (info : OutputHandlerInfo ρ) (slices : List (List (EngineCoreOutput ρ))) :
    Option ℕ :=
  if distinctReqIds slices.flatten = [] then none else some (info.processSeq + 1)

/-- Some slice has an id exactly when the outputs have one. -/
theorem any_slices {slices : List (List (EngineCoreOutput ρ))} :
    ((slices.map distinctReqIds).any fun reqIds => !reqIds.isEmpty) = true ↔
      distinctReqIds slices.flatten ≠ [] := by
  rw [distinctReqIds_flatten_ne_nil]
  simp

/-- The suffixes are built from the back. -/
theorem buildSuffixReqIds_eq (slices : List (List (EngineCoreOutput ρ))) :
    buildSuffixReqIds slices =
      (slices.map distinctReqIds, DeLatency.suffixReqIds (slices.map distinctReqIds)) := by
  simp [buildSuffixReqIds]

/-- After the slices are set the round stands before its first. -/
theorem inRound_setRoundSlices (info : OutputHandlerInfo ρ)
    (slices : List (List (EngineCoreOutput ρ))) :
    InRound (info.setRoundSlices slices).1 slices 0 (info.roundSeqOf slices) := by
  rw [setRoundSlices, buildSuffixReqIds_eq]
  refine ⟨rfl, rfl, rfl, ?_⟩
  dsimp only [roundSeqOf]
  by_cases h : distinctReqIds slices.flatten = []
  · rw [if_pos h, if_neg fun hany => any_slices.mp hany h]
  · rw [if_neg h, if_pos (any_slices.mpr h), if_pos (any_slices.mpr h)]

/-- A callback leaves the round where it is. -/
theorem InRound.scheduledCallback {info : OutputHandlerInfo ρ}
    {slices : List (List (EngineCoreOutput ρ))} {i : ℕ} {seq : Option ℕ}
    (h : info.InRound slices i seq) (readyTsNs runTsNs : ℤ) :
    (info.scheduledCallback readyTsNs runTsNs).InRound slices i seq := by
  unfold OutputHandlerInfo.scheduledCallback
  split
  · exact ⟨h.sliceReqIds, h.suffixReqIds, h.nextSliceIdx, h.activeRoundSeq⟩
  · exact h

/-- The ids from a slice on include the slice's own, so the waits are charged to all of them. -/
theorem schedReqIds_suffix {slices : List (List (EngineCoreOutput ρ))} {i : ℕ}
    {slice : List (EngineCoreOutput ρ)} (hslice : slices[i]? = some slice) :
    schedReqIds (some (distinctReqIds (slices.drop i).flatten)) (distinctReqIds slice) =
      distinctReqIds (slices.drop i).flatten := by
  have hdrop : (slices.drop i).flatten = slice ++ (slices.drop (i + 1)).flatten := by
    rw [List.drop_eq_getElem?_toList_append, hslice]
    rfl
  have hmem : ((distinctReqIds slice).all fun rid =>
      str rid ∈ (distinctReqIds (slices.drop i).flatten).map str) = true := by
    rw [List.all_eq_true, hdrop]
    exact fun rid hrid => decide_eq_true (str_mem_distinctReqIds_append hrid _)
  simp only [schedReqIds, dedupeReqIds_eq, firstSeen_distinctReqIds]
  split
  · next hempty =>
    -- no ids from here on, so none in the slice either
    rw [List.isEmpty_iff] at hempty
    rw [hempty]
    by_contra hne
    obtain ⟨rid, hrid⟩ := List.exists_mem_of_ne_nil _ hne
    have := str_mem_distinctReqIds_append hrid (slices.drop (i + 1)).flatten
    rw [← hdrop, hempty] at this
    cases this
  · rw [hmem, Bool.or_true, if_pos rfl]

/-- A call with the slice of its turn returns the slice's ids, charges those from the slice on
    and moves to the next slice. -/
theorem InRound.begin_eq {info : OutputHandlerInfo ρ}
    {slices : List (List (EngineCoreOutput ρ))} {i : ℕ} {seq : Option ℕ}
    (h : info.InRound slices i seq) {slice : List (EngineCoreOutput ρ)}
    (hslice : slices[i]? = some slice) :
    info.beginProcessOutputs (some slice) =
      finishBegin { info with roundNextSliceIdx := i + 1 } (distinctReqIds slice)
        (distinctReqIds (slices.drop i).flatten) seq := by
  have hexpected : info.roundSliceReqIds[i]? = some (distinctReqIds slice) := by
    rw [h.sliceReqIds, List.getElem?_map, hslice, Option.map_some]
  have hsuffix : info.roundSuffixReqIds[i]? =
      some (distinctReqIds (slices.drop i).flatten) := by
    rw [h.suffixReqIds]
    exact (suffixReqIds_map slices).2 i slice hslice
  -- the ids of the outputs are those that the round expects
  have hreq : DeLatency.OutputHandlerInfo.sliceReqIds (distinctReqIds slice)
      (distinctReqIds slice) = distinctReqIds slice := by
    unfold OutputHandlerInfo.sliceReqIds
    split
    · rfl
    · split <;> rfl
  simp only [beginProcessOutputs, h.nextSliceIdx, h.activeRoundSeq, hexpected, hsuffix,
    extractReqIds_some, dedupeReqIds_eq, firstSeen_distinctReqIds, hreq,
    schedReqIds_suffix hslice]

end OutputHandlerInfo

/-! ## Runs -/

/-- The wait that is noted by an operation. -/
def HandlerOp.wait : HandlerOp ρ → Option SchedWait
  | .callback readyTsNs runTsNs =>
    if h : readyTsNs ≤ runTsNs then some ⟨readyTsNs, runTsNs, h⟩ else none
  | _ => none

/-- The operation is a call of `_begin_output_handler_process_outputs`. -/
def HandlerOp.isBegin : HandlerOp ρ → Bool
  | .begin _ => true
  | _ => false

/-- The waits that are noted after the last call. -/
def waitsSinceBegin (ops : List (HandlerOp ρ)) : List SchedWait :=
  (ops.rtakeWhile fun op => !op.isBegin).filterMap HandlerOp.wait

namespace HandlerRun

variable (taskId : ℕ) (taskName : Option String)

/-- Operations compose. -/
theorem run_append (ops ops' : List (HandlerOp ρ)) :
    run taskId taskName (ops ++ ops') = ops'.foldl step (run taskId taskName ops) :=
  List.foldl_append

/-- One more operation. -/
@[simp] theorem run_concat (ops : List (HandlerOp ρ)) (op : HandlerOp ρ) :
    run taskId taskName (ops ++ [op]) = (run taskId taskName ops).step op :=
  run_append taskId taskName ops [op]

/-- The waits sent, then those pending, come in the order in which they were noted: none is
    sent twice. -/
theorem waits_sublist (ops : List (HandlerOp ρ)) :
    ((run taskId taskName ops).sent.map (·.wait) ++
      (run taskId taskName ops).info.pendingSchedEvents).Sublist
        (ops.filterMap HandlerOp.wait) := by
  induction ops using List.reverseRecOn with
  | nil => exact .slnil
  | append_singleton ops op ih =>
    rw [run_concat, List.filterMap_append]
    cases op with
    | callback readyTsNs runTsNs =>
      simp only [step, OutputHandlerInfo.scheduledCallback]
      split
      · next h =>
        rw [← List.append_assoc]
        apply ih.append
        simp [HandlerOp.wait, h]
      · exact ih.trans (List.sublist_append_left _ _)
    | setRound slices => exact ih.trans (List.sublist_append_left _ _)
    | clear => exact ih.trans (List.sublist_append_left _ _)
    | begin outputs =>
      -- what is pending is sent, or dropped when there is no id to charge
      obtain ⟨info', reqIds, charged, heq, hpending, -⟩ :=
        (run taskId taskName ops).info.beginProcessOutputs_cases outputs
      simp only [step, heq, OutputHandlerInfo.finishBegin_info, OutputHandlerInfo.finishBegin_sent,
        hpending, List.append_nil, List.map_append]
      refine (List.Sublist.trans ?_ ih).trans (List.sublist_append_left _ _)
      apply List.Sublist.append (List.Sublist.refl _)
      split
      · exact List.nil_sublist _
      · rw [List.map_map]
        exact (List.map_id _).symm ▸ List.Sublist.refl _

/-- A wait is pending from its callback until the next call, which flushes all of them. -/
theorem pendingSchedEvents_run (ops : List (HandlerOp ρ)) :
    (run taskId taskName ops).info.pendingSchedEvents = waitsSinceBegin ops := by
  induction ops using List.reverseRecOn with
  | nil => rfl
  | append_singleton ops op ih =>
    rw [run_concat]
    cases op with
    | callback readyTsNs runTsNs =>
      rw [waitsSinceBegin, List.rtakeWhile_concat_pos _ _ _ rfl, List.filterMap_append,
        ← waitsSinceBegin, ← ih]
      simp only [step, OutputHandlerInfo.scheduledCallback]
      split
      · next h => simp [HandlerOp.wait, h]
      · next h => simp [HandlerOp.wait, h]
    | setRound slices =>
      rw [waitsSinceBegin, List.rtakeWhile_concat_pos _ _ _ rfl, List.filterMap_append,
        ← waitsSinceBegin, ← ih]
      exact (List.append_nil _).symm
    | clear =>
      rw [waitsSinceBegin, List.rtakeWhile_concat_pos _ _ _ rfl, List.filterMap_append,
        ← waitsSinceBegin, ← ih]
      exact (List.append_nil _).symm
    -- a call clears the waits, so only those after it are pending
    | begin outputs =>
      obtain ⟨info', reqIds, charged, heq, -⟩ :=
        (run taskId taskName ops).info.beginProcessOutputs_cases outputs
      rw [waitsSinceBegin, List.rtakeWhile_concat_neg _ _ _ (by simp [HandlerOp.isBegin]), step,
        heq, OutputHandlerInfo.finishBegin_info]
      rfl

/-- Numbers of rounds only grow, and the active one is among those given out. -/
theorem seq_step (st : HandlerRun ρ) (op : HandlerOp ρ) :
    st.info.processSeq ≤ (st.step op).info.processSeq ∧
      ((∀ seq ∈ st.info.activeRoundSeq, seq ≤ st.info.processSeq) →
        ∀ seq ∈ (st.step op).info.activeRoundSeq, seq ≤ (st.step op).info.processSeq) := by
  -- only the start of a round and a call outside of one give out a number, and the next one
  cases op with
  | callback readyTsNs runTsNs =>
    simp only [step, OutputHandlerInfo.scheduledCallback]
    split <;> exact ⟨le_refl _, id⟩
  | setRound slices =>
    simp only [step, OutputHandlerInfo.setRoundSlices]
    split
    · exact ⟨Nat.le_succ _, fun _ seq hseq => by cases hseq; exact le_refl _⟩
    · exact ⟨le_refl _, fun _ seq hseq => by cases hseq⟩
  | clear => exact ⟨le_refl _, fun _ seq hseq => by cases hseq⟩
  | begin outputs =>
    obtain ⟨info', reqIds, charged, heq, -, hseq | hseq⟩ :=
      st.info.beginProcessOutputs_cases outputs
    · simp only [step, heq, OutputHandlerInfo.finishBegin_info, hseq.1, hseq.2]
      exact ⟨le_refl _, id⟩
    · simp only [step, heq, OutputHandlerInfo.finishBegin_info, hseq.1, hseq.2]
      exact ⟨Nat.le_succ _, fun _ seq hseq => by cases hseq; exact le_refl _⟩

/-- The sequence number of the round is one of those given out. -/
theorem activeRoundSeq_le (ops : List (HandlerOp ρ)) :
    ∀ seq ∈ (run taskId taskName ops).info.activeRoundSeq,
      seq ≤ (run taskId taskName ops).info.processSeq := by
  induction ops using List.reverseRecOn with
  | nil => intro seq hseq; cases hseq
  | append_singleton ops op ih =>
    rw [run_concat]
    exact (seq_step _ op).2 ih

/-- The numbers given out only grow. -/
theorem processSeq_le_of_prefix {ops ops' : List (HandlerOp ρ)} (h : ops <+: ops') :
    (run taskId taskName ops).info.processSeq ≤ (run taskId taskName ops').info.processSeq := by
  obtain ⟨rest, rfl⟩ := h
  induction rest using List.reverseRecOn with
  | nil => rw [List.append_nil]
  | append_singleton rest op ih =>
    rw [← List.append_assoc, run_concat]
    exact ih.trans (seq_step _ op).1

/-- The number that a call returns has been given out when it returns. -/
theorem processSeq_begin_le {ops : List (HandlerOp ρ)}
    {outputs : Option (List (EngineCoreOutput ρ))} {seq : ℕ}
    (h : ((run taskId taskName ops).info.beginProcessOutputs outputs).processSeq = some seq) :
    seq ≤ (run taskId taskName (ops ++ [.begin outputs])).info.processSeq := by
  obtain ⟨info', reqIds, charged, heq, -⟩ :=
    (run taskId taskName ops).info.beginProcessOutputs_cases outputs
  have hactive := activeRoundSeq_le taskId taskName (ops ++ [.begin outputs]) seq
  rw [heq, OutputHandlerInfo.finishBegin_processSeq] at h
  apply hactive
  rw [run_concat, step, heq, OutputHandlerInfo.finishBegin_info]
  exact h

end HandlerRun

/-! ## Rounds -/

/-- The first `i` calls of a round, with the waits that are noted before each call and before
    the next. -/
def roundOps (slices : List (List (EngineCoreOutput ρ))) (waits : ℕ → List (ℤ × ℤ)) :
    ℕ → List (HandlerOp ρ)
  | 0 => .setRound slices :: (waits 0).map fun w => .callback w.1 w.2
  | i + 1 => roundOps slices waits i ++
      .begin slices[i]? :: (waits (i + 1)).map fun w => .callback w.1 w.2

namespace HandlerRun

variable (taskId : ℕ) (taskName : Option String)

/-- Any number of callbacks leave the round where it is. -/
theorem inRound_callbacks {st : HandlerRun ρ} {slices : List (List (EngineCoreOutput ρ))} {i : ℕ}
    {seq : Option ℕ} (h : st.info.InRound slices i seq) (waits : List (ℤ × ℤ)) :
    ((waits.map fun w => HandlerOp.callback w.1 w.2).foldl step st).info.InRound slices i seq := by
  induction waits generalizing st with
  | nil => exact h
  | cons w rest ih =>
    rw [List.map_cons, List.foldl_cons]
    exact ih (h.scheduledCallback w.1 w.2)

/-- After `i` calls the record stands at slice `i`. -/
theorem inRound_roundOps (before : List (HandlerOp ρ)) (slices : List (List (EngineCoreOutput ρ)))
    (waits : ℕ → List (ℤ × ℤ)) {i : ℕ} (hi : i ≤ slices.length) :
    (run taskId taskName (before ++ roundOps slices waits i)).info.InRound slices i
      ((run taskId taskName before).info.roundSeqOf slices) := by
  rw [run_append]
  induction i with
  | zero =>
    rw [roundOps, List.foldl_cons]
    exact inRound_callbacks ((run taskId taskName before).info.inRound_setRoundSlices slices) _
  | succ i ih =>
    -- a call moves to the next slice, and the waits noted after it change no position
    have hbefore := ih (Nat.le_of_succ_le hi)
    have hslice : slices[i]? = some slices[i] := List.getElem?_eq_getElem hi
    rw [roundOps, List.foldl_append, List.foldl_cons]
    refine inRound_callbacks ?_ _
    rw [step, hslice, hbefore.begin_eq hslice]
    dsimp only
    rw [OutputHandlerInfo.finishBegin_info]
    exact ⟨hbefore.sliceReqIds, hbefore.suffixReqIds, rfl, hbefore.activeRoundSeq⟩

end HandlerRun

open HandlerRun

/-- The `i`-th call of a round that is set up after some other operations. -/
def roundCall (taskId : ℕ) (taskName : Option String) (before : List (HandlerOp ρ))
    (slices : List (List (EngineCoreOutput ρ))) (waits : ℕ → List (ℤ × ℤ)) (i : ℕ) :
    OutputHandlerInfo.BeginResult ρ :=
  (run taskId taskName (before ++ roundOps slices waits i)).info.beginProcessOutputs slices[i]?

/-- The call of one slice, written from the state that the earlier slices leave. -/
theorem roundCall_eq (taskId : ℕ) (taskName : Option String) (before : List (HandlerOp ρ))
    {slices : List (List (EngineCoreOutput ρ))} (waits : ℕ → List (ℤ × ℤ)) {i : ℕ}
    {slice : List (EngineCoreOutput ρ)} (hslice : slices[i]? = some slice) :
    roundCall taskId taskName before slices waits i =
      OutputHandlerInfo.finishBegin
        { (run taskId taskName (before ++ roundOps slices waits i)).info with
          roundNextSliceIdx := i + 1 }
        (distinctReqIds slice) (distinctReqIds (slices.drop i).flatten)
        ((run taskId taskName before).info.roundSeqOf slices) := by
  have hlt := (List.getElem?_eq_some_iff.mp hslice).1
  rw [roundCall, hslice]
  -- after the earlier slices the round stands before this one
  exact (inRound_roundOps taskId taskName before slices waits hlt.le).begin_eq hslice

/-- Once some slice from the `i`-th on has a request id, the call charges every pending wait to
    the ids of those slices. -/
theorem roundCall_sent (taskId : ℕ) (taskName : Option String) (before : List (HandlerOp ρ))
    {slices : List (List (EngineCoreOutput ρ))} (waits : ℕ → List (ℤ × ℤ)) {i : ℕ}
    {slice : List (EngineCoreOutput ρ)} (hslice : slices[i]? = some slice)
    (hids : distinctReqIds (slices.drop i).flatten ≠ []) :
    (roundCall taskId taskName before slices waits i).sent =
      (run taskId taskName (before ++ roundOps slices waits i)).info.pendingSchedEvents.map
        ((run taskId taskName (before ++ roundOps slices waits i)).info.latencyEvent
          (distinctReqIds (slices.drop i).flatten)) := by
  rw [roundCall_eq taskId taskName before waits hslice, OutputHandlerInfo.finishBegin_sent,
    if_neg hids]
  rfl

/-- The number that the events of a round carry. -/
theorem currentSeq_roundOps (taskId : ℕ) (taskName : Option String) (before : List (HandlerOp ρ))
    {slices : List (List (EngineCoreOutput ρ))} (waits : ℕ → List (ℤ × ℤ)) {i : ℕ}
    (hi : i ≤ slices.length) (hids : distinctReqIds slices.flatten ≠ []) :
    (run taskId taskName (before ++ roundOps slices waits i)).info.currentSeq =
      (run taskId taskName before).info.processSeq + 1 := by
  have hactive := (inRound_roundOps taskId taskName before slices waits hi).activeRoundSeq
  rw [OutputHandlerInfo.roundSeqOf, if_neg hids] at hactive
  rw [OutputHandlerInfo.currentSeq, hactive]
  exact if_neg (Nat.succ_ne_zero _)

/-- Each call returns the ids of its slice. -/
theorem roundCall_reqIds (taskId : ℕ) (taskName : Option String) (before : List (HandlerOp ρ))
    {slices : List (List (EngineCoreOutput ρ))} (waits : ℕ → List (ℤ × ℤ)) {i : ℕ}
    {slice : List (EngineCoreOutput ρ)} (hslice : slices[i]? = some slice) :
    (roundCall taskId taskName before slices waits i).reqIds = distinctReqIds slice := by
  rw [roundCall_eq taskId taskName before waits hslice, OutputHandlerInfo.finishBegin_reqIds]

/-- Each pending wait is sent once, charged to the ids from the slice on. -/
theorem roundCall_charges (taskId : ℕ) (taskName : Option String) (before : List (HandlerOp ρ))
    {slices : List (List (EngineCoreOutput ρ))} (waits : ℕ → List (ℤ × ℤ)) {i : ℕ}
    {slice : List (EngineCoreOutput ρ)} (hslice : slices[i]? = some slice)
    (hids : ∃ later ∈ slices.drop i, distinctReqIds later ≠ []) :
    (roundCall taskId taskName before slices waits i).sent.map (·.wait) =
        (run taskId taskName (before ++ roundOps slices waits i)).info.pendingSchedEvents ∧
      (∀ event ∈ (roundCall taskId taskName before slices waits i).sent,
        event.reqIds = distinctReqIds (slices.drop i).flatten) ∧
      (roundCall taskId taskName before slices waits i).info.pendingSchedEvents = [] := by
  -- some later slice has a request, so the waits are charged now
  rw [← distinctReqIds_flatten_ne_nil] at hids
  rw [roundCall_sent taskId taskName before waits hslice hids]
  refine ⟨?_, ?_, ?_⟩
  · rw [List.map_map]
    exact List.map_id _
  · intro event hevent
    obtain ⟨wait, -, rfl⟩ := List.mem_map.mp hevent
    rfl
  · rw [roundCall_eq taskId taskName before waits hslice, OutputHandlerInfo.finishBegin_info]

/-- All calls of a round with ids carry the number that the round was given. -/
theorem roundCall_seq (taskId : ℕ) (taskName : Option String) (before : List (HandlerOp ρ))
    {slices : List (List (EngineCoreOutput ρ))} (waits : ℕ → List (ℤ × ℤ)) {i : ℕ}
    {slice : List (EngineCoreOutput ρ)} (hslice : slices[i]? = some slice)
    (hids : distinctReqIds slices.flatten ≠ []) :
    (roundCall taskId taskName before slices waits i).processSeq =
        some ((run taskId taskName before).info.processSeq + 1) ∧
      ∀ event ∈ (roundCall taskId taskName before slices waits i).sent,
        event.roundSeq = (run taskId taskName before).info.processSeq + 1 := by
  have hlt := (List.getElem?_eq_some_iff.mp hslice).1
  constructor
  · rw [roundCall_eq taskId taskName before waits hslice, OutputHandlerInfo.finishBegin_processSeq,
      OutputHandlerInfo.roundSeqOf, if_neg hids]
  · intro event hevent
    by_cases hlater : distinctReqIds (slices.drop i).flatten = []
    · -- nobody to charge, nothing is sent
      rw [roundCall_eq taskId taskName before waits hslice, OutputHandlerInfo.finishBegin_sent,
        if_pos hlater] at hevent
      cases hevent
    · rw [roundCall_sent taskId taskName before waits hslice hlater] at hevent
      obtain ⟨wait, -, rfl⟩ := List.mem_map.mp hevent
      exact currentSeq_roundOps taskId taskName before waits hlt.le hids

/-- The accounting of one round, whatever came before it. -/
theorem outputHandler_round (taskId : ℕ) (taskName : Option String) (before : List (HandlerOp ρ))
    (outputs : List (EngineCoreOutput ρ)) {chunkSize : ℤ} (hpos : 0 < chunkSize)
    (waits : ℕ → List (ℤ × ℤ)) :
    let slices := chunkOutputHandlerSlices (some outputs) (some chunkSize)
    let call := roundCall taskId taskName before slices waits
    let state := fun i => run taskId taskName (before ++ roundOps slices waits i)
    -- the slices are the outputs, cut to size
    (slices.flatten = outputs ∧ ∀ slice ∈ slices, slice.length ≤ chunkSize) ∧
    -- each call returns the ids of its slice
    (∀ i slice, slices[i]? = some slice → (call i).reqIds = distinctReqIds slice) ∧
    -- each pending wait is sent, charged to the ids from the slice on
    (∀ i slice, slices[i]? = some slice →
      (∃ later ∈ slices.drop i, distinctReqIds later ≠ []) →
        (call i).sent.map (·.wait) = (state i).info.pendingSchedEvents ∧
        (∀ event ∈ (call i).sent, event.reqIds = distinctReqIds (slices.drop i).flatten) ∧
        (call i).info.pendingSchedEvents = []) ∧
    -- which are those of the callbacks since the last call
    (∀ i, (state i).info.pendingSchedEvents =
      waitsSinceBegin (before ++ roundOps slices waits i)) ∧
    -- and none is sent twice
    (∀ i, ((state i).sent.map (·.wait) ++ (state i).info.pendingSchedEvents).Sublist
      ((before ++ roundOps slices waits i).filterMap HandlerOp.wait)) ∧
    -- the calls of a round with ids share one number, above all numbers returned before
    ((∃ slice ∈ slices, distinctReqIds slice ≠ []) → ∃ seq,
      (∀ i slice, slices[i]? = some slice → (call i).processSeq = some seq ∧
        ∀ event ∈ (call i).sent, event.roundSeq = seq) ∧
      ∀ earlier outputs', earlier ++ [.begin outputs'] <+: before →
        ∀ seq' ∈ ((run taskId taskName earlier).info.beginProcessOutputs outputs').processSeq,
          seq' < seq) := by
  intro slices call state
  refine ⟨⟨flatten_chunkOutputHandlerSlices outputs hpos, ?_⟩, ?_, ?_, ?_, ?_, ?_⟩
  · exact fun slice hslice => length_le_of_mem_chunkOutputHandlerSlices hpos hslice
  · exact fun i slice hslice => roundCall_reqIds taskId taskName before waits hslice
  · exact fun i slice hslice hids => roundCall_charges taskId taskName before waits hslice hids
  · exact fun i => pendingSchedEvents_run taskId taskName _
  · exact fun i => waits_sublist taskId taskName _
  · intro hids
    rw [← distinctReqIds_flatten_ne_nil] at hids
    refine ⟨(run taskId taskName before).info.processSeq + 1, ?_, ?_⟩
    · exact fun i slice hslice => roundCall_seq taskId taskName before waits hslice hids
    · intro earlier outputs' hprefix seq' hseq'
      have hle := processSeq_begin_le taskId taskName hseq'
      have hmono := processSeq_le_of_prefix taskId taskName hprefix
      omega

/-- Two requests in two slices: the wait before the first slice is sent and charged to both. -/
theorem outputHandler_round_twoSlices :
    let first := roundCall 7 none [] (chunkOutputHandlerSlices
      (some [.object (some "req-1"), .object (some "req-2")]) (some 1)) (fun _ => [(10, 15)]) 0
    first.sent.map (·.wait) = [⟨10, 15, by decide⟩] ∧
      ∀ event ∈ first.sent, event.reqIds = ["req-1", "req-2"] := by
  intro first
  have hround := (outputHandler_round 7 none [] [.object (some "req-1"), .object (some "req-2")]
    (by decide : (0 : ℤ) < 1) fun _ => [(10, 15)]).2.2.1 0 [.object (some "req-1")] rfl
    ⟨[.object (some "req-1")], by decide, by decide⟩
  exact ⟨hround.1.trans rfl, hround.2.1⟩

end DeLatency
