import DeLatency.Converter.Flows
import DeLatency.ForStd.Numbering
import DeLatency.Spec.CuptiConvert
import DeLatency.Spec.CuptiTurns
import DeLatency.Spec.PpComm

/-!
# Which link a flow id stands for

The two loops of the CUPTI part ask one table for their ids, which numbers the keys from 1
on.  The ids of the pipeline arrows count up from 700000.  Within each of the two an id
stands for one key, so two links share an id exactly when the table has reached the range
of the arrows, or when a record without a process is counted to one (`shared_id_iff`).

`FlowOrigin` says what a flow event was drawn for, in the words of the log.  The converter
does not keep it, so the loops are run with the origins on the side (`tagTurn`), which
changes nothing.
-/

namespace DeLatency

/-- What a flow event was drawn for: a CUPTI record, by the process and the correlation id that
    it gives, or a transfer between stages. -/
inductive FlowOrigin
  | cupti (pid correlationId : Option ℤ)
  | pp (key : FlowKey)
deriving DecidableEq

def CuptiPayload.origin (rec : CuptiPayload) : FlowOrigin := .cupti rec.pid rec.correlationId

/-! ## Processes -/

/-- The process that a call is counted to: the one that it gives, or else that of the first
    dispatch slice. -/
def callOwner (slices : List DispatchSlice) (rt : CuptiPayload) : ℤ :=
  if rt.pid.getD 0 = 0 then (slices.head?.bind (·.pid)).getD 0 else rt.pid.getD 0

/-- The process of a call with its correlation id. -/
def callLink (slices : List DispatchSlice) (rt : CuptiPayload) : ℤ × Option ℤ :=
  (callOwner slices rt, rt.correlationId)

/-- The process of a kernel, a copy or a fill with its correlation id. -/
def workLink (k : CuptiPayload) : ℤ × Option ℤ := (k.pid.getD 0, k.correlationId)

/-- The key of a call is its process with its correlation id. -/
theorem callKey_eq (slices : List DispatchSlice) (rt : CuptiPayload) :
    callKey slices rt = callLink slices rt := by
  have hcorr : (rt.correlationId <|> rt.correlationId) = rt.correlationId := by
    cases rt.correlationId <;> rfl
  unfold callKey cuptiCorrKey callLink callOwner runtimePid
  rw [hcorr, Prod.mk.injEq]
  refine ⟨?_, rfl⟩
  -- a call without a process, or with process 0, is the case that matters
  obtain hpid | ⟨pid, hpid, hne⟩ : rt.pid.getD 0 = 0 ∨ ∃ pid, rt.pid = some pid ∧ pid ≠ 0 := by
    cases rt.pid with
    | none => exact .inl rfl
    | some pid =>
      by_cases h : pid = 0
      · exact .inl h
      · exact .inr ⟨pid, rfl, h⟩
  · rw [if_pos hpid]
    have hfilter : rt.pid.filter (· ≠ 0) = none := by
      cases hrt : rt.pid with
      | none => rfl
      | some pid =>
        rw [hrt, Option.getD_some] at hpid
        simp [hpid]
    rw [hfilter]
    cases slices with
    | nil =>
      cases hrt : rt.pid with
      | none => rfl
      | some pid => simpa [hrt] using hpid
    | cons slice rest =>
      cases hslice : slice.pid with
      | none => simpa [hslice] using hpid
      | some pid => simp [hslice]
  · simp [hpid, hne]

/-- The key of work on the GPU is its process with its correlation id. -/
theorem kernelKey_eq (k : CuptiPayload) : kernelKey k = workLink k := by
  have hcorr : (k.correlationId <|> k.correlationId) = k.correlationId := by
    cases k.correlationId <;> rfl
  unfold kernelKey cuptiCorrKey workLink
  rw [hcorr]
  rfl

/-- A message of work on the GPU. -/
def CuptiMessage.IsWork (message : CuptiMessage) : Prop :=
  message.payload ≠ {} ∧ message.eventType ∈ ["kernel", "memset", "memcpy"]

instance : DecidablePred CuptiMessage.IsWork := fun _ => inferInstanceAs (Decidable (_ ∧ _))

/-- The work on the GPU that a log reports. -/
def gpuWork (messages : List CuptiMessage) : List CuptiPayload :=
  (messages.filter fun message => message.IsWork).map (·.payload)

/-- Work of this process with this correlation id has started to run. -/
def startedWork (messages : List CuptiMessage) (link : ℤ × Option ℤ) : Bool :=
  (gpuWork messages).any fun k => workLink k = link ∧ 0 < k.startNs.getD 0

/-- Noting an end leaves the kernels of each key alone. -/
@[simp] theorem noteEnd_allKernelsMap (records : CuptiRecords) (pid startNs endNs : Option ℤ) :
    (records.noteEnd pid startNs endNs).allKernelsMap = records.allKernelsMap := by
  unfold CuptiRecords.noteEnd
  split
  · split <;> rfl
  · rfl

/-- Work on the GPU is kept under its key. -/
theorem add_allKernelsMap (records : CuptiRecords) (message : CuptiMessage) :
    (records.add message).allKernelsMap =
      if message.IsWork then
        records.allKernelsMap.push (workLink message.payload) message.payload
      else records.allKernelsMap := by
  have hkey : cuptiCorrKey message.payload message.payload.correlationId none =
      workLink message.payload := by
    rw [← kernelKey_eq]
    unfold kernelKey cuptiCorrKey
    cases message.payload.pid <;> rfl
  unfold CuptiRecords.add
  dsimp only
  rw [hkey]
  split
  · next hempty =>
    have hnot : ¬message.IsWork := fun h => h.1 hempty
    rw [if_neg hnot]
  · next hne =>
    split
    · next hcall =>
      -- a call is no work on the GPU
      have hnot : ¬message.IsWork := by
        intro h
        obtain ⟨-, hwork⟩ := h
        simp only [List.mem_cons, List.not_mem_nil, or_false] at hcall hwork
        obtain hcall | hcall := hcall <;> simp [hcall] at hwork
      rw [if_neg (c := message.IsWork) hnot]
      split <;> simp
    · split
      · next hwork =>
        have his : message.IsWork := ⟨hne, hwork⟩
        rw [if_pos (c := message.IsWork) his]
        split
        · simp
        · split <;> simp
      · next hwork =>
        have hnot : ¬message.IsWork := fun h => hwork h.2
        simp [hnot]

/-- The work under a key. -/
theorem getD_allKernelsMap (messages : List CuptiMessage) (key : CorrKey) :
    (cuptiRecords messages).allKernelsMap.getD key [] =
      (gpuWork messages).filter fun k => workLink k = key := by
  -- the last message is the last one noted
  induction messages using List.reverseRecOn with
  | nil => rfl
  | append_singleton messages message ih =>
    rw [cuptiRecords, List.foldl_concat, ← cuptiRecords, add_allKernelsMap, gpuWork,
      List.filter_append, List.map_append, ← gpuWork, List.filter_append, ← ih]
    by_cases hwork : message.IsWork
    · rw [if_pos hwork, Dict.getD_push]
      -- work is pushed under its own key only
      by_cases hlink : key = workLink message.payload
      · subst hlink
        simp [hwork]
      · simp [hwork, hlink, Ne.symm hlink]
    · simp [hwork]

/-- A call has its arrow when its work has started to run. -/
theorem startsWork_eq (messages : List CuptiMessage) (key : CorrKey) :
    startsWork (cuptiRecords messages).allKernelsMap key = startedWork messages key := by
  unfold startsWork startedWork
  rw [getD_allKernelsMap, List.any_filter]
  simp

/-! ## Origins -/

/-- `cuptiFlowId` numbers the keys from 1 on. -/
theorem cuptiFlowId_eq (d : Dict CorrKey ℕ) (key : CorrKey) : cuptiFlowId d key = d.ask 1 key := by
  unfold cuptiFlowId Dict.ask
  cases d.get? key with
  | some n => rfl
  | none => simp only [Nat.add_comm]

abbrev CuptiTurn := CuptiTrace → CuptiPayload → Except PyError CuptiTrace

/-- The flow events that a turn appends, with the turn's record. -/
def tagTurn (turn : CuptiTurn) (st : CuptiTrace × List (FlowOrigin × FlowEvent))
    (rec : CuptiPayload) :
    Except PyError (CuptiTrace × List (FlowOrigin × FlowEvent)) := do
  let trace ← turn st.1 rec
  let flows := (trace.events.drop st.1.events.length).filterMap TraceEvent.flowEvent
  return (trace, st.2 ++ flows.map fun flow => (rec.origin, flow))

/-- `processCupti` with the origins of its flow events. -/
def taggedCupti (slices : List DispatchSlice) (messages : List CuptiMessage) :
    Except PyError (CuptiTrace × List (FlowOrigin × FlowEvent)) := do
  let records := cuptiRecords messages
  let cuptiEvents ← sortByStart records.cuptiEvents
  let st ← cuptiEvents.foldlM
    (tagTurn (CuptiTrace.linkRuntime slices records.allKernelsMap)) ({}, [])
  records.eagerKernels.foldlM (tagTurn CuptiTrace.drawKernel) st

/-- The flow events of the pipeline arrows with their origins. -/
def taggedPp (points : Dict FlowKey FlowPoints) : List (FlowOrigin × FlowEvent) :=
  (points.entries.zipIdx 1).flatMap fun entry =>
    (ppFlowArrow entry).toList.flatMap fun arrow =>
      arrow.flowEvents.map fun flow => (.pp entry.1.1, flow)

/-- The flow events of a trace with their origins. -/
def taggedFlows (log : Log) : Except PyError (List (FlowOrigin × FlowEvent)) := do
  let workerEvents ← sortWorkerEvents log.workerEvents
  let dispatchSlices := generatedDispatchSlices workerEvents
  let cupti ← taggedCupti dispatchSlices log.cuptiMessages
  return taggedPp (ppCommFlowPoints (ppCommSpans dispatchSlices log.ppCommEvents)) ++ cupti.2

/-- What a turn does to the table of ids and to the flow events. -/
structure Turns (turn : CuptiTurn) (key : CuptiPayload → CorrKey)
    (asks draws : CuptiPayload → Bool) : Prop where
  asks_of_draws : ∀ rec, draws rec = true → asks rec = true
  turn : ∀ trace rec trace', turn trace rec = .ok trace' → ∃ new,
    trace'.events = trace.events ++ new ∧
    trace'.flowIdByCorrKey = (if asks rec then (trace.flowIdByCorrKey.ask 1 (key rec)).1
      else trace.flowIdByCorrKey) ∧
    (new.filterMap TraceEvent.flowEvent).map (·.id) =
      if draws rec then [(trace.flowIdByCorrKey.ask 1 (key rec)).2] else []

/-- The turn of a call asks for an id under its key, and draws a flow when work has started under
    it. -/
theorem turns_linkRuntime (slices : List DispatchSlice) (messages : List CuptiMessage) :
    Turns (CuptiTrace.linkRuntime slices (cuptiRecords messages).allKernelsMap) (callLink slices)
      (fun _ => true) fun rt => startedWork messages (callLink slices rt) where
  asks_of_draws := fun _ _ => rfl
  turn := by
    intro trace rt trace' h
    -- a turn that succeeds draws the call's bar, and the arrow when there is work
    obtain ⟨start, endNs, tid, -, -, -, rfl⟩ := linkRuntime_eq_ok_iff.mp h
    refine ⟨runtimeEvents slices (cuptiRecords messages).allKernelsMap trace rt start endNs tid,
      rfl, ?_, ?_⟩
    · rw [if_pos rfl, ← cuptiFlowId_eq, callKey_eq]
    · rw [← cuptiFlowId_eq, ← startsWork_eq, ← callKey_eq]
      unfold runtimeEvents
      split <;> rfl

/-- The turn of a kernel asks for an id under its key and draws a flow, when it is linked. -/
theorem turns_drawKernel : Turns CuptiTrace.drawKernel workLink isLinked isLinked where
  asks_of_draws := fun _ h => h
  turn := by
    intro trace k trace' h
    obtain ⟨start, endNs, -, -, rfl⟩ := drawKernel_eq_ok_iff.mp h
    refine ⟨kernelEvents trace k start endNs, rfl, ?_, ?_⟩
    · rw [← kernelKey_eq]
      unfold kernelFlow isLinked
      split
      · rw [← cuptiFlowId_eq]
        rfl
      · rfl
    · -- neither the bar nor the names are flow events
      rw [← cuptiFlowId_eq, ← kernelKey_eq]
      unfold kernelEvents kernelFlow isLinked
      dsimp only
      split <;> split <;> rfl

/-! ## Runs -/

section Runs

variable {turn : CuptiTurn} {key : CuptiPayload → CorrKey} {asks draws : CuptiPayload → Bool}

/-- The keys that a run asks for. -/
def keysOf (p : CuptiPayload → Bool) (key : CuptiPayload → CorrKey) (recs : List CuptiPayload) :
    List CorrKey := (recs.filter p).map key

/-- One more record adds its key, when it asks for one. -/
theorem keysOf_concat (p : CuptiPayload → Bool) (key : CuptiPayload → CorrKey)
    (seen : List CuptiPayload) (rec : CuptiPayload) :
    keysOf p key (seen ++ [rec]) = keysOf p key seen ++ if p rec then [key rec] else [] := by
  unfold keysOf
  by_cases h : p rec = true
  · simp [h]
  · simp [h]

/-- The records of a run that get a flow event: their keys with what they give. -/
def linksOf (p : CuptiPayload → Bool) (key : CuptiPayload → CorrKey) (recs : List CuptiPayload) :
    List (CorrKey × FlowOrigin) := (recs.filter p).map fun rec => (key rec, rec.origin)

/-- One more record adds its link, when it has one. -/
theorem linksOf_concat (p : CuptiPayload → Bool) (key : CuptiPayload → CorrKey)
    (seen : List CuptiPayload) (rec : CuptiPayload) :
    linksOf p key (seen ++ [rec]) =
      linksOf p key seen ++ if p rec then [(key rec, rec.origin)] else [] := by
  unfold linksOf
  by_cases h : p rec = true
  · simp [h]
  · simp [h]

/-- The flow events so far: those of the records `drawn`, with the numbers of their keys among
    `asked`. -/
structure Tagged (asked : List CorrKey) (drawn : List (CorrKey × FlowOrigin))
    (st : CuptiTrace × List (FlowOrigin × FlowEvent)) : Prop where
  table : Dict.Numbers 1 asked st.1.flowIdByCorrKey
  subset : ∀ link ∈ drawn, link.1 ∈ asked
  flows : st.2.map (fun flow => (flow.1, flow.2.id)) =
    drawn.map fun link => (link.2, List.number 1 asked link.1)
  erase : st.2.map Prod.snd = st.1.events.filterMap TraceEvent.flowEvent

/-- Before the first turn nothing is asked for and nothing drawn. -/
theorem tagged_nil : Tagged [] [] ({}, []) where
  table := Dict.numbers_empty 1
  subset := fun _ hk => absurd hk List.not_mem_nil
  flows := rfl
  erase := rfl

/-- One turn. -/
theorem Tagged.step (hturns : Turns turn key asks draws) {asked : List CorrKey}
    {drawn : List (CorrKey × FlowOrigin)} {st st' : CuptiTrace × List (FlowOrigin × FlowEvent)}
    (h : Tagged asked drawn st) {rec : CuptiPayload} (hturn : tagTurn turn st rec = .ok st') :
    Tagged (asked ++ if asks rec then [key rec] else [])
      (drawn ++ if draws rec then [(key rec, rec.origin)] else []) st' := by
  obtain ⟨trace', htrace, hst'⟩ := Except.bind_eq_ok_iff.mp hturn
  obtain ⟨new, hevents, htable, hids⟩ := hturns.turn st.1 rec trace' htrace
  have hst' := Except.ok.inj hst'
  rw [hevents, List.drop_left] at hst'
  subst hst'
  -- a number that has been given stays, so the flows so far keep their ids
  have hold : ∀ later, drawn.map (fun link => (link.2, List.number 1 asked link.1)) =
      drawn.map fun link => (link.2, List.number 1 (asked ++ later) link.1) := fun later =>
    List.map_congr_left fun link hlink => by rw [List.number_append 1 (h.subset link hlink)]
  have hadded : ∀ flows : List FlowEvent,
      (flows.map fun flow => (rec.origin, flow)).map (fun flow => (flow.1, flow.2.id)) =
      (flows.map (·.id)).map fun n => (rec.origin, n) := fun flows => by
    simp only [List.map_map]
    rfl
  refine ⟨?_, ?_, ?_, ?_⟩
  · rw [htable]
    -- the table gets the key when the turn asks for it
    by_cases ha : asks rec = true
    · rw [if_pos ha, if_pos ha]
      exact (h.table.ask (key rec)).1
    · rw [if_neg ha, if_neg ha, List.append_nil]
      exact h.table
  · intro link hlink
    cases List.mem_append.mp hlink with
    | inl hlink => exact List.mem_append_left _ (h.subset link hlink)
    | inr hlink =>
      by_cases hd : draws rec = true
      · rw [if_pos hd] at hlink
        rw [if_pos (hturns.asks_of_draws rec hd), List.mem_singleton.mp hlink]
        exact List.mem_append_right _ (List.mem_singleton_self _)
      · rw [if_neg hd] at hlink
        cases hlink
  · dsimp only
    rw [List.map_append, h.flows, hadded, hids, List.map_append, hold]
    congr 1
    by_cases hd : draws rec = true
    · rw [if_pos hd, if_pos hd, if_pos (hturns.asks_of_draws rec hd), (h.table.ask (key rec)).2]
      rfl
    · rw [if_neg hd, if_neg hd]
      rfl
  · dsimp only
    rw [List.map_append, h.erase, hevents, List.filterMap_append, List.map_map]
    congr 1
    exact List.map_id _

/-- A run over records. -/
theorem Tagged.run (hturns : Turns turn key asks draws) {recs : List CuptiPayload}
    {asked : List CorrKey} {drawn : List (CorrKey × FlowOrigin)}
    {st st' : CuptiTrace × List (FlowOrigin × FlowEvent)}
    (h : Tagged asked drawn st) (hrun : recs.foldlM (tagTurn turn) st = .ok st') :
    Tagged (asked ++ keysOf asks key recs) (drawn ++ linksOf draws key recs) st' := by
  -- the invariant speaks of the records seen so far
  refine List.foldlM_induction_seen (P := fun seen st =>
    Tagged (asked ++ keysOf asks key seen) (drawn ++ linksOf draws key seen) st)
    (by simpa [keysOf, linksOf] using h) (fun seen rec st st' hrec hseen => ?_) hrun
  have htagged := hseen.step hturns hrec
  rwa [List.append_assoc, List.append_assoc, ← keysOf_concat, ← linksOf_concat] at htagged

end Runs

/-! ## The ids of a trace -/

/-- The calls in the order of the linking loop. -/
def callsInOrder (messages : List CuptiMessage) : List CuptiPayload :=
  (cuptiRecords messages).cuptiEvents.sortBy fun rt => rt.startNs.getD 0

/-- The keys that are asked for, in order: those of all calls, then those of the work that is
    linked. -/
def askedKeys (slices : List DispatchSlice) (messages : List CuptiMessage) : List CorrKey :=
  keysOf (fun _ => true) (callLink slices) (callsInOrder messages) ++
    keysOf isLinked workLink (cuptiRecords messages).eagerKernels

/-- The records that get a flow event: calls whose work has started, and the work itself. -/
def drawnLinks (slices : List DispatchSlice) (messages : List CuptiMessage) :
    List (CorrKey × FlowOrigin) :=
  linksOf (fun rt => startedWork messages (callLink slices rt)) (callLink slices)
      (callsInOrder messages) ++
    linksOf isLinked workLink (cuptiRecords messages).eagerKernels

/-- When the calls can be sorted, they are sorted by their starts. -/
theorem sortByStart_eq {calls sorted : List CuptiPayload} (h : sortByStart calls = .ok sorted) :
    sorted = calls.sortBy fun rt => rt.startNs.getD 0 := by
  obtain ⟨keyed, hkeyed, h⟩ := Except.bind_eq_ok_iff.mp h
  -- the key of a call is its start
  have hkey : ∀ entry ∈ keyed, entry.1 = entry.2.startNs.getD 0 := by
    intro entry hentry
    obtain ⟨rt, -, hrt⟩ := List.exists_of_mapM_eq_ok hkeyed hentry
    obtain ⟨start, hstart, heq⟩ := Except.bind_eq_ok_iff.mp hrt
    cases heq
    rw [item_eq_ok.mp hstart, Option.getD_some]
  have hsort : (keyed.sortBy Prod.fst).map Prod.snd =
      (keyed.map Prod.snd).sortBy fun rt => rt.startNs.getD 0 := List.map_sortBy hkey
  cases h
  rw [hsort, map_snd_of_mapM_startKey hkeyed]

/-- After all turns the flows drawn are those of the links, under the keys asked for. -/
theorem tagged_taggedCupti {slices : List DispatchSlice} {messages : List CuptiMessage}
    {st : CuptiTrace × List (FlowOrigin × FlowEvent)}
    (h : taggedCupti slices messages = .ok st) :
    Tagged (askedKeys slices messages) (drawnLinks slices messages) st := by
  obtain ⟨calls, hsort, h⟩ := Except.bind_eq_ok_iff.mp h
  obtain ⟨st₁, hcalls, hkernels⟩ := Except.bind_eq_ok_iff.mp h
  have hfirst := tagged_nil.run (turns_linkRuntime slices messages) hcalls
  have hsecond := hfirst.run turns_drawKernel hkernels
  rwa [List.nil_append, List.nil_append, sortByStart_eq hsort] at hsecond

/-! ## The origins change nothing -/

/-- Tagging the flows does not change the turn. -/
theorem map_fst_tagTurn (turn : CuptiTurn) (recs : List CuptiPayload)
    (st : CuptiTrace × List (FlowOrigin × FlowEvent)) :
    (recs.foldlM (tagTurn turn) st).map Prod.fst = recs.foldlM turn st.1 := by
  induction recs generalizing st with
  | nil => rfl
  | cons rec rest ih =>
    rw [List.foldlM_cons, List.foldlM_cons, tagTurn]
    cases turn st.1 rec with
    -- a turn that raises ends both loops
    | error e => rfl
    | ok trace => exact ih _

/-- Tagging does not change the conversion. -/
theorem map_fst_taggedCupti (slices : List DispatchSlice) (messages : List CuptiMessage) :
    (taggedCupti slices messages).map Prod.fst = processCupti slices messages := by
  unfold taggedCupti processCupti
  dsimp only
  cases sortByStart (cuptiRecords messages).cuptiEvents with
  -- both raise when the calls cannot be sorted
  | error e => rfl
  | ok calls =>
    have hcalls := map_fst_tagTurn
      (CuptiTrace.linkRuntime slices (cuptiRecords messages).allKernelsMap) calls ({}, [])
    show Except.map Prod.fst (calls.foldlM _ _ >>= fun st => _) = calls.foldlM _ _ >>= fun t => _
    rw [← hcalls]
    cases calls.foldlM (tagTurn
        (CuptiTrace.linkRuntime slices (cuptiRecords messages).allKernelsMap)) ({}, []) with
    | error e => rfl
    | ok st => exact map_fst_tagTurn CuptiTrace.drawKernel _ st

/-- Without their tags the pipeline flows are those that are drawn. -/
theorem map_snd_taggedPp (points : Dict FlowKey FlowPoints) :
    (taggedPp points).map Prod.snd = (ppFlowArrows points).flatMap FlowArrow.flowEvents := by
  unfold taggedPp ppFlowArrows
  induction points.entries.zipIdx 1 with
  | nil => rfl
  | cons entry rest ih =>
    rw [List.flatMap_cons, List.map_append, ih, List.filterMap_cons]
    cases ppFlowArrow entry with
    -- an entry with one end only draws nothing
    | none => rfl
    | some arrow => rfl

/-- The flow events with their origins are the flow events of the trace. -/
theorem map_snd_taggedFlows (log : Log) :
    (taggedFlows log).map (List.map Prod.snd) = traceFlows log := by
  unfold taggedFlows traceFlows
  cases sortWorkerEvents log.workerEvents with
  | error e => rfl
  | ok workerEvents =>
    -- tagging changes neither the turns nor the flows
    have hfst := map_fst_taggedCupti (generatedDispatchSlices workerEvents) log.cuptiMessages
    show Except.map _ (taggedCupti _ _ >>= fun cupti => _) = processCupti _ _ >>= fun cupti => _
    rw [← hfst]
    cases htagged : taggedCupti (generatedDispatchSlices workerEvents) log.cuptiMessages with
    | error e => rfl
    | ok st =>
      have herase := (tagged_taggedCupti htagged).erase
      show Except.ok ((_ ++ st.2).map Prod.snd) = Except.ok _
      rw [List.map_append, map_snd_taggedPp, herase]
      rfl

/-! ## Shared ids -/

/-- The flow events of the arrows: the ids count the entries. -/
theorem mem_taggedPp {points : Dict FlowKey FlowPoints} {x : FlowOrigin × FlowEvent} :
    x ∈ taggedPp points ↔ ∃ (i : ℕ) (entry : FlowKey × FlowPoints) (arrow : FlowArrow),
      points.entries[i]? = some entry ∧ ppFlowArrow (entry, i + 1) = some arrow ∧
      x.1 = .pp entry.1 ∧ x.2 ∈ arrow.flowEvents := by
  unfold taggedPp
  simp only [List.mem_flatMap, Option.mem_toList, List.mem_map]
  constructor
  · -- numbers are given from one on, in the order of the entries
    intro h
    obtain ⟨⟨entry, n⟩, hmem, arrow, harrow, flow, hflow, rfl⟩ := h
    obtain ⟨hle, hget⟩ := List.mk_mem_zipIdx_iff_le_and_getElem?_sub.mp hmem
    refine ⟨n - 1, entry, arrow, hget, ?_, rfl, hflow⟩
    rw [Nat.sub_add_cancel hle]
    exact harrow
  · intro h
    obtain ⟨i, entry, arrow, hget, harrow, hx, hflow⟩ := h
    refine ⟨(entry, i + 1), ?_, arrow, harrow, x.2, hflow, by rw [← hx]⟩
    exact List.mk_mem_zipIdx_iff_le_and_getElem?_sub.mpr ⟨by omega, by simpa using hget⟩

/-- Both events of an arrow carry its id. -/
theorem id_of_mem_flowEvents {arrow : FlowArrow} {flow : FlowEvent} (h : flow ∈ arrow.flowEvents) :
    flow.id = arrow.flowId := by
  simp only [FlowArrow.flowEvents, List.mem_cons, List.not_mem_nil, or_false] at h
  obtain rfl | rfl := h
  · rfl
  · rfl

/-- An entry has an arrow when both ends are there. -/
theorem ppFlowArrow_eq_some {entry : FlowKey × FlowPoints} {n : ℕ} {arrow : FlowArrow}
    (h : ppFlowArrow (entry, n) = some arrow) :
    entry.2.send.isSome ∧ entry.2.recv.isSome ∧ arrow.flowId = ppFlowIdBase + n := by
  unfold ppFlowArrow at h
  split at h
  · next send recv hsend hrecv =>
    cases h
    exact ⟨by rw [hsend]; rfl, by rw [hrecv]; rfl, rfl⟩
  · cases h

/-- An entry with both ends is drawn as an arrow. -/
theorem exists_ppFlowArrow {entry : FlowKey × FlowPoints} (hsend : entry.2.send.isSome)
    (hrecv : entry.2.recv.isSome) (n : ℕ) : ∃ arrow, ppFlowArrow (entry, n) = some arrow := by
  obtain ⟨send, hsend⟩ := Option.isSome_iff_exists.mp hsend
  obtain ⟨recv, hrecv⟩ := Option.isSome_iff_exists.mp hrecv
  unfold ppFlowArrow
  rw [hsend, hrecv]
  exact ⟨_, rfl⟩

/-- The dispatch slices of a log, which attribute transfers and calls. -/
def dispatchSlicesOf (log : Log) : List DispatchSlice :=
  generatedDispatchSlices (log.workerEvents.sortBy fun ev => ev.ts.getD 0)

/-- An id of the table that a drawn flow event has is that of an arrow: the `i`-th key of the
    pipeline has both ends, and the key that is asked for `700000` places after the `i`-th has a
    flow event. -/
def AllocatorsMeet (slices : List DispatchSlice) (messages : List CuptiMessage)
    (points : Dict FlowKey FlowPoints) : Prop :=
  ∃ (i : ℕ) (key : CorrKey) (entry : FlowKey × FlowPoints),
    (List.firstSeen id (askedKeys slices messages))[ppFlowIdBase + i]? = some key ∧
    (∃ origin, (key, origin) ∈ drawnLinks slices messages) ∧
    points.entries[i]? = some entry ∧ entry.2.send.isSome ∧ entry.2.recv.isSome

/-- Two records with a flow event have one correlation id and are counted to one process, but do
    not give the same one: one of them gives none, or process 0. -/
def PidBorrowed (slices : List DispatchSlice) (messages : List CuptiMessage) : Prop :=
  ∃ link ∈ drawnLinks slices messages, ∃ link' ∈ drawnLinks slices messages,
    link.1 = link'.1 ∧ link.2 ≠ link'.2

section Shared

variable {slices : List DispatchSlice} {messages : List CuptiMessage}
  {points : Dict FlowKey FlowPoints} {st : CuptiTrace × List (FlowOrigin × FlowEvent)}

/-- The flow events of the table are those of the drawn records, with the numbers of their keys. -/
theorem mem_taggedCupti (h : taggedCupti slices messages = .ok st) {origin : FlowOrigin} {n : ℕ} :
    (∃ flow, (origin, flow) ∈ st.2 ∧ flow.id = n) ↔ ∃ key,
      (key, origin) ∈ drawnLinks slices messages ∧
        n = List.number 1 (askedKeys slices messages) key := by
  have hflows := (tagged_taggedCupti h).flows
  -- the tagged flows, by origin and number, are the links drawn
  have hmem : (origin, n) ∈ st.2.map (fun flow => (flow.1, flow.2.id)) ↔
      (origin, n) ∈ (drawnLinks slices messages).map fun link =>
        (link.2, List.number 1 (askedKeys slices messages) link.1) := by rw [hflows]
  simp only [List.mem_map, Prod.mk.injEq] at hmem
  constructor
  · intro hx
    obtain ⟨flow, hflow, hid⟩ := hx
    obtain ⟨link, hlink, rfl, hn⟩ := hmem.mp ⟨(origin, flow), hflow, rfl, hid⟩
    exact ⟨link.1, hlink, hn.symm⟩
  · intro hx
    obtain ⟨key, hkey, hn⟩ := hx
    obtain ⟨⟨origin', flow⟩, hflow, rfl, hid⟩ := hmem.mpr ⟨(key, origin), hkey, rfl, hn.symm⟩
    exact ⟨flow, hflow, hid⟩

/-- A flow event of a record is none of a transfer. -/
theorem origin_ne_pp {key : CorrKey} {origin : FlowOrigin}
    (h : (key, origin) ∈ drawnLinks slices messages) (flowKey : FlowKey) :
    origin ≠ .pp flowKey := by
  unfold drawnLinks linksOf at h
  simp only [List.mem_append, List.mem_map, Prod.mk.injEq] at h
  obtain ⟨rec, -, -, rfl⟩ | ⟨rec, -, -, rfl⟩ := h
  · exact fun h => by cases h
  · exact fun h => by cases h

/-- Two links share an id exactly when the two allocators meet, or a process is borrowed. -/
theorem shared_id_iff (h : taggedCupti slices messages = .ok st) :
    (∃ a ∈ taggedPp points ++ st.2, ∃ b ∈ taggedPp points ++ st.2, a.2.id = b.2.id ∧ a.1 ≠ b.1) ↔
      AllocatorsMeet slices messages points ∨ PidBorrowed slices messages := by
  have htagged := tagged_taggedCupti h
  -- a flow event of an arrow and one of the table
  have hcross : ∀ a ∈ taggedPp points, ∀ b ∈ st.2, a.2.id = b.2.id →
      AllocatorsMeet slices messages points := by
    intro a ha b hb hid
    obtain ⟨i, entry, arrow, hget, harrow, -, hflow⟩ := mem_taggedPp.mp ha
    obtain ⟨key, hkey, hn⟩ := (mem_taggedCupti h).mp ⟨b.2, hb, rfl⟩
    obtain ⟨hsend, hrecv, hflowId⟩ := ppFlowArrow_eq_some harrow
    rw [← hid, id_of_mem_flowEvents hflow, hflowId] at hn
    refine ⟨i, key, entry, ?_, ⟨_, hkey⟩, hget, hsend, hrecv⟩
    exact (List.number_eq_iff (htagged.subset _ hkey)).mp (by rw [← hn]; omega)
  constructor
  · intro hx
    obtain ⟨a, ha, b, hb, hid, hne⟩ := hx
    obtain ha | ha := List.mem_append.mp ha
    · obtain hb | hb := List.mem_append.mp hb
      · -- two arrows with one id are the same entry
        obtain ⟨i, entry, arrow, hget, harrow, horigin, hflow⟩ := mem_taggedPp.mp ha
        obtain ⟨j, entry', arrow', hget', harrow', horigin', hflow'⟩ := mem_taggedPp.mp hb
        rw [id_of_mem_flowEvents hflow, id_of_mem_flowEvents hflow',
          (ppFlowArrow_eq_some harrow).2.2, (ppFlowArrow_eq_some harrow').2.2] at hid
        have hij : i = j := by omega
        rw [hij, hget'] at hget
        cases hget
        exact absurd (horigin.trans horigin'.symm) hne
      · exact .inl (hcross a ha b hb hid)
    · obtain hb | hb := List.mem_append.mp hb
      · exact .inl (hcross b hb a ha hid.symm)
      · -- two events of the table with one id have the same key
        obtain ⟨key, hkey, hn⟩ := (mem_taggedCupti h).mp ⟨a.2, ha, rfl⟩
        obtain ⟨key', hkey', hn'⟩ := (mem_taggedCupti h).mp ⟨b.2, hb, rfl⟩
        have hsame := List.number_inj (htagged.subset _ hkey) (hn.symm.trans (hid.trans hn'))
        exact .inr ⟨_, hkey, _, hkey', hsame, hne⟩
  · intro hx
    obtain ⟨i, key, entry, hfirst, ⟨origin, hkey⟩, hget, hsend, hrecv⟩ | hborrowed := hx
    · obtain ⟨arrow, harrow⟩ := exists_ppFlowArrow hsend hrecv (i + 1)
      have hstart : (⟨.start, arrow.send.tsNs, arrow.send.pid, arrow.send.tid, arrow.flowId⟩ :
          FlowEvent) ∈ arrow.flowEvents := List.mem_cons_self
      have hpp : (FlowOrigin.pp entry.1, (⟨.start, arrow.send.tsNs, arrow.send.pid,
          arrow.send.tid, arrow.flowId⟩ : FlowEvent)) ∈ taggedPp points :=
        mem_taggedPp.mpr ⟨i, entry, arrow, hget, harrow, rfl, hstart⟩
      have hnumber : List.number 1 (askedKeys slices messages) key = 1 + (ppFlowIdBase + i) :=
        (List.number_eq_iff (htagged.subset _ hkey)).mpr hfirst
      obtain ⟨flow, hflow, hid⟩ := (mem_taggedCupti h).mpr ⟨key, hkey, rfl⟩
      refine ⟨_, List.mem_append_left _ hpp, _, List.mem_append_right _ hflow, ?_,
        (origin_ne_pp hkey entry.1).symm⟩
      show arrow.flowId = flow.id
      rw [hid, hnumber, (ppFlowArrow_eq_some harrow).2.2]
      omega
    · -- two records of one key that give different processes
      obtain ⟨link, hlink, link', hlink', hsame, hne⟩ := hborrowed
      obtain ⟨flow, hflow, hid⟩ := (mem_taggedCupti h).mpr ⟨link.1, hlink, rfl⟩
      obtain ⟨flow', hflow', hid'⟩ := (mem_taggedCupti h).mpr ⟨link'.1, hlink', rfl⟩
      refine ⟨_, List.mem_append_right _ hflow, _, List.mem_append_right _ hflow', ?_, hne⟩
      show flow.id = flow'.id
      rw [hid, hid', hsame]

end Shared

/-- An id stands for one link: flow events with one id were drawn for records with the same
    process and correlation id, or for transfers with the same key. -/
def FlowIdsIdentify (log : Log) : Prop :=
  ∀ flows, taggedFlows log = .ok flows →
    ∀ a ∈ flows, ∀ b ∈ flows, a.2.id = b.2.id → a.1 = b.1

/-- The conversion gets to the end of its loops over records and transfers. -/
def Exports (log : Log) : Prop := ∃ flows, traceFlows log = .ok flows

/-- The points of the pipeline arrows of a log. -/
def flowPointsOf (log : Log) : Dict FlowKey FlowPoints :=
  ppCommFlowPoints (ppCommSpans (dispatchSlicesOf log) log.ppCommEvents)

/-- When the flows are drawn, the CUPTI part was. -/
theorem taggedFlows_eq_ok {log : Log} {flows : List (FlowOrigin × FlowEvent)}
    (h : taggedFlows log = .ok flows) :
    ∃ st, taggedCupti (dispatchSlicesOf log) log.cuptiMessages = .ok st ∧
      flows = taggedPp (flowPointsOf log) ++ st.2 := by
  -- the sort went through, and so did the device records
  obtain ⟨workerEvents, hsort, h⟩ := Except.bind_eq_ok_iff.mp h
  obtain ⟨st, hst, h⟩ := Except.bind_eq_ok_iff.mp h
  unfold sortWorkerEvents at hsort
  split at hsort
  · cases hsort
  · cases hsort
    exact ⟨st, hst, (Except.ok.inj h).symm⟩

/-- A log is exported exactly when its flows are drawn. -/
theorem exports_iff {log : Log} : Exports log ↔ ∃ flows, taggedFlows log = .ok flows := by
  unfold Exports
  rw [← map_snd_taggedFlows]
  cases taggedFlows log with
  | error e => simp [Except.map]
  | ok flows => simp [Except.map]

/-- The ids of an exported trace identify their links exactly when the two allocators do not
    meet and no record borrows the process of another. -/
theorem flowIdsIdentify_iff (log : Log) :
    FlowIdsIdentify log ↔
      (Exports log →
        ¬AllocatorsMeet (dispatchSlicesOf log) log.cuptiMessages (flowPointsOf log) ∧
          ¬PidBorrowed (dispatchSlicesOf log) log.cuptiMessages) := by
  rw [exports_iff]
  simp only [← not_or]
  -- a log that is not exported draws no flow; otherwise an id is shared exactly in the two ways
  constructor
  · intro h hx hshared
    obtain ⟨flows, hflows⟩ := hx
    obtain ⟨st, hst, rfl⟩ := taggedFlows_eq_ok hflows
    obtain ⟨a, ha, b, hb, hid, hne⟩ := (shared_id_iff hst).mpr hshared
    exact hne (h _ hflows a ha b hb hid)
  · intro h flows hflows a ha b hb hid
    by_contra hne
    obtain ⟨st, hst, rfl⟩ := taggedFlows_eq_ok hflows
    exact h ⟨_, hflows⟩ ((shared_id_iff hst).mp ⟨a, ha, b, hb, hid, hne⟩)

/-! ## A long trace -/

/-- The `i`-th kernel of a trace. -/
def nthKernel (i : ℕ) : CuptiPayload where
  pid := some 4242
  startNs := some (1700000000000000000 + 1000 * i)
  endNs := some (1700000000000000500 + 1000 * i)
  correlationId := some (i + 1)

/-- A log with `n` kernels and one transfer between two stages. -/
def manyKernels (n : ℕ) : Log :=
  ((List.range n).map fun i =>
    { event := .cupti { eventType := "kernel", payload := nthKernel i } }) ++
  oneTpRank.map fun ev => { event := .ppComm ev }

/-- Each of the kernels has a payload. -/
theorem nthKernel_ne_empty (i : ℕ) : nthKernel i ≠ {} := by
  intro h
  have hpid : some 4242 = (none : Option ℤ) := congrArg CuptiPayload.pid h
  cases hpid

/-- A kernel is collected to be drawn. -/
theorem add_nthKernel (records : CuptiRecords) (i : ℕ) :
    (records.add { eventType := "kernel", payload := nthKernel i }).eagerKernels =
        records.eagerKernels ++ [nthKernel i] ∧
      (records.add { eventType := "kernel", payload := nthKernel i }).cuptiEvents =
        records.cuptiEvents := by
  have hne := nthKernel_ne_empty i
  have hcall : "kernel" ∉ ["runtime", "driver"] := by decide
  have hwork : "kernel" ∈ ["kernel", "memset", "memcpy"] := by decide
  constructor
  · -- the start is far above the limit of seconds, so it is read as it stands
    have hstart : toNsInt (1700000000000000000 + 1000 * (i : ℤ)) =
        some (1700000000000000000 + 1000 * (i : ℤ)) := toNsInt_of_lt (by omega)
    have hpos : (((nthKernel i).startNs.bind fun n => toNsInt n).filter (0 < ·)).isSome := by
      show ((toNsInt (1700000000000000000 + 1000 * (i : ℤ))).filter (0 < ·)).isSome = true
      rw [hstart, Option.filter_some, if_pos (by simp; omega)]
      rfl
    unfold CuptiRecords.add
    dsimp only
    rw [if_neg hne, if_neg hcall, if_pos hwork, if_pos hpos]
    simp
  · rw [add_cuptiEvents _ hne, if_neg hcall, List.append_nil]

/-- Each of the kernels is noted once. -/
theorem cuptiRecords_nthKernel (n : ℕ) :
    (cuptiRecords ((List.range n).map fun i =>
        { eventType := "kernel", payload := nthKernel i })).eagerKernels =
      (List.range n).map nthKernel ∧
    (cuptiRecords ((List.range n).map fun i =>
        { eventType := "kernel", payload := nthKernel i })).cuptiEvents = [] := by
  induction n with
  | zero => exact ⟨rfl, rfl⟩
  | succ n ih =>
    obtain ⟨hkernels, hevents⟩ := ih
    unfold cuptiRecords at hkernels hevents ⊢
    rw [List.range_succ, List.map_append, List.map_append, List.foldl_append, List.map_singleton,
      List.map_singleton, List.foldl_cons, List.foldl_nil]
    -- the last kernel joins those before it
    obtain ⟨hadd, hkeep⟩ := add_nthKernel (List.foldl CuptiRecords.add {}
      ((List.range n).map fun i => { eventType := "kernel", payload := nthKernel i })) n
    exact ⟨by rw [hadd, hkernels], by rw [hkeep, hevents]⟩

/-- The CUPTI messages of the log are the kernels. -/
theorem cuptiMessages_manyKernels (n : ℕ) :
    (manyKernels n).cuptiMessages =
      (List.range n).map fun i => { eventType := "kernel", payload := nthKernel i } := by
  -- the transfers are no device messages
  have htransfers : Log.cuptiMessages (oneTpRank.map fun ev => { event := .ppComm ev }) = [] := by
    decide
  unfold Log.cuptiMessages at htransfers ⊢
  rw [manyKernels, List.filterMap_append, htransfers, List.append_nil, List.filterMap_map]
  show (List.range n).filterMap (some ∘ fun i =>
    ({ eventType := "kernel", payload := nthKernel i } : CuptiMessage)) = _
  rw [List.filterMap_eq_map]

/-- Its pipeline messages are those of the one rank. -/
theorem ppCommEvents_manyKernels (n : ℕ) : (manyKernels n).ppCommEvents = oneTpRank := by
  have htransfers : Log.ppCommEvents (oneTpRank.map fun ev => { event := .ppComm ev }) =
      oneTpRank := by decide
  unfold Log.ppCommEvents at htransfers ⊢
  rw [manyKernels, List.filterMap_append, htransfers, List.filterMap_map]
  simp

/-- It has no worker event. -/
theorem workerEvents_manyKernels (n : ℕ) : (manyKernels n).workerEvents = [] := by
  have htransfers : Log.workerEvents (oneTpRank.map fun ev => { event := .ppComm ev }) = [] := by
    rfl
  unfold Log.workerEvents at htransfers ⊢
  rw [manyKernels, List.filterMap_append, htransfers, List.filterMap_map]
  simp

/-- It has no dispatch. -/
theorem dispatchSlicesOf_manyKernels (n : ℕ) : dispatchSlicesOf (manyKernels n) = [] := by
  rw [dispatchSlicesOf, workerEvents_manyKernels]
  rfl

/-- Its key. -/
def nthKey (i : ℕ) : CorrKey := (4242, some (i + 1))

/-- Each kernel asks for an id of its own. -/
theorem askedKeys_manyKernels (n : ℕ) :
    askedKeys [] (manyKernels n).cuptiMessages = (List.range n).map nthKey ∧
      ∀ key ∈ askedKeys [] (manyKernels n).cuptiMessages,
        ∃ origin, (key, origin) ∈ drawnLinks [] (manyKernels n).cuptiMessages := by
  obtain ⟨hkernels, hevents⟩ := cuptiRecords_nthKernel n
  -- there are no calls, only kernels
  have hcalls : callsInOrder (manyKernels n).cuptiMessages = [] := by
    rw [callsInOrder, cuptiMessages_manyKernels, hevents]
    rfl
  have hlinked : ∀ k ∈ (List.range n).map nthKernel, isLinked k = true := by
    intro k hk
    obtain ⟨i, -, rfl⟩ := List.mem_map.mp hk
    have hid : ((i : ℤ) + 1) ≠ 0 := by omega
    show ((some ((i : ℤ) + 1)).filter (· ≠ 0)).isSome = true
    rw [Option.filter_some, if_pos (by simpa using hid)]
    rfl
  have hwork : keysOf isLinked workLink
      (cuptiRecords (manyKernels n).cuptiMessages).eagerKernels =
        (List.range n).map nthKey := by
    rw [cuptiMessages_manyKernels, hkernels, keysOf, List.filter_eq_self.mpr hlinked, List.map_map]
    rfl
  constructor
  · rw [askedKeys, hcalls, hwork]
    rfl
  · intro key hkey
    rw [askedKeys, hcalls] at hkey
    obtain ⟨k, hk, rfl⟩ := List.mem_map.mp hkey
    exact ⟨k.origin, List.mem_append_right _ (List.mem_map_of_mem hk)⟩

/-- With as many kernels the two allocators of flow ids meet. -/
theorem allocatorsMeet_manyKernels {n : ℕ} (hn : 700001 ≤ n) :
    AllocatorsMeet (dispatchSlicesOf (manyKernels n)) (manyKernels n).cuptiMessages
      (flowPointsOf (manyKernels n)) := by
  rw [flowPointsOf, dispatchSlicesOf_manyKernels, ppCommEvents_manyKernels]
  obtain ⟨hasked, hdrawn⟩ := askedKeys_manyKernels n
  have hnodup : (askedKeys [] (manyKernels n).cuptiMessages).Nodup := by
    rw [hasked]
    apply List.nodup_range.map
    intro i j hij
    simpa [nthKey] using hij
  -- the 700001st key gets the first id of the arrows
  have hentry : ∃ entry, (ppCommFlowPoints (ppCommSpans [] oneTpRank)).entries[0]? = some entry ∧
      entry.2.send.isSome = true ∧ entry.2.recv.isSome = true :=
    ⟨_, rfl, rfl, rfl⟩
  obtain ⟨entry, hget, hsend, hrecv⟩ := hentry
  have hfirst :
      (List.firstSeen id (askedKeys [] (manyKernels n).cuptiMessages))[ppFlowIdBase + 0]? =
        some (nthKey 700000) := by
    rw [List.firstSeen_of_nodup (by rwa [List.map_id]), hasked, List.getElem?_map,
      List.getElem?_range (by show 700000 < n; omega)]
    rfl
  exact ⟨0, _, entry, hfirst, hdrawn _ (List.mem_firstSeen_id.mp (List.mem_of_getElem? hfirst)),
    hget, hsend, hrecv⟩

/-- The conversion of such a log succeeds. -/
theorem exists_taggedFlows_manyKernels (n : ℕ) :
    ∃ flows, taggedFlows (manyKernels n) = .ok flows := by
  obtain ⟨hkernels, hevents⟩ := cuptiRecords_nthKernel n
  rw [← cuptiMessages_manyKernels] at hkernels hevents
  -- every kernel has both times, so its turn succeeds
  have hdraw : ∀ trace : CuptiTrace, ∀ k ∈ (List.range n).map nthKernel,
      ∃ trace', trace.drawKernel k = .ok trace' := by
    intro trace k hk
    obtain ⟨i, -, rfl⟩ := List.mem_map.mp hk
    exact exists_drawKernel rfl rfl
  obtain ⟨trace, htrace⟩ := List.exists_foldlM_eq_ok hdraw {}
  have hcupti : processCupti [] (manyKernels n).cuptiMessages = .ok trace := by
    unfold processCupti
    dsimp only
    rw [hevents, hkernels]
    exact htrace
  -- there is nothing else to draw
  have hsort : sortWorkerEvents (manyKernels n).workerEvents = .ok [] := by
    rw [workerEvents_manyKernels]
    rfl
  rw [← exports_iff]
  refine ⟨(ppCommArrows [] (manyKernels n).ppCommEvents).flatMap FlowArrow.flowEvents ++
    trace.events.filterMap TraceEvent.flowEvent, ?_⟩
  unfold traceFlows
  rw [hsort]
  show (processCupti [] (manyKernels n).cuptiMessages >>= fun cupti => _) = _
  rw [hcupti]
  rfl

/-- The first 700001 kernels use up the ids below the first arrow's. -/
theorem not_flowIdsIdentify_manyKernels : ¬FlowIdsIdentify (manyKernels 700001) := by
  obtain ⟨st, hst⟩ := exists_taggedFlows_manyKernels 700001
  obtain ⟨st', hcupti, hflows⟩ := taggedFlows_eq_ok hst
  obtain ⟨a, ha, b, hb, hid, hne⟩ :=
    (shared_id_iff hcupti).mpr (.inl (allocatorsMeet_manyKernels (by decide)))
  intro h
  exact hne (h st hst a (hflows ▸ ha) b (hflows ▸ hb) hid)

end DeLatency
