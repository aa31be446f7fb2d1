import DeLatency.ForStd.SortBy
import DeLatency.Patch.Generate
import DeLatency.Spec.ReqSpans
import Mathlib.Data.List.Flatten

/-!
# The time line of a generate call

The outputs of a request are taken in batches.  Each batch is what was put since the last
one was taken, and waits from its first put until the turn that takes it.  `Taking` says which
turn of a run takes which puts, in terms of the run alone; a call takes them so and reports each
batch (`GenerateInv`).  The times of the puts and of the turns that took something, batch by
batch, are in the order in which they were read, and no wait of a call overlaps with one of its
slices.
-/

namespace DeLatency

variable {ω : Type} {lib : CollectorLib ω}

/-! ## Batches -/

/-- What is put in a run, and when. -/
def GenerateStep.puts : GenerateStep ω → List (ℤ × ω)
  | .put readyTsNs output => [(readyTsNs, output)]
  | _ => []

/-- The times that are read in a step. -/
def GenerateStep.times : GenerateStep ω → List ℤ
  | .put readyTsNs _ => [readyTsNs]
  | .turn execStartNs execEndNs => [execStartNs, execEndNs]
  | .abort => []

/-- A batch of outputs that were taken together, and the turn that took them. -/
structure TakenBatch (ω : Type) where
  first : ℤ × ω
  later : List (ℤ × ω)
  startNs : ℤ
  endNs : ℤ

namespace TakenBatch

def puts (b : TakenBatch ω) : List (ℤ × ω) := b.first :: b.later

/-- The wait of a batch begins with its first put. -/
def readyNs (b : TakenBatch ω) : ℤ := b.first.1

def times (b : TakenBatch ω) : List ℤ := b.puts.map Prod.fst ++ [b.startNs, b.endNs]

/-- The drawn wait and the drawn slice of a batch. -/
def wait (b : TakenBatch ω) : Option (ℤ × ℤ) :=
  if b.readyNs < b.startNs then some (b.readyNs, b.startNs) else none

def slice (b : TakenBatch ω) : Option GenerateExec :=
  if b.startNs < b.endNs then
    some { startNs := b.startNs, endNs := b.endNs, taskKind := some "generate_consume" }
  else none

end TakenBatch

/-! ## Who takes what -/

/-- The output that several puts come to. -/
def mergedOutput (lib : CollectorLib ω) (first : ℤ × ω) (later : List (ℤ × ω)) : ω :=
  later.foldl (fun held p => lib.merge held p.2) first.2

/-- What has been taken, what waits, and whether the call goes on. -/
structure Taking (ω : Type) where
  batches : List (TakenBatch ω) := []
  rest : List (ℤ × ω) := []
  live : Bool := true

namespace Taking

/-- A turn takes all that waits, and nothing when the call is over.  An output that raises is
    taken without a report. -/
def turn (lib : CollectorLib ω) (s : Taking ω) (startNs endNs : ℤ) : Taking ω :=
  match s.rest with
  | [] => s
  | first :: later =>
    if s.live = false then s
    -- the merged output raises before anything is reported
    else if lib.taken (mergedOutput lib first later) = .raises then { s with live := false }
    else
      { batches := s.batches ++ [{ first, later, startNs, endNs }]
        rest := []
        live := lib.taken (mergedOutput lib first later) ≠ .finished }

def step (lib : CollectorLib ω) (s : Taking ω) : GenerateStep ω → Taking ω
  | .put readyTsNs output => { s with rest := s.rest ++ [(readyTsNs, output)] }
  | .turn startNs endNs => s.turn lib startNs endNs
  | .abort => { s with live := false }

/-- What the turns of a run take. -/
def run (lib : CollectorLib ω) (steps : List (GenerateStep ω)) : Taking ω :=
  steps.foldl (step lib) {}

/-- One more step of the call. -/
theorem run_concat (lib : CollectorLib ω) (steps : List (GenerateStep ω)) (st : GenerateStep ω) :
    run lib (steps ++ [st]) = (run lib steps).step lib st := List.foldl_concat ..

/-- A turn leaves everything as it is, ends the call, or takes what waits. -/
theorem turn_cases (lib : CollectorLib ω) (s : Taking ω) (startNs endNs : ℤ) :
    ((s.rest = [] ∨ s.live = false) ∧ s.turn lib startNs endNs = s) ∨
      ∃ first later, s.rest = first :: later ∧ s.live = true ∧
        (lib.taken (mergedOutput lib first later) = .raises ∧
            s.turn lib startNs endNs = { s with live := false } ∨
          lib.taken (mergedOutput lib first later) ≠ .raises ∧
            s.turn lib startNs endNs =
              { batches := s.batches ++ [{ first, later, startNs, endNs }]
                rest := []
                live := lib.taken (mergedOutput lib first later) ≠ .finished }) := by
  unfold turn
  cases hrest : s.rest with
  | nil => exact .inl ⟨.inl rfl, rfl⟩
  | cons first later =>
    -- a call that has ended or raised takes nothing more
    cases hlive : s.live with
    | false => exact .inl ⟨.inr rfl, by simp⟩
    | true =>
      refine .inr ⟨first, later, rfl, rfl, ?_⟩
      -- the merge of what was put raises, or is taken as one batch
      by_cases hraises : lib.taken (mergedOutput lib first later) = .raises
      · exact .inl ⟨hraises, by simp [hraises]⟩
      · exact .inr ⟨hraises, by simp [hraises]⟩

/-- What was put is taken in order, and the rest waits. -/
theorem puts_run (lib : CollectorLib ω) (steps : List (GenerateStep ω)) :
    steps.flatMap GenerateStep.puts =
      (run lib steps).batches.flatMap TakenBatch.puts ++ (run lib steps).rest := by
  induction steps using List.reverseRecOn with
  | nil => rfl
  | append_singleton steps st ih =>
    rw [run_concat, List.flatMap_append, List.flatMap_singleton, ih]
    -- a put waits, a turn moves what waits into a batch, an abort changes neither
    cases st with
    | put readyTsNs output => simp [step, GenerateStep.puts]
    | turn startNs endNs =>
      obtain ⟨-, heq⟩ | ⟨first, later, hrest, -, ⟨-, heq⟩ | ⟨-, heq⟩⟩ :=
        turn_cases lib (run lib steps) startNs endNs
      · simp [step, heq, GenerateStep.puts]
      · simp [step, heq, GenerateStep.puts]
      · simp [step, heq, hrest, GenerateStep.puts, TakenBatch.puts]
    | abort => simp [step, GenerateStep.puts]

/-- The times of the batches are those that the run reads, in its order. -/
theorem times_run (lib : CollectorLib ω) (steps : List (GenerateStep ω)) :
    ((run lib steps).batches.flatMap TakenBatch.times ++
      (run lib steps).rest.map Prod.fst).Sublist (steps.flatMap GenerateStep.times) := by
  induction steps using List.reverseRecOn with
  | nil => exact .slnil
  | append_singleton steps st ih =>
    rw [run_concat, List.flatMap_append, List.flatMap_singleton]
    cases st with
    | put readyTsNs output =>
      rw [step, List.map_append, ← List.append_assoc]
      exact ih.append (.refl _)
    | turn startNs endNs =>
      obtain ⟨-, heq⟩ | ⟨first, later, hrest, -, ⟨-, heq⟩ | ⟨-, heq⟩⟩ :=
        turn_cases lib (run lib steps) startNs endNs
      · rw [step, heq]
        exact ih.trans (List.sublist_append_left _ _)
      · rw [step, heq]
        exact ih.trans (List.sublist_append_left _ _)
      · -- the puts that were waiting, and the times of the turn after them
        rw [hrest] at ih
        have htimes := ih.append (.refl [startNs, endNs])
        rw [List.append_assoc] at htimes
        simpa [step, heq, GenerateStep.times, TakenBatch.times, TakenBatch.puts] using htimes
    | abort =>
      rw [step]
      exact ih.trans (List.sublist_append_left _ _)

end Taking

/-! ## The call -/

namespace GenerateCall

variable {call : GenerateCall ω} {readyTsNs : ℤ} {output : ω}

/-- An output put into an empty queue is held as it is. -/
theorem put_of_none (h : call.q.output = none) : call.put lib readyTsNs output =
    { call with q := { output := some output, readySinceNs := some readyTsNs } } := by
  rw [put, h]

/-- One put onto a held output is merged with it. -/
theorem put_of_some {held : ω} (h : call.q.output = some held) :
    call.put lib readyTsNs output =
      { call with q := { call.q with output := some (lib.merge held output) } } := by
  rw [put, h]

end GenerateCall

/-- The collector holds what comes of these puts. -/
def OutputCollector.Holds (lib : CollectorLib ω) (q : OutputCollector ω) :
    List (ℤ × ω) → Prop
  | [] => q.output = none
  | first :: later =>
    q.output = some (mergedOutput lib first later) ∧ q.readySinceNs = some first.1

/-- A call has taken what its turns take, and has reported each batch. -/
structure GenerateInv (lib : CollectorLib ω) (requestId : String) (call : GenerateCall ω)
    (s : Taking ω) : Prop where
  sameRequest : call.requestId = requestId
  live : s.live = true ↔ call.status ≠ .done
  holds : s.live = true → call.q.Holds lib s.rest
  schedEvents : call.schedEvents =
    s.batches.map fun b => emitConsumeWait requestId b.readyNs b.startNs
  execEvents : call.execEvents = (s.batches.filter fun b => b.startNs < b.endNs).map fun b =>
    emitConsumeSlice requestId b.startNs b.endNs

namespace GenerateInv

variable {requestId : String} {call : GenerateCall ω} {s : Taking ω}

/-- The invariant before the first step. -/
theorem nil : GenerateInv lib requestId { requestId } {} where
  sameRequest := rfl
  live := by simp
  holds _ := rfl
  schedEvents := rfl
  execEvents := rfl

/-- Putting an output keeps it: the held output is the merge of what was put since the last turn.
    -/
theorem put (h : GenerateInv lib requestId call s) (readyTsNs : ℤ) (output : ω) :
    GenerateInv lib requestId (call.put lib readyTsNs output)
      (s.step lib (.put readyTsNs output)) := by
  cases hq : call.q.output with
  | none =>
    -- the first output since the last batch
    rw [GenerateCall.put_of_none hq]
    refine ⟨h.sameRequest, h.live, fun hlive => ?_, h.schedEvents, h.execEvents⟩
    have hholds := h.holds hlive
    cases hrest : s.rest with
    | nil =>
      rw [Taking.step, hrest]
      exact ⟨rfl, rfl⟩
    | cons first later =>
      rw [hrest, OutputCollector.Holds, hq] at hholds
      cases hholds.1
  | some held =>
    -- merged into the one that waits, which keeps its time
    rw [GenerateCall.put_of_some hq]
    refine ⟨h.sameRequest, h.live, fun hlive => ?_, h.schedEvents, h.execEvents⟩
    have hholds := h.holds hlive
    cases hrest : s.rest with
    | nil =>
      rw [hrest, OutputCollector.Holds, hq] at hholds
      cases hholds
    | cons first later =>
      rw [hrest] at hholds
      obtain ⟨houtput, hready⟩ := hholds
      rw [hq, Option.some.injEq] at houtput
      rw [Taking.step, hrest]
      refine ⟨?_, hready⟩
      show some (lib.merge held output) = some ((later ++ [(readyTsNs, output)]).foldl _ _)
      rw [List.foldl_concat, houtput, mergedOutput]

/-- An output that is taken is reported, with its wait and the slice of the turn. -/
theorem report (h : GenerateInv lib requestId call s) {first : ℤ × ω} {later : List (ℤ × ω)}
    (hready : call.q.readySinceNs = some first.1) {execStartNs execEndNs : ℤ}
    (hle : first.1 ≤ execStartNs) :
    GenerateInv lib requestId
      (call.report lib (mergedOutput lib first later) execStartNs execEndNs)
      { batches := s.batches ++ [{ first, later, startNs := execStartNs, endNs := execEndNs }]
        rest := []
        live := lib.taken (mergedOutput lib first later) ≠ .finished } := by
  refine ⟨h.sameRequest, ?_, fun _ => rfl, ?_, ?_⟩
  · -- whether the batch finishes the request only shows in the flags
    by_cases hfinished : lib.taken (mergedOutput lib first later) = .finished <;>
      simp [GenerateCall.report, hfinished]
  · -- the wait is reported from the first put on, which is not after the turn
    simp only [GenerateCall.report, hready, if_pos hle, h.schedEvents, h.sameRequest,
      List.map_append]
    rfl
  · simp only [GenerateCall.report, h.execEvents, h.sameRequest, List.filter_append,
      List.map_append]
    congr 1
    -- an execution that takes no time is not reported
    by_cases hlt : execStartNs < execEndNs
    · rw [if_neg (not_le.mpr hlt), List.filter_cons_of_pos (by simpa using hlt)]
      rfl
    · rw [if_pos (not_lt.mp hlt), List.filter_cons_of_neg (by simpa using hlt)]
      rfl

/-- A turn keeps it: it takes all that was put since the last one, and reports them once. -/
theorem turn (h : GenerateInv lib requestId call s) (execStartNs execEndNs : ℤ)
    (hle : ∀ p ∈ s.rest, p.1 ≤ execStartNs) :
    GenerateInv lib requestId (call.turn lib execStartNs execEndNs)
      (s.turn lib execStartNs execEndNs) := by
  unfold GenerateCall.turn
  obtain ⟨hidle, heq⟩ | ⟨first, later, hrest, hlive, hcase⟩ :=
    Taking.turn_cases lib s execStartNs execEndNs
  · rw [heq]
    split
    · exact h
    · next hstatus =>
      -- the call goes on, so nothing waits
      have hrest : s.rest = [] := hidle.resolve_right fun hfalse => by
        rw [h.live.mpr hstatus] at hfalse
        cases hfalse
      have hholds := h.holds (h.live.mpr hstatus)
      rw [hrest, OutputCollector.Holds] at hholds
      rw [hholds]
      refine ⟨h.sameRequest, ?_, fun _ => ?_, h.schedEvents, h.execEvents⟩
      · simp [h.live.mpr hstatus]
      · rw [hrest]
        exact hholds
  · have hstatus := h.live.mp hlive
    have hholds := h.holds hlive
    rw [hrest] at hholds
    obtain ⟨houtput, hready⟩ := hholds
    rw [if_neg hstatus, houtput]
    dsimp only
    obtain ⟨hraises, heq⟩ | ⟨hraises, heq⟩ := hcase
    · -- an output that raises ends the call
      rw [heq, if_pos hraises]
      exact ⟨h.sameRequest, by simp, (fun hfalse => absurd hfalse Bool.false_ne_true), h.schedEvents, h.execEvents⟩
    · rw [heq, if_neg hraises]
      exact h.report hready (hle first (hrest ▸ List.mem_cons_self ..))

end GenerateInv

/-- A call takes what the turns of its run take. -/
theorem generateInv_run (lib : CollectorLib ω) (requestId : String) (steps : List (GenerateStep ω))
    (hclock : (steps.flatMap GenerateStep.times).Pairwise (· ≤ ·)) :
    GenerateInv lib requestId (GenerateCall.run lib requestId steps) (Taking.run lib steps) := by
  unfold GenerateCall.run
  induction steps using List.reverseRecOn with
  | nil => exact .nil
  | append_singleton steps st ih =>
    rw [List.flatMap_append, List.flatMap_singleton, List.pairwise_append] at hclock
    have h := ih hclock.1
    rw [List.foldl_concat, Taking.run_concat]
    cases st with
    | put readyTsNs output => exact h.put readyTsNs output
    | turn execStartNs execEndNs =>
      refine h.turn execStartNs execEndNs fun p hp => ?_
      -- what waits was put before the turn
      refine hclock.2.2 p.1 ((Taking.times_run lib steps).subset ?_) execStartNs
        (by simp [GenerateStep.times])
      exact List.mem_append_right _ (List.mem_map_of_mem hp)
    | abort =>
      exact ⟨h.sameRequest, by simp [Taking.step, GenerateCall.step],
        (fun hfalse => absurd hfalse Bool.false_ne_true), h.schedEvents, h.execEvents⟩

/-! ## What the converter draws -/

variable {requestId rid : String}

/-- The reported wait of a turn is drawn when it took time. -/
theorem coroWait_emitConsumeWait (hrid : normalizeRequestId requestId = some rid)
    {readyTsNs runTsNs : ℤ} (hready : 0 < readyTsNs) (hrun : 0 < runTsNs) :
    coroWait rid (emitConsumeWait requestId readyTsNs runTsNs) =
      if readyTsNs < runTsNs then some (readyTsNs, runTsNs) else none := by
  have hsame : requestIdOf (some requestId) none = some rid := by simp [requestIdOf, hrid]
  rw [coroWait, if_pos ⟨rfl, hsame, by simp [emitConsumeWait]⟩]
  exact drawnInterval_some hready hrun

/-- The reported execution of a turn is drawn when it took time. -/
theorem generateExec_emitConsumeSlice {startNs endNs : ℤ} (hstart : 0 < startNs)
    (hlt : startNs < endNs) :
    generateExec (emitConsumeSlice requestId startNs endNs) =
      some { startNs, endNs, taskKind := some "generate_consume" } := by
  have hend : 0 < endNs := hstart.trans hlt
  simp only [generateExec, emitConsumeSlice, eventDuration]
  -- both times are positive, so neither counts as missing
  rw [if_neg (by omega), truthyInt_eq_some.mpr ⟨rfl, hstart.ne'⟩,
    truthyInt_eq_some.mpr ⟨rfl, hend.ne'⟩]
  simp only
  rw [if_pos hlt]

/-- Turns that took something follow one another. -/
theorem startNs_pairwise {batches : List (TakenBatch ω)}
    (h : (batches.flatMap TakenBatch.times).Pairwise (· ≤ ·)) :
    batches.Pairwise fun b b' => b.startNs ≤ b'.startNs := by
  have hsub : (batches.map TakenBatch.startNs).Sublist (batches.flatMap TakenBatch.times) := by
    rw [List.map_eq_flatMap]
    refine List.Sublist.flatMap_right _ fun b _ => ?_
    exact List.singleton_sublist.mpr (by simp [TakenBatch.times])
  exact List.pairwise_map.mp (h.sublist hsub)

/-- The events of a log that report the consumption of the request's outputs. -/
def consumeSlices (execs : List CoroutineExecEvent) (rid : String) : List CoroutineExecEvent :=
  execs.filter fun ev =>
    requestIdOf ev.requestId ev.reqId = some rid ∧ ev.taskKind = some "generate_consume"

/-- The slices of this kind come from the events of this kind. -/
theorem reqGenerateExec_filter (execs : List CoroutineExecEvent) (rid : String) :
    (reqGenerateExec execs rid).filter (·.taskKind = some "generate_consume") =
      (consumeSlices execs rid).filterMap generateExec := by
  -- a slice has the kind of its event, so the order of the two filters does not matter
  have hkind : ∀ {ev : CoroutineExecEvent} {slice : GenerateExec},
      generateExec ev = some slice → slice.taskKind = ev.taskKind := by
    intro ev slice h
    unfold generateExec at h
    split at h
    · cases h
    · split at h
      · cases h
      · split at h
        · split at h
          · cases h
            rfl
          · cases h
        · cases h
  rw [reqGenerateExec, consumeSlices, List.filter_filterMap, List.filterMap_filter,
    List.filterMap_filter]
  refine List.filterMap_congr fun ev _ => ?_
  cases hexec : generateExec ev with
  | none => simp
  | some slice =>
    have hslice := hkind hexec
    by_cases hrid : requestIdOf ev.requestId ev.reqId = some rid
    · by_cases hconsume : ev.taskKind = some "generate_consume"
      · simp [hrid, hconsume, hslice]
      · simp [hrid, hconsume, hslice]
    · simp [hrid]

/-- Outputs are lists of tokens, and the token 0 is the last one. -/
def tokenLib : CollectorLib (List ℕ) where
  merge := (· ++ ·)
  taken output := if 0 ∈ output then .finished else .unfinished

/-- Two outputs are taken together, the next one when it comes. -/
def tokenSteps : List (GenerateStep (List ℕ)) :=
  [.put 10 [1], .put 12 [2], .turn 15 18, .turn 20 20, .put 30 [0], .turn 31 34]

end DeLatency
