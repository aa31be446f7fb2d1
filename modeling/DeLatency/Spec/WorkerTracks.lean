import DeLatency.Converter.Tracks
import Mathlib.Data.List.Induction

/-!
# The processes that the worker loop draws in

An event with an interval of its own is drawn in its process.  The other slices come from
the state machine: a forward pass is drawn on a track where a preprocessing has started
before it (`ForwardStarted`), and the end of a forward pass on a track where such a pass
has started.  So the state machine draws on the tracks with a forward start after a
preprocessing start, and on no others.
-/

namespace DeLatency

def WorkerEvent.track (ev : WorkerEvent) : Option ℤ × Option ℤ := (ev.pid, ev.tid)

/-- An event that is drawn with its own interval. -/
def WorkerEvent.IsSpan (hasPrecisePhaseSpans : Bool) (ev : WorkerEvent) : Prop :=
  (ev.startNs.isSome ∧ ev.endNs.isSome) ∧
    (ev.type = .gpuExecuteModel ∨
      (ev.type = .gpuPhaseSpan ∧ (ev.phase.filter (· ≠ "")).isSome) ∨
      (hasPrecisePhaseSpans = false ∧ (ev.type = .gpuSample ∨ ev.type = .gpuBookkeeping)))

/-- A forward pass starts on a track after a preprocessing. -/
def ForwardStarted (events : List WorkerEvent) (track : Option ℤ × Option ℤ) : Prop :=
  ∃ pre fwd, [pre, fwd].Sublist events ∧ pre.type = .workerPreprocessStart ∧
    fwd.type = .gpuForwardStart ∧ pre.track = track ∧ fwd.track = track

/-- The worker loop draws something in a process. -/
def DrawsIn (events : List WorkerEvent) (pid : Option ℤ) : Prop :=
  let hasPrecisePhaseSpans := events.any fun ev => ev.type = .gpuPhaseSpan
  (∃ ev ∈ events, ev.pid = pid ∧ ev.IsSpan hasPrecisePhaseSpans) ∨
    (hasPrecisePhaseSpans = false ∧ ∃ tid, ForwardStarted events (pid, tid))

/-! ## One turn -/

/-- When the preprocessing of a track started. -/
def WorkerIntervals.preStart (w : WorkerIntervals) (track : Option ℤ × Option ℤ) : Option ℤ :=
  (w.workerStates.get? track).bind (·.tPreStart)

/-- When the forward pass of a track started. -/
def WorkerIntervals.fwdStart (w : WorkerIntervals) (track : Option ℤ × Option ℤ) : Option ℤ :=
  (w.workerStates.get? track).bind (·.tFwdStart)

section Turn

variable {w : WorkerIntervals} {ev : WorkerEvent} {track : Option ℤ × Option ℤ}

/-- What one turn of the state machine does to the states of the tracks. -/
inductive StatesTurn (w : WorkerIntervals) (ev : WorkerEvent) :
    Dict (Option ℤ × Option ℤ) WorkerState → Prop
  | preprocess (htype : ev.type = .workerPreprocessStart) : StatesTurn w ev
      (w.workerStates.alter ev.track {} fun _ => { tPreStart := ev.ts, reqIds := ev.reqIds })
  | same (htype : ev.type ≠ .workerPreprocessStart) : StatesTurn w ev w.workerStates
  | change (htype : ev.type ≠ .workerPreprocessStart) {f : WorkerState → WorkerState}
      (hpre : ∀ state, (f state).tPreStart = state.tPreStart)
      (hfwd : ∀ state, (f state).tFwdStart = state.tFwdStart ∨
        (ev.type = .gpuForwardStart ∧ (w.preStart ev.track).isSome)) :
      StatesTurn w ev (w.workerStates.alter ev.track {} f)

/-- Every event makes one such turn. -/
theorem statesTurn_workerEvent (w : WorkerIntervals) (ev : WorkerEvent) :
    StatesTurn w ev (workerEvent false w ev).workerStates := by
  -- sampling and bookkeeping leave the tracks alone
  have hspan : ∀ name, (workerEvent.spanPhase false ev (ev.pid, ev.tid) w name).workerStates =
      w.workerStates := by
    intro name
    simp only [workerEvent.spanPhase, Bool.false_eq_true, if_false]
    split <;> rfl
  unfold workerEvent
  cases htype : ev.type with
  | gpuExecuteModel =>
    have hne : ev.type ≠ .workerPreprocessStart := by simp [htype]
    dsimp only
    split
    · exact .same hne
    · exact .same hne
  | gpuPhaseSpan =>
    have hne : ev.type ≠ .workerPreprocessStart := by simp [htype]
    dsimp only
    split
    · exact .change hne (fun state => by split <;> rfl) fun state => .inl (by split <;> rfl)
    · exact .same hne
  | workerPreprocessStart => exact .preprocess htype
  | gpuForwardStart =>
    have hne : ev.type ≠ .workerPreprocessStart := by simp [htype]
    simp only [Bool.false_eq_true, if_false]
    split
    · next state hstate =>
      split
      · next t1 ts hpre hts =>
        -- the forward pass of a track is opened only after its preprocessing
        have hsome : (w.preStart ev.track).isSome := by
          rw [WorkerIntervals.preStart, WorkerEvent.track, hstate, Option.bind_some, hpre]
          rfl
        exact .change hne (fun _ => rfl) fun _ => .inr ⟨htype, hsome⟩
      · exact .same hne
    · exact .same hne
  | gpuForwardEnd =>
    have hne : ev.type ≠ .workerPreprocessStart := by simp [htype]
    simp only [Bool.false_eq_true, if_false]
    split
    · split
      · exact .change hne (fun _ => rfl) fun _ => .inl rfl
      · exact .same hne
    · exact .same hne
  | gpuSample =>
    rw [hspan]
    exact .same (by simp [htype])
  | gpuBookkeeping =>
    rw [hspan]
    exact .same (by simp [htype])

/-- Only the start of a preprocessing sets the time of one. -/
theorem preStart_workerEvent : (workerEvent false w ev).preStart track =
    if ev.type = .workerPreprocessStart ∧ ev.track = track then ev.ts else w.preStart track := by
  unfold WorkerIntervals.preStart
  have hturn := statesTurn_workerEvent w ev
  generalize (workerEvent false w ev).workerStates = states at hturn ⊢
  cases hturn with
  | preprocess htype =>
    rw [Dict.get?_alter]
    by_cases h : track = ev.track
    · rw [if_pos h, if_pos ⟨htype, h.symm⟩]
      rfl
    · rw [if_neg h, if_neg fun heq => h heq.2.symm]
  | same htype => rw [if_neg fun h => htype h.1]
  | change htype hpre hfwd =>
    rw [if_neg fun h => htype h.1, Dict.get?_alter]
    split
    · next h =>
      -- a track that is new has no preprocessing time before and after
      rw [h, Option.bind_some, hpre, Dict.getD]
      cases w.workerStates.get? ev.track with
      | none => rfl
      | some state => rfl
    · rfl

/-- The forward pass of a track starts when its preprocessing has started. -/
theorem isSome_fwdStart_workerEvent (h : ((workerEvent false w ev).fwdStart track).isSome) :
    (w.fwdStart track).isSome ∨
      (ev.type = .gpuForwardStart ∧ ev.track = track ∧ (w.preStart track).isSome) := by
  unfold WorkerIntervals.fwdStart at h ⊢
  have hturn := statesTurn_workerEvent w ev
  generalize (workerEvent false w ev).workerStates = states at hturn h
  cases hturn with
  | preprocess htype =>
    rw [Dict.get?_alter] at h
    split at h
    · -- a new preprocessing forgets the forward pass before it
      cases h
    · exact .inl h
  | same htype => exact .inl h
  | @change htype f hpre hfwd =>
    rw [Dict.get?_alter] at h
    split at h
    · next htrack =>
      rw [Option.bind_some] at h
      rw [htrack]
      obtain hkeep | ⟨hstart, hsome⟩ := hfwd (w.workerStates.getD ev.track {})
      · left
        rw [hkeep, Dict.getD] at h
        cases hstate : w.workerStates.get? ev.track with
        | none =>
          rw [hstate] at h
          cases h
        | some state =>
          rw [hstate] at h
          exact h
      · exact .inr ⟨hstart, rfl, hsome⟩
    · exact .inl h

/-- What a turn draws. -/
theorem isSome_workerSlice {hasPrecisePhaseSpans : Bool} :
    (workerSlice hasPrecisePhaseSpans w ev).isSome ↔ ev.IsSpan hasPrecisePhaseSpans ∨
      (hasPrecisePhaseSpans = false ∧ ev.ts.isSome ∧
        ((ev.type = .gpuForwardStart ∧ (w.preStart ev.track).isSome) ∨
          (ev.type = .gpuForwardEnd ∧ (w.fwdStart ev.track).isSome))) := by
  have hspan : ∀ name cat, (workerSlice.span ev name cat).isSome ↔
      ev.startNs.isSome ∧ ev.endNs.isSome := by
    intro name cat
    unfold workerSlice.span
    cases ev.startNs <;> cases ev.endNs <;> simp
  unfold workerSlice WorkerEvent.IsSpan
  cases htype : ev.type with
  | gpuExecuteModel => simp [hspan]
  | gpuPhaseSpan =>
    cases hphase : ev.phase.filter (· ≠ "") with
    | none => simp
    | some name => simp [hspan]
  | workerPreprocessStart => simp
  | gpuForwardStart =>
    -- the slice of the preprocessing is drawn when the forward pass starts
    have hpre : (w.workerStates.get? (ev.pid, ev.tid)).bind (·.tPreStart) =
        w.preStart ev.track := rfl
    dsimp only
    rw [hpre]
    cases hasPrecisePhaseSpans <;> cases w.preStart ev.track <;> cases ev.ts <;>
      simp [Option.filter_some]
  | gpuForwardEnd =>
    have hfwd : (w.workerStates.get? (ev.pid, ev.tid)).bind (·.tFwdStart) =
        w.fwdStart ev.track := rfl
    dsimp only
    rw [hfwd]
    cases hasPrecisePhaseSpans <;> cases w.fwdStart ev.track <;> cases ev.ts <;>
      simp [Option.filter_some]
  | gpuSample =>
    cases hasPrecisePhaseSpans with
    | true => simp
    | false => simp [hspan]
  | gpuBookkeeping =>
    cases hasPrecisePhaseSpans with
    | true => simp
    | false => simp [hspan]

end Turn

/-! ## The run -/

section Run

variable {hasPrecisePhaseSpans : Bool}

/-- A track whose forward pass has started stays so. -/
theorem forwardStarted_concat {seen : List WorkerEvent} {ev : WorkerEvent}
    {track : Option ℤ × Option ℤ} (h : ForwardStarted seen track) :
    ForwardStarted (seen ++ [ev]) track := by
  obtain ⟨pre, fwd, hsub, hrest⟩ := h
  exact ⟨pre, fwd, hsub.trans (List.sublist_append_left seen [ev]), hrest⟩

/-- What the loop has drawn and remembers comes from the events so far. -/
structure SeenTracks (hasPrecisePhaseSpans : Bool) (seen : List WorkerEvent)
    (st : WorkerIntervals × List TrackEvent) : Prop where
  preStart : hasPrecisePhaseSpans = false → ∀ track, (st.1.preStart track).isSome →
    ∃ pre ∈ seen, pre.type = .workerPreprocessStart ∧ pre.track = track
  fwdStart : hasPrecisePhaseSpans = false → ∀ track, (st.1.fwdStart track).isSome →
    ForwardStarted seen track
  drawn : ∀ e ∈ st.2, (∃ ev ∈ seen, ev.pid = e.pid ∧ ev.IsSpan hasPrecisePhaseSpans) ∨
    (hasPrecisePhaseSpans = false ∧ ∃ tid, ForwardStarted seen (e.pid, tid))

/-- A turn keeps the tracks within those seen. -/
theorem SeenTracks.step {seen : List WorkerEvent} {st : WorkerIntervals × List TrackEvent}
    (h : SeenTracks hasPrecisePhaseSpans seen st) (ev : WorkerEvent) :
    SeenTracks hasPrecisePhaseSpans (seen ++ [ev])
      (workerTrackTurn hasPrecisePhaseSpans st ev) where
  preStart := by
    intro hx track hsome
    subst hx
    dsimp only [workerTrackTurn] at hsome
    rw [preStart_workerEvent] at hsome
    split at hsome
    · next hpre => exact ⟨ev, by simp, hpre⟩
    · obtain ⟨pre, hmem, hpre⟩ := h.preStart rfl track hsome
      exact ⟨pre, List.mem_append_left _ hmem, hpre⟩
  fwdStart := by
    intro hx track hsome
    subst hx
    obtain hold | ⟨hfwd, htrack, hpre⟩ := isSome_fwdStart_workerEvent hsome
    · exact forwardStarted_concat (h.fwdStart rfl track hold)
    · obtain ⟨pre, hmem, htype, hpre⟩ := h.preStart rfl track hpre
      exact ⟨pre, ev, (List.singleton_sublist.mpr hmem).append (List.Sublist.refl [ev]), htype,
        hfwd, hpre, htrack⟩
  drawn := by
    intro e he
    obtain hold | hnew := List.mem_append.mp he
    · obtain ⟨ev', hmem, hspan⟩ | ⟨hno, tid, hstarted⟩ := h.drawn e hold
      · exact .inl ⟨ev', List.mem_append_left _ hmem, hspan⟩
      · exact .inr ⟨hno, tid, forwardStarted_concat hstarted⟩
    · obtain ⟨s, hs, rfl⟩ := List.mem_map.mp hnew
      -- a new slice is a span of the event, or comes from the state machine
      have hdraws := isSome_workerSlice.mp (Option.isSome_of_mem (Option.mem_toList.mp hs))
      obtain hspan | ⟨hno, -, ⟨hfwd, hpre⟩ | ⟨hend, hstarted⟩⟩ := hdraws
      · exact .inl ⟨ev, by simp, rfl, hspan⟩
      · obtain ⟨pre, hmem, htype, hpre⟩ := h.preStart hno _ hpre
        exact .inr ⟨hno, ev.tid, pre, ev,
          (List.singleton_sublist.mpr hmem).append (List.Sublist.refl [ev]), htype, hfwd, hpre, rfl⟩
      · exact .inr ⟨hno, ev.tid, forwardStarted_concat (h.fwdStart hno _ hstarted)⟩

/-- All turns keep the tracks within those seen. -/
theorem seenTracks_foldl (events : List WorkerEvent) :
    SeenTracks hasPrecisePhaseSpans events
      (events.foldl (workerTrackTurn hasPrecisePhaseSpans) ({}, [])) := by
  induction events using List.reverseRecOn with
  | nil =>
    refine ⟨fun _ track h => ?_, fun _ track h => ?_, fun e he => absurd he List.not_mem_nil⟩
    · exact absurd h Bool.false_ne_true
    · exact absurd h Bool.false_ne_true
  | append_singleton seen ev ih =>
    rw [List.foldl_append]
    exact ih.step ev

/-- What is drawn stays. -/
theorem foldl_workerTrackTurn_keeps (events : List WorkerEvent)
    (st : WorkerIntervals × List TrackEvent) :
    st.2 <+: (events.foldl (workerTrackTurn hasPrecisePhaseSpans) st).2 := by
  induction events generalizing st with
  | nil => exact List.prefix_rfl
  | cons ev rest ih =>
    have hturn : st.2 <+: (workerTrackTurn hasPrecisePhaseSpans st ev).2 := List.prefix_append _ _
    exact hturn.trans (ih _)

/-- An event that draws at its turn has drawn at the end. -/
theorem exists_mem_of_draws {before after : List WorkerEvent} {ev : WorkerEvent}
    (h : (workerSlice hasPrecisePhaseSpans
      (before.foldl (workerTrackTurn hasPrecisePhaseSpans) ({}, [])).1 ev).isSome) :
    ∃ e ∈ ((before ++ ev :: after).foldl (workerTrackTurn hasPrecisePhaseSpans) ({}, [])).2,
      e.pid = ev.pid := by
  obtain ⟨s, hs⟩ := Option.isSome_iff_exists.mp h
  refine ⟨.slice ev.pid s, ?_, rfl⟩
  rw [List.foldl_append, List.foldl_cons]
  refine (foldl_workerTrackTurn_keeps after _).subset (List.mem_append_right _ ?_)
  exact List.mem_map_of_mem (Option.mem_toList.mpr hs)

/-- A preprocessing that has started is remembered. -/
theorem isSome_preStart_foldl {events : List WorkerEvent} {pre : WorkerEvent}
    (hts : ∀ ev ∈ events, ev.ts.isSome) (hmem : pre ∈ events)
    (htype : pre.type = .workerPreprocessStart) :
    ((events.foldl (workerTrackTurn false) ({}, [])).1.preStart pre.track).isSome := by
  induction events using List.reverseRecOn with
  | nil => cases hmem
  | append_singleton seen ev ih =>
    rw [List.foldl_append, List.foldl_cons, List.foldl_nil]
    dsimp only [workerTrackTurn]
    rw [preStart_workerEvent]
    split
    · exact hts ev (by simp)
    · -- the last event is not one of the track's starts, so the start was noted before
      next hother =>
      obtain hmem | hmem := List.mem_append.mp hmem
      · exact ih (fun ev' h' => hts ev' (List.mem_append_left _ h')) hmem
      · cases List.mem_singleton.mp hmem
        exact absurd ⟨htype, rfl⟩ hother

end Run

/-- Sorting two or more events needs the times of all of them. -/
theorem isSome_ts_of_sortWorkerEvents {events sorted : List WorkerEvent}
    (h : sortWorkerEvents events = .ok sorted) (hlen : 2 ≤ sorted.length) :
    ∀ ev ∈ sorted, ev.ts.isSome := by
  unfold sortWorkerEvents at h
  split at h
  · cases h
  · next hnone =>
    cases h
    intro ev hev
    rw [List.mem_sortBy] at hev
    rw [(List.sortBy_perm _ events).length_eq] at hlen
    -- with two events or more the sort compares times, and a missing one raises
    by_contra hts
    exact hnone ⟨hlen, ev, hev, Option.not_isSome_iff_eq_none.mp hts⟩

/-- The processes that the worker loop draws in. -/
theorem exists_mem_workerTrack {events sorted : List WorkerEvent}
    (hsort : sortWorkerEvents events = .ok sorted) {pid : Option ℤ} :
    (∃ e ∈ workerTrack sorted, e.pid = pid) ↔ DrawsIn sorted pid := by
  constructor
  · intro h
    obtain ⟨e, he, rfl⟩ := h
    exact (seenTracks_foldl sorted).drawn e he
  · intro h
    obtain ⟨ev, hmem, rfl, hspan⟩ | ⟨hno, tid, pre, fwd, hsub, hpre, hfwd, htrack, htrack'⟩ := h
    · obtain ⟨before, after, hsplit⟩ := List.append_of_mem hmem
      unfold workerTrack
      dsimp only
      generalize (sorted.any fun ev => ev.type = .gpuPhaseSpan) = precise at hspan ⊢
      rw [hsplit]
      exact exists_mem_of_draws (isSome_workerSlice.mpr (.inl hspan))
    · have hts := isSome_ts_of_sortWorkerEvents hsort hsub.length_le
      have hpid : fwd.pid = pid := congrArg Prod.fst htrack'
      unfold workerTrack
      dsimp only
      rw [hno, ← hpid]
      -- the forward pass comes after the preprocessing
      obtain ⟨before, rest, hsplit, hmem, hrest⟩ := List.cons_sublist_iff.mp hsub
      obtain ⟨between, after, rfl⟩ := List.append_of_mem (List.singleton_sublist.mp hrest)
      rw [hsplit, ← List.append_assoc] at hts ⊢
      refine exists_mem_of_draws (isSome_workerSlice.mpr (.inr ⟨rfl, hts fwd (by simp), ?_⟩))
      have hstart := isSome_preStart_foldl (fun ev hev => hts ev (List.mem_append_left _ hev))
        (List.mem_append_left between hmem) hpre
      rw [htrack, ← htrack'] at hstart
      exact .inl ⟨hfwd, hstart⟩

/-! ## The slices -/

def TrackEvent.slice? : TrackEvent → Option Slice
  | .slice _ s => some s
  | .flow _ => none

/-- The slices on the tracks are those that the loop draws. -/
theorem slices_workerTrack (events : List WorkerEvent) :
    (workerTrack events).filterMap TrackEvent.slice? = workerSlices events := by
  -- the two loops go through the same states
  have hrun : ∀ (precise : Bool) (w : WorkerIntervals) (drawn : List TrackEvent),
      ((events.foldl (workerTrackTurn precise) (w, drawn)).2).filterMap TrackEvent.slice? =
        (events.foldl (workerTurn precise) (w, drawn.filterMap TrackEvent.slice?)).2 := by
    intro precise
    induction events with
    | nil => exact fun _ _ => rfl
    | cons ev rest ih =>
      intro w drawn
      have hnew : ((workerSlice precise w ev).toList.map (TrackEvent.slice ev.pid)).filterMap
          TrackEvent.slice? = (workerSlice precise w ev).toList := by
        rw [List.filterMap_map]
        exact List.filterMap_some
      rw [List.foldl_cons, List.foldl_cons, workerTrackTurn, workerTurn, ih,
        List.filterMap_append, hnew]
  exact hrun _ {} []

end DeLatency
