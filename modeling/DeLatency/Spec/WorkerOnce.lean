import DeLatency.ForStd.ListExtra
import DeLatency.Spec.WorkerTracks

/-!
# Steps drawn by the worker state machine

In a log without `gpu_phase_span` events the slices of a step come from a state
machine for each track.  A preprocessing start opens a step, a forward start draws
the preprocessing and a forward end the forward pass.  None of the times is
forgotten when it is used, so a second forward start of an open step draws its
preprocessing again, and a second forward end its forward pass
(`drawnOnce_iff`).  Only a new preprocessing start resets the track.  The slices that are
counted, each with the event that draws it, are those of the converter (`map_snd_drawnSlices`).
-/

namespace DeLatency

/-! ## The events and slices of a track -/

/-- An event of the state machine. -/
def WorkerEvent.IsMachine (ev : WorkerEvent) : Prop :=
  ev.type = .workerPreprocessStart ∨ ev.type = .gpuForwardStart ∨ ev.type = .gpuForwardEnd

instance (ev : WorkerEvent) : Decidable ev.IsMachine := inferInstanceAs (Decidable (_ ∨ _))

/-- The state-machine events of a track. -/
def machineEvents (events : List WorkerEvent) (track : Option ℤ × Option ℤ) : List WorkerEvent :=
  events.filter fun ev => ev.IsMachine ∧ ev.track = track

/-- One turn of the worker loop; what it draws is kept with its event. -/
def drawnTurn (hasPrecisePhaseSpans : Bool) (st : WorkerIntervals × List (WorkerEvent × Slice))
    (ev : WorkerEvent) : WorkerIntervals × List (WorkerEvent × Slice) :=
  (workerEvent hasPrecisePhaseSpans st.1 ev,
    st.2 ++ (workerSlice hasPrecisePhaseSpans st.1 ev).toList.map fun s => (ev, s))

/-- The slices of the worker loop with the events that draw them. -/
def drawnSlices (events : List WorkerEvent) : List (WorkerEvent × Slice) :=
  let hasPrecisePhaseSpans := events.any fun ev => ev.type = .gpuPhaseSpan
  (events.foldl (drawnTurn hasPrecisePhaseSpans) ({}, [])).2

/-- The slices that the state machine draws on a track. -/
def machineSlices (events : List WorkerEvent) (track : Option ℤ × Option ℤ) : List Slice :=
  ((drawnSlices events).filter fun d => d.1.IsMachine ∧ d.1.track = track).map Prod.snd

/-- The interval of a slice. -/
def Slice.span (s : Slice) : ℤ × ℤ := (s.tsNs, s.tsNs + s.durNs)

/-- The events have times, in order. -/
structure MachineTimes (events : List WorkerEvent) : Prop where
  times : ∀ ev ∈ events, ev.ts.isSome
  increasing : events.Pairwise fun ev ev' => ev.ts.getD 0 < ev'.ts.getD 0

/-- Slices of one name that begin at an event. -/
def countAt (slices : List Slice) (name : String) (ev : WorkerEvent) : ℕ :=
  slices.countP fun s => s.name = name ∧ ev.ts = some s.tsNs

/-- Each step of a track is drawn once, and no two slices of the track overlap. -/
structure DrawnOnce (events : List WorkerEvent) (track : Option ℤ × Option ℤ) : Prop where
  preprocess : ∀ ev ∈ machineEvents events track, ev.type = .workerPreprocessStart →
    countAt (machineSlices events track) "Worker Preprocess" ev ≤ 1
  forward : ∀ ev ∈ machineEvents events track, ev.type = .gpuForwardStart →
    countAt (machineSlices events track) "Model Forward" ev ≤ 1
  apart : (machineSlices events track).Pairwise fun s s' => ¬Intervals.Meets s.span s'.span

/-- Between a preprocessing start and the next there are two forward starts, or a
    forward start and two forward ends after it. -/
def RepeatedStep (events : List WorkerEvent) : Prop :=
  ∃ before pre mid after, events = before ++ pre :: mid ++ after ∧
    pre.type = .workerPreprocessStart ∧ (∀ ev ∈ mid, ev.type ≠ .workerPreprocessStart) ∧
    ([.gpuForwardStart, .gpuForwardStart].Sublist (mid.map (·.type)) ∨
      [.gpuForwardStart, .gpuForwardEnd, .gpuForwardEnd].Sublist (mid.map (·.type)))

/-! ## The marks of a track -/

/-- The times that the state of a track holds. -/
structure Marks where
  pre : Option ℤ := none
  fwd : Option ℤ := none
  fin : Option ℤ := none

/-- What an event of the track does to its times. -/
def Marks.step (m : Marks) (ev : WorkerEvent) : Marks :=
  match ev.type with
  | .workerPreprocessStart => { pre := ev.ts }
  | .gpuForwardStart => if m.pre.isSome then { m with fwd := ev.ts } else m
  | .gpuForwardEnd => if m.fwd.isSome then { m with fin := ev.ts } else m
  | _ => m

/-- What an event of the track draws. -/
def Marks.slice (m : Marks) (ev : WorkerEvent) : Option Slice :=
  match ev.type with
  | .gpuForwardStart => m.pre.bind fun t1 => ev.ts.map fun ts =>
      { name := "Worker Preprocess", cat := "python", tsNs := t1,
        durNs := max 0 (ts - t1 - 1000) }
  | .gpuForwardEnd => m.fwd.bind fun t2 => ev.ts.map fun ts =>
      { name := "Model Forward", cat := "python", tsNs := t2, durNs := max 0 (ts - t2) }
  | _ => none

/-- One turn on a track. -/
def Marks.turn (st : Marks × List Slice) (ev : WorkerEvent) : Marks × List Slice :=
  (st.1.step ev, st.2 ++ (st.1.slice ev).toList)

/-- The state machine of one track, on its own events. -/
def trackRun (events : List WorkerEvent) : Marks × List Slice := events.foldl Marks.turn ({}, [])

/-- The times a track has in the state of the loop. -/
def WorkerIntervals.marks (w : WorkerIntervals) (track : Option ℤ × Option ℤ) : Marks where
  pre := (w.workerStates.get? track).bind (·.tPreStart)
  fwd := (w.workerStates.get? track).bind (·.tFwdStart)
  fin := (w.workerStates.get? track).bind (·.tFwdEnd)

section Turn

variable {w : WorkerIntervals} {ev : WorkerEvent} {track : Option ℤ × Option ℤ}

/-- Altering one track's state alters its marks alone. -/
theorem marks_alter (f : WorkerState → WorkerState) (key : Option ℤ × Option ℤ) :
    WorkerIntervals.marks { w with workerStates := w.workerStates.alter key {} f } track =
      if track = key then
        let state := f (w.workerStates.getD key {})
        { pre := state.tPreStart, fwd := state.tFwdStart, fin := state.tFwdEnd }
      else w.marks track := by
  unfold WorkerIntervals.marks
  simp only [Dict.get?_alter]
  split
  · rfl
  · rfl

/-- Events with an interval of their own leave the tracks alone. -/
private theorem marks_spanPhase (key : Option ℤ × Option ℤ) (name : String) :
    (workerEvent.spanPhase false ev key w name).marks track = w.marks track := by
  simp only [workerEvent.spanPhase, Bool.false_eq_true, if_false]
  split
  · rfl
  · rfl

/-- A turn leaves the other tracks alone. -/
theorem marks_workerEvent_of_ne (hno : ev.type ≠ .gpuPhaseSpan) (htrack : ev.track ≠ track) :
    (workerEvent false w ev).marks track = w.marks track := by
  -- the state of the event's track changes, and no other
  have halter : ∀ (w' : WorkerIntervals) f, w'.marks track = w.marks track →
      WorkerIntervals.marks { w' with
        workerStates := w'.workerStates.alter (ev.pid, ev.tid) {} f } track = w.marks track := by
    intro w' f hw'
    rw [marks_alter, if_neg fun h => htrack h.symm, hw']
  unfold workerEvent
  cases htype : ev.type with
  | gpuExecuteModel =>
    simp only
    split
    · rfl
    · rfl
  | gpuPhaseSpan => exact absurd htype hno
  | workerPreprocessStart => exact halter w _ rfl
  | gpuForwardStart =>
    simp only [Bool.false_eq_true, if_false]
    split
    · split
      · exact halter _ _ rfl
      · rfl
    · rfl
  | gpuForwardEnd =>
    simp only [Bool.false_eq_true, if_false]
    split
    · split
      · exact halter _ _ rfl
      · rfl
    · rfl
  -- sampling and bookkeeping do not look at the states
  | gpuSample => exact marks_spanPhase _ _
  | gpuBookkeeping => exact marks_spanPhase _ _

/-- A machine event is a turn of its own track. -/
theorem marks_workerEvent_of_isMachine (hm : ev.IsMachine) (hts : ev.ts.isSome) :
    (workerEvent false w ev).marks ev.track = (w.marks ev.track).step ev := by
  obtain ⟨ts, hts⟩ := Option.isSome_iff_exists.mp hts
  have hkey : ev.track = (ev.pid, ev.tid) := rfl
  unfold workerEvent Marks.step
  obtain htype | htype | htype := hm
  · simp only [htype, Bool.false_eq_true, if_false, marks_alter, hkey, if_true]
  · simp only [htype, Bool.false_eq_true, if_false, hts]
    -- a track without a state, or without a preprocessing, stays as it is
    cases hstate : w.workerStates.get? (ev.pid, ev.tid) with
    | none => simp [WorkerIntervals.marks, hkey, hstate]
    | some state =>
      cases hpre : state.tPreStart with
      | none => simp [WorkerIntervals.marks, hkey, hstate, hpre]
      | some t1 =>
        simp [WorkerIntervals.addPhase, WorkerIntervals.marks, Dict.get?_alter, Dict.getD, hkey,
          hstate, hpre]
  · simp only [htype, Bool.false_eq_true, if_false, hts]
    cases hstate : w.workerStates.get? (ev.pid, ev.tid) with
    | none => simp [WorkerIntervals.marks, hkey, hstate]
    | some state =>
      cases hfwd : state.tFwdStart with
      | none => simp [WorkerIntervals.marks, hkey, hstate, hfwd]
      | some t2 =>
        simp [WorkerIntervals.addPhase, WorkerIntervals.marks, Dict.get?_alter, Dict.getD, hkey,
          hstate, hfwd]

/-- Any other event leaves all tracks alone. -/
theorem marks_workerEvent_of_not_isMachine (hno : ev.type ≠ .gpuPhaseSpan) (hm : ¬ev.IsMachine) :
    (workerEvent false w ev).marks track = w.marks track := by
  unfold workerEvent
  cases htype : ev.type with
  | gpuExecuteModel =>
    simp only
    split
    · rfl
    · rfl
  | gpuPhaseSpan => exact absurd htype hno
  -- these three are the events of the machine
  | workerPreprocessStart => exact absurd (.inl htype) hm
  | gpuForwardStart => exact absurd (.inr (.inl htype)) hm
  | gpuForwardEnd => exact absurd (.inr (.inr htype)) hm
  | gpuSample => exact marks_spanPhase _ _
  | gpuBookkeeping => exact marks_spanPhase _ _

/-- What a machine event draws is what its track draws. -/
theorem workerSlice_eq (h : ev.IsMachine) :
    workerSlice false w ev = (w.marks ev.track).slice ev := by
  unfold workerSlice Marks.slice WorkerIntervals.marks WorkerEvent.track
  obtain htype | htype | htype := h
  · simp only [htype]
  · simp only [htype]
    cases (w.workerStates.get? (ev.pid, ev.tid)).bind (·.tPreStart) <;> cases ev.ts <;>
      simp [Option.filter_some]
  · simp only [htype]
    cases (w.workerStates.get? (ev.pid, ev.tid)).bind (·.tFwdStart) <;> cases ev.ts <;>
      simp [Option.filter_some]

end Turn

/-! ## The run of a track -/

/-- The slices are those of the worker loop. -/
theorem map_snd_drawnSlices (events : List WorkerEvent) :
    (drawnSlices events).map Prod.snd = workerSlices events := by
  -- for any state before, since the induction moves it
  have hrun : ∀ (precise : Bool) (w : WorkerIntervals) (drawn : List (WorkerEvent × Slice)),
      (events.foldl (drawnTurn precise) (w, drawn)).2.map Prod.snd =
        (events.foldl (workerTurn precise) (w, drawn.map Prod.snd)).2 := by
    intro precise
    induction events with
    | nil => exact fun _ _ => rfl
    | cons ev rest ih =>
      intro w drawn
      rw [List.foldl_cons, List.foldl_cons, drawnTurn, workerTurn, ih, List.map_append,
        List.map_map]
      simp [Function.comp_def]
  exact hrun _ {} []

/-- One more event of the track is one more turn. -/
theorem trackRun_concat (l : List WorkerEvent) (ev : WorkerEvent) :
    trackRun (l ++ [ev]) = Marks.turn (trackRun l) ev :=
  List.foldl_concat _ _ _ _

/-- On one track the loop is the state machine on the track's events. -/
private theorem drawnTurn_run {track : Option ℤ × Option ℤ} {events : List WorkerEvent}
    (hno : ∀ ev ∈ events, ev.type ≠ .gpuPhaseSpan)
    (hts : ∀ ev ∈ machineEvents events track, ev.ts.isSome) :
    (events.foldl (drawnTurn false) ({}, [])).1.marks track =
        (trackRun (machineEvents events track)).1 ∧
      ((events.foldl (drawnTurn false) ({}, [])).2.filter fun d =>
        d.1.IsMachine ∧ d.1.track = track).map Prod.snd =
        (trackRun (machineEvents events track)).2 := by
  induction events using List.reverseRecOn with
  | nil => exact ⟨rfl, rfl⟩
  | append_singleton seen ev ih =>
    have hsub : ∀ ev' ∈ machineEvents seen track, ev' ∈ machineEvents (seen ++ [ev]) track := by
      intro ev' h
      rw [machineEvents, List.filter_append]
      exact List.mem_append_left _ h
    obtain ⟨hmarks, hslices⟩ := ih (fun ev' h => hno ev' (List.mem_append_left _ h))
      fun ev' h => hts ev' (hsub ev' h)
    have hnoev := hno ev (by simp)
    rw [List.foldl_concat]
    generalize seen.foldl (drawnTurn false) ({}, []) = st at hmarks hslices ⊢
    unfold drawnTurn
    by_cases hown : ev.IsMachine ∧ ev.track = track
    · obtain ⟨hm, rfl⟩ := hown
      have hevents : machineEvents (seen ++ [ev]) ev.track =
          machineEvents seen ev.track ++ [ev] := by
        simp [machineEvents, hm]
      have hsome : ev.ts.isSome := hts ev (by rw [hevents]; simp)
      rw [hevents, trackRun_concat, Marks.turn, ← hmarks, ← hslices]
      refine ⟨marks_workerEvent_of_isMachine hm hsome, ?_⟩
      rw [workerSlice_eq hm, List.filter_append, List.map_append]
      show _ ++ _ = _ ++ ((st.1.marks ev.track).slice ev).toList
      cases (st.1.marks ev.track).slice ev with
      | none => rfl
      | some s => simp [hm]
    · have hevents : machineEvents (seen ++ [ev]) track = machineEvents seen track := by
        simp [machineEvents, hown]
      rw [hevents]
      constructor
      · rw [← hmarks]
        by_cases hm : ev.IsMachine
        · exact marks_workerEvent_of_ne hnoev fun h => hown ⟨hm, h⟩
        · exact marks_workerEvent_of_not_isMachine hnoev hm
      · -- the slice of another event is not one of this track
        have hnone : ∀ l : List Slice, (l.map fun s => (ev, s)).filter (fun d =>
            decide (d.1.IsMachine ∧ d.1.track = track)) = [] := by
          intro l
          rw [List.filter_eq_nil_iff]
          intro d hd
          obtain ⟨s, -, rfl⟩ := List.mem_map.mp hd
          simpa using fun h h' => hown ⟨h, h'⟩
        rw [List.filter_append, hnone, List.append_nil, hslices]

/-- The slices of a track are those that its own run draws. -/
theorem machineSlices_eq {track : Option ℤ × Option ℤ} {events : List WorkerEvent}
    (hno : ∀ ev ∈ events, ev.type ≠ .gpuPhaseSpan)
    (hts : ∀ ev ∈ machineEvents events track, ev.ts.isSome) :
    machineSlices events track = (trackRun (machineEvents events track)).2 := by
  have hprecise : (events.any fun ev => ev.type = .gpuPhaseSpan) = false := by
    rw [List.any_eq_false]
    intro ev hev h
    exact hno ev hev (of_decide_eq_true h)
  rw [machineSlices, drawnSlices, hprecise]
  exact (drawnTurn_run hno hts).2

/-! ## Stale turns -/

/-- The event records and draws what its step has recorded and drawn before. -/
def StaleTurn (m : Marks) (ev : WorkerEvent) : Prop :=
  (ev.type = .gpuForwardStart ∧ m.pre.isSome ∧ m.fwd.isSome) ∨
    (ev.type = .gpuForwardEnd ∧ m.fwd.isSome ∧ m.fin.isSome)

/-- Some turn of the run is stale. -/
def StaleRun (l : List WorkerEvent) : Prop :=
  ∃ before ev after, l = before ++ ev :: after ∧ StaleTurn (trackRun before).1 ev

/-- A run is stale when an earlier part or its last turn is. -/
theorem staleRun_concat {l : List WorkerEvent} {ev : WorkerEvent} :
    StaleRun (l ++ [ev]) ↔ StaleRun l ∨ StaleTurn (trackRun l).1 ev :=
  List.exists_split_concat

/-- Before the time `t`, or up to it. -/
structure EndsBefore (s : Slice) (t : ℤ) : Prop where
  start : s.tsNs < t
  finish : s.tsNs + s.durNs ≤ t

/-- What ends before a time ends before every later one. -/
theorem EndsBefore.mono {s : Slice} {t u : ℤ} (h : EndsBefore s t) (hle : t ≤ u) :
    EndsBefore s u := ⟨h.start.trans_le hle, h.finish.trans hle⟩

/-- What holds after the events of a track as long as no turn is stale: the slices
    follow one another, a time that is not drawn yet is after all of them, and one
    that is drawn has its slice. -/
structure OnceInv (l : List WorkerEvent) (st : Marks × List Slice) : Prop where
  order : st.2.Pairwise fun s s' => EndsBefore s s'.tsNs
  ends : ∀ t, (∀ ev ∈ l, ev.ts.getD 0 < t) → ∀ s ∈ st.2, EndsBefore s t
  pre : ∀ t1, st.1.pre = some t1 →
    (∃ ev ∈ l, ev.type = .workerPreprocessStart ∧ ev.ts = some t1) ∧
      (st.1.fwd = none → ∀ s ∈ st.2, EndsBefore s t1)
  fwd : ∀ t2, st.1.fwd = some t2 →
    (∃ ev ∈ l, ev.type = .gpuForwardStart ∧ ev.ts = some t2) ∧
      (∃ s ∈ st.2, s.name = "Worker Preprocess" ∧ st.1.pre = some s.tsNs) ∧
      (st.1.fin = none → ∀ s ∈ st.2, EndsBefore s t2)
  fin : st.1.fin.isSome → ∃ s ∈ st.2, s.name = "Model Forward" ∧ st.1.fwd = some s.tsNs

section Step

variable {l : List WorkerEvent} {st : Marks × List Slice} {ev : WorkerEvent} {t : ℤ}

/-- An event of a prefix is one of the whole. -/
private theorem exists_mem_concat {p : WorkerEvent → Prop} (h : ∃ ev' ∈ l, p ev') :
    ∃ ev' ∈ l ++ [ev], p ev' := by
  obtain ⟨ev', hev', hp⟩ := h
  exact ⟨ev', List.mem_append_left _ hev', hp⟩

/-- A time after the events and the new one is after the slices so far. -/
private theorem OnceInv.ends_concat (h : OnceInv l st) {u : ℤ}
    (hu : ∀ ev' ∈ l ++ [ev], ev'.ts.getD 0 < u) : ∀ s ∈ st.2, EndsBefore s u :=
  h.ends u fun ev' hev' => hu ev' (List.mem_append_left _ hev')

/-- What comes after all events comes after the last. -/
private theorem lt_of_concat (hts : ev.ts = some t) {u : ℤ}
    (hu : ∀ ev' ∈ l ++ [ev], ev'.ts.getD 0 < u) : t < u := by
  have := hu ev (by simp)
  rwa [hts, Option.getD_some] at this

/-- An event that changes nothing. -/
private theorem OnceInv.same (h : OnceInv l st) : OnceInv (l ++ [ev]) st where
  order := h.order
  ends _ hu := h.ends_concat hu
  pre t1 h1 := ⟨exists_mem_concat (h.pre t1 h1).1, (h.pre t1 h1).2⟩
  fwd t2 h2 := ⟨exists_mem_concat (h.fwd t2 h2).1, (h.fwd t2 h2).2⟩
  fin := h.fin

/-- A preprocessing start opens a step after everything drawn so far. -/
private theorem OnceInv.preprocessStart (h : OnceInv l st) (hts : ev.ts = some t)
    (hlt : ∀ ev' ∈ l, ev'.ts.getD 0 < t) (htype : ev.type = .workerPreprocessStart) :
    OnceInv (l ++ [ev]) ({ pre := some t }, st.2) where
  order := h.order
  ends _ hu := h.ends_concat hu
  pre t1 h1 := by
    cases h1
    exact ⟨⟨ev, by simp, htype, hts⟩, fun _ => h.ends t hlt⟩
  fwd t2 h2 := by cases h2
  fin h3 := by cases h3

/-- The first forward start of a step draws the preprocessing. -/
private theorem OnceInv.forwardStart (h : OnceInv l st) (hts : ev.ts = some t)
    (hlt : ∀ ev' ∈ l, ev'.ts.getD 0 < t) (htype : ev.type = .gpuForwardStart) {t1 : ℤ}
    (hpre : st.1.pre = some t1) (hfwd : st.1.fwd = none) {s : Slice}
    (hname : s.name = "Worker Preprocess") (hstart : s.tsNs = t1)
    (hdur : s.durNs = max 0 (t - t1 - 1000)) :
    OnceInv (l ++ [ev]) ({ st.1 with fwd := some t }, st.2 ++ [s]) := by
  obtain ⟨⟨pre, hmem, hptype, hpts⟩, hopen⟩ := h.pre t1 hpre
  have hearlier : ∀ s' ∈ st.2, EndsBefore s' t1 := hopen hfwd
  -- the new slice starts at the preprocessing start and ends before the forward start
  have ht1 : t1 < t := by
    have := hlt pre hmem
    rwa [hpts, Option.getD_some] at this
  have hs : EndsBefore s t := ⟨by omega, by omega⟩
  have hall : ∀ s' ∈ st.2 ++ [s], EndsBefore s' t := by
    intro s' hs'
    obtain hs' | hs' := List.mem_append.mp hs'
    · exact h.ends t hlt s' hs'
    · rw [List.mem_singleton.mp hs']; exact hs
  refine ⟨?_, fun u hu s' hs' => (hall s' hs').mono (lt_of_concat hts hu).le, ?_, ?_, ?_⟩
  · rw [List.pairwise_append]
    refine ⟨h.order, List.pairwise_singleton _ _, fun s' hs' s'' hs'' => ?_⟩
    rw [List.mem_singleton.mp hs'', hstart]
    exact hearlier s' hs'
  · intro t1' h1
    exact ⟨exists_mem_concat (h.pre t1' h1).1, fun hnone => by cases hnone⟩
  · intro t2 h2
    cases h2
    exact ⟨⟨ev, by simp, htype, hts⟩, ⟨s, by simp, hname, hstart ▸ hpre⟩, fun _ => hall⟩
  · -- a forward end of this step would need its forward start
    intro hfin
    obtain ⟨s', -, -, hfwd'⟩ := h.fin hfin
    rw [hfwd] at hfwd'
    cases hfwd'

/-- The first forward end of a forward start draws the forward pass. -/
private theorem OnceInv.forwardEnd (h : OnceInv l st) (hts : ev.ts = some t)
    (hlt : ∀ ev' ∈ l, ev'.ts.getD 0 < t) {t2 : ℤ} (hfwd : st.1.fwd = some t2)
    (hfin : st.1.fin = none) {s : Slice} (hname : s.name = "Model Forward")
    (hstart : s.tsNs = t2) (hdur : s.durNs = max 0 (t - t2)) :
    OnceInv (l ++ [ev]) ({ st.1 with fin := some t }, st.2 ++ [s]) := by
  obtain ⟨⟨fwd, hmem, hftype, hfts⟩, ⟨sp, hsp, hspname, hsppre⟩, hopen⟩ := h.fwd t2 hfwd
  -- the forward pass was open, so that nothing drawn so far reaches into it
  have hearlier : ∀ s' ∈ st.2, EndsBefore s' t2 := hopen hfin
  have ht2 : t2 < t := by
    have := hlt fwd hmem
    rwa [hfts, Option.getD_some] at this
  have hs : EndsBefore s t := ⟨by omega, by omega⟩
  refine ⟨?_, fun u hu s' hs' => ?_, ?_, ?_, ?_⟩
  · rw [List.pairwise_append]
    refine ⟨h.order, List.pairwise_singleton _ _, fun s' hs' s'' hs'' => ?_⟩
    rw [List.mem_singleton.mp hs'', hstart]
    exact hearlier s' hs'
  · obtain hs' | hs' := List.mem_append.mp hs'
    · exact h.ends_concat hu s' hs'
    · rw [List.mem_singleton.mp hs']
      exact hs.mono (lt_of_concat hts hu).le
  · intro t1 h1
    refine ⟨exists_mem_concat (h.pre t1 h1).1, fun hnone => ?_⟩
    rw [show st.1.fwd = none from hnone] at hfwd
    cases hfwd
  · intro t2' h2
    refine ⟨exists_mem_concat (h.fwd t2' h2).1, ⟨sp, by simp [hsp], hspname, hsppre⟩, ?_⟩
    intro hnone
    cases hnone
  · intro _
    exact ⟨s, by simp, hname, hstart ▸ hfwd⟩

/-- A turn that is not stale keeps the invariant. -/
theorem OnceInv.step (h : OnceInv l st) (hts : ev.ts = some t)
    (hlt : ∀ ev' ∈ l, ev'.ts.getD 0 < t) (hfresh : ¬StaleTurn st.1 ev) :
    OnceInv (l ++ [ev]) (Marks.turn st ev) := by
  unfold Marks.turn Marks.step Marks.slice
  cases htype : ev.type with
  | workerPreprocessStart =>
    simp only [hts, Option.toList_none, List.append_nil]
    exact h.preprocessStart hts hlt htype
  | gpuForwardStart =>
    cases hpre : st.1.pre with
    | none => simpa [hpre] using h.same
    | some t1 =>
      -- a forward start after another one would draw the preprocessing again
      have hfwd : st.1.fwd = none := by
        by_contra hne
        exact hfresh (.inl ⟨htype, by simp [hpre], Option.isSome_iff_ne_none.mpr hne⟩)
      simp only [Option.isSome_some, if_true, hts, Option.bind_some, Option.map_some,
        Option.toList_some]
      rw [← hpre]
      refine h.forwardStart hts hlt htype hpre hfwd ?_ ?_ ?_
      · rfl
      · rfl
      · rfl
  | gpuForwardEnd =>
    cases hfwd : st.1.fwd with
    | none => simpa [hfwd] using h.same
    | some t2 =>
      -- and so would a forward end after another one
      have hfin : st.1.fin = none := by
        by_contra hne
        exact hfresh (.inr ⟨htype, by simp [hfwd], Option.isSome_iff_ne_none.mpr hne⟩)
      simp only [Option.isSome_some, if_true, hts, Option.bind_some, Option.map_some,
        Option.toList_some]
      rw [← hfwd]
      refine h.forwardEnd hts hlt hfwd hfin ?_ ?_ ?_
      · rfl
      · rfl
      · rfl
  | gpuSample => simpa using h.same
  | gpuBookkeeping => simpa using h.same
  | gpuExecuteModel => simpa using h.same
  | gpuPhaseSpan => simpa using h.same

end Step

/-- As long as no turn is stale, the invariant holds. -/
theorem onceInv_trackRun {l : List WorkerEvent} (ht : MachineTimes l) (hfresh : ¬StaleRun l) :
    OnceInv l (trackRun l) := by
  induction l using List.reverseRecOn with
  | nil => exact ⟨List.Pairwise.nil, by simp [trackRun], by simp [trackRun], by simp [trackRun],
      by simp [trackRun]⟩
  | append_singleton l ev ih =>
    rw [staleRun_concat, not_or] at hfresh
    have hpair := List.pairwise_append.mp ht.increasing
    obtain ⟨t, hts⟩ := Option.isSome_iff_exists.mp (ht.times ev (by simp))
    have hl : MachineTimes l := ⟨fun ev' h => ht.times ev' (List.mem_append_left _ h), hpair.1⟩
    rw [trackRun_concat]
    -- the new event is later than all before it
    refine (ih hl hfresh.1).step hts (fun ev' h => ?_) hfresh.2
    have := hpair.2.2 ev' h ev (by simp)
    rwa [hts, Option.getD_some] at this

/-! ## Slices drawn twice -/

/-- One more slice counts when it has the name and the start. -/
theorem countAt_concat (slices : List Slice) (s : Slice) (name : String) (ev : WorkerEvent) :
    countAt (slices ++ [s]) name ev =
      countAt slices name ev + if s.name = name ∧ ev.ts = some s.tsNs then 1 else 0 := by
  rw [countAt, List.countP_append, List.countP_singleton]
  simp only [decide_eq_true_eq]
  rfl

/-- More slices count no less. -/
theorem countAt_le_concat (slices new : List Slice) (name : String) (ev : WorkerEvent) :
    countAt slices name ev ≤ countAt (slices ++ new) name ev :=
  (List.sublist_append_left slices new).countP_le

/-- Slices in order begin at different times. -/
theorem countAt_le_one {slices : List Slice}
    (h : slices.Pairwise fun s s' => EndsBefore s s'.tsNs) (name : String) (ev : WorkerEvent) :
    countAt slices name ev ≤ 1 := by
  apply h.countP_le_one
  intro s s' hbefore hs hs'
  rw [decide_eq_true_eq] at hs hs'
  have heq : s.tsNs = s'.tsNs := Option.some.inj (hs.2.symm.trans hs'.2)
  exact absurd hbefore.start (by omega)

/-- A slice does not meet one that starts after its end. -/
theorem not_meets_of_endsBefore {s s' : Slice} (h : EndsBefore s s'.tsNs) :
    ¬Intervals.Meets s.span s'.span := by
  have hfinish := h.finish
  show ¬max s.tsNs s'.tsNs < min (s.tsNs + s.durNs) (s'.tsNs + s'.durNs)
  omega

/-- A stale turn draws a slice of its step again. -/
theorem drawnTwice_of_staleRun {l : List WorkerEvent} (ht : MachineTimes l) (h : StaleRun l) :
    ∃ ev ∈ l, (ev.type = .workerPreprocessStart ∧
        2 ≤ countAt (trackRun l).2 "Worker Preprocess" ev) ∨
      (ev.type = .gpuForwardStart ∧ 2 ≤ countAt (trackRun l).2 "Model Forward" ev) := by
  induction l using List.reverseRecOn with
  | nil =>
    obtain ⟨before, ev, after, heq, -⟩ := h
    simp at heq
  | append_singleton l ev ih =>
    have hpair := List.pairwise_append.mp ht.increasing
    have hl : MachineTimes l := ⟨fun ev' h => ht.times ev' (List.mem_append_left _ h), hpair.1⟩
    rw [trackRun_concat]
    by_cases hstale : StaleRun l
    · -- what was drawn twice before is still there
      obtain ⟨ev', hmem, htwice⟩ := ih hl hstale
      refine ⟨ev', List.mem_append_left _ hmem, ?_⟩
      cases htwice with
      | inl h2 => exact .inl ⟨h2.1, h2.2.trans (countAt_le_concat _ _ _ _)⟩
      | inr h2 => exact .inr ⟨h2.1, h2.2.trans (countAt_le_concat _ _ _ _)⟩
    · have hinv := onceInv_trackRun hl hstale
      obtain ⟨t, hts⟩ := Option.isSome_iff_exists.mp (ht.times ev (by simp))
      obtain ⟨htype, hpre, hfwd⟩ | ⟨htype, hfwd, hfin⟩ :=
        (staleRun_concat.mp h).resolve_left hstale
      · -- the preprocessing of this step has its slice already
        obtain ⟨t1, h1⟩ := Option.isSome_iff_exists.mp hpre
        obtain ⟨t2, h2⟩ := Option.isSome_iff_exists.mp hfwd
        obtain ⟨⟨p, hp, hptype, hpts⟩, -⟩ := hinv.pre t1 h1
        obtain ⟨-, ⟨s, hs, hname, hstart⟩, -⟩ := hinv.fwd t2 h2
        refine ⟨p, List.mem_append_left _ hp, .inl ⟨hptype, ?_⟩⟩
        have hone : 0 < countAt (trackRun l).2 "Worker Preprocess" p :=
          List.countP_pos_iff.mpr ⟨s, hs, by simp [hname, hpts, ← h1, hstart]⟩
        unfold Marks.turn Marks.slice
        simp only [htype, h1, hts, Option.bind_some, Option.map_some, Option.toList_some]
        rw [countAt_concat, if_pos ⟨rfl, hpts⟩]
        omega
      · -- and here the forward pass
        obtain ⟨t2, h2⟩ := Option.isSome_iff_exists.mp hfwd
        obtain ⟨⟨f, hf, hftype, hfts⟩, -⟩ := hinv.fwd t2 h2
        obtain ⟨s, hs, hname, hstart⟩ := hinv.fin hfin
        refine ⟨f, List.mem_append_left _ hf, .inr ⟨hftype, ?_⟩⟩
        have hone : 0 < countAt (trackRun l).2 "Model Forward" f :=
          List.countP_pos_iff.mpr ⟨s, hs, by simp [hname, hfts, ← h2, hstart]⟩
        unfold Marks.turn Marks.slice
        simp only [htype, h2, hts, Option.bind_some, Option.map_some, Option.toList_some]
        rw [countAt_concat, if_pos ⟨rfl, hfts⟩]
        omega

/-! ## Stale turns and repeated steps -/

/-- The marks do not depend on what is drawn. -/
theorem trackRun_fst (l : List WorkerEvent) : (trackRun l).1 = l.foldl Marks.step {} := by
  induction l using List.reverseRecOn with
  | nil => rfl
  | append_singleton l ev ih => rw [trackRun_concat, List.foldl_concat, ← ih]; rfl

/-- Without a preprocessing start a track holds no time. -/
theorem marks_of_no_start {l : List WorkerEvent}
    (h : ∀ ev ∈ l, ev.type ≠ .workerPreprocessStart) : l.foldl Marks.step {} = {} := by
  induction l with
  | nil => rfl
  | cons ev rest ih =>
    rw [List.forall_mem_cons] at h
    -- without a start nothing is marked
    have hstep : Marks.step {} ev = {} := by
      unfold Marks.step
      cases htype : ev.type with
      | workerPreprocessStart => exact absurd htype h.1
      | _ => rfl
    rw [List.foldl_cons, hstep, ih h.2]

/-- The times of a step, from the events since its preprocessing start. -/
theorem marks_of_stretch {mid : List WorkerEvent} (t1 : ℤ) (hts : ∀ ev ∈ mid, ev.ts.isSome)
    (hmid : ∀ ev ∈ mid, ev.type ≠ .workerPreprocessStart) :
    let m := mid.foldl Marks.step { pre := some t1 }
    m.pre = some t1 ∧
      (m.fwd.isSome ↔ [.gpuForwardStart].Sublist (mid.map (·.type))) ∧
      (m.fin.isSome ↔ [.gpuForwardStart, .gpuForwardEnd].Sublist (mid.map (·.type))) := by
  induction mid using List.reverseRecOn with
  | nil => simp
  | append_singleton mid ev ih =>
    obtain ⟨hpre, hfwd, hfin⟩ := ih (fun ev' h => hts ev' (List.mem_append_left _ h))
      fun ev' h => hmid ev' (List.mem_append_left _ h)
    have hsome : ev.ts.isSome := hts ev (by simp)
    have hne := hmid ev (by simp)
    -- the last event may be the one that completes the pattern
    have hfwd' := List.concat_sublist_concat_iff [] WorkerEventType.gpuForwardStart
      (mid.map (·.type)) ev.type
    have hfin' := List.concat_sublist_concat_iff [WorkerEventType.gpuForwardStart]
      .gpuForwardEnd (mid.map (·.type)) ev.type
    simp only [List.nil_append, List.singleton_append, List.nil_sublist, and_true] at hfwd' hfin'
    simp only [List.foldl_concat, List.map_append, List.map_singleton, hfwd', hfin', ← hfwd, ← hfin]
    generalize mid.foldl Marks.step { pre := some t1 } = m at hpre hfwd hfin ⊢
    unfold Marks.step
    cases htype : ev.type with
    | workerPreprocessStart => exact absurd htype hne
    | gpuForwardStart => simp [hpre, hsome]
    | gpuForwardEnd => by_cases h : m.fwd.isSome <;> simp [hpre, hsome, h]
    | _ => simp [hpre]

/-- The times of a track after its last preprocessing start. -/
theorem trackRun_stretch {before mid : List WorkerEvent} {pre : WorkerEvent}
    (hts : ∀ ev ∈ before ++ pre :: mid, ev.ts.isSome) (hpre : pre.type = .workerPreprocessStart)
    (hmid : ∀ ev ∈ mid, ev.type ≠ .workerPreprocessStart) :
    (trackRun (before ++ pre :: mid)).1.pre.isSome ∧
      ((trackRun (before ++ pre :: mid)).1.fwd.isSome ↔
        [.gpuForwardStart].Sublist (mid.map (·.type))) ∧
      ((trackRun (before ++ pre :: mid)).1.fin.isSome ↔
        [.gpuForwardStart, .gpuForwardEnd].Sublist (mid.map (·.type))) := by
  obtain ⟨t1, h1⟩ := Option.isSome_iff_exists.mp (hts pre (by simp))
  -- a preprocess start forgets what was marked before
  have hstep : ∀ m : Marks, m.step pre = { pre := some t1 } := by
    intro m
    simp only [Marks.step, hpre, h1]
  obtain ⟨hset, hfwd, hfin⟩ := marks_of_stretch t1 (fun ev h => hts ev (by simp [h])) hmid
  rw [trackRun_fst, List.foldl_append, List.foldl_cons, hstep]
  exact ⟨by rw [hset]; rfl, hfwd, hfin⟩

/-- A stale event completes the pattern of the events since the last preprocessing start. -/
theorem repeatedStep_of_staleRun {l : List WorkerEvent} (hts : ∀ ev ∈ l, ev.ts.isSome)
    (h : StaleRun l) : RepeatedStep l := by
  obtain ⟨before, ev, after, rfl, hstale⟩ := h
  -- without a preprocess start nothing would be marked
  have hsome : ∃ p ∈ before, p.type = .workerPreprocessStart := by
    by_contra hnone
    push Not at hnone
    rw [trackRun_fst, marks_of_no_start hnone] at hstale
    simp [StaleTurn] at hstale
  -- the last one opens the stretch in which the event comes again
  obtain ⟨b, pre, mid, rfl, hpre, hmid⟩ := List.exists_last_split hsome
  obtain ⟨-, hfwd, hfin⟩ := trackRun_stretch
    (fun ev' h => hts ev' (List.mem_append_left _ h)) hpre hmid
  rw [StaleTurn, hfwd, hfin] at hstale
  refine ⟨b, pre, mid ++ [ev], after, by simp, hpre, fun ev' h => ?_, ?_⟩
  · obtain h | h := List.mem_append.mp h
    · exact hmid ev' h
    · rw [List.mem_singleton.mp h]
      obtain h | h := hstale
      · rw [h.1]; decide
      · rw [h.1]; decide
  · rw [List.map_append, List.map_singleton]
    obtain ⟨htype, -, hsub⟩ | ⟨htype, -, hsub⟩ := hstale
    · rw [htype]
      exact .inl (hsub.append (List.Sublist.refl _))
    · rw [htype]
      exact .inr (hsub.append (List.Sublist.refl _))

/-- The last event of the pattern of a repeated step is stale. -/
theorem staleRun_of_repeatedStep {l : List WorkerEvent} (hts : ∀ ev ∈ l, ev.ts.isSome)
    (h : RepeatedStep l) : StaleRun l := by
  obtain ⟨before, pre, mid, after, rfl, hpre, hmid, hpattern⟩ := h
  have hstale : ∀ b ev a, mid = b ++ ev :: a →
      StaleTurn (trackRun (before ++ pre :: b)).1 ev →
        StaleRun (before ++ pre :: mid ++ after) := by
    intro b ev a hx h
    subst hx
    exact ⟨before ++ pre :: b, ev, a ++ after, by simp, h⟩
  -- which marks are set depends on what the stretch has had so far
  have hstretch : ∀ b ev a, mid = b ++ ev :: a →
      (trackRun (before ++ pre :: b)).1.pre.isSome ∧
        ((trackRun (before ++ pre :: b)).1.fwd.isSome ↔
          [.gpuForwardStart].Sublist (b.map (·.type))) ∧
        ((trackRun (before ++ pre :: b)).1.fin.isSome ↔
          [.gpuForwardStart, .gpuForwardEnd].Sublist (b.map (·.type))) := by
    intro b ev a hx
    subst hx
    refine trackRun_stretch (fun ev' h => hts ev' ?_) hpre
      fun ev' h => hmid ev' (List.mem_append_left _ h)
    simp only [List.mem_append, List.mem_cons] at h ⊢
    tauto
  cases hpattern with
  | inl hsub =>
    have hsplit : ([WorkerEventType.gpuForwardStart] ++ [WorkerEventType.gpuForwardStart]).Sublist
      (mid.map (·.type)) := hsub
    obtain ⟨b, ev, a, heq, htype, hb⟩ := List.exists_split_of_concat_sublist_map _ hsplit
    obtain ⟨hset, hfwd, -⟩ := hstretch b ev a heq
    exact hstale b ev a heq (.inl ⟨htype, hset, hfwd.mpr hb⟩)
  | inr hsub =>
    have hsplit : ([WorkerEventType.gpuForwardStart, WorkerEventType.gpuForwardEnd] ++
      [WorkerEventType.gpuForwardEnd]).Sublist (mid.map (·.type)) := hsub
    obtain ⟨b, ev, a, heq, htype, hb⟩ := List.exists_split_of_concat_sublist_map _ hsplit
    obtain ⟨-, hfwd, hfin⟩ := hstretch b ev a heq
    have hone : [WorkerEventType.gpuForwardStart].Sublist (b.map (·.type)) :=
      (List.sublist_append_left [WorkerEventType.gpuForwardStart] [.gpuForwardEnd]).trans hb
    exact hstale b ev a heq (.inr ⟨htype, hfwd.mpr hone, hfin.mpr hb⟩)

/-- Some turn is stale exactly when a step is repeated. -/
theorem staleRun_iff {l : List WorkerEvent} (hts : ∀ ev ∈ l, ev.ts.isSome) :
    StaleRun l ↔ RepeatedStep l :=
  ⟨repeatedStep_of_staleRun hts, staleRun_of_repeatedStep hts⟩

/-! ## The exact condition -/

/-- In a log without phase spans, a track with times in order is drawn step by step, each
    step once, exactly when no step has a second forward start, or a second forward end
    after its forward start, before the next preprocessing start. -/
theorem drawnOnce_iff {events : List WorkerEvent} {track : Option ℤ × Option ℤ}
    (hno : ∀ ev ∈ events, ev.type ≠ .gpuPhaseSpan)
    (ht : MachineTimes (machineEvents events track)) :
    DrawnOnce events track ↔ ¬RepeatedStep (machineEvents events track) := by
  rw [← staleRun_iff ht.times]
  have hslices := machineSlices_eq hno ht.times
  constructor
  · -- a stale turn draws a second slice from the same start
    intro h hstale
    obtain ⟨ev, hmem, ⟨htype, htwice⟩ | ⟨htype, htwice⟩⟩ := drawnTwice_of_staleRun ht hstale
    · have hone := h.preprocess ev hmem htype
      rw [hslices] at hone
      omega
    · have hone := h.forward ev hmem htype
      rw [hslices] at hone
      omega
  · -- otherwise the slices come one after the other
    intro hfresh
    have horder := (onceInv_trackRun ht hfresh).order
    rw [← hslices] at horder
    exact ⟨fun ev _ _ => countAt_le_one horder _ ev, fun ev _ _ => countAt_le_one horder _ ev,
      horder.imp not_meets_of_endsBefore⟩

/-- Two steps of a worker; the preprocessing start of the second is lost. -/
def lostPreprocess : List WorkerEvent :=
  [{ type := .workerPreprocessStart, timestampNs := some 1700000000000000000, reqIds := ["r"] },
   { type := .gpuForwardStart, timestampNs := some 1700000000001000000 },
   { type := .gpuForwardEnd, timestampNs := some 1700000000005000000 },
   { type := .gpuForwardStart, timestampNs := some 1700000000011000000 },
   { type := .gpuForwardEnd, timestampNs := some 1700000000015000000 }]

instance (events : List WorkerEvent) : Decidable (MachineTimes events) :=
  decidable_of_iff ((∀ ev ∈ events, ev.ts.isSome) ∧
      events.Pairwise fun ev ev' => ev.ts.getD 0 < ev'.ts.getD 0)
    ⟨fun h => ⟨h.1, h.2⟩, fun h => ⟨h.times, h.increasing⟩⟩

/-- The run with a lost preprocess event is drawn once exactly when it repeats no step. -/
theorem drawnOnce_iff_lostPreprocess :
    DrawnOnce lostPreprocess (none, none) ↔
      ¬RepeatedStep (machineEvents lostPreprocess (none, none)) :=
  drawnOnce_iff (by decide) (by decide)

/-- The preprocessing of the first step is drawn again, over its forward pass. -/
theorem not_drawnOnce_lostPreprocess : ¬DrawnOnce lostPreprocess (none, none) := by
  intro h
  have hmem : lostPreprocess.head (by decide) ∈ machineEvents lostPreprocess (none, none) :=
    List.mem_filter.mpr ⟨List.head_mem _, by decide⟩
  have hone := h.preprocess _ hmem rfl
  revert hone
  decide

end DeLatency
