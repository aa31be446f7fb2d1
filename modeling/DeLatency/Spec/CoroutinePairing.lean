import DeLatency.Spec.Coroutine
import Mathlib.Order.Bounds.Basic

/-!
# Whose start a request's span has

The start of a span is the least of those that the ends of the request take
(`isLeast_span`).  An end takes the start that the table holds for its coroutine id, and
the id says nothing about the request: with a start of its own or a derived one the span
is right, with a start of another request it is wrong unless an earlier one is taken too.
-/

namespace DeLatency

/-- The request of an event. -/
def CoroutineEvent.rid (ev : CoroutineEvent) : Option String := requestIdOf ev.requestId ev.reqId

/-! ## Taken starts -/

/-- The event ends a coroutine of the request that started at `startNs`, as the table and the
    duration have it. -/
structure CoroutineEvent.Takes (ev : CoroutineEvent) (before : List CoroutineEvent)
    (rid : String) (startNs : ℤ) : Prop where
  type : ev.type = .coroutineEnd
  rid : ev.rid = some rid
  time : ∃ endNs, truthyInt ev.timestampNs = some endNs ∧
    startNs = coroutineStartNs (ev.coroutineId.bind (activeStart before)) ev.durationMs endNs ∧
    startNs < endNs

/-- An end of the request takes the start. -/
def TakenStart (events : List CoroutineEvent) (rid : String) (startNs : ℤ) : Prop :=
  ∃ before ev after, events = before ++ ev :: after ∧ ev.Takes before rid startNs

variable {events rest before : List CoroutineEvent} {ev : CoroutineEvent} {rid : String} {t u : ℤ}

/-- Nothing has been taken before the first event. -/
theorem not_takenStart_nil : ¬TakenStart [] rid t := by
  intro h
  obtain ⟨before, ev, after, heq, -⟩ := h
  simp at heq

/-- A start is taken before the last event or by it. -/
theorem takenStart_concat :
    TakenStart (rest ++ [ev]) rid t ↔ TakenStart rest rid t ∨ ev.Takes rest rid t :=
  List.exists_split_concat
    (P := fun (before : List CoroutineEvent) (ev : CoroutineEvent) => ev.Takes before rid t)

/-- An end takes one start. -/
theorem CoroutineEvent.Takes.unique (ht : ev.Takes before rid t) (hu : ev.Takes before rid u) :
    t = u := by
  obtain ⟨endNs, hts, ht, -⟩ := ht.time
  obtain ⟨endNs', hts', hu, -⟩ := hu.time
  rw [hts] at hts'
  cases hts'
  rw [ht, hu]

/-- What the loop does with an end that takes a start. -/
theorem span_step_of_takes (h : ev.Takes rest rid t) :
    ∃ endNs, (runCoroutines (rest ++ [ev])).requestSpans.get? rid =
      some (min ((runCoroutines rest).requestSpans.getD rid (t, endNs)).1 t,
        max ((runCoroutines rest).requestSpans.getD rid (t, endNs)).2 endNs) := by
  obtain ⟨endNs, hts, hstart, hlt⟩ := h.time
  -- the start is the one that the table of active coroutines gives
  have hstart' : t = coroutineStartNs
      (ev.coroutineId.bind (runCoroutines rest).activeCoroutines.get?) ev.durationMs endNs := by
    rw [funext (activeCoroutines_runCoroutines rest)]
    exact hstart
  refine ⟨endNs, ?_⟩
  rw [runCoroutines_append, requestSpans_step_of_end h.type h.rid hts hstart', if_pos hlt,
    get?_widenSpan, if_pos rfl]

/-- Any other event leaves the request's span as it is. -/
theorem span_step_of_not_takes (h : ∀ t, ¬ev.Takes rest rid t) :
    (runCoroutines (rest ++ [ev])).requestSpans.get? rid =
      (runCoroutines rest).requestSpans.get? rid := by
  rw [runCoroutines_append]
  -- only the end of a coroutine writes a span, and only to its own request
  by_cases hend : ∃ rid' endNs, ev.type = .coroutineEnd ∧
      requestIdOf ev.requestId ev.reqId = some rid' ∧ truthyInt ev.timestampNs = some endNs
  · obtain ⟨rid', endNs, htype, hrid, hts⟩ := hend
    rw [requestSpans_step_of_end htype hrid hts rfl]
    split
    · next hlt =>
      rw [get?_widenSpan, if_neg]
      intro hx
      subst hx
      rw [funext (activeCoroutines_runCoroutines rest)] at hlt
      exact h _ ⟨htype, hrid, endNs, hts, rfl, hlt⟩
    · rfl
  · rw [requestSpans_step_of_not_end fun rid' endNs h' => hend ⟨rid', endNs, h'⟩]

/-- A request has a span when an end takes a start, and it starts with the least of them. -/
theorem span_runCoroutines (events : List CoroutineEvent) (rid : String) :
    (∀ span, (runCoroutines events).requestSpans.get? rid = some span →
      IsLeast {t | TakenStart events rid t} span.1) ∧
    ((runCoroutines events).requestSpans.get? rid = none → ∀ t, ¬TakenStart events rid t) := by
  induction events using List.reverseRecOn with
  | nil => exact ⟨fun span h => (by cases h), fun _ t => not_takenStart_nil⟩
  | append_singleton rest ev ih =>
    obtain ⟨hsome, hnone⟩ := ih
    by_cases htakes : ∃ t, ev.Takes rest rid t
    · obtain ⟨t, ht⟩ := htakes
      obtain ⟨endNs, hstep⟩ := span_step_of_takes ht
      have hset : {u | TakenStart (rest ++ [ev]) rid u} = insert t {u | TakenStart rest rid u} := by
        ext u
        show TakenStart (rest ++ [ev]) rid u ↔ u = t ∨ TakenStart rest rid u
        rw [takenStart_concat, or_comm]
        exact or_congr_left ⟨fun hu => hu.unique ht, fun heq => heq ▸ ht⟩
      constructor
      · intro span hspan
        rw [hstep] at hspan
        cases hspan
        rw [hset]
        cases hold : (runCoroutines rest).requestSpans.get? rid with
        | none =>
          -- the first start of the request
          have hempty : {u | TakenStart rest rid u} = ∅ :=
            Set.eq_empty_of_forall_notMem (hnone hold)
          rw [hempty, Dict.getD, hold]
          simp
        | some old =>
          rw [Dict.getD, hold, min_comm]
          exact (hsome old hold).insert t
      · intro h
        rw [hstep] at h
        cases h
    · rw [not_exists] at htakes
      have hset : {u | TakenStart (rest ++ [ev]) rid u} = {u | TakenStart rest rid u} := by
        ext u
        show TakenStart (rest ++ [ev]) rid u ↔ TakenStart rest rid u
        rw [takenStart_concat, or_iff_left (htakes u)]
      rw [span_step_of_not_takes htakes, hset]
      refine ⟨hsome, fun h t ht => ?_⟩
      obtain hrest | hlast := takenStart_concat.mp ht
      · exact hnone h t hrest
      · exact htakes t hlast

/-! ## Own and foreign starts -/

/-- A time that one of the request's own events gives: that of a start, or that of an end less
    its duration. -/
def OwnStart (events : List CoroutineEvent) (rid : String) (t : ℤ) : Prop :=
  (∃ ev ∈ events, ev.type = .coroutineStart ∧ ev.rid = some rid ∧ ev.timestampNs = some t) ∨
    ∃ ev ∈ events, ev.type = .coroutineEnd ∧ ev.rid = some rid ∧
      ∃ endNs, ev.timestampNs = some endNs ∧ t = endNs - durationNsOfMs ev.durationMs

/-- The last event before that starts or ends the coroutine `cid`. -/
def lastTouch (before : List CoroutineEvent) (cid : ℤ) : Option CoroutineEvent :=
  (before.filter fun ev => ev.Touches cid).getLast?

/-- The event ends a coroutine of the request whose id was last used by an earlier start of
    another request. -/
structure CoroutineEvent.FindsForeign (ev : CoroutineEvent) (before : List CoroutineEvent)
    (rid : String) (startNs : ℤ) : Prop where
  type : ev.type = .coroutineEnd
  start : ∃ cid start, ev.coroutineId = some cid ∧ lastTouch before cid = some start ∧
    start.type = .coroutineStart ∧ start.rid ≠ some rid ∧ start.timestampNs = some startNs
  later : ∃ endNs, truthyInt ev.timestampNs = some endNs ∧ startNs < endNs
  rid : ev.rid = some rid

/-- An end of the request finds a start of another request. -/
def ForeignStart (events : List CoroutineEvent) (rid : String) (t : ℤ) : Prop :=
  ∃ before ev after, events = before ++ ev :: after ∧ ev.FindsForeign before rid t

/-- The open start of a coroutine is the time of the last event that touched it, a start. -/
theorem activeStart_eq_some_iff {cid : ℤ} :
    activeStart before cid = some t ↔
      ∃ start, lastTouch before cid = some start ∧ start.type = .coroutineStart ∧
        start.timestampNs = some t := by
  unfold activeStart lastTouch
  split
  · -- the last event of the coroutine is a start, or an end that has erased it
    next ev hlast =>
    rw [hlast]
    split
    · next hstart => simp [hstart]
    · next hstart => simp [hstart]
  · next hlast => simp [hlast]

/-- An event that finds the start of another request takes it. -/
theorem CoroutineEvent.FindsForeign.takes (h : ev.FindsForeign before rid t) :
    ev.Takes before rid t := by
  obtain ⟨cid, start, hcid, hlast, hstart, -, hts⟩ := h.start
  obtain ⟨endNs, hend, hlt⟩ := h.later
  refine ⟨h.type, h.rid, endNs, hend, ?_, hlt⟩
  rw [hcid, Option.bind_some, activeStart_eq_some_iff.mpr ⟨start, hlast, hstart, hts⟩]
  rfl

/-- A start of another request is a start that is taken. -/
theorem ForeignStart.takenStart (h : ForeignStart events rid t) : TakenStart events rid t := by
  obtain ⟨before, ev, after, heq, hforeign⟩ := h
  exact ⟨before, ev, after, heq, hforeign.takes⟩

/-- A start that is taken is the request's own or another one's. -/
theorem TakenStart.own_or_foreign (h : TakenStart events rid t) :
    OwnStart events rid t ∨ ForeignStart events rid t := by
  obtain ⟨before, ev, after, rfl, htakes⟩ := h
  obtain ⟨endNs, hts, hstart, hlt⟩ := htakes.time
  cases hactive : ev.coroutineId.bind (activeStart before) with
  | none =>
    -- the start is derived, and the duration is positive because the start is earlier
    rw [hactive, coroutineStartNs] at hstart
    split at hstart
    · exact .inl (.inr ⟨ev, by simp, htakes.type, htakes.rid, endNs,
        (truthyInt_eq_some.mp hts).1, hstart⟩)
    · omega
  | some start =>
    rw [hactive, coroutineStartNs] at hstart
    subst hstart
    obtain ⟨cid, hcid, hcid'⟩ := Option.bind_eq_some_iff.mp hactive
    obtain ⟨ev', hlast, htype, hts'⟩ := activeStart_eq_some_iff.mp hcid'
    by_cases hrid : ev'.rid = some rid
    · have hmem : ev' ∈ before := List.mem_of_mem_filter (List.mem_of_getLast? hlast)
      exact .inl (.inl ⟨ev', List.mem_append_left _ hmem, htype, hrid, hts'⟩)
    · exact .inr ⟨before, ev, after, rfl, htakes.type,
        ⟨cid, ev', hcid, hlast, htype, hrid, hts'⟩, ⟨endNs, hts, hlt⟩, htakes.rid⟩

/-- A request has its own starts in any order of the log. -/
theorem ownStart_sort : OwnStart (sortCoroutineEvents events) rid t ↔ OwnStart events rid t := by
  simp only [OwnStart, sortCoroutineEvents, List.mem_sortBy]

/-! ## Spans -/

/-- The span of the request starts with a time of the request. -/
def SpanOwn (events : List CoroutineEvent) (rid : String) : Prop :=
  ∀ span, (coroutineLifecycle events).requestSpans.get? rid = some span →
    OwnStart events rid span.1

/-- A foreign start that an end finds is a time of the request as well, or another end takes an
    earlier start that is one. -/
def ForeignStartsCovered (events : List CoroutineEvent) (rid : String) : Prop :=
  ∀ t, ForeignStart (sortCoroutineEvents events) rid t → ¬OwnStart events rid t →
    ∃ u < t, TakenStart (sortCoroutineEvents events) rid u ∧ OwnStart events rid u

/-- A span starts with a time of its request exactly when no foreign start comes before all that
    are the request's own. -/
theorem spanOwn_iff (events : List CoroutineEvent) (rid : String) :
    SpanOwn events rid ↔ ForeignStartsCovered events rid := by
  obtain ⟨hleast, hnone⟩ := span_runCoroutines (sortCoroutineEvents events) rid
  constructor
  · intro h t hforeign hnot
    cases hspan : (runCoroutines (sortCoroutineEvents events)).requestSpans.get? rid with
    | none => exact absurd hforeign.takenStart (hnone hspan t)
    | some span =>
      -- the start of the span is an own one, and it is the least of all that are taken
      have hown : OwnStart events rid span.1 := h span hspan
      have hle : span.1 ≤ t := (hleast span hspan).2 hforeign.takenStart
      refine ⟨span.1, lt_of_le_of_ne hle ?_, (hleast span hspan).1, hown⟩
      intro hx
      subst hx
      exact hnot hown
  · intro h span hspan
    obtain ⟨htaken, hlower⟩ := hleast span hspan
    by_contra hnot
    obtain hown | hforeign := TakenStart.own_or_foreign htaken
    · exact hnot (ownStart_sort.mp hown)
    · -- the span cannot start with a time that comes after another one taken
      obtain ⟨u, hlt, htaken', -⟩ := h span.1 hforeign hnot
      exact absurd (hlower htaken') (not_le.mpr hlt)

/-- Requests of two processes whose coroutines have the same id: the second one starts while the
    first one runs, which takes two milliseconds. -/
def sharedId : List CoroutineEvent :=
  [{ type := .coroutineStart, timestampNs := some 1000000, requestId := some "a",
      coroutineId := some 7 },
    { type := .coroutineStart, timestampNs := some 2000000, requestId := some "b",
      coroutineId := some 7 },
    { type := .coroutineEnd, timestampNs := some 3000000, requestId := some "a",
      coroutineId := some 7, durationMs := some (2, 0) }]

/-- The first request gets the start of the second one. -/
theorem not_spanOwn_sharedId : ¬∀ rid, SpanOwn sharedId rid := by
  intro h
  have hspan : (coroutineLifecycle sharedId).requestSpans.get? "a" = some (2000000, 3000000) := by
    decide +kernel
  -- the span starts where the other request's coroutine did: no event of "a" has that time
  obtain ⟨ev, hev, htype, hrid, hts⟩ | ⟨ev, hev, htype, hrid, endNs, hts, hstart⟩ := h "a" _ hspan
  · have hnone : ∀ ev ∈ sharedId, ev.timestampNs = some 2000000 → ev.rid ≠ some "a" := by
      decide +kernel
    exact hnone ev hev hts hrid
  · -- nor does the reported duration lead there
    have hend : ∀ ev ∈ sharedId, ev.type = .coroutineEnd →
        ev.timestampNs = some 3000000 ∧ durationNsOfMs ev.durationMs = 2000000 := by
      decide +kernel
    obtain ⟨hts', hduration⟩ := hend ev hev htype
    rw [hts'] at hts
    cases hts
    rw [hduration] at hstart
    omega

end DeLatency
