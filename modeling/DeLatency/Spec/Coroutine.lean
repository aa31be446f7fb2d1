import DeLatency.Converter.Coroutine
import DeLatency.ForStd.ListExtra
import Mathlib.Data.List.Induction

/-!
# The coroutine loop

A coroutine that ends was started by the last start or end of its id before it, if that
was a start (`activeStart`).  Otherwise its start is derived from its duration, and the
span of its request begins at or before the derived time.
-/

namespace DeLatency

/-- Only zero is left out. -/
theorem truthyInt_eq_some {x : Option ℤ} {n : ℤ} : truthyInt x = some n ↔ x = some n ∧ n ≠ 0 := by
  rw [truthyInt, Option.filter_eq_some_iff, decide_eq_true_eq]

/-! ## Intervals of a request -/

section Note

variable {spans : ReqSpans} {rid rid' : String} {durNs startNs endNs : Option ℤ} {p : ℤ × ℤ}

/-- The intervals after one note. -/
theorem mem_intervals_note :
    p ∈ (spans.note rid durNs startNs endNs).intervals.getD rid' [] ↔
      p ∈ spans.intervals.getD rid' [] ∨
        rid' = rid ∧ truthyInt startNs = some p.1 ∧ truthyInt endNs = some p.2 ∧ p.1 < p.2 := by
  have hsame : (spans.noteNs rid durNs).intervals = spans.intervals := by
    unfold ReqSpans.noteNs
    split
    · split <;> rfl
    · rfl
  unfold ReqSpans.note ReqSpans.noteInterval
  split
  · next start finish hstart hend =>
    rw [hstart, hend]
    split
    · rw [Dict.getD_push, hsame]
      split
      · next hrid =>
        subst hrid
        simp only [List.mem_append, List.mem_singleton, Prod.ext_iff, Option.some.injEq]
        grind
      · next hrid => simp [hrid]
    · rw [hsame]
      grind
  · -- a time is missing, or is zero
    next hnone =>
    rw [hsame]
    refine (or_iff_left ?_).symm
    intro h
    exact hnone _ _ h.2.1 h.2.2.1

/-- What a round adds comes from its two times. -/
theorem mem_intervals_noteRound {reqIds : List String}
    (hp : p ∈ (spans.noteRound reqIds durNs startNs endNs).intervals.getD rid []) :
    p ∈ spans.intervals.getD rid [] ∨ startNs = some p.1 := by
  unfold ReqSpans.noteRound at hp
  split at hp
  · split at hp
    · exact .inl hp
    · next durNs _ =>
      -- the interval was there, or the round noted it for one of its requests
      obtain hold | ⟨rid', -, -, hstart, -, -⟩ := List.exists_mem_of_foldl
        (P := fun spans : ReqSpans => p ∈ spans.intervals.getD rid [])
        hp fun _ _ => mem_intervals_note.mp
      · exact .inl hold
      · exact .inr (truthyInt_eq_some.mp hstart).1
  · exact .inl hp

end Note

/-- The drawn waits of the output side start when a callback became ready. -/
theorem outputSched_start {events : List OutputSchedEvent} {rid : String} {p : ℤ × ℤ}
    (hp : p ∈ (outputSched events).intervals.getD rid []) :
    ∃ ev ∈ events, ev.readyTsNs = some p.1 := by
  obtain hnil | hev := List.exists_mem_of_foldl
    (P := fun spans : ReqSpans => p ∈ spans.intervals.getD rid [])
    hp fun _ _ => mem_intervals_noteRound
  · simp at hnil
  · exact hev

/-- A slice begins where a report says so. -/
theorem outputExec_start {events : List OutputExecEvent} {rid : String} {p : ℤ × ℤ}
    (hp : p ∈ (outputExec events).intervals.getD rid []) :
    ∃ ev ∈ events, ev.startNs = some p.1 := by
  obtain hnil | hev := List.exists_mem_of_foldl
    (P := fun spans : ReqSpans => p ∈ spans.intervals.getD rid [])
    hp fun _ _ => mem_intervals_noteRound
  · simp at hnil
  · exact hev

/-! ## Waits of coroutines -/

/-- The event says that a coroutine of the request waited for the interval `p`. -/
structure CoroutineEvent.Waited (ev : CoroutineEvent) (rid : String) (p : ℤ × ℤ) : Prop where
  type : ev.type = .coroutineSchedLatency
  rid : requestIdOf ev.requestId ev.reqId = some rid
  ready : truthyInt ev.readyTsNs = some p.1
  run : truthyInt ev.runTsNs = some p.2
  lt : p.1 < p.2

namespace CoroutineState

variable {st : CoroutineState} {ev : CoroutineEvent} {rid : String} {p : ℤ × ℤ} {cid : ℤ}

/-- The interval is drawn in one of the two lanes. -/
def Draws (st : CoroutineState) (rid : String) (p : ℤ × ℤ) : Prop :=
  p ∈ st.coroSched.intervals.getD rid [] ∨ p ∈ st.generateTaskSched.intervals.getD rid []

variable (st ev) in
/-- An event draws its own wait and no other. -/
theorem draws_step : (st.step ev).Draws rid p ↔ st.Draws rid p ∨ ev.Waited rid p := by
  have hnot : ev.type ≠ .coroutineSchedLatency → ¬ev.Waited rid p := fun hne h => hne h.type
  unfold step
  split
  · next rid' htype hrid =>
    -- the two kinds of tasks note the wait in different maps
    have hwaited : ev.Waited rid p ↔ rid = rid' ∧ truthyInt ev.readyTsNs = some p.1 ∧
        truthyInt ev.runTsNs = some p.2 ∧ p.1 < p.2 := by
      constructor
      · intro h
        have hsome := h.rid
        rw [hrid, Option.some.injEq] at hsome
        exact ⟨hsome.symm, h.ready, h.run, h.lt⟩
      · intro h
        obtain ⟨rfl, hready, hrun, hlt⟩ := h
        exact ⟨htype, hrid, hready, hrun, hlt⟩
    split
    · simp only [Draws, mem_intervals_note, hwaited, or_assoc]
    · simp only [Draws, mem_intervals_note, hwaited, or_assoc]
      exact or_congr_right or_comm
  · next htype _ =>
    rw [or_iff_left (hnot (by rw [htype]; decide))]
    split <;> rfl
  · next htype _ =>
    rw [or_iff_left (hnot (by rw [htype]; decide))]
    split <;> rfl
  · next hrid =>
    rw [or_iff_left]
    intro h
    rw [h.rid] at hrid
    cases hrid

end CoroutineState

/-- The drawn waits are those that the events report. -/
theorem draws_coroutineLifecycle {events : List CoroutineEvent} {rid : String} {p : ℤ × ℤ} :
    (coroutineLifecycle events).Draws rid p ↔ ∃ ev ∈ events, ev.Waited rid p := by
  have hnil : ¬({} : CoroutineState).Draws rid p := by simp [CoroutineState.Draws]
  rw [coroutineLifecycle, List.foldl_iff_of_step (P := fun st => CoroutineState.Draws st rid p)
    fun st ev => st.draws_step ev, or_iff_right hnil]
  simp only [sortCoroutineEvents, List.mem_sortBy]

/-! ## Active starts -/

/-- The event starts or ends the coroutine `cid`. -/
def CoroutineEvent.Touches (ev : CoroutineEvent) (cid : ℤ) : Prop :=
  ev.type ≠ .coroutineSchedLatency ∧ ev.coroutineId = some cid ∧
    (requestIdOf ev.requestId ev.reqId).isSome ∧ (truthyInt ev.timestampNs).isSome

instance (ev : CoroutineEvent) (cid : ℤ) : Decidable (ev.Touches cid) :=
  inferInstanceAs (Decidable (_ ∧ _))

/-- The start of the coroutine `cid`, if the last event that touches it is a start. -/
def activeStart (before : List CoroutineEvent) (cid : ℤ) : Option ℤ :=
  match (before.filter fun ev => ev.Touches cid).getLast? with
  | some ev => if ev.type = .coroutineStart then ev.timestampNs else none
  | none => none

namespace CoroutineState

variable {st : CoroutineState} {ev : CoroutineEvent} {rid : String} {cid : ℤ}

/-- The active start of a coroutine after one turn. -/
theorem activeCoroutines_step :
    (st.step ev).activeCoroutines.get? cid =
      if ev.Touches cid then (if ev.type = .coroutineStart then ev.timestampNs else none)
      else st.activeCoroutines.get? cid := by
  unfold step
  split
  · next htype _ =>
    -- a wait leaves the table as it is
    have hnot : ¬ev.Touches cid := fun h => h.1 htype
    rw [if_neg hnot]
    split <;> rfl
  · next rid' htype hrid =>
    split
    · next cid' tsNs hcid hts =>
      dsimp only
      rw [Dict.get?_alter]
      by_cases heq : cid = cid'
      · subst heq
        have htouches : ev.Touches cid := ⟨by rw [htype]; decide, hcid, by rw [hrid]; rfl, by
          rw [hts]; rfl⟩
        rw [if_pos rfl, if_pos htouches, if_pos htype, (truthyInt_eq_some.mp hts).1]
      · have hnot : ¬ev.Touches cid := fun h => heq (by simpa [hcid] using h.2.1.symm)
        rw [if_neg heq, if_neg hnot]
    · next hnone =>
      have hnot : ¬ev.Touches cid := by
        intro h
        obtain ⟨tsNs, hts⟩ := Option.isSome_iff_exists.mp h.2.2.2
        exact hnone cid tsNs h.2.1 hts
      rw [if_neg hnot]
  · next rid' htype hrid =>
    have hend : ev.type ≠ .coroutineStart := by rw [htype]; decide
    split
    · -- an end takes the entry of its id out, whoever put it there
      next tsNs hts =>
      dsimp only
      split
      · next cid' hcid =>
        rw [Dict.get?_erase]
        by_cases heq : cid = cid'
        · subst heq
          have htouches : ev.Touches cid := ⟨by rw [htype]; decide, hcid, by rw [hrid]; rfl, by
            rw [hts]; rfl⟩
          rw [if_pos rfl, if_pos htouches, if_neg hend]
        · have hnot : ¬ev.Touches cid := fun h => heq (by simpa [hcid] using h.2.1.symm)
          rw [if_neg heq, if_neg hnot]
      · next hcid =>
        have hnot : ¬ev.Touches cid := fun h => by simpa [hcid] using h.2.1
        rw [if_neg hnot]
    · next hts =>
      have hnot : ¬ev.Touches cid := fun h => by simpa [hts] using h.2.2.2
      rw [if_neg hnot]
  · next hrid =>
    -- without a request id the event is skipped
    have hnot : ¬ev.Touches cid := fun h => by simpa [hrid] using h.2.2.1
    rw [if_neg hnot]

end CoroutineState

/-- The state after some of the events. -/
def runCoroutines (events : List CoroutineEvent) : CoroutineState :=
  events.foldl CoroutineState.step {}

/-- The last event comes after the others. -/
@[simp] theorem runCoroutines_append (events : List CoroutineEvent) (ev : CoroutineEvent) :
    runCoroutines (events ++ [ev]) = (runCoroutines events).step ev := by
  rw [runCoroutines, List.foldl_append, List.foldl_cons, List.foldl_nil]
  rfl

/-- What is noted for a coroutine is its last open start. -/
theorem activeCoroutines_runCoroutines (events : List CoroutineEvent) (cid : ℤ) :
    (runCoroutines events).activeCoroutines.get? cid = activeStart events cid := by
  induction events using List.reverseRecOn with
  | nil => rfl
  | append_singleton rest ev ih =>
    rw [runCoroutines_append, CoroutineState.activeCoroutines_step, ih]
    unfold activeStart
    rw [List.filter_append]
    -- only the last event of the coroutine decides whether it is active
    by_cases h : ev.Touches cid
    · simp [h]
    · simp [h]

/-! ## Spans of requests -/

/-- An end whose start is derived from its duration. -/
structure CoroutineEvent.EndsUnseen (ev : CoroutineEvent) (before : List CoroutineEvent)
    (rid : String) (startNs endNs : ℤ) : Prop where
  type : ev.type = .coroutineEnd
  rid : requestIdOf ev.requestId ev.reqId = some rid
  time : truthyInt ev.timestampNs = some endNs
  unseen : ev.coroutineId.bind (activeStart before) = none
  duration : 0 < durationNsOfMs ev.durationMs
  startNs : startNs = endNs - durationNsOfMs ev.durationMs

/-- The loop over `events` derives the start `startNs` for the request. -/
def DerivedStart (events : List CoroutineEvent) (rid : String) (startNs : ℤ) : Prop :=
  ∃ before ev after endNs, events = before ++ ev :: after ∧ ev.EndsUnseen before rid startNs endNs

/-- A start was derived before the last event, or at it. -/
theorem derivedStart_concat {rest : List CoroutineEvent} {last : CoroutineEvent} {rid : String}
    {t : ℤ} : DerivedStart (rest ++ [last]) rid t ↔
      DerivedStart rest rid t ∨ ∃ endNs, last.EndsUnseen rest rid t endNs := by
  have hsplit := @List.exists_split_concat CoroutineEvent
    (fun before ev => ∃ endNs, ev.EndsUnseen before rid t endNs) rest last
  simpa only [DerivedStart, exists_and_left] using hsplit

/-- A start that is derived stays so. -/
theorem DerivedStart.append {events : List CoroutineEvent} {rid : String} {t : ℤ}
    (h : DerivedStart events rid t) (ev : CoroutineEvent) : DerivedStart (events ++ [ev]) rid t :=
  derivedStart_concat.mpr (.inl h)

section Spans

variable {st : CoroutineState} {ev : CoroutineEvent} {rid : String} {startNs endNs : ℤ}

/-- One end of a coroutine. -/
theorem requestSpans_step_of_end (htype : ev.type = .coroutineEnd)
    (hrid : requestIdOf ev.requestId ev.reqId = some rid)
    (hts : truthyInt ev.timestampNs = some endNs)
    (hstart : startNs =
      coroutineStartNs (ev.coroutineId.bind st.activeCoroutines.get?) ev.durationMs endNs) :
    (st.step ev).requestSpans =
      if startNs < endNs then widenSpan st.requestSpans rid startNs endNs
      else st.requestSpans := by
  unfold CoroutineState.step
  -- only this branch of the step writes the spans
  rw [htype, hrid]
  dsimp only
  rw [hts, hstart]

/-- Only ends of coroutines change the spans. -/
theorem requestSpans_step_of_not_end
    (h : ∀ rid endNs, ¬(ev.type = .coroutineEnd ∧ requestIdOf ev.requestId ev.reqId = some rid ∧
      truthyInt ev.timestampNs = some endNs)) :
    (st.step ev).requestSpans = st.requestSpans := by
  unfold CoroutineState.step
  split
  · split <;> rfl
  · split <;> rfl
  · -- an end without a time is no end
    next rid' htype hrid =>
    split
    · next tsNs hts => exact absurd ⟨htype, hrid, hts⟩ (h rid' tsNs)
    · rfl
  · rfl

/-- A span after it was widened. -/
theorem get?_widenSpan (spans : Dict String (ℤ × ℤ)) (rid x : String) (startNs endNs : ℤ) :
    (widenSpan spans rid startNs endNs).get? x =
      if x = rid then
        some (min ((spans.getD rid (startNs, endNs)).1) startNs,
          max ((spans.getD rid (startNs, endNs)).2) endNs)
      else spans.get? x :=
  Dict.get?_alter _ _ _ _ _

/-- Spans never shrink. -/
theorem exists_span_step {span : ℤ × ℤ} (ev : CoroutineEvent)
    (h : st.requestSpans.get? rid = some span) :
    ∃ span', (st.step ev).requestSpans.get? rid = some span' ∧ span'.1 ≤ span.1 := by
  by_cases hend : ∃ rid' endNs, ev.type = .coroutineEnd ∧
      requestIdOf ev.requestId ev.reqId = some rid' ∧ truthyInt ev.timestampNs = some endNs
  · -- only an end changes a span, and takes the minimum
    obtain ⟨rid', endNs, htype, hrid, hts⟩ := hend
    rw [requestSpans_step_of_end htype hrid hts rfl]
    split
    · rw [get?_widenSpan]
      split
      · next heq =>
        subst heq
        rw [Dict.getD, h]
        exact ⟨_, rfl, min_le_left _ _⟩
      · exact ⟨span, h, le_refl _⟩
    · exact ⟨span, h, le_refl _⟩
  · rw [requestSpans_step_of_not_end fun rid' endNs h' => hend ⟨rid', endNs, h'⟩]
    exact ⟨span, h, le_refl _⟩

/-- What is known of a request's span: it is not empty, and it starts with a logged start, or
    with a derived one. -/
structure SpanFrom (events : List CoroutineEvent) (rid : String) (span : ℤ × ℤ) : Prop where
  lt : span.1 < span.2
  start : (∃ ev ∈ events, ev.timestampNs = some span.1) ∨ DerivedStart events rid span.1

/-- A span stays founded when more events come. -/
theorem SpanFrom.append {events : List CoroutineEvent} {span : ℤ × ℤ}
    (h : SpanFrom events rid span) (ev : CoroutineEvent) :
    SpanFrom (events ++ [ev]) rid span where
  lt := h.lt
  start := by
    obtain ⟨ev', hev', hts⟩ | hderived := h.start
    · exact .inl ⟨ev', List.mem_append_left _ hev', hts⟩
    · exact .inr (hderived.append ev)

/-- An active start is the time of an earlier event. -/
theorem exists_of_activeStart {before : List CoroutineEvent} {cid t : ℤ}
    (h : activeStart before cid = some t) : ∃ ev ∈ before, ev.timestampNs = some t := by
  unfold activeStart at h
  split at h
  · -- the coroutine's last event is a start, and its time is the answer
    next ev hlast =>
    split at h
    · exact ⟨ev, List.mem_of_mem_filter (List.mem_of_getLast? hlast), h⟩
    · cases h
  · cases h

/-- The start of a coroutine that has ended is the time of an earlier event, or derived. -/
theorem start_of_end {before : List CoroutineEvent} (htype : ev.type = .coroutineEnd)
    (hrid : requestIdOf ev.requestId ev.reqId = some rid)
    (hts : truthyInt ev.timestampNs = some endNs)
    (hstart : startNs =
      coroutineStartNs (ev.coroutineId.bind (activeStart before)) ev.durationMs endNs)
    (hlt : startNs < endNs) :
    (∃ ev' ∈ before, ev'.timestampNs = some startNs) ∨
      ev.EndsUnseen before rid startNs endNs := by
  unfold coroutineStartNs at hstart
  split at hstart
  · next start hactive =>
    -- the start in the table is the time of an earlier event
    obtain ⟨cid, -, hcid⟩ := Option.bind_eq_some_iff.mp hactive
    rw [hstart]
    exact .inl (exists_of_activeStart hcid)
  · next hactive =>
    dsimp only at hstart
    -- without a duration the start is the end, which leaves no span
    split at hstart
    · next hpos => exact .inr ⟨htype, hrid, hts, hactive, hpos, hstart⟩
    · omega

/-- The span of a request is founded on events of the log. -/
theorem spanFrom_runCoroutines {events : List CoroutineEvent} {span : ℤ × ℤ}
    (h : (runCoroutines events).requestSpans.get? rid = some span) : SpanFrom events rid span := by
  induction events using List.reverseRecOn generalizing span with
  | nil => cases h
  | append_singleton rest ev ih =>
    rw [runCoroutines_append] at h
    by_cases hend : ∃ rid' endNs, ev.type = .coroutineEnd ∧
        requestIdOf ev.requestId ev.reqId = some rid' ∧ truthyInt ev.timestampNs = some endNs
    · obtain ⟨rid', endNs, htype, hrid, hts⟩ := hend
      rw [requestSpans_step_of_end htype hrid hts rfl,
        funext (activeCoroutines_runCoroutines rest)] at h
      split at h
      · next hlt =>
        rw [get?_widenSpan] at h
        split at h
        · next heq =>
          subst heq
          have hstart : (∃ ev' ∈ rest ++ [ev], ev'.timestampNs = some (coroutineStartNs
              (ev.coroutineId.bind (activeStart rest)) ev.durationMs endNs)) ∨
              DerivedStart (rest ++ [ev]) rid (coroutineStartNs
                (ev.coroutineId.bind (activeStart rest)) ev.durationMs endNs) := by
            obtain ⟨ev', hev', hts'⟩ | hunseen := start_of_end htype hrid hts rfl hlt
            · exact .inl ⟨ev', List.mem_append_left _ hev', hts'⟩
            · exact .inr ⟨rest, ev, [], endNs, rfl, hunseen⟩
          cases hold : (runCoroutines rest).requestSpans.get? rid with
          | none =>
            rw [Dict.getD, hold] at h
            cases h
            exact ⟨by simpa using hlt, by simpa using hstart⟩
          | some old =>
            rw [Dict.getD, hold] at h
            cases h
            have hfrom := (ih hold).append ev
            refine ⟨(min_le_right _ _).trans_lt (hlt.trans_le (le_max_right _ _)), ?_⟩
            -- the smaller of the two starts
            obtain hmin | hmin := min_choice old.1 (coroutineStartNs
              (ev.coroutineId.bind (activeStart rest)) ev.durationMs endNs)
            · simp only [Option.getD_some, hmin]
              exact hfrom.start
            · simp only [Option.getD_some, hmin]
              exact hstart
        · exact (ih h).append ev
      · exact (ih h).append ev
    · rw [requestSpans_step_of_not_end fun rid' endNs h' => hend ⟨rid', endNs, h'⟩] at h
      exact (ih h).append ev

/-- The span of a request begins at or before every start that was derived for it. -/
theorem exists_span_of_derivedStart {events : List CoroutineEvent} {t : ℤ}
    (h : DerivedStart events rid t) :
    ∃ span, (runCoroutines events).requestSpans.get? rid = some span ∧ span.1 ≤ t := by
  induction events using List.reverseRecOn with
  | nil =>
    obtain ⟨before, ev, after, endNs, heq, -⟩ := h
    simp at heq
  | append_singleton rest last ih =>
    rw [runCoroutines_append]
    obtain hold | ⟨endNs, hend⟩ := derivedStart_concat.mp h
    · -- later turns only widen the span
      obtain ⟨span, hspan, hle⟩ := ih hold
      obtain ⟨span', hspan', hle'⟩ := exists_span_step last hspan
      exact ⟨span', hspan', hle'.trans hle⟩
    · have hstart : t = coroutineStartNs
          (last.coroutineId.bind (runCoroutines rest).activeCoroutines.get?) last.durationMs
          endNs := by
        rw [funext (activeCoroutines_runCoroutines rest), hend.unseen, coroutineStartNs,
          if_pos hend.duration]
        exact hend.startNs
      have hlt : t < endNs := by
        have hpos := hend.duration
        have heq := hend.startNs
        omega
      rw [requestSpans_step_of_end hend.type hend.rid hend.time hstart, if_pos hlt,
        get?_widenSpan, if_pos rfl]
      exact ⟨_, rfl, min_le_right _ _⟩

end Spans

end DeLatency
