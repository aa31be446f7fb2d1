import DeLatency.Converter.Export
import DeLatency.ForStd.ExceptLoop
import DeLatency.Spec.Nudge

/-!
# What the export keeps

Nudging and clipping move the start of a complete event forward and keep its end.  An event
that ends by time zero before the two nudges does so after them, so what is left out can be
told from the events as they were drawn (`exportTraceEvents_spec`).  The clipping of events is
that of slices (`clipNegativeCompleteEvents_dict`).
-/

namespace DeLatency

variable {α : Type} {args : NudgeArgs}

/-! ## Later starts -/

/-- A complete event that starts later and ends when it did. -/
structure StartsLater (ev ev' : TraceDict α) : Prop where
  ph : ev.ph = "X"
  times : ∃ ts dur ts' dur', ev.ts = some ts ∧ ev.dur = some dur ∧ ev'.ts = some ts' ∧
    ev'.dur = some dur' ∧ ts < ts' ∧ ts' + dur' = ts + dur ∧ 0 < dur'

/-- Only the start has changed, and only to a later one. -/
structure ShortenedFrom (ev ev' : TraceDict α) : Prop where
  ph : ev'.ph = ev.ph
  cat : ev'.cat = ev.cat
  pid : ev'.pid = ev.pid
  tid : ev'.tid = ev.tid
  other : ev'.other = ev.other
  times : (ev'.ts = ev.ts ∧ ev'.dur = ev.dur) ∨ StartsLater ev ev'

/-- Starting later is transitive. -/
theorem StartsLater.trans {ev ev' ev'' : TraceDict α} (h : StartsLater ev ev')
    (h' : StartsLater ev' ev'') : StartsLater ev ev'' := by
  obtain ⟨ts, dur, ts', dur', hts, hdur, hts', hdur', hlt, hend, -⟩ := h.times
  obtain ⟨_, _, ts'', dur'', h1, h2, hts'', hdur'', hlt', hend', hpos⟩ := h'.times
  obtain rfl : ts' = _ := Option.some.inj (hts'.symm.trans h1)
  obtain rfl : dur' = _ := Option.some.inj (hdur'.symm.trans h2)
  exact ⟨h.ph, ts, dur, ts'', dur'', hts, hdur, hts'', hdur'', hlt.trans hlt',
    hend'.trans hend, hpos⟩

/-- An event is a shortening of itself. -/
theorem ShortenedFrom.refl (ev : TraceDict α) : ShortenedFrom ev ev :=
  ⟨rfl, rfl, rfl, rfl, rfl, .inl ⟨rfl, rfl⟩⟩

/-- Shortening twice is shortening. -/
theorem ShortenedFrom.trans {ev ev' ev'' : TraceDict α} (h : ShortenedFrom ev ev')
    (h' : ShortenedFrom ev' ev'') : ShortenedFrom ev ev'' := by
  refine ⟨h'.ph.trans h.ph, h'.cat.trans h.cat, h'.pid.trans h.pid, h'.tid.trans h.tid,
    h'.other.trans h.other, ?_⟩
  -- a start that was moved once stays moved, and no other field is touched
  rcases h.times with ⟨hts, hdur⟩ | hlater
  · rcases h'.times with ⟨hts', hdur'⟩ | hlater'
    · exact .inl ⟨hts'.trans hts, hdur'.trans hdur⟩
    · refine .inr ⟨h.ph ▸ hlater'.ph, ?_⟩
      rw [← hts, ← hdur]
      exact hlater'.times
  · rcases h'.times with ⟨hts', hdur'⟩ | hlater'
    · refine .inr ⟨hlater.ph, ?_⟩
      rw [hts', hdur']
      exact hlater.times
    · exact .inr (hlater.trans hlater')

/-- A nudged event is a shortened one. -/
theorem NudgedFrom.shortenedFrom {ev ev' : TraceDict α} (h : NudgedFrom args ev ev') :
    ShortenedFrom ev ev' := by
  refine ⟨h.ph, h.cat, h.pid, h.tid, h.other, h.times.imp id fun hmoved => ?_⟩
  obtain ⟨ts, dur, ts', dur', hts, hdur, hts', hdur', -, hlt, hend, hpos⟩ := hmoved.times
  have hph : ev.ph = "X" := by
    have hsel := hmoved.selected
    simp only [NudgeArgs.selects, Bool.and_eq_true, decide_eq_true_eq] at hsel
    exact hsel.1.1
  exact ⟨hph, ts, dur, ts', dur', hts, hdur, hts', hdur', hlt, hend, hpos⟩

/-! ## Clipping -/

/-- A complete event that is over by time zero. -/
def TraceDict.endsByZero (ev : TraceDict α) : Bool :=
  ev.ph = "X" &&
    match ev.ts, ev.dur with
    | some ts, some dur => ts < 0 && ts + dur ≤ 0
    | _, _ => false

/-- Whether an event is over by time zero does not depend on its start. -/
theorem ShortenedFrom.endsByZero_eq {ev ev' : TraceDict α} (h : ShortenedFrom ev ev') :
    ev'.endsByZero = ev.endsByZero := by
  unfold TraceDict.endsByZero
  rw [h.ph]
  rcases h.times with ⟨hts, hdur⟩ | hlater
  · rw [hts, hdur]
  · -- the end is the same, and the start is still before it
    obtain ⟨ts, dur, ts', dur', hts, hdur, hts', hdur', hlt, hend, hpos⟩ := hlater.times
    simp only [hts, hdur, hts', hdur', hend]
    by_cases hover : ts + dur ≤ 0
    · have hneg : ts' < 0 := by linarith
      simp [hover, hneg, hlt.trans hneg]
    · simp [hover]

/-- Shortening keeps how many events end by zero. -/
theorem countP_endsByZero {events events' : List (TraceDict α)}
    (h : List.Forall₂ ShortenedFrom events events') :
    events.countP TraceDict.endsByZero = events'.countP TraceDict.endsByZero := by
  induction h with
  | nil => rfl
  | cons hev _ ih => rw [List.countP_cons, List.countP_cons, ih, hev.endsByZero_eq]

/-- A complete event with times does not start before zero. -/
def TraceDict.NotNegative (ev : TraceDict α) : Prop :=
  ev.ph = "X" → ∀ ts dur, ev.ts = some ts → ev.dur = some dur → 0 ≤ ts

/-- What the clipping makes of one event. -/
theorem ClipState.turn_cases (st : ClipState α) (ev : TraceDict α) :
    (ev.endsByZero = true ∧ st.turn ev = { st with dropped := st.dropped + 1 }) ∨
      ev.endsByZero = false ∧ ∃ ev' clipped, ShortenedFrom ev ev' ∧ ev'.NotNegative ∧
        st.turn ev = { st with kept := st.kept ++ [ev'], clipped } := by
  by_cases hph : ev.ph = "X"
  · rw [ClipState.turn, if_neg (not_not.mpr hph), TraceDict.endsByZero]
    cases hts : ev.ts with
    | none =>
      refine .inr ⟨by simp, ev, st.clipped, .refl ev, fun _ ts dur h => ?_, rfl⟩
      rw [hts] at h
      cases h
    | some ts =>
      cases hdur : ev.dur with
      | none =>
        refine .inr ⟨by simp, ev, st.clipped, .refl ev, fun _ ts dur _ h => ?_, rfl⟩
        rw [hdur] at h
        cases h
      | some dur =>
        dsimp only
        split
        · next hle =>
          refine .inr ⟨by simp [hle], ev, st.clipped, .refl ev, fun _ ts' _ h _ => ?_, rfl⟩
          rw [hts] at h
          exact Option.some.inj h ▸ hle
        · -- the event starts before time zero
          next hneg =>
          split
          · next hover => exact .inl ⟨by simp [hph, hover, not_le.mp hneg], rfl⟩
          · next hend =>
            refine .inr ⟨by simp [not_le.mp hend], _, st.clipped + 1, ?_, ?_, rfl⟩
            · exact ⟨rfl, rfl, rfl, rfl, rfl, .inr ⟨hph, ts, dur, 0, ts + dur, hts, hdur, rfl, rfl,
                not_le.mp hneg, zero_add _, not_le.mp hend⟩⟩
            · intro _ ts' _ h _
              exact (Option.some.inj h).le
  · rw [ClipState.turn, if_pos hph, TraceDict.endsByZero]
    exact .inr ⟨by simp [hph], ev, st.clipped, .refl ev, fun h => absurd h hph, rfl⟩

/-- The clipping leaves out what is over by time zero, and lets nothing start before. -/
theorem clipNegativeCompleteEvents_spec (events : List (TraceDict α)) :
    List.Forall₂ (fun ev ev' => ShortenedFrom ev ev' ∧ ev'.NotNegative)
        (events.filter fun ev => !ev.endsByZero)
        (TraceDict.clipNegativeCompleteEvents events).kept ∧
      (TraceDict.clipNegativeCompleteEvents events).dropped =
        events.countP TraceDict.endsByZero := by
  unfold TraceDict.clipNegativeCompleteEvents
  -- the last event is the last one looked at; what was kept before stays
  induction events using List.reverseRecOn with
  | nil => exact ⟨.nil, rfl⟩
  | append_singleton events ev ih =>
    rw [List.foldl_concat, List.filter_append, List.countP_append]
    obtain ⟨hover, hturn⟩ | ⟨hstays, ev', clipped, hshort, hnonneg, hturn⟩ :=
      (events.foldl ClipState.turn {}).turn_cases ev
    · rw [hturn, List.filter_cons_of_neg (by simp [hover]), List.filter_nil, List.append_nil,
        List.countP_singleton, if_pos hover, ih.2]
      exact ⟨ih.1, rfl⟩
    · rw [hturn, List.filter_cons_of_pos (by simp [hstays]), List.filter_nil,
        List.countP_singleton, hstays, if_neg Bool.false_ne_true]
      exact ⟨List.rel_append ih.1 (.cons ⟨hshort, hnonneg⟩ .nil), ih.2⟩

/-- The dictionary of a slice, with times in microseconds from the origin. -/
def Slice.dict (originNs : ℤ) (ev : Slice) : TraceDict String where
  ph := "X"
  cat := ev.cat
  pid := none
  tid := none
  ts := some ((ev.tsNs - originNs : ℤ) / 1000)
  dur := some ((ev.durNs : ℤ) / 1000)
  other := ev.name

def ClipResult.dict (originNs : ℤ) (r : ClipResult) : ClipState String where
  kept := r.kept.map (Slice.dict originNs)
  clipped := r.clipped
  dropped := r.dropped

/-- One turn on a slice and on its dictionary. -/
theorem ClipState.turn_dict (originNs : ℤ) (r : ClipResult) (ev : Slice) :
    (r.dict originNs).turn (ev.dict originNs) = (r.add originNs ev).dict originNs := by
  -- microseconds are thousandths of the nanoseconds, so the three comparisons are the same
  have hstart : (0 : ℚ) ≤ (ev.tsNs - originNs : ℤ) / 1000 ↔ 0 ≤ ev.tsNs - originNs := by
    rw [le_div_iff₀ (by norm_num), zero_mul, Int.cast_nonneg_iff]
  have hend : ((ev.tsNs - originNs : ℤ) / 1000 + (ev.durNs : ℤ) / 1000 : ℚ) =
      ((ev.tsNs - originNs + ev.durNs : ℤ) : ℚ) / 1000 := by
    push_cast
    ring
  have hover : ((ev.tsNs - originNs + ev.durNs : ℤ) : ℚ) / 1000 ≤ 0 ↔
      ev.tsNs - originNs + ev.durNs ≤ 0 := by
    rw [div_le_iff₀ (by norm_num), zero_mul, Int.cast_nonpos]
  simp only [ClipState.turn, Slice.dict, ClipResult.add, ne_eq, not_true_eq_false, if_false, hstart,
    hend, hover]
  split
  · simp [ClipResult.dict, Slice.dict]
  · split
    · rfl
    · simp [ClipResult.dict, Slice.dict]

/-- On the dictionaries of slices the clipping does what it does on the slices. -/
theorem clipNegativeCompleteEvents_dict (originNs : ℤ) (events : List Slice) :
    TraceDict.clipNegativeCompleteEvents (events.map (Slice.dict originNs)) =
      (clipNegativeCompleteEvents originNs events).dict originNs := by
  unfold TraceDict.clipNegativeCompleteEvents clipNegativeCompleteEvents
  induction events using List.reverseRecOn with
  | nil => rfl
  | append_singleton events ev ih =>
    rw [List.map_append, List.map_singleton, List.foldl_concat, List.foldl_concat, ih,
      ClipState.turn_dict]

/-! ## The tracks that are compared -/

/-- The ids of the slots of a pass compare. -/
def SlotsCompare (args : NudgeArgs) (events : List (TraceDict α)) : Prop :=
  ∀ slot ∈ nudgeSlots args events, ∀ slot' ∈ nudgeSlots args events, slot.Comparable slot'

/-- The event is looked at by a pass. -/
def hasSlot (args : NudgeArgs) (ev : TraceDict α) : Bool :=
  args.selects ev &&
    match ev.ts, ev.dur with
    | some _, some dur => 0 < dur
    | _, _ => false

/-- An event has a slot exactly on its own track. -/
theorem map_track_nudgeSlot (args : NudgeArgs) (item : TraceDict α × ℕ) :
    (nudgeSlot args item).map NudgeSlot.track =
      if hasSlot args item.1 then some (item.1.pid, item.1.tid) else none := by
  unfold nudgeSlot hasSlot
  by_cases hsel : args.selects item.1
  · rw [if_pos hsel, hsel, Bool.true_and]
    cases item.1.ts with
    | none => rfl
    | some ts =>
      cases item.1.dur with
      | none => rfl
      | some dur =>
        dsimp only
        -- an event that takes no time has no slot
        by_cases hpos : 0 < dur
        · simp [hpos, NudgeSlot.track]
        · simp [hpos, not_lt.mp hpos]
  · simp [hsel]

/-- The tracks of the slots, from the events alone. -/
theorem map_track_nudgeSlots (args : NudgeArgs) (events : List (TraceDict α)) :
    (nudgeSlots args events).map NudgeSlot.track =
      (events.filter (hasSlot args)).map fun ev => (ev.pid, ev.tid) := by
  unfold nudgeSlots
  rw [List.map_filterMap]
  -- the position of an event has no influence on its track
  have hcongr : ∀ item ∈ events.zipIdx, (nudgeSlot args item).map NudgeSlot.track =
      if hasSlot args item.1 then some (item.1.pid, item.1.tid) else none :=
    fun item _ => map_track_nudgeSlot args item
  rw [List.filterMap_congr hcongr]
  calc events.zipIdx.filterMap
        (fun item => if hasSlot args item.1 then some (item.1.pid, item.1.tid) else none)
      = (events.zipIdx.map Prod.fst).filterMap
          (fun ev => if hasSlot args ev then some (ev.pid, ev.tid) else none) := by
        rw [List.filterMap_map]
        rfl
    _ = _ := by
        rw [List.zipIdx_map_fst, ← List.filterMap_eq_map, List.filterMap_filter]
        rfl

/-- A pass looks at an event before the other pass if and only if it does after it. -/
theorem NudgedFrom.hasSlot_eq {args' : NudgeArgs} {ev ev' : TraceDict α}
    (h : NudgedFrom args' ev ev') (args : NudgeArgs) : hasSlot args ev' = hasSlot args ev := by
  have hsel : args.selects ev' = args.selects ev := by
    simp only [NudgeArgs.selects, h.ph, h.cat, h.pid]
  unfold hasSlot
  rw [hsel]
  -- the times are the same, or both lengths are positive
  rcases h.times with ⟨hts, hdur⟩ | hmoved
  · rw [hts, hdur]
  · obtain ⟨ts, dur, ts', dur', hts, hdur, hts', hdur', hpos, -, -, hpos'⟩ := hmoved.times
    simp only [hts, hdur, hts', hdur', hpos, hpos']

/-- The ids of the slots compare when those of the tracks do. -/
theorem slotsCompare_iff (args : NudgeArgs) (events : List (TraceDict α)) :
    SlotsCompare args events ↔
      ∀ track ∈ (nudgeSlots args events).map NudgeSlot.track,
        ∀ track' ∈ (nudgeSlots args events).map NudgeSlot.track,
          track.1.isSome = track'.1.isSome ∧
            (track.1 = track'.1 → track.2.isSome = track'.2.isSome) := by
  simp only [List.forall_mem_map]
  rfl

/-- Nudging does not change what compares. -/
theorem slotsCompare_of_nudged {args' : NudgeArgs} {events events' : List (TraceDict α)}
    (h : List.Forall₂ (NudgedFrom args') events events') (args : NudgeArgs) :
    SlotsCompare args events' ↔ SlotsCompare args events := by
  have htracks : (nudgeSlots args events').map NudgeSlot.track =
      (nudgeSlots args events).map NudgeSlot.track := by
    rw [map_track_nudgeSlots, map_track_nudgeSlots]
    -- nudging gives and takes no slot, and moves none to another track
    have hfilter : List.Forall₂ (NudgedFrom args') (events.filter (hasSlot args))
        (events'.filter (hasSlot args)) :=
      List.rel_filter (fun ev ev' hev => by simp only [hev.hasSlot_eq]) h
    rw [← List.forall₂_eq_eq_eq, List.forall₂_map_left_iff, List.forall₂_map_right_iff]
    exact hfilter.flip.imp fun ev' ev hev => Prod.ext hev.pid hev.tid
  rw [slotsCompare_iff, slotsCompare_iff, htracks]

/-! ## The export -/

/-- A pass over slots that compare returns. -/
theorem exists_nudgeEqualBoundaries {events : List (TraceDict α)} (h : SlotsCompare args events) :
    ∃ r, nudgeEqualBoundaries args events = .ok r := by
  unfold nudgeEqualBoundaries sortNudgeSlots
  split
  · exact ⟨_, rfl⟩
  · next hnot => exact absurd h hnot

/-- A pass that returns has seen slots that compare, and has only nudged. -/
theorem nudgeEqualBoundaries_ok {events events' : List (TraceDict α)} {nudged : ℕ}
    (h : nudgeEqualBoundaries args events = .ok (events', nudged)) :
    SlotsCompare args events ∧ List.Forall₂ (NudgedFrom args) events events' := by
  unfold nudgeEqualBoundaries sortNudgeSlots at h
  split at h
  · -- the slots could be sorted; no event has two of them
    next hcompare =>
    cases h
    refine ⟨hcompare, (nudgeInv_foldl args events (fun slot hslot => ?_) ?_).kept⟩
    · exact slotOf_of_mem (List.mem_sortBy.mp hslot)
    · rw [((List.sortBy_perm NudgeSlot.key (nudgeSlots args events)).map (·.idx)).nodup_iff]
      exact nodup_idx args events
  · cases h

/-- What is written: without the complete events that are over by time zero, the drawn events,
    each with its start kept or moved forward and none starting before zero, in the order of
    their times, and in the order of the drawn events where the times are equal. -/
structure ExportOf (events out : List (TraceDict α)) : Prop where
  events : ∃ kept, List.Forall₂ (fun ev ev' => ShortenedFrom ev ev' ∧ ev'.NotNegative)
      (events.filter fun ev => !ev.endsByZero) kept ∧
    out.Perm kept ∧ ∀ t, out.filter (·.sortTs = t) = kept.filter (·.sortTs = t)
  sorted : out.Pairwise fun ev ev' => ev.sortTs ≤ ev'.sortTs

/-- Nudging, clipping and sorting return exactly when the ids of both passes' slots compare, and
    then the drawn events are exported, and the number of dropped ones is right. -/
theorem exportTraceEvents_spec (events : List (TraceDict α)) :
    ((∃ r, exportTraceEvents events = .ok r) ↔
      SlotsCompare requestNudgeArgs events ∧ SlotsCompare gpuNudgeArgs events) ∧
    ∀ out nudgedCount gpuNudgedCount clipped dropped,
      exportTraceEvents events = .ok (out, nudgedCount, gpuNudgedCount, clipped, dropped) →
        ExportOf events out ∧ dropped = events.countP TraceDict.endsByZero := by
  -- what each of the three stages leaves
  have hstages : ∀ out n₁ n₂ clipped dropped,
      exportTraceEvents events = .ok (out, n₁, n₂, clipped, dropped) →
      SlotsCompare requestNudgeArgs events ∧ SlotsCompare gpuNudgeArgs events ∧
        ∃ nudged, List.Forall₂ ShortenedFrom events nudged ∧
          out = (TraceDict.clipNegativeCompleteEvents nudged).kept.sortBy TraceDict.sortTs ∧
          dropped = (TraceDict.clipNegativeCompleteEvents nudged).dropped := by
    intro out n₁ n₂ clipped dropped h
    obtain ⟨⟨events₁, _⟩, h₁, h⟩ := Except.bind_eq_ok_iff.mp h
    obtain ⟨⟨events₂, _⟩, h₂, h⟩ := Except.bind_eq_ok_iff.mp h
    cases h
    obtain ⟨hreq, hnudged₁⟩ := nudgeEqualBoundaries_ok h₁
    obtain ⟨hgpu, hnudged₂⟩ := nudgeEqualBoundaries_ok h₂
    refine ⟨hreq, (slotsCompare_of_nudged hnudged₁ _).mp hgpu, events₂, ?_, rfl, rfl⟩
    exact .comp (fun _ _ _ h h' => h.shortenedFrom.trans h'.shortenedFrom) hnudged₁ hnudged₂
  constructor
  · constructor
    · intro hr
      obtain ⟨⟨out, n₁, n₂, clipped, dropped⟩, h⟩ := hr
      obtain ⟨hreq, hgpu, -⟩ := hstages out n₁ n₂ clipped dropped h
      exact ⟨hreq, hgpu⟩
    · intro hcompare
      obtain ⟨⟨events₁, _⟩, h₁⟩ := exists_nudgeEqualBoundaries hcompare.1
      -- the first pass leaves the process and thread ids that the second one compares
      have hgpu := (slotsCompare_of_nudged (nudgeEqualBoundaries_ok h₁).2 _).mpr hcompare.2
      obtain ⟨⟨events₂, _⟩, h₂⟩ := exists_nudgeEqualBoundaries hgpu
      exact ⟨_, Except.bind_eq_ok_iff.mpr ⟨_, h₁, Except.bind_eq_ok_iff.mpr ⟨_, h₂, rfl⟩⟩⟩
  · intro out n₁ n₂ clipped dropped h
    obtain ⟨-, -, nudged, hnudged, rfl, rfl⟩ := hstages out n₁ n₂ clipped dropped h
    obtain ⟨hkept, hdropped⟩ := clipNegativeCompleteEvents_spec nudged
    have hsame : List.Forall₂ ShortenedFrom (events.filter fun ev => !ev.endsByZero)
        (nudged.filter fun ev => !ev.endsByZero) :=
      List.rel_filter (fun ev ev' hev => by simp only [hev.endsByZero_eq]) hnudged
    refine ⟨⟨⟨_, hsame.comp ?_ hkept, List.sortBy_perm _ _, List.filter_sortBy _ _⟩,
      List.pairwise_sortBy _ _⟩, ?_⟩
    · exact fun _ _ _ h h' => ⟨h.trans h'.1, h'.2⟩
    · rw [hdropped]
      exact (countP_endsByZero hnudged).symm

end DeLatency
