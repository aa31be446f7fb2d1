import DeLatency.Converter.Nudge
import DeLatency.ForStd.ListExtra
import Mathlib.Data.List.Induction
import Mathlib.Tactic.Linarith
import Mathlib.Tactic.Ring

/-!
# What nudging does

A nudged event starts later and keeps its end, so the end that the loop carries from one
slice of a track to the next is the end the slice had before.  Hence the gap that a turn
looks at is the original one, whatever was nudged before it, and each turn can be judged
on its own (`nudgeTurn_spec`).
-/

namespace DeLatency

variable {α : Type} {args : NudgeArgs}

/-! ## A safe nudging -/

/-- A selected event that starts later than before, with its end kept. -/
structure Moved (args : NudgeArgs) (ev ev' : TraceDict α) : Prop where
  selected : args.selects ev
  times : ∃ ts dur ts' dur', ev.ts = some ts ∧ ev.dur = some dur ∧ ev'.ts = some ts' ∧
    ev'.dur = some dur' ∧ 0 < dur ∧ ts < ts' ∧ ts' + dur' = ts + dur ∧ 0 < dur'

/-- An event is as before, or moved; only its times may differ. -/
structure NudgedFrom (args : NudgeArgs) (ev ev' : TraceDict α) : Prop where
  ph : ev'.ph = ev.ph
  cat : ev'.cat = ev.cat
  pid : ev'.pid = ev.pid
  tid : ev'.tid = ev.tid
  other : ev'.other = ev.other
  times : (ev'.ts = ev.ts ∧ ev'.dur = ev.dur) ∨ Moved args ev ev'

/-- The times of an event have changed. -/
def TimesChanged (p : TraceDict α × TraceDict α) : Prop := p.1.ts ≠ p.2.ts ∨ p.1.dur ≠ p.2.dur

instance (p : TraceDict α × TraceDict α) : Decidable (TimesChanged p) :=
  inferInstanceAs (Decidable (_ ∨ _))

/-- The slots of a track in the order of the sort. -/
def trackSlots (args : NudgeArgs) (events : List (TraceDict α)) (track : Option ℤ × Option ℤ) :
    List NudgeSlot :=
  ((nudgeSlots args events).sortBy NudgeSlot.key).filter (·.track = track)

/-- `b` follows `a` on their track. -/
def Neighbours (args : NudgeArgs) (events : List (TraceDict α)) (a b : NudgeSlot) : Prop :=
  ∃ before after, trackSlots args events b.track = before ++ a :: b :: after

/-- The gap of two slots is within the tolerance, and the second is long enough for a nudge. -/
structure NudgeNeeded (args : NudgeArgs) (a b : NudgeSlot) : Prop where
  lower : -args.snapToleranceUs ≤ b.start - a.endUs
  upper : b.start - a.endUs ≤ args.snapToleranceUs
  room : args.epsilonUs + args.snapToleranceUs < b.endUs - b.start

/-- The event of a slot, by its times. -/
def HasTimes (events : List (TraceDict α)) (slot : NudgeSlot) (ts dur : ℚ) : Prop :=
  ∃ ev, events[slot.idx]? = some ev ∧ ev.ts = some ts ∧ ev.dur = some dur

/-- Nothing but the times of nudged events is changed, the number of changed events is
    returned, and where a nudge is needed and possible there is a gap of `epsilon_us`
    afterwards. -/
structure SafeNudge (args : NudgeArgs) (events events' : List (TraceDict α)) (nudged : ℕ) :
    Prop where
  kept : List.Forall₂ (NudgedFrom args) events events'
  count : nudged = (events.zip events').countP fun p => TimesChanged p
  apart : ∀ a b, Neighbours args events a b → NudgeNeeded args a b →
    ∃ ts dur ts' dur', HasTimes events' a ts dur ∧ HasTimes events' b ts' dur' ∧
      ts + dur + args.epsilonUs ≤ ts'

/-! ## Slots -/

/-- A slot is the place and the interval of a selected event. -/
def SlotOf (args : NudgeArgs) (events : List (TraceDict α)) (slot : NudgeSlot) : Prop :=
  ∃ ev, events[slot.idx]? = some ev ∧ args.selects ev ∧ ev.ts = some slot.start ∧
    ev.dur = some (slot.endUs - slot.start)

/-- A slot holds the position, the start and the end of a selected event. -/
theorem nudgeSlot_eq_some {item : TraceDict α × ℕ} {slot : NudgeSlot}
    (h : nudgeSlot args item = some slot) :
    args.selects item.1 ∧ item.1.ts = some slot.start ∧
      item.1.dur = some (slot.endUs - slot.start) ∧ slot.idx = item.2 := by
  unfold nudgeSlot at h
  split at h
  · next hsel =>
    split at h
    · next ts dur hts hdur =>
      split at h
      · cases h
      · cases h
        -- the end was computed from the two times
        refine ⟨hsel, hts, ?_, rfl⟩
        rw [hdur, add_sub_cancel_left]
    · cases h
  · cases h

/-- Every slot in the list is that of its event. -/
theorem slotOf_of_mem {events : List (TraceDict α)} {slot : NudgeSlot}
    (h : slot ∈ nudgeSlots args events) : SlotOf args events slot := by
  obtain ⟨item, hitem, hslot⟩ := List.mem_filterMap.mp h
  obtain ⟨hsel, hts, hdur, hidx⟩ := nudgeSlot_eq_some hslot
  have hget : events[item.2]? = some item.1 := List.mem_zipIdx_iff_getElem?.mp hitem
  exact ⟨item.1, hidx ▸ hget, hsel, hts, hdur⟩

/-- No two slots have the same place. -/
theorem nodup_idx (args : NudgeArgs) (events : List (TraceDict α)) :
    ((nudgeSlots args events).map (·.idx)).Nodup := by
  have hsub : ((nudgeSlots args events).map (·.idx)).Sublist (events.zipIdx.map Prod.snd) :=
    List.map_filterMap_sublist _ fun item slot h => (nudgeSlot_eq_some h).2.2.2
  rw [List.zipIdx_map_snd] at hsub
  exact List.Nodup.sublist hsub List.nodup_range'

/-! ## One turn -/

/-- What a turn does to the list, given the end before it on the track. -/
inductive TurnResult (args : NudgeArgs) (st : NudgeState α) (slot : NudgeSlot) :
    List (TraceDict α) → ℕ → Prop
  | keep (h : ∀ prevEnd, st.lastEndByTrack.get? slot.track = some prevEnd →
      -args.snapToleranceUs ≤ slot.start - prevEnd → slot.start - prevEnd ≤ args.snapToleranceUs →
      args.epsilonUs + args.snapToleranceUs < slot.endUs - slot.start →
      prevEnd + args.epsilonUs ≤ slot.start) :
      TurnResult args st slot st.traceEvents st.nudged
  | move (prevEnd : ℚ) (hprev : st.lastEndByTrack.get? slot.track = some prevEnd)
      (hlt : slot.start < prevEnd + args.epsilonUs)
      (hroom : prevEnd + args.epsilonUs < slot.endUs) :
      TurnResult args st slot
        (st.traceEvents.modify slot.idx fun ev => { ev with
          ts := some (prevEnd + args.epsilonUs)
          dur := some (slot.endUs - (prevEnd + args.epsilonUs)) })
        (st.nudged + 1)

/-- A gap within the tolerance is looked at, an exact end-to-start also without one. -/
theorem needNudge_of_mem {start prevEnd : ℚ} (hlow : -args.snapToleranceUs ≤ start - prevEnd)
    (hup : start - prevEnd ≤ args.snapToleranceUs) : needNudge args start prevEnd := by
  unfold needNudge
  by_cases htol : 0 < args.snapToleranceUs
  · simp [htol, hlow, hup]
  · have heq : start = prevEnd := by linarith
    simp [heq]

/-- A turn moves the start to the end before plus epsilon, or leaves the event alone; the
    end it carries on is that of the slot. -/
theorem nudgeTurn_spec (args : NudgeArgs) {st : NudgeState α} {slot : NudgeSlot} {ev : TraceDict α}
    (hev : st.traceEvents[slot.idx]? = some ev) (hdur : ev.dur = some (slot.endUs - slot.start)) :
    (nudgeTurn args st slot).lastEndByTrack =
        st.lastEndByTrack.alter slot.track 0 (fun _ => slot.endUs) ∧
      TurnResult args st slot (nudgeTurn args st slot).traceEvents
        (nudgeTurn args st slot).nudged := by
  unfold nudgeTurn nudgeDelta
  rw [hev, Option.bind_some, hdur]
  cases hprev : st.lastEndByTrack.get? slot.track with
  | none =>
    refine ⟨rfl, .keep fun prevEnd h => ?_⟩
    rw [hprev] at h
    cases h
  | some prevEnd =>
    simp only
    by_cases hneed : needNudge args slot.start prevEnd
    · rw [if_pos hneed]
      split
      · next delta oldDur hdelta =>
        split at hdelta
        · next hroom =>
          cases hdelta
          have hts : slot.start + (prevEnd + args.epsilonUs - slot.start) =
              prevEnd + args.epsilonUs := by ring
          have hrest : slot.endUs - slot.start - (prevEnd + args.epsilonUs - slot.start) =
              slot.endUs - (prevEnd + args.epsilonUs) := by ring
          simp only [hts, hrest, add_sub_cancel]
          exact ⟨trivial, .move prevEnd hprev (by linarith) (by linarith)⟩
        · cases hdelta
      · next hdelta =>
        refine ⟨rfl, .keep fun prevEnd' h hlow hup hlong => ?_⟩
        rw [hprev] at h
        cases h
        split at hdelta
        · cases hdelta
        · -- the slot is long enough, so it starts far enough already
          next hroom =>
          by_contra hlt
          exact hroom ⟨by linarith, by linarith⟩
    · rw [if_neg hneed]
      refine ⟨rfl, .keep fun prevEnd' h hlow hup hlong => ?_⟩
      rw [hprev] at h
      cases h
      exact absurd (needNudge_of_mem hlow hup) hneed

/-! ## The run -/

/-- What holds after the slots `seen`: an event without a slot among them is as it was,
    each track carries the end of its last slot, and the neighbours so far are apart. -/
structure NudgeInv (args : NudgeArgs) (events : List (TraceDict α)) (seen : List NudgeSlot)
    (st : NudgeState α) : Prop where
  kept : List.Forall₂ (NudgedFrom args) events st.traceEvents
  fresh : ∀ i, i ∉ seen.map (·.idx) → st.traceEvents[i]? = events[i]?
  count : st.nudged = (events.zip st.traceEvents).countP fun p => TimesChanged p
  last : ∀ track, st.lastEndByTrack.get? track =
    ((seen.filter (·.track = track)).getLast?).map (·.endUs)
  ends : ∀ slot ∈ seen, ∃ ts dur, HasTimes st.traceEvents slot ts dur ∧ ts + dur = slot.endUs
  apart : ∀ a b before after, seen.filter (·.track = b.track) = before ++ a :: b :: after →
    NudgeNeeded args a b →
      ∃ ts dur, HasTimes st.traceEvents b ts dur ∧ a.endUs + args.epsilonUs ≤ ts

/-- An event left alone is nudged from itself. -/
theorem NudgedFrom.refl (ev : TraceDict α) : NudgedFrom args ev ev :=
  ⟨rfl, rfl, rfl, rfl, rfl, .inl ⟨rfl, rfl⟩⟩

/-- Before the first turn no event has changed. -/
theorem nudgeInv_nil (args : NudgeArgs) (events : List (TraceDict α)) :
    NudgeInv args events [] { traceEvents := events } where
  kept := List.forall₂_same.mpr fun ev _ => NudgedFrom.refl ev
  fresh _ _ := rfl
  count := by
    have hnone : (events.zip events).countP (fun p => TimesChanged p) = 0 := by
      rw [List.countP_eq_zero]
      intro p hp
      -- an event is paired with itself
      obtain ⟨i, hi⟩ := List.mem_iff_getElem?.mp hp
      obtain ⟨h1, h2⟩ := List.getElem?_zip_eq_some.mp hi
      have heq : p.1 = p.2 := Option.some.inj (h1.symm.trans h2)
      simp [TimesChanged, heq]
    exact hnone.symm
  last _ := rfl
  ends _ h := by cases h
  apart a b before after h := by simp at h

/-- The list after a turn differs at the place of the slot only. -/
theorem TurnResult.getElem?_of_ne {st : NudgeState α} {slot : NudgeSlot}
    {events' : List (TraceDict α)} {n : ℕ} (h : TurnResult args st slot events' n) {i : ℕ}
    (hi : i ≠ slot.idx) : events'[i]? = st.traceEvents[i]? := by
  cases h with
  | keep _ => rfl
  | move prevEnd _ _ _ => exact List.getElem?_modify_ne _ _ hi.symm

section Step

variable {events : List (TraceDict α)} {seen : List NudgeSlot} {st : NudgeState α}
  {slot : NudgeSlot}

/-- A slot has its times as long as its own event stays. -/
theorem HasTimes.of_getElem?_eq {events' : List (TraceDict α)} {ts dur : ℚ}
    (h : HasTimes events slot ts dur) (heq : events'[slot.idx]? = events[slot.idx]?) :
    HasTimes events' slot ts dur := by
  obtain ⟨ev, hev, htimes⟩ := h
  exact ⟨ev, heq.trans hev, htimes⟩

/-- After its turn a slot keeps its end, and starts far enough from the end before it if
    that was needed and possible. -/
theorem TurnResult.times {ev : TraceDict α} {events' : List (TraceDict α)} {n : ℕ}
    (h : TurnResult args st slot events' n) (hev : st.traceEvents[slot.idx]? = some ev)
    (hts : ev.ts = some slot.start) (hdur : ev.dur = some (slot.endUs - slot.start)) :
    ∃ ts dur, HasTimes events' slot ts dur ∧ ts + dur = slot.endUs ∧
      ∀ prevEnd, st.lastEndByTrack.get? slot.track = some prevEnd →
        -args.snapToleranceUs ≤ slot.start - prevEnd → slot.start - prevEnd ≤ args.snapToleranceUs →
        args.epsilonUs + args.snapToleranceUs < slot.endUs - slot.start →
        prevEnd + args.epsilonUs ≤ ts := by
  -- the event stays as it was, or starts after the previous end and ends where it did
  cases h with
  | keep hkeep =>
    exact ⟨slot.start, slot.endUs - slot.start, ⟨ev, hev, hts, hdur⟩, by ring, hkeep⟩
  | move prevEnd hprev hlt hroom =>
    refine ⟨prevEnd + args.epsilonUs, slot.endUs - (prevEnd + args.epsilonUs),
      ⟨_, by rw [List.getElem?_modify_eq, hev]; rfl, rfl, rfl⟩, by ring, ?_⟩
    intro prevEnd' h _ _ _
    rw [hprev] at h
    cases h
    exact le_rfl

/-- The one event that may differ after a turn is moved, and counted. -/
theorem TurnResult.kept_count {ev : TraceDict α} {events' : List (TraceDict α)} {n : ℕ}
    (h : TurnResult args st slot events' n) (hinv : NudgeInv args events seen st)
    (hev : events[slot.idx]? = some ev) (hcur : st.traceEvents[slot.idx]? = some ev)
    (hsel : args.selects ev) (hts : ev.ts = some slot.start)
    (hdur : ev.dur = some (slot.endUs - slot.start)) :
    List.Forall₂ (NudgedFrom args) events events' ∧
      n = (events.zip events').countP fun p => TimesChanged p := by
  cases h with
  | keep _ => exact ⟨hinv.kept, hinv.count⟩
  | move prevEnd _ hlt hroom =>
    constructor
    · refine hinv.kept.modify_right hev hcur ⟨rfl, rfl, rfl, rfl, rfl, .inr ⟨hsel, ?_⟩⟩
      exact ⟨_, _, _, _, hts, hdur, rfl, rfl, by linarith, hlt, by ring, by linarith⟩
    · -- one more event has changed, since the new start is later
      rw [hinv.count]
      refine (List.countP_zip_modify hev hcur (by simp [TimesChanged]) ?_).symm
      simp only [TimesChanged, hts, decide_eq_true_eq]
      exact .inl fun heq => absurd (Option.some.inj heq) hlt.ne

/-- A turn keeps the invariant, since no slot comes twice. -/
theorem NudgeInv.turn (h : NudgeInv args events seen st) (hslot : SlotOf args events slot)
    (hnew : slot.idx ∉ seen.map (·.idx)) :
    NudgeInv args events (seen ++ [slot]) (nudgeTurn args st slot) := by
  obtain ⟨ev, hev, hsel, hts, hdur⟩ := hslot
  have hcur : st.traceEvents[slot.idx]? = some ev := (h.fresh _ hnew).trans hev
  obtain ⟨hlast, hresult⟩ := nudgeTurn_spec args hcur hdur
  -- the turn changes no event but that of its slot
  have hne : ∀ s ∈ seen, s.idx ≠ slot.idx := by
    intro s hs heq
    exact hnew (heq ▸ List.mem_map_of_mem hs)
  have hsame : ∀ s ∈ seen, (nudgeTurn args st slot).traceEvents[s.idx]? =
      st.traceEvents[s.idx]? := fun s hs => hresult.getElem?_of_ne (hne s hs)
  obtain ⟨ts, dur, htimes, hend, hgap⟩ := hresult.times hcur hts hdur
  obtain ⟨hkept, hcount⟩ := hresult.kept_count h hev hcur hsel hts hdur
  refine ⟨hkept, ?_, hcount, ?_, ?_, ?_⟩
  · intro i hi
    rw [List.map_append, List.mem_append, not_or] at hi
    rw [hresult.getElem?_of_ne (by simpa using hi.2), h.fresh i hi.1]
  · intro track
    rw [hlast, Dict.get?_alter, List.filter_append]
    by_cases htrack : slot.track = track
    · rw [if_pos htrack.symm, List.filter_cons_of_pos (by simpa using htrack)]
      simp
    · rw [if_neg fun heq => htrack heq.symm, List.filter_cons_of_neg (by simpa using htrack),
        h.last]
      simp
  · intro s hs
    obtain hs | hs := List.mem_append.mp hs
    · obtain ⟨ts', dur', htimes', hend'⟩ := h.ends s hs
      exact ⟨ts', dur', htimes'.of_getElem?_eq (hsame s hs), hend'⟩
    · rw [List.mem_singleton.mp hs]
      exact ⟨ts, dur, htimes, hend⟩
  · intro a b before after hsplit hneed
    -- two slots that were next to each other before this turn
    have hold : ∀ after, seen.filter (·.track = b.track) = before ++ a :: b :: after →
        ∃ ts dur, HasTimes (nudgeTurn args st slot).traceEvents b ts dur ∧
          a.endUs + args.epsilonUs ≤ ts := by
      intro after hseen
      have hb : b ∈ seen := by
        apply List.mem_of_mem_filter (p := fun s => decide (s.track = b.track))
        rw [hseen]
        simp
      obtain ⟨ts', dur', htimes', hfar⟩ := h.apart a b before after hseen hneed
      exact ⟨ts', dur', htimes'.of_getElem?_eq (hsame b hb), hfar⟩
    rw [List.filter_append] at hsplit
    by_cases htrack : slot.track = b.track
    · rw [List.filter_cons_of_pos (by simpa using htrack), List.filter_nil,
        List.append_cons before a] at hsplit
      obtain ⟨hseen, rfl, -⟩ | ⟨after', -, hseen⟩ := List.concat_eq_append_cons hsplit
      · -- `b` is the slot of this turn, and `a` the last one of its track
        refine ⟨ts, dur, htimes, hgap a.endUs ?_ hneed.lower hneed.upper hneed.room⟩
        rw [h.last, hseen]
        simp
      · rw [← List.append_cons] at hseen
        exact hold after' hseen
    · rw [List.filter_cons_of_neg (by simpa using htrack), List.filter_nil, List.append_nil]
        at hsplit
      exact hold after hsplit

end Step

/-- The loop over slots of different places. -/
theorem nudgeInv_foldl (args : NudgeArgs) (events : List (TraceDict α)) {slots : List NudgeSlot}
    (hslots : ∀ slot ∈ slots, SlotOf args events slot) (hnodup : (slots.map (·.idx)).Nodup) :
    NudgeInv args events slots (slots.foldl (nudgeTurn args) { traceEvents := events }) := by
  induction slots using List.reverseRecOn with
  | nil => exact nudgeInv_nil args events
  | append_singleton seen slot ih =>
    rw [List.map_append, List.map_singleton, List.nodup_append] at hnodup
    rw [List.foldl_concat]
    refine (ih (fun s hs => hslots s (List.mem_append_left _ hs)) hnodup.1).turn
      (hslots slot (by simp)) fun hmem => ?_
    exact hnodup.2.2 _ hmem _ (List.mem_singleton_self _) rfl

/-- `nudge_equal_boundaries` returns exactly when the ids of its slots compare, and then it
    has nudged safely. -/
theorem nudgeEqualBoundaries_safe (args : NudgeArgs) (events : List (TraceDict α)) :
    ((∃ r, nudgeEqualBoundaries args events = .ok r) ↔
      ∀ slot ∈ nudgeSlots args events, ∀ slot' ∈ nudgeSlots args events,
        slot.Comparable slot') ∧
    ∀ events' nudged, nudgeEqualBoundaries args events = .ok (events', nudged) →
      SafeNudge args events events' nudged := by
  unfold nudgeEqualBoundaries sortNudgeSlots
  split
  · next hcomp =>
    refine ⟨⟨fun _ => hcomp, fun _ => ⟨_, rfl⟩⟩, ?_⟩
    intro events' nudged h
    cases h
    have hperm := List.sortBy_perm NudgeSlot.key (nudgeSlots args events)
    have hinv := nudgeInv_foldl args events
      (fun slot hslot => slotOf_of_mem (List.mem_sortBy.mp hslot))
      ((hperm.map (·.idx)).nodup_iff.mpr (nodup_idx args events))
    refine ⟨hinv.kept, hinv.count, fun a b hab hneed => ?_⟩
    obtain ⟨before, after, hsplit⟩ := hab
    have ha : a ∈ trackSlots args events b.track := by
      rw [hsplit]
      simp
    -- the end of the slot before is the one it had, and so the one it has
    obtain ⟨ts, dur, htimes, hend⟩ := hinv.ends a (List.mem_of_mem_filter ha)
    obtain ⟨ts', dur', htimes', hfar⟩ := hinv.apart a b before after hsplit hneed
    exact ⟨ts, dur, ts', dur', htimes, htimes', hend ▸ hfar⟩
  · next hcomp =>
    constructor
    · constructor
      · intro hx
        obtain ⟨r, h⟩ := hx
        cases h
      · intro h
        exact absurd h hcomp
    · intro events' nudged h
      cases h

/-- Two slices of a request that touch, on one track, and one on another track. -/
def touchingSlices : List (TraceDict Unit) :=
  [{ ph := "X", cat := "request_dispatch", pid := some 11000, tid := some 7, ts := some 10,
     dur := some 5, other := () },
   { ph := "X", cat := "request_queue", pid := some 11000, tid := some 7, ts := some 0,
     dur := some 10, other := () },
   { ph := "X", cat := "request_queue", pid := some 11000, tid := some 8, ts := some 10,
     dur := some 5, other := () }]

/-- The later of the two is nudged. -/
theorem nudgeEqualBoundaries_safe_touching :
    SafeNudge { targetPid := some 11000, epsilonUs := 1, snapToleranceUs := 1 } touchingSlices
      [{ ph := "X", cat := "request_dispatch", pid := some 11000, tid := some 7, ts := some 11,
         dur := some 4, other := () },
       { ph := "X", cat := "request_queue", pid := some 11000, tid := some 7, ts := some 0,
         dur := some 10, other := () },
       { ph := "X", cat := "request_queue", pid := some 11000, tid := some 8, ts := some 10,
         dur := some 5, other := () }] 1 :=
  (nudgeEqualBoundaries_safe _ touchingSlices).2 _ _ (by decide +kernel)

end DeLatency
