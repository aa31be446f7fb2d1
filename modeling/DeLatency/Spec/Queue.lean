import DeLatency.Converter.Queue
import DeLatency.ForStd.Gaps
import DeLatency.Spec.Times

/-!
# Queue slices and the gaps between dispatches

The queue stage reads the dispatch times a second time and turns exactly the positive
gaps between consecutive dispatches into slices (`stepReady_spans`), next to the wait
from the enqueue to the first dispatch.  Consecutive means in start order, so on
nanosecond times a slice is really free of dispatches when the dispatches are
`GapsFree`, and only then (`queue_free_iff`).
-/

namespace DeLatency

open Intervals

/-- The stretch of a queue slice. -/
def QueueInterval.span (q : QueueInterval) : ℤ × ℤ := (q.startNs, q.endNs)

/-- The windows of the dispatches in start order. -/
def sortedWindows (dispatches : List DispatchInterval) : List (ℤ × ℤ) :=
  (sortDispatches dispatches).map DispatchInterval.window

/-- The windows as the queue stage reads them. -/
def readWindows (dispatches : List DispatchInterval) : List (ℤ × ℤ) :=
  (sortedWindows dispatches).map readSpan

/-- The slice of a positive gap between two dispatches. -/
def gapSlice (preemptTs : List ℤ) (pair : DispatchInterval × DispatchInterval) : QueueInterval :=
  let prevEnd := readNs pair.1.endNs
  let nextStart := readNs pair.2.startNs
  let hits := preemptHits preemptTs prevEnd nextStart
  { startNs := prevEnd
    endNs := nextStart
    -- a preemption inside the gap names the slice
    reason := if hits ≠ [] then "scheduled_preempt_wait" else "scheduled_step_ready_wait"
    scheduledFrom := .stepReady
    gapKind := if hits ≠ [] then .preemptWait else .normalWait
    preemptTsNs := hits
    prevDispatchKey := pair.1.dispatchKey
    nextDispatchKey := pair.2.dispatchKey }

/-- The gap of a neighbouring pair is positive, as it is read. -/
def PositiveGap (pair : DispatchInterval × DispatchInterval) : Prop :=
  readNs pair.1.endNs < readNs pair.2.startNs

instance : DecidablePred PositiveGap := fun _ => inferInstanceAs (Decidable (_ < _))

variable {dispatches : List DispatchInterval} {preemptTs : List ℤ} {enqueueTs : Option ℤ}

/-! ## The loop -/

/-- Sorting adds and drops no dispatch. -/
theorem mem_sortDispatches {d : DispatchInterval} :
    d ∈ sortDispatches dispatches ↔ d ∈ dispatches :=
  List.mem_sortBy

/-- The windows are in order of start. -/
theorem pairwise_sortedWindows (dispatches : List DispatchInterval) :
    (sortedWindows dispatches).Pairwise fun p q => p.1 ≤ q.1 :=
  List.pairwise_map.mpr ((List.pairwise_sortBy dispatchKeyOrder dispatches).imp
    fun {_ _} h => fst_le_of_startEndKey h)

/-- The windows are those of the dispatches. -/
theorem mem_sortedWindows {p : ℤ × ℤ} :
    p ∈ sortedWindows dispatches ↔ ∃ d ∈ dispatches, d.window = p := by
  simp [sortedWindows, mem_sortDispatches]

/-- Nanosecond windows are read as they stand. -/
theorem readWindows_eq (hd : ∀ d ∈ dispatches, NsSpan d.window) :
    readWindows dispatches = sortedWindows dispatches := by
  have hid : ∀ p ∈ sortedWindows dispatches, readSpan p = p := by
    intro p hp
    obtain ⟨d, hmem, rfl⟩ := mem_sortedWindows.mp hp
    exact (hd d hmem).readSpan
  rw [readWindows, List.map_congr_left hid, List.map_id']

/-- One turn adds the slice of its gap, if the gap is positive. -/
private theorem gapWait_intervals (q : ReqQueue) {pair : DispatchInterval × DispatchInterval}
    (hp : 0 < pair.1.endNs) (hn : 0 < pair.2.startNs) :
    (gapWait preemptTs q pair).intervals =
      q.intervals ++ ([pair].filter PositiveGap).map (gapSlice preemptTs) := by
  simp only [gapWait, toNsInt_eq_readNs hp, toNsInt_eq_readNs hn]
  split
  · -- the dispatches overlap
    next h => simp [PositiveGap, not_lt.mpr h.le]
  · split
    · -- they touch
      next h => simp [PositiveGap, h]
    · next h h' =>
      have hlt : PositiveGap pair := by unfold PositiveGap; omega
      simp [hlt, gapSlice]

/-- The loop adds a slice for every positive gap. -/
private theorem foldl_gapWait_intervals (pairs : List (DispatchInterval × DispatchInterval))
    (q : ReqQueue) (hpos : ∀ pr ∈ pairs, 0 < pr.1.endNs ∧ 0 < pr.2.startNs) :
    (pairs.foldl (gapWait preemptTs) q).intervals =
      q.intervals ++ (pairs.filter PositiveGap).map (gapSlice preemptTs) := by
  induction pairs generalizing q with
  | nil => simp
  | cons pr rest ih =>
    obtain ⟨hp, hn⟩ := hpos pr List.mem_cons_self
    rw [List.foldl_cons, ih _ fun x hx => hpos x (List.mem_cons_of_mem _ hx),
      gapWait_intervals q hp hn, List.append_assoc, ← List.map_append, ← List.filter_append]
    rfl

/-- The positive gaps between neighbours are the gaps of the windows. -/
private theorem map_gapSlice_span (preemptTs : List ℤ) (l : List DispatchInterval) :
    (((l.zip l.tail).filter PositiveGap).map (gapSlice preemptTs)).map QueueInterval.span =
      gaps ((l.map DispatchInterval.window).map readSpan) := by
  induction l with
  | nil => rfl
  | cons d rest ih =>
    cases rest with
    | nil => rfl
    | cons d' rest =>
      simp only [List.tail_cons, List.zip_cons_cons, List.map_cons, gaps] at ih ⊢
      -- a slice for a gap that takes time, nothing for any other
      by_cases hlt : PositiveGap (d, d')
      · rw [List.filter_cons_of_pos (by simpa using hlt),
          if_pos (show (readSpan d.window).2 < (readSpan d'.window).1 from hlt),
          List.map_cons, List.map_cons, ih]
        rfl
      · rw [List.filter_cons_of_neg (by simpa using hlt),
          if_neg (show ¬(readSpan d.window).2 < (readSpan d'.window).1 from hlt), ih]

/-! ## The slices -/

/-- The slice from the enqueue to the first dispatch, if there is one. -/
def enqueueSlice (enqueueTs : Option ℤ) (first : Option DispatchInterval) : List QueueInterval :=
  match first, enqueueTs with
  | some first, some enqueueTs =>
    if enqueueTs < readNs first.startNs then [{
      startNs := enqueueTs
      endNs := readNs first.startNs
      reason := "scheduled_enqueue_wait"
      scheduledFrom := .enqueue
      gapKind := .normalWait
      nextDispatchKey := first.dispatchKey }] else []
  | _, _ => []

/-- The slice from the enqueueing to the first dispatch, when there is one. -/
theorem mem_enqueueSlice {first : Option DispatchInterval} {q : QueueInterval}
    (hq : q ∈ enqueueSlice enqueueTs first) :
    q.scheduledFrom = .enqueue ∧ ∃ d e, first = some d ∧ enqueueTs = some e ∧
      q.span = (e, readNs d.startNs) ∧ e < readNs d.startNs := by
  unfold enqueueSlice at hq
  split at hq
  · next d e =>
    split at hq
    · -- a slice is drawn only for a dispatch after the enqueue
      next hlt =>
      rw [List.mem_singleton] at hq
      subst hq
      exact ⟨rfl, d, e, rfl, rfl, rfl, hlt⟩
    · simp at hq
  · simp at hq

/-- The slices of a request: at most one from the enqueue to the first dispatch,
    then one for every positive gap. -/
theorem buildQueue_intervals (hpos : ∀ d ∈ dispatches, 0 < d.startNs ∧ d.startNs < d.endNs) :
    (buildQueue enqueueTs preemptTs dispatches).intervals =
      enqueueSlice enqueueTs (sortDispatches dispatches).head? ++
        (((sortDispatches dispatches).zip (sortDispatches dispatches).tail).filter
          PositiveGap).map (gapSlice preemptTs) := by
  have hpos' : ∀ d ∈ sortDispatches dispatches, 0 < d.startNs ∧ d.startNs < d.endNs :=
    fun d hmem => hpos d (mem_sortDispatches.mp hmem)
  unfold buildQueue
  cases hsort : sortDispatches dispatches with
  | nil => rfl
  | cons first rest =>
    rw [hsort] at hpos'
    have hfirst : toNsInt first.startNs = some (readNs first.startNs) :=
      toNsInt_eq_readNs (hpos' first List.mem_cons_self).1
    simp only
    rw [foldl_gapWait_intervals _ _ fun pr hpr => ?_]
    · -- the loop starts from the slice of the enqueue
      simp only [List.head?_cons, List.tail_cons, enqueueWait, hfirst, enqueueSlice]
      congr 1
      cases enqueueTs with
      | none => rfl
      | some e =>
        simp only
        split
        · rfl
        · rfl
    · obtain ⟨h1, h2⟩ := List.of_mem_zip hpr
      exact ⟨(hpos' _ h1).1.trans (hpos' _ h1).2, (hpos' _ (List.mem_cons_of_mem _ h2)).1⟩

/-- The step-ready slices cover exactly the gaps between consecutive dispatches, as
    they are read. -/
theorem stepReady_spans (hpos : ∀ d ∈ dispatches, 0 < d.startNs ∧ d.startNs < d.endNs) :
    ((buildQueue enqueueTs preemptTs dispatches).intervals.filter
      (·.scheduledFrom = .stepReady)).map QueueInterval.span = gaps (readWindows dispatches) := by
  -- the slice from the enqueueing is marked otherwise
  have hnone : (enqueueSlice enqueueTs (sortDispatches dispatches).head?).filter
      (·.scheduledFrom = .stepReady) = [] := by
    rw [List.filter_eq_nil_iff]
    intro q hq
    rw [(mem_enqueueSlice hq).1]
    decide
  have hall : ∀ pairs : List (DispatchInterval × DispatchInterval),
      (pairs.map (gapSlice preemptTs)).filter (·.scheduledFrom = .stepReady) =
        pairs.map (gapSlice preemptTs) := by
    intro pairs
    rw [List.filter_eq_self]
    intro q hq
    obtain ⟨pr, -, rfl⟩ := List.mem_map.mp hq
    rfl
  rw [buildQueue_intervals hpos, List.filter_append, hnone, hall, List.nil_append, readWindows,
    sortedWindows, ← map_gapSlice_span preemptTs]

/-- Every slice is a gap between consecutive dispatches or the wait from the enqueue
    to the first one. -/
theorem mem_spans_buildQueue (hpos : ∀ d ∈ dispatches, 0 < d.startNs ∧ d.startNs < d.endNs)
    {g : ℤ × ℤ} :
    g ∈ (buildQueue enqueueTs preemptTs dispatches).intervals.map QueueInterval.span ↔
      g ∈ gaps (readWindows dispatches) ∨ ∃ e ∈ enqueueTs, ∃ p ∈ (sortedWindows dispatches).head?,
        e < readNs p.1 ∧ g = (e, readNs p.1) := by
  rw [buildQueue_intervals hpos, List.map_append, List.mem_append, map_gapSlice_span, or_comm]
  apply or_congr_right
  rw [sortedWindows, List.head?_map]
  -- the first slice is there when the enqueueing was before the first dispatch
  constructor
  · intro hg
    obtain ⟨q, hq, rfl⟩ := List.mem_map.mp hg
    obtain ⟨-, d, e, hfirst, rfl, hspan, hlt⟩ := mem_enqueueSlice hq
    exact ⟨e, rfl, d.window, by rw [hfirst]; rfl, hlt, hspan⟩
  · intro h
    obtain ⟨e, he, p, hp, hlt, rfl⟩ := h
    obtain ⟨d, hfirst, rfl⟩ := Option.map_eq_some_iff.mp hp
    cases he
    rw [hfirst]
    simp only [enqueueSlice, if_pos (show e < readNs d.startNs from hlt), List.map_cons,
      List.map_nil, List.mem_singleton]
    rfl

/-- The first window starts no later than any other. -/
theorem head_sortedWindows_le {p q : ℤ × ℤ} (hp : p ∈ (sortedWindows dispatches).head?)
    (hq : q ∈ sortedWindows dispatches) : p.1 ≤ q.1 := by
  have hsorted := pairwise_sortedWindows dispatches
  obtain ⟨rest, heq⟩ := List.head?_eq_some_iff.mp hp
  rw [heq] at hq hsorted
  exact hsorted.head_key_le hq

/-! ## Free slices -/

/-- No queue slice of the request overlaps one of its dispatches. -/
def QueueFree (log : Log) (rid : String) : Prop :=
  ∀ q ∈ queueIntervals log rid, ∀ d ∈ reqDispatchIntervals log rid, ¬Meets q.span d.window

instance (log : Log) (rid : String) : Decidable (QueueFree log rid) :=
  inferInstanceAs (Decidable (∀ q ∈ _, ∀ d ∈ _, ¬Meets _ _))

/-- Whenever a window ends before its successor starts, both times read again, and
    likewise between the enqueue and the first window, every window is over by the
    first of the two times or starts at the second or later. -/
structure ReadGapsFree (enqueueTs : Option ℤ) (windows : List (ℤ × ℤ)) : Prop where
  betweenDispatches : ∀ before p q after, windows = before ++ p :: q :: after →
    readNs p.2 < readNs q.1 → ∀ d ∈ windows, d.2 ≤ readNs p.2 ∨ readNs q.1 ≤ d.1
  afterEnqueue : ∀ e ∈ enqueueTs, ∀ first ∈ windows.head?, e < readNs first.1 →
    ∀ d ∈ windows, d.2 ≤ e ∨ readNs first.1 ≤ d.1

/-- Two stretches that do not meet lie one after the other. -/
private theorem not_meets_iff {g d : ℤ × ℤ} (hg : g.1 < g.2) (hd : d.1 < d.2) :
    ¬Meets g d ↔ d.2 ≤ g.1 ∨ g.2 ≤ d.1 := by
  unfold Meets
  omega

/-- A gap lies between two windows that follow each other in start order. -/
theorem mem_gaps_readWindows {g : ℤ × ℤ} :
    g ∈ gaps (readWindows dispatches) ↔ ∃ before p q after,
      sortedWindows dispatches = before ++ p :: q :: after ∧ readNs p.2 < readNs q.1 ∧
        g = (readNs p.2, readNs q.1) := by
  rw [mem_gaps]
  constructor
  · intro h
    obtain ⟨before, p, q, after, heq, hlt, rfl⟩ := h
    -- split the windows where their readings are split
    obtain ⟨before', tail, heq', rfl, htail⟩ := List.map_eq_append_iff.mp heq
    obtain ⟨p', tail', rfl, rfl, htail'⟩ := List.map_eq_cons_iff.mp htail
    obtain ⟨q', after', rfl, rfl, rfl⟩ := List.map_eq_cons_iff.mp htail'
    exact ⟨before', p', q', after', heq', hlt, rfl⟩
  · intro h
    obtain ⟨before, p, q, after, heq, hlt, rfl⟩ := h
    refine ⟨before.map readSpan, readSpan p, readSpan q, after.map readSpan, ?_, hlt, rfl⟩
    rw [readWindows, heq, List.map_append, List.map_cons, List.map_cons]

/-- The slices are free of the dispatches exactly when the gaps are, as they are read. -/
theorem slices_free_iff (hpos : ∀ d ∈ dispatches, 0 < d.startNs ∧ d.startNs < d.endNs) :
    (∀ q ∈ (buildQueue enqueueTs preemptTs dispatches).intervals, ∀ d ∈ dispatches,
      ¬Meets q.span d.window) ↔ ReadGapsFree enqueueTs (sortedWindows dispatches) := by
  have hwindow : ∀ d ∈ sortedWindows dispatches, d.1 < d.2 := by
    intro p hp
    obtain ⟨d, hmem, rfl⟩ := mem_sortedWindows.mp hp
    exact (hpos d hmem).2
  have hspans : (∀ q ∈ (buildQueue enqueueTs preemptTs dispatches).intervals, ∀ d ∈ dispatches,
      ¬Meets q.span d.window) ↔
      ∀ g ∈ (buildQueue enqueueTs preemptTs dispatches).intervals.map QueueInterval.span,
        ∀ d ∈ sortedWindows dispatches, ¬Meets g d := by
    simp only [List.forall_mem_map, mem_sortedWindows, forall_exists_index, and_imp,
      forall_apply_eq_imp_iff₂]
  rw [hspans]
  -- each slice is one of the two kinds that `ReadGapsFree` speaks of
  simp only [mem_spans_buildQueue hpos, mem_gaps_readWindows]
  constructor
  · intro h
    constructor
    · intro before p q after heq hlt d hd
      exact (not_meets_iff hlt (hwindow d hd)).mp
        (h _ (.inl ⟨before, p, q, after, heq, hlt, rfl⟩) d hd)
    · intro e he first hfirst hlt d hd
      exact (not_meets_iff hlt (hwindow d hd)).mp (h _ (.inr ⟨e, he, first, hfirst, hlt, rfl⟩) d hd)
  · intro h g hx d hd
    obtain ⟨before, p, q, after, heq, hlt, rfl⟩ | ⟨e, he, first, hfirst, hlt, rfl⟩ := hx
    · exact (not_meets_iff hlt (hwindow d hd)).mpr
        (h.betweenDispatches before p q after heq hlt d hd)
    · exact (not_meets_iff hlt (hwindow d hd)).mpr (h.afterEnqueue e he first hfirst hlt d hd)

/-! ## Slices on nanosecond times -/

section NsDispatches

variable (hd : ∀ d ∈ dispatches, NsSpan d.window ∧ d.startNs < d.endNs)

include hd

/-- In nanoseconds every dispatch takes time. -/
theorem pos_of_nsSpan : ∀ d ∈ dispatches, 0 < d.startNs ∧ d.startNs < d.endNs := by
  intro d hmem
  have hstart : 10 ^ 14 < d.startNs := (hd d hmem).1.start
  exact ⟨by omega, (hd d hmem).2⟩

/-- In nanoseconds every window takes time. -/
theorem pos_sortedWindows : ∀ p ∈ sortedWindows dispatches, p.1 < p.2 := by
  intro p hp
  obtain ⟨d, hmem, rfl⟩ := mem_sortedWindows.mp hp
  exact (hd d hmem).2

/-- On nanosecond times only an earlier window that lasts longer can reach into a gap. -/
theorem readGapsFree_iff :
    ReadGapsFree enqueueTs (sortedWindows dispatches) ↔ GapsFree (sortedWindows dispatches) := by
  have hread : ∀ p ∈ sortedWindows dispatches, readNs p.1 = p.1 ∧ readNs p.2 = p.2 := by
    intro p hp
    obtain ⟨d, hmem, rfl⟩ := mem_sortedWindows.mp hp
    exact ⟨(hd d hmem).1.start.readNs, (hd d hmem).1.finish.readNs⟩
  rw [← gaps_not_meets_iff (pos_sortedWindows hd) (pairwise_sortedWindows dispatches)]
  constructor
  · -- a gap, read as it stands, is one of the stretches between dispatches
    intro h g hg d hmem
    obtain ⟨before, p, q, after, heq, hlt, rfl⟩ := mem_gaps.mp hg
    have hp := hread p (by rw [heq]; simp)
    have hq := hread q (by rw [heq]; simp)
    rw [not_meets_iff hlt (pos_sortedWindows hd d hmem), ← hp.2, ← hq.1]
    exact h.betweenDispatches before p q after heq (by rw [hp.2, hq.1]; exact hlt) d hmem
  · intro h
    constructor
    · intro before p q after heq hlt d hmem
      rw [(hread p (by rw [heq]; simp)).2, (hread q (by rw [heq]; simp)).1] at hlt ⊢
      exact (not_meets_iff hlt (pos_sortedWindows hd d hmem)).mp
        (h _ (mem_gaps.mpr ⟨before, p, q, after, heq, hlt, rfl⟩) d hmem)
    · -- the wait from the enqueue ends before any dispatch
      intro e _ first hfirst _ d hmem
      rw [(hread first (List.mem_of_mem_head? hfirst)).1]
      exact .inr (head_sortedWindows_le hfirst hmem)

/-- The queue slices of a request do not overlap one another. -/
theorem pairwise_disjoint_slices :
    ((buildQueue enqueueTs preemptTs dispatches).intervals.map QueueInterval.span).Pairwise
      fun p q => Disjoint (Finset.Ico p.1 p.2) (Finset.Ico q.1 q.2) := by
  have hread : (sortDispatches dispatches).map DispatchInterval.window = sortedWindows dispatches :=
    rfl
  have hns := readWindows_eq fun d hmem => (hd d hmem).1
  rw [readWindows] at hns
  apply pairwise_disjoint_of_le
  rw [buildQueue_intervals (pos_of_nsSpan hd), List.map_append, map_gapSlice_span, hread, hns]
  refine List.pairwise_append.mpr
    ⟨?_, pairwise_gaps (pos_sortedWindows hd) (pairwise_sortedWindows dispatches),
      fun p hp g hg => ?_⟩
  · -- there is at most one slice from the enqueue
    unfold enqueueSlice
    split
    · split
      · exact List.pairwise_singleton _ _
      · exact List.Pairwise.nil
    · exact List.Pairwise.nil
  · -- the enqueue wait ends at the first start, every gap begins after some end
    obtain ⟨q, hq, rfl⟩ := List.mem_map.mp hp
    obtain ⟨-, first, e, hfirst, -, hspan, -⟩ := mem_enqueueSlice hq
    obtain ⟨before, d, d', after, heq, -, rfl⟩ := mem_gaps.mp hg
    have hmem : d ∈ sortedWindows dispatches := by rw [heq]; simp
    have hhead : first.window ∈ (sortedWindows dispatches).head? := by
      rw [← hread, List.head?_map, hfirst]
      rfl
    have hle : first.startNs ≤ d.1 := head_sortedWindows_le hhead hmem
    have hlt := pos_sortedWindows hd d hmem
    obtain ⟨f, hf, hfeq⟩ := mem_sortedWindows.mp (List.mem_of_mem_head? hhead)
    have hstart : NsTime first.startNs := by
      have hns := (hd f hf).1.start
      rwa [hfeq] at hns
    rw [hspan]
    show readNs first.startNs ≤ d.2
    rw [hstart.readNs]
    omega

end NsDispatches

/-- The slices of a request are free of its dispatches exactly when its gaps are, as
    they are read; on nanosecond times, exactly when every dispatch that ends before
    its successor in start order starts is the last to end so far. -/
theorem queue_free_iff (log : Log) (rid : String) :
    (QueueFree log rid ↔ ReadGapsFree ((reqEnqueueMap log.schedulerEvents rid).bind toNsInt)
      (sortedWindows (reqDispatchIntervals log rid))) ∧
    (SchedulerInNs log →
      (QueueFree log rid ↔ GapsFree (sortedWindows (reqDispatchIntervals log rid)))) := by
  -- the general condition speaks of the converted windows
  have hfree : QueueFree log rid ↔
      ReadGapsFree ((reqEnqueueMap log.schedulerEvents rid).bind toNsInt)
        (sortedWindows (reqDispatchIntervals log rid)) :=
    slices_free_iff fun _ hmem => pos_of_mem_dispatches hmem
  refine ⟨hfree, fun h => ?_⟩
  -- on nanosecond logs the conversion changes nothing
  rw [hfree]
  exact readGapsFree_iff fun _ hmem => nsSpan_of_mem_dispatches h hmem

/-- Three batches of one request: the second runs inside the first, which lasts
    until after the third. -/
def nestedLog : Log :=
  [("a", 1700000000000000000, 1700000000100000000),
    ("b", 1700000000010000000, 1700000000020000000),
    ("c", 1700000000050000000, 1700000000060000000)].flatMap fun (key, outNs, readyNs) => [
      { event := .scheduler {
          type := .reqSchedulerOutRpc
          timestampNs := some outNs
          reqIds := ["r"]
          dispatchKey := some key } },
      { event := .scheduler {
          type := .reqStepReady
          timestampNs := some readyNs
          reqIds := ["r"]
          dispatchKey := some key } }]

/-- The slice between the second and third batch lies inside the first. -/
theorem nestedLog_not_queueFree : ¬QueueFree nestedLog "r" := by decide

/-- A dispatch inside another: the gap after the inner one is not free. -/
theorem queue_free_iff_nested :
    QueueFree nestedLog "r" ↔ GapsFree (sortedWindows (reqDispatchIntervals nestedLog "r")) :=
  (queue_free_iff nestedLog "r").2 (schedulerInNs_of_times (by decide))

end DeLatency
