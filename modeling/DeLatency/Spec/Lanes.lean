import DeLatency.Converter.Lanes
import DeLatency.ForStd.ListExtra
import Mathlib.Algebra.Order.Archimedean.Real.Basic

/-!
# Lanes of the request tracks: what they guarantee

The lane assignment is a colouring of the valid intervals with as few lanes as
possible (`assignNonOverlappingLanes_optimal`).  The thread ids built from the
lane counts are distinct exactly while the lanes stay inside their blocks of
thread ids (`nodup_requestTrackTids_iff`).
-/

namespace DeLatency

/-- The position holds an interval with this span. -/
def SpanAt (intervals : List RawInterval) (i : ℕ) (p : ℤ × ℤ) : Prop :=
  ∃ item, intervals[i]? = some item ∧ item.span = some p

open Classical in
/-- How many of the valid intervals are on at an instant. -/
noncomputable def sharing (intervals : List RawInterval) (t : ℝ) : ℕ :=
  intervals.countP fun item => ∃ p ∈ item.span, (p.1 : ℝ) ≤ t ∧ t < p.2

/-! ## The sorted entries -/

/-- The positions with their intervals, in the order in which the lanes are given. -/
private def orderedEntries (intervals : List RawInterval) : List (RawInterval × ℕ) :=
  intervals.zipIdx.sortBy laneSortKey

/-- Each interval stands in the order with its own position. -/
private theorem mem_orderedEntries {intervals : List RawInterval} {entry : RawInterval × ℕ} :
    entry ∈ orderedEntries intervals ↔ intervals[entry.2]? = some entry.1 := by
  rw [orderedEntries, List.mem_sortBy, List.mem_zipIdx_iff_getElem?]

/-- No position stands there twice. -/
private theorem nodup_orderedEntries (intervals : List RawInterval) :
    ((orderedEntries intervals).map Prod.snd).Nodup := by
  have hperm := (List.sortBy_perm laneSortKey intervals.zipIdx).map Prod.snd
  rw [orderedEntries, hperm.nodup_iff, List.zipIdx_map_snd]
  exact List.nodup_range'

/-- An interval is placed when both its times are read and it takes time. -/
theorem RawInterval.span_eq_some {item : RawInterval} {p : ℤ × ℤ} :
    item.span = some p ↔ toNs item.startNs = some p.1 ∧ toNs item.endNs = some p.2 ∧ p.1 < p.2 := by
  unfold RawInterval.span
  split
  · next s e hs he =>
    rw [hs, he]
    split
    · -- both times are read, but the interval takes no time
      next hle =>
      simp only [false_iff, Option.some.injEq, reduceCtorEq]
      intro h
      obtain ⟨rfl, rfl, hlt⟩ := h
      omega
    · next hlt =>
      simp only [Option.some.injEq]
      constructor
      · intro h
        subst h
        exact ⟨rfl, rfl, not_le.mp hlt⟩
      · intro h
        obtain ⟨rfl, rfl, -⟩ := h
        rfl
  · -- one of the times is not read
    next hnone =>
    simp only [reduceCtorEq, false_iff]
    intro h
    obtain ⟨hs, he, -⟩ := h
    exact hnone _ _ hs he

/-- The entries stand in the order of their starts. -/
private theorem sorted_orderedEntries (intervals : List RawInterval) :
    (orderedEntries intervals).Pairwise fun a b =>
      ∀ p ∈ a.1.span, ∀ q ∈ b.1.span, p.1 ≤ q.1 := by
  apply (List.pairwise_sortBy laneSortKey intervals.zipIdx).imp
  intro a b hab p hp q hq
  have hstart := Prod.Lex.monotone_fst _ _ hab
  simpa [laneSortKey, (RawInterval.span_eq_some.mp hp).1, (RawInterval.span_eq_some.mp hq).1]
    using hstart

/-- The lanes as the loop gives them. -/
private def firstFitLanes (intervals : List RawInterval) : List ℤ × List ((RawInterval × ℕ) × ℕ) :=
  Intervals.firstFit (fun entry => entry.1.span) (orderedEntries intervals)

/-- A placed interval takes time. -/
private theorem span_lt (entry : RawInterval × ℕ) : ∀ p ∈ entry.1.span, p.1 < p.2 :=
  fun _ hp => (RawInterval.span_eq_some.mp hp).2.2

/-- Every position has its lane in the result. -/
private theorem exists_lane {intervals : List RawInterval} {i : ℕ} {item : RawInterval}
    (hi : intervals[i]? = some item) :
    ∃ k, ((item, i), k) ∈ (firstFitLanes intervals).2 ∧
      (assignNonOverlappingLanes intervals).1[i]? = some k := by
  -- the first fit gives every interval of the order a lane
  have hmap : (firstFitLanes intervals).2.map Prod.fst = orderedEntries intervals :=
    Intervals.map_fst_firstFit _
  have hmem : (item, i) ∈ (firstFitLanes intervals).2.map Prod.fst := by
    rw [hmap]
    exact mem_orderedEntries.mpr hi
  obtain ⟨⟨entry, k⟩, ha, rfl⟩ := List.mem_map.mp hmem
  -- the answers are written to the positions, and no position twice
  have hnodup : ((firstFitLanes intervals).2.map fun a => a.1.2).Nodup := by
    have := nodup_orderedEntries intervals
    rwa [← hmap, List.map_map] at this
  have hlt : i < (List.replicate intervals.length 0).length := by
    rw [List.length_replicate]
    exact (List.getElem?_eq_some_iff.mp hi).1
  exact ⟨k, ha, List.getElem?_foldl_set_of_mem hnodup ha hlt⟩

/-- Two valid intervals on one lane do not overlap. -/
theorem disjoint_of_same_lane {intervals : List RawInterval} {i j : ℕ} {p q : ℤ × ℤ}
    (hi : SpanAt intervals i p) (hj : SpanAt intervals j q) (hij : i ≠ j)
    (hlane : (assignNonOverlappingLanes intervals).1[i]?
      = (assignNonOverlappingLanes intervals).1[j]?) : p.2 ≤ q.1 ∨ q.2 ≤ p.1 := by
  obtain ⟨x, hx, hp⟩ := hi
  obtain ⟨y, hy, hq⟩ := hj
  obtain ⟨k, hk, hki⟩ := exists_lane hx
  obtain ⟨l, hl, hlj⟩ := exists_lane hy
  -- the answers of the two positions are the lanes of their intervals
  have hkl : k = l := by
    rw [hki, hlj] at hlane
    exact Option.some.inj hlane
  have hne : ((x, i), k) ≠ ((y, j), l) := fun h => hij (congrArg (fun a => a.1.2) h)
  have hplaced := Intervals.placed_firstFit (fun e p hp => (span_lt e p hp).le)
    (orderedEntries intervals)
  exact hplaced.disjoint hk hl hne hkl hp hq

/-! ## The number of lanes -/

/-- At a real instant the same intervals are on as at the integer below it. -/
private theorem sharing_eq_depth (intervals : List RawInterval) (t : ℝ) :
    sharing intervals t
      = Intervals.depth (fun entry => entry.1.span) (orderedEntries intervals) ⌊t⌋ := by
  -- the order of the entries does not matter to a count
  have hperm := List.sortBy_perm laneSortKey intervals.zipIdx
  rw [orderedEntries, Intervals.depth_perm hperm, sharing, Intervals.depth]
  nth_rewrite 1 [← List.zipIdx_map_fst 0 intervals]
  rw [List.countP_map]
  apply List.countP_congr
  intro entry _
  simp only [Function.comp_apply, decide_eq_true_eq, Intervals.Holds, Int.le_floor, Int.floor_lt]

/-- At whole instants the same numbers of intervals are shared as at all instants. -/
private theorem range_sharing (intervals : List RawInterval) :
    Set.range (sharing intervals) =
      Set.range (Intervals.depth (fun entry => entry.1.span) (orderedEntries intervals)) := by
  ext n
  constructor
  · intro h
    obtain ⟨t, rfl⟩ := h
    -- the ends are integers, so a point shares what its floor shares
    exact ⟨⌊t⌋, (sharing_eq_depth intervals t).symm⟩
  · intro h
    obtain ⟨t, rfl⟩ := h
    exact ⟨t, by rw [sharing_eq_depth, Int.floor_intCast]⟩

/-- The number of lanes is the largest number of valid intervals that share an instant. -/
theorem isGreatest_laneCount (intervals : List RawInterval) :
    IsGreatest (Set.range (sharing intervals)) (assignNonOverlappingLanes intervals).2 := by
  rw [range_sharing]
  exact Intervals.isGreatest_firstFit span_lt (sorted_orderedEntries intervals)

/-- Every interval gets a lane. -/
@[simp] theorem length_assignNonOverlappingLanes (intervals : List RawInterval) :
    (assignNonOverlappingLanes intervals).1.length = intervals.length := by
  rw [assignNonOverlappingLanes]
  exact (List.length_foldl_set _ _).trans (List.length_replicate)

/-- The lanes are a colouring of the valid intervals with as few lanes as possible. -/
theorem assignNonOverlappingLanes_optimal (intervals : List RawInterval) :
    (assignNonOverlappingLanes intervals).1.length = intervals.length ∧
    (∀ i j p q, SpanAt intervals i p → SpanAt intervals j q → i ≠ j →
      (assignNonOverlappingLanes intervals).1[i]? = (assignNonOverlappingLanes intervals).1[j]? →
      p.2 ≤ q.1 ∨ q.2 ≤ p.1) ∧
    IsGreatest (Set.range (sharing intervals)) (assignNonOverlappingLanes intervals).2 := by
  refine ⟨length_assignNonOverlappingLanes intervals, ?_, isGreatest_laneCount intervals⟩
  intro i j p q hi hj hij hlane
  exact disjoint_of_same_lane hi hj hij hlane

/-! ## Thread ids -/

/-- At some instant that many of the valid intervals are on together. -/
def Crowded (n : ℕ) (intervals : List RawInterval) : Prop := ∃ t, n ≤ sharing intervals t

/-- There are at least `n` lanes exactly when `n` of the intervals share an instant. -/
theorem le_laneCount_iff {n : ℕ} {intervals : List RawInterval} :
    n ≤ (assignNonOverlappingLanes intervals).2 ↔ Crowded n intervals := by
  obtain ⟨⟨t, ht⟩, hmax⟩ := isGreatest_laneCount intervals
  constructor
  · intro hle
    exact ⟨t, ht ▸ hle⟩
  · intro h
    obtain ⟨t', hle⟩ := h
    exact hle.trans (hmax ⟨t', rfl⟩)

namespace LaneKey

/-- Where the thread id of a lane lies in the block of its request. -/
def offset : LaneKey → ℕ
  | label => 1
  | lifecycle => 2
  | vllmQueue => 3
  | coroQueue => 4
  | outputSocketQueue => 5
  | outputQueue => 6
  | dispatch => 7
  | generateExec => 8
  | outputSocketExec => 9
  | outputExec => 10
  | os => 11
  | stage => 12
  | task => 13
  | ppGap => 14
  -- the two families have no bound of their own, so the first can run into the second
  | dispatchLane i => 50 + i
  | ppGapLane j => 70 + j

/-- The request has the lane, given its lane counts. -/
def Used (dispatchLaneCount ppGapLaneCount : ℕ) : LaneKey → Prop
  | dispatchLane i => 1 ≤ i ∧ i < dispatchLaneCount
  | ppGapLane j => 1 ≤ j ∧ j < ppGapLaneCount
  | _ => True

/-- The lanes that every request has. -/
def fixedLanes : List LaneKey :=
  [label, lifecycle, vllmQueue, coroQueue, outputSocketQueue, outputQueue, dispatch,
    generateExec, outputSocketExec, outputExec, os, stage, task, ppGap]

/-- A fixed lane is found in the table at its offset; the other lanes are numbered. -/
theorem fixed_or_numbered (key : LaneKey) :
    (1 ≤ key.offset ∧ key.offset ≤ 14 ∧ fixedLanes[key.offset - 1]? = some key) ∨
      (∃ i, key = dispatchLane i) ∨ ∃ j, key = ppGapLane j := by
  cases key with
  | dispatchLane i => exact .inr (.inl ⟨i, rfl⟩)
  | ppGapLane j => exact .inr (.inr ⟨j, rfl⟩)
  | _ => exact .inl ⟨by decide, by decide, rfl⟩

/-- No lane uses the request's own thread id. -/
theorem one_le_offset (key : LaneKey) : 1 ≤ key.offset := by
  obtain ⟨h, -⟩ | ⟨i, rfl⟩ | ⟨j, rfl⟩ := key.fixed_or_numbered
  · exact h
  all_goals simp only [offset]; omega

/-- Inside one request only the two numbered families can meet. -/
theorem eq_of_offset_eq {d p : ℕ} (hroom : d ≤ 21 ∨ p ≤ 1) {key key' : LaneKey}
    (hkey : key.Used d p) (hkey' : key'.Used d p) (h : key.offset = key'.offset) :
    key = key' := by
  obtain ⟨-, hle, hfound⟩ | ⟨i, rfl⟩ | ⟨j, rfl⟩ := key.fixed_or_numbered <;>
    obtain ⟨-, hle', hfound'⟩ | ⟨i', rfl⟩ | ⟨j', rfl⟩ := key'.fixed_or_numbered
  · -- two fixed lanes: the table has one key for an offset
    rw [h, hfound'] at hfound
    exact (Option.some.inj hfound).symm
  all_goals
    simp only [offset, Used] at *
    try simp only [dispatchLane.injEq, ppGapLane.injEq, reduceCtorEq]
    omega

/-- A lane reaches the next request's block only when a numbered family has outgrown its own. -/
theorem offset_le {d p : ℕ} (hd : d ≤ 51) (hp : p ≤ 31) {key : LaneKey} (hkey : key.Used d p) :
    key.offset ≤ 100 := by
  obtain ⟨-, hle, -⟩ | ⟨i, rfl⟩ | ⟨j, rfl⟩ := key.fixed_or_numbered
  · omega
  all_goals simp only [offset, Used] at *; omega

end LaneKey

/-- The thread ids that one request uses. -/
theorem mem_requestLaneTids {reqIndex d p tid : ℕ} {key : LaneKey} :
    (key, tid) ∈ requestLaneTids reqIndex d p ↔
      key.Used d p ∧ tid = reqIndex * 100 + key.offset := by
  cases key with
  -- a dispatch lane after the first one
  | dispatchLane i =>
    simp [requestLaneTids, buildRequestLaneTids, LaneKey.Used, LaneKey.offset]
    omega
  | ppGapLane j =>
    simp [requestLaneTids, buildRequestLaneTids, LaneKey.Used, LaneKey.offset]
    omega
  | _ => simp [requestLaneTids, buildRequestLaneTids, LaneKey.Used, LaneKey.offset]

/-- Those of all requests. -/
theorem mem_requestTrackTids {requests : List RequestIntervals} {reqIndex tid : ℕ}
    {key : LaneKey} :
    ((reqIndex, key), tid) ∈ requestTrackTids requests ↔
      ∃ i request, requests[i]? = some request ∧ reqIndex = i + 1 ∧
        key.Used (assignNonOverlappingLanes request.dispatch).2
          (assignNonOverlappingLanes request.ppGap).2 ∧
        tid = reqIndex * 100 + key.offset := by
  simp only [requestTrackTids, List.mem_flatMap, List.mem_map, Prod.exists, Prod.mk.injEq,
    List.mk_mem_zipIdx_iff_le_and_getElem?_sub]
  constructor
  · -- the requests are numbered from one
    intro h
    obtain ⟨request, r, ⟨hle, hget⟩, key', tid', hmem, ⟨rfl, rfl⟩, rfl⟩ := h
    exact ⟨r - 1, request, hget, by omega, mem_requestLaneTids.mp hmem⟩
  · intro h
    obtain ⟨i, request, hget, rfl, hused⟩ := h
    exact ⟨request, i + 1, ⟨by omega, by simpa using hget⟩, key, tid,
      mem_requestLaneTids.mpr hused, ⟨rfl, rfl⟩, rfl⟩

/-- No two lanes, of one request or of two, share a thread id. -/
def TidsDistinct (requests : List RequestIntervals) : Prop :=
  ∀ a ∈ requestTrackTids requests, ∀ b ∈ requestTrackTids requests, a.2 = b.2 → a.1 = b.1

/-- The lanes of every request stay inside its block of thread ids. -/
structure LanesFit (requests : List RequestIntervals) : Prop where
  /-- The further dispatch lanes end before the further gap lanes begin. -/
  inside : ∀ request ∈ requests, ¬(Crowded 22 request.dispatch ∧ Crowded 2 request.ppGap)
  /-- They end before the next request's block. -/
  below : ∀ request ∈ requests.dropLast, ¬Crowded 52 request.dispatch ∧ ¬Crowded 32 request.ppGap

/-- Lanes that fit get thread ids of their own. -/
theorem LanesFit.tidsDistinct {requests : List RequestIntervals} (h : LanesFit requests) :
    TidsDistinct requests := by
  -- a thread id below another request's block cannot reach into it
  have hblock : ∀ {i i' r r' k k'}, requests[i]? = some r → requests[i']? = some r' →
      k.Used (assignNonOverlappingLanes r.dispatch).2 (assignNonOverlappingLanes r.ppGap).2 →
      i < i' → (i + 1) * 100 + LaneKey.offset k ≠ (i' + 1) * 100 + LaneKey.offset k' := by
    intro i i' r r' k k' hget hget' hused hlt heq
    have hlen := (List.getElem?_eq_some_iff.mp hget').1
    obtain ⟨hd, hp⟩ := h.below r (List.mem_dropLast_of_getElem? hget (by omega))
    rw [← le_laneCount_iff] at hd hp
    have hoff := LaneKey.offset_le (by omega) (by omega) hused
    have hpos := k'.one_le_offset
    omega
  intro hx ha hall hb htid
  obtain ⟨⟨ri, key⟩, tid⟩ := hx
  obtain ⟨⟨ri', key'⟩, tid'⟩ := hall
  obtain ⟨i, r, hget, rfl, hused, rfl⟩ := mem_requestTrackTids.mp ha
  obtain ⟨i', r', hget', rfl, hused', rfl⟩ := mem_requestTrackTids.mp hb
  obtain hlt | rfl | hlt := lt_trichotomy i i'
  · exact absurd htid (hblock hget hget' hused hlt)
  · rw [hget] at hget'
    cases hget'
    have hin := h.inside r (List.mem_of_getElem? hget)
    rw [← le_laneCount_iff, ← le_laneCount_iff] at hin
    have hkey := LaneKey.eq_of_offset_eq (by omega) hused hused' (by simpa using htid)
    rw [hkey]
  · exact absurd htid.symm (hblock hget' hget hused' hlt)

/-- Two lanes of the log that share a thread id. -/
private theorem not_tidsDistinct {requests : List RequestIntervals} {i i' : ℕ}
    {r r' : RequestIntervals} (key key' : LaneKey) (hget : requests[i]? = some r)
    (hget' : requests[i']? = some r')
    (hused : key.Used (assignNonOverlappingLanes r.dispatch).2
      (assignNonOverlappingLanes r.ppGap).2)
    (hused' : key'.Used (assignNonOverlappingLanes r'.dispatch).2
      (assignNonOverlappingLanes r'.ppGap).2)
    (htid : (i + 1) * 100 + key.offset = (i' + 1) * 100 + key'.offset)
    (hne : key ≠ key') : ¬TidsDistinct requests := by
  intro h
  -- both lanes are used, and get the same thread id
  have ha := mem_requestTrackTids.mpr ⟨i, r, hget, rfl, hused, rfl⟩
  have hb := mem_requestTrackTids.mpr ⟨i', r', hget', rfl, hused', rfl⟩
  exact hne (Prod.ext_iff.mp (h _ ha _ hb htid)).2

/-- Twenty-two dispatch lanes beside two gap lanes: `50 + 21 = 70 + 1`. -/
theorem not_tidsDistinct_of_crowded {requests : List RequestIntervals} {r : RequestIntervals}
    (hr : r ∈ requests) (hd : Crowded 22 r.dispatch) (hp : Crowded 2 r.ppGap) :
    ¬TidsDistinct requests := by
  obtain ⟨i, hget⟩ := List.mem_iff_getElem?.mp hr
  rw [← le_laneCount_iff] at hd hp
  exact not_tidsDistinct (.dispatchLane 21) (.ppGapLane 1) hget hget
    ⟨by omega, by omega⟩ ⟨by omega, by omega⟩ (by simp [LaneKey.offset]) (by simp)

/-- Distinct thread ids only come from lanes that fit. -/
theorem TidsDistinct.lanesFit {requests : List RequestIntervals} (h : TidsDistinct requests) :
    LanesFit requests := by
  constructor
  · intro r hr hx
    obtain ⟨hd, hp⟩ := hx
    exact not_tidsDistinct_of_crowded hr hd hp h
  · intro r hr
    obtain ⟨i, hget⟩ := List.mem_iff_getElem?.mp hr
    have hlt : i + 1 < requests.length := by
      have := (List.getElem?_eq_some_iff.mp hget).1
      rw [List.length_dropLast] at this
      omega
    rw [List.getElem?_dropLast, if_pos (by omega)] at hget
    have hnext := List.getElem?_eq_getElem hlt
    constructor
    · -- `50 + 51` is the label of the next request
      intro hd
      rw [← le_laneCount_iff] at hd
      exact not_tidsDistinct (.dispatchLane 51) .label hget hnext
        ⟨by omega, by omega⟩ trivial (by simp [LaneKey.offset]; omega) (by simp) h
    · -- and so is `70 + 31`
      intro hp
      rw [← le_laneCount_iff] at hp
      exact not_tidsDistinct (.ppGapLane 31) .label hget hnext
        ⟨by omega, by omega⟩ trivial (by simp [LaneKey.offset]; omega) (by simp) h

/-- The thread ids are distinct exactly while the lanes fit. -/
theorem tidsDistinct_iff_lanesFit (requests : List RequestIntervals) :
    TidsDistinct requests ↔ LanesFit requests :=
  ⟨TidsDistinct.lanesFit, LanesFit.tidsDistinct⟩

/-- Twenty-two outstanding dispatches of one request while two of its gaps overlap. -/
theorem not_tidsDistinct_overlapping_dispatches :
    ¬TidsDistinct [⟨List.replicate 22 ⟨.int (2 * 10 ^ 14), .int (3 * 10 ^ 14)⟩,
      List.replicate 2 ⟨.int (2 * 10 ^ 14), .int (3 * 10 ^ 14)⟩⟩] := by
  have hspan : RawInterval.span ⟨.int (2 * 10 ^ 14), .int (3 * 10 ^ 14)⟩
      = some (2 * 10 ^ 14, 3 * 10 ^ 14) := by decide
  -- they all share their first instant
  have hcrowded : ∀ n, Crowded n (List.replicate n ⟨.int (2 * 10 ^ 14), .int (3 * 10 ^ 14)⟩) := by
    intro n
    refine ⟨2 * 10 ^ 14, ?_⟩
    rw [sharing, List.countP_replicate, hspan]
    norm_num
  exact not_tidsDistinct_of_crowded (List.mem_singleton_self _) (hcrowded 22) (hcrowded 2)

end DeLatency
