import DeLatency.Converter.OsDelay
import DeLatency.ForStd.ListExtra
import DeLatency.Spec.Intervals

/-!
# OS delay as a measure

A request is delayed at the times at which it executes in some worker group while
some worker of that group waits for a CPU.  The converter finds these times with four
nested loops, the innermost of which stops early, between two merges; `osDelay_eq`
says that it measures exactly that set (`delayed`), for any overlaps between windows,
waits, workers and groups.  The slices that are drawn for a request are apart and add up to
the same time (`reqOsOverlapIntervals_spec`).
-/

namespace DeLatency

open Intervals

/-- The stretch of an eBPF wait. -/
def OsWait.span (w : OsWait) : ℤ × ℤ := (w.startNs, w.endNs)

/-- The window of a worker span. -/
def WorkerSpan.window (s : WorkerSpan) : ℤ × ℤ := (s.startNs, s.endNs)

/-- The stretch of an overlap. -/
def OsOverlap.span (o : OsOverlap) : ℤ × ℤ := (o.startMonoNs, o.endMonoNs)

/-- The stretch of a merged overlap. -/
def MergedOverlap.span (o : MergedOverlap) : ℤ × ℤ := (o.startMonoNs, o.endMonoNs)

/-! ## The innermost loop -/

/-- Over start-sorted waits the early break loses no overlap: the loop covers what the
    window and the waits have in common. -/
theorem cells_waitOverlaps (window : ℤ × ℤ) (workerTid : ℤ) (dpRank : Option ℤ)
    {waits : List OsWait} (hsorted : waits.Pairwise fun a b => a.startNs ≤ b.startNs) :
    cells ((waitOverlaps window workerTid dpRank waits).map OsOverlap.span) =
      Finset.Ico window.1 window.2 ∩ cells (waits.map OsWait.span) := by
  induction waits with
  | nil => simp [waitOverlaps]
  | cons osEv rest ih =>
    have hrest := ih (List.Pairwise.of_cons hsorted)
    rw [List.map_cons, cells_cons, Finset.inter_union_distrib_left]
    unfold waitOverlaps
    split
    · next hbreak =>
      -- this wait and every later one start after the window
      have hafter : ∀ w ∈ osEv :: rest, window.2 ≤ w.startNs := by
        intro w hw
        exact hbreak.trans (hsorted.head_key_le hw)
      symm
      rw [List.map_nil, cells_nil, ← Finset.inter_union_distrib_left, ← cells_cons, ← List.map_cons]
      refine Finset.disjoint_iff_inter_eq_empty.mp (Finset.disjoint_left.mpr fun x hx hx' => ?_)
      obtain ⟨p, hp, hpx⟩ := mem_cells.mp hx'
      obtain ⟨w, hw, rfl⟩ := List.mem_map.mp hp
      have hle := hafter w hw
      have hlt := (Finset.mem_Ico.mp hx).2
      have hstart : w.startNs ≤ x := hpx.1
      omega
    · split
      · -- it ends before the window starts
        next hskip =>
        have hempty : Finset.Ico window.1 window.2 ∩ Finset.Ico osEv.span.1 osEv.span.2 = ∅ := by
          rw [Finset.Ico_inter_Ico, Finset.Ico_eq_empty]
          show ¬max window.1 osEv.startNs < min window.2 osEv.endNs
          omega
        rw [hrest, hempty, Finset.empty_union]
      · simp only
        split
        · rw [List.map_cons, cells_cons, hrest, Finset.Ico_inter_Ico]
          rfl
        · next hnone =>
          have hempty : Finset.Ico window.1 window.2 ∩ Finset.Ico osEv.span.1 osEv.span.2 = ∅ := by
            rw [Finset.Ico_inter_Ico, Finset.Ico_eq_empty]
            exact hnone
          rw [hrest, hempty, Finset.empty_union]

/-! ## The final merge -/

/-- Absorbing an overlap absorbs its span. -/
private theorem absorbOverlap_span (merged : List MergedOverlap) (it : OsOverlap) :
    (absorbOverlap merged it).map MergedOverlap.span =
      absorb (merged.map MergedOverlap.span) it.span := by
  unfold absorbOverlap absorb
  -- an overlap that takes no time is dropped
  by_cases hempty : it.endMonoNs ≤ it.startMonoNs
  · rw [if_pos hempty, if_pos (show it.span.2 ≤ it.span.1 from hempty)]
  · rw [if_neg hempty, if_neg (show ¬it.span.2 ≤ it.span.1 from hempty)]
    cases merged with
    | nil => rfl
    | cons last rest =>
      simp only [List.map_cons]
      -- it starts after the last one has ended, or is merged with it
      by_cases hlt : last.endMonoNs < it.startMonoNs
      · rw [if_pos hlt, if_pos (show last.span.2 < it.span.1 from hlt)]
        rfl
      · rw [if_neg hlt, if_neg (show ¬last.span.2 < it.span.1 from hlt)]
        rfl

/-- The merge loop acts on the stretches like the merge of intervals. -/
private theorem foldl_absorbOverlap_span (overlaps : List OsOverlap) (merged : List MergedOverlap) :
    (overlaps.foldl absorbOverlap merged).map MergedOverlap.span =
      (overlaps.map OsOverlap.span).foldl absorb (merged.map MergedOverlap.span) := by
  induction overlaps generalizing merged with
  | nil => rfl
  | cons it rest ih =>
    rw [List.foldl_cons, ih, absorbOverlap_span, List.map_cons, List.foldl_cons]

/-- Up to the sets they carry, the merged overlaps are the merged stretches. -/
private theorem mergeOverlaps_span (overlaps : List OsOverlap) :
    ∃ sorted : List (ℤ × ℤ), (sorted.Pairwise fun p q => p.1 ≤ q.1) ∧
      sorted.Perm (overlaps.map OsOverlap.span) ∧
      (mergeOverlaps overlaps).map MergedOverlap.span = coalesce sorted := by
  have hsorted := List.pairwise_sortBy
    (fun it : OsOverlap => startEndKey (it.startMonoNs, it.endMonoNs)) overlaps
  have hperm := List.sortBy_perm
    (fun it : OsOverlap => startEndKey (it.startMonoNs, it.endMonoNs)) overlaps
  unfold mergeOverlaps
  -- only the order and the members of the sorted list matter
  generalize overlaps.sortBy (fun it => startEndKey (it.startMonoNs, it.endMonoNs)) = sorted
    at hsorted hperm ⊢
  refine ⟨sorted.map OsOverlap.span, ?_, hperm.map _, ?_⟩
  · exact List.pairwise_map.mpr (hsorted.imp fun {_ _} h => fst_le_of_startEndKey h)
  · rw [List.map_reverse, foldl_absorbOverlap_span, coalesce, List.map_nil]

/-- The merged overlaps neither overlap nor touch. -/
theorem separated_mergeOverlaps (overlaps : List OsOverlap) :
    Separated ((mergeOverlaps overlaps).map MergedOverlap.span) := by
  obtain ⟨sorted, hstarts, -, hspans⟩ := mergeOverlaps_span overlaps
  rw [hspans]
  exact separated_coalesce hstarts

/-- The sum over merged overlaps is the sum of their lengths. -/
private theorem totalOverlapNs_eq (merged : List MergedOverlap) :
    totalOverlapNs merged = ((merged.map MergedOverlap.span).map fun p => p.2 - p.1).sum := by
  rw [totalOverlapNs, List.map_map]
  rfl

/-- The merged overlaps add up to the measure of what they cover. -/
theorem totalOverlapNs_mergeOverlaps (overlaps : List OsOverlap) :
    totalOverlapNs (mergeOverlaps overlaps) = (cells (overlaps.map OsOverlap.span)).card := by
  have hsep := separated_mergeOverlaps overlaps
  obtain ⟨sorted, hstarts, hperm, hspans⟩ := mergeOverlaps_span overlaps
  rw [totalOverlapNs_eq, sum_lengths hsep.pos, ← card_cells hsep.pairwise_disjoint, hspans,
    cells_coalesce hstarts, cells_perm hperm]

/-! ## The dictionaries of the loops -/

variable {spans : List WorkerSpan} {events : List SchedLatencyEvent} {group : WorkerGroup}
  {rid : String}

/-- `req_windows_by_group[group][rid]`. -/
def groupWindows (spans : List WorkerSpan) (group : WorkerGroup) (rid : String) : List (ℤ × ℤ) :=
  ((reqWindowsByGroup spans).getD group Dict.empty).getD rid []

/-- Grouping by worker group and then by request loses no window. -/
theorem mem_groupWindows {p : ℤ × ℤ} :
    p ∈ groupWindows spans group rid ↔
      ∃ span ∈ spans, span.group = group ∧ rid ∈ span.reqIds ∧ span.window = p := by
  -- the inner loop pushes the windows in order
  have hpush : ∀ (items : List (WorkerGroup × String × (ℤ × ℤ))) (d : Dict String (List (ℤ × ℤ))),
      items.foldl (fun reqs item => reqs.push item.2.1 item.2.2) d =
        d.pushAll (items.map Prod.snd) := by
    intro items d
    rw [Dict.pushAll, List.foldl_map]
  rw [groupWindows, reqWindowsByGroup, Dict.getD_foldl_alter, hpush, Dict.getD_empty,
    Dict.getD_pushAll, Dict.getD_empty, List.nil_append]
  simp only [List.mem_map, List.mem_filter, decide_eq_true_eq, requestWindows, List.mem_flatMap]
  constructor
  · intro h
    obtain ⟨_, ⟨⟨_, ⟨⟨span, hspan, r, hr, rfl⟩, hgroup⟩, rfl⟩, hrid⟩, rfl⟩ := h
    exact ⟨span, hspan, hgroup, hrid ▸ hr, rfl⟩
  · intro h
    obtain ⟨span, hspan, rfl, hrid, rfl⟩ := h
    exact ⟨_, ⟨⟨_, ⟨⟨span, hspan, rid, hrid, rfl⟩, rfl⟩, rfl⟩, rfl⟩, rfl⟩

/-- The waits of a thread are those reported for it. -/
theorem mem_ebpfWaits {tid : ℤ} {w : OsWait} :
    w ∈ ebpfWaits events tid ↔ (tid, w) ∈ events.filterMap osWait := by
  rw [ebpfWaits, List.mem_sortBy, ebpfMap, Dict.getD_pushAll, Dict.getD_empty, List.nil_append]
  simp only [List.mem_map, List.mem_filter, decide_eq_true_eq]
  constructor
  · intro h
    obtain ⟨⟨_, _⟩, ⟨hmem, rfl⟩, rfl⟩ := h
    exact hmem
  · intro hmem; exact ⟨(tid, w), ⟨hmem, rfl⟩, rfl⟩

/-- A worker of the group that has waits is a candidate. -/
theorem mem_candidateTids {tid : ℤ} :
    tid ∈ candidateTids spans events group ↔
      (∃ span ∈ spans, span.group = group ∧ span.tid = tid) ∧ tid ∈ (ebpfMap events).keys := by
  -- the candidates are the threads of the group that waited at all
  rw [candidateTids, List.mem_sortBy, List.mem_filter, List.mem_dedup, decide_eq_true_eq,
    workerTidsByGroup, Dict.getD_pushAll, Dict.getD_empty, List.nil_append]
  apply and_congr_left
  intro _
  simp only [List.mem_map, List.mem_filter, decide_eq_true_eq]
  constructor
  · intro h
    obtain ⟨_, ⟨⟨span, hspan, rfl⟩, hgroup⟩, rfl⟩ := h
    exact ⟨span, hspan, hgroup, rfl⟩
  · intro h
    obtain ⟨span, hspan, hgroup, rfl⟩ := h
    exact ⟨_, ⟨⟨span, hspan, rfl⟩, hgroup⟩, rfl⟩

/-- The waits of the workers of a group. -/
def groupWaits (spans : List WorkerSpan) (events : List SchedLatencyEvent) (group : WorkerGroup) :
    List (ℤ × ℤ) :=
  (candidateTids spans events group).flatMap fun tid => (ebpfWaits events tid).map OsWait.span

/-- Having no waits, the other workers of the group do not matter. -/
theorem mem_groupWaits {p : ℤ × ℤ} :
    p ∈ groupWaits spans events group ↔
      ∃ span ∈ spans, span.group = group ∧
        ∃ w, (span.tid, w) ∈ events.filterMap osWait ∧ w.span = p := by
  simp only [groupWaits, List.mem_flatMap, List.mem_map, mem_candidateTids, mem_ebpfWaits]
  constructor
  · intro h
    obtain ⟨_, ⟨⟨span, hspan, hgroup, rfl⟩, -⟩, w, hw, rfl⟩ := h
    exact ⟨span, hspan, hgroup, w, hw, rfl⟩
  · intro h
    obtain ⟨span, hspan, hgroup, w, hw, rfl⟩ := h
    -- a thread with a wait is a key of the map
    have hkey : span.tid ∈ (ebpfMap events).keys :=
      Dict.mem_keys_pushAll.mpr (.inr (List.mem_map.mpr ⟨_, hw, rfl⟩))
    exact ⟨span.tid, ⟨⟨span, hspan, hgroup, rfl⟩, hkey⟩, w, hw, rfl⟩

/-- The overlaps of a request in a group cover what its windows and the waits of the
    group have in common. -/
theorem cells_groupOverlaps (windows : List (ℤ × ℤ)) :
    cells ((groupOverlaps spans events group windows).map OsOverlap.span) =
      cells windows ∩ cells (groupWaits spans events group) := by
  -- the innermost loop may stop early since the waits of a thread are sorted
  have hloop : ∀ window tid, cells ((waitOverlaps window tid group.dpRank
      (ebpfWaits events tid)).map OsOverlap.span) =
        Finset.Ico window.1 window.2 ∩ cells ((ebpfWaits events tid).map OsWait.span) :=
    fun window tid => cells_waitOverlaps window tid _ (List.pairwise_sortBy OsWait.startNs _)
  -- the windows are merged first, which covers the same
  rw [← cells_mergeIntervals windows]
  ext x
  rw [Finset.mem_inter]
  constructor
  · intro hx
    obtain ⟨p, hp, hpx⟩ := mem_cells.mp hx
    obtain ⟨o, ho, rfl⟩ := List.mem_map.mp hp
    obtain ⟨window, hwindow, ho⟩ := List.mem_flatMap.mp ho
    obtain ⟨tid, htid, ho⟩ := List.mem_flatMap.mp ho
    have hmem :
        x ∈ Finset.Ico window.1 window.2 ∩ cells ((ebpfWaits events tid).map OsWait.span) := by
      rw [← hloop]
      exact mem_cells.mpr ⟨o.span, List.mem_map.mpr ⟨o, ho, rfl⟩, hpx⟩
    obtain ⟨hin, hwait⟩ := Finset.mem_inter.mp hmem
    obtain ⟨q, hq, hqx⟩ := mem_cells.mp hwait
    exact ⟨mem_cells.mpr ⟨window, hwindow, Finset.mem_Ico.mp hin⟩,
      mem_cells.mpr ⟨q, List.mem_flatMap.mpr ⟨tid, htid, hq⟩, hqx⟩⟩
  · intro h
    obtain ⟨hwindow, hwait⟩ := h
    obtain ⟨window, hwindow, hin⟩ := mem_cells.mp hwindow
    obtain ⟨q, hq, hqx⟩ := mem_cells.mp hwait
    obtain ⟨tid, htid, hq⟩ := List.mem_flatMap.mp hq
    have hmem : x ∈ cells ((waitOverlaps window tid group.dpRank
        (ebpfWaits events tid)).map OsOverlap.span) := by
      rw [hloop, Finset.mem_inter]
      exact ⟨Finset.mem_Ico.mpr hin, mem_cells.mpr ⟨q, hq, hqx⟩⟩
    obtain ⟨p, hp, hpx⟩ := mem_cells.mp hmem
    obtain ⟨o, ho, rfl⟩ := List.mem_map.mp hp
    exact mem_cells.mpr ⟨o.span, List.mem_map.mpr ⟨o, List.mem_flatMap.mpr
      ⟨window, hwindow, List.mem_flatMap.mpr ⟨tid, htid, ho⟩⟩, rfl⟩, hpx⟩

/-- A request without windows in a group has no overlaps there. -/
theorem groupOverlaps_nil : groupOverlaps spans events group [] = [] := rfl

/-- The overlaps charged to a request are those of its windows, group by group. -/
theorem mem_rawReqOsIntervals {o : OsOverlap} :
    o ∈ (rawReqOsIntervals spans events).getD rid [] ↔
      ∃ group, o ∈ groupOverlaps spans events group (groupWindows spans group rid) := by
  rw [rawReqOsIntervals, Dict.getD_pushAll, Dict.getD_empty, List.nil_append]
  simp only [List.mem_map, List.mem_filter, decide_eq_true_eq, List.mem_flatMap]
  constructor
  · intro h
    obtain ⟨_, ⟨⟨⟨g, reqs⟩, hreqs, ⟨r, windows⟩, hwindows, o, ho, rfl⟩, rfl⟩, rfl⟩ := h
    -- the entries that the loops visit are what their keys read as
    refine ⟨g, ?_⟩
    rw [groupWindows, Dict.getD_of_mem hreqs, Dict.getD_of_mem hwindows]
    exact ho
  · intro h
    obtain ⟨g, ho⟩ := h
    -- an overlap needs a window, so both loops visit the request
    have hwindows : groupWindows spans g rid ≠ [] := by
      intro hnil
      rw [hnil, groupOverlaps_nil] at ho
      cases ho
    have hreqs : (reqWindowsByGroup spans).getD g Dict.empty ≠ Dict.empty := by
      intro hempty
      rw [groupWindows, hempty, Dict.getD_empty] at hwindows
      exact hwindows rfl
    exact ⟨(rid, o), ⟨⟨_, Dict.mem_entries_of_getD_ne hreqs, _,
      Dict.mem_entries_of_getD_ne hwindows, o, ho, rfl⟩, rfl⟩, rfl⟩

/-- What the overlaps of a request cover. -/
theorem mem_cells_rawReqOsIntervals {x : ℤ} :
    x ∈ cells (((rawReqOsIntervals spans events).getD rid []).map OsOverlap.span) ↔
      ∃ group, x ∈ cells (groupWindows spans group rid) ∧
        x ∈ cells (groupWaits spans events group) := by
  -- the charge of a request is that of its groups together
  simp only [← Finset.mem_inter, ← cells_groupOverlaps]
  constructor
  · intro hx
    obtain ⟨p, hp, hpx⟩ := mem_cells.mp hx
    obtain ⟨o, ho, rfl⟩ := List.mem_map.mp hp
    obtain ⟨g, ho⟩ := mem_rawReqOsIntervals.mp ho
    apply Exists.intro g
    rw [mem_cells]
    exact ⟨o.span, List.mem_map_of_mem ho, hpx⟩
  · intro h
    obtain ⟨g, hx⟩ := h
    obtain ⟨p, hp, hpx⟩ := mem_cells.mp hx
    obtain ⟨o, ho, rfl⟩ := List.mem_map.mp hp
    rw [mem_cells]
    exact ⟨o.span, List.mem_map_of_mem (mem_rawReqOsIntervals.mpr ⟨g, ho⟩), hpx⟩

/-- What the overlaps charged to a request cover. -/
def overlapCells (spans : List ExecuteModelSpan) (events : List SchedLatencyEvent) (rid : String) :
    Finset ℤ :=
  cells (((rawReqOsIntervals (spans.filterMap workerSpan) events).getD rid []).map OsOverlap.span)

/-- The latency map holds the measure of the overlaps of each request that has some. -/
theorem get?_reqLatencyOf (spans : List ExecuteModelSpan) (events : List SchedLatencyEvent)
    (rid : String) :
    (reqLatencyOf spans events).get? rid =
      if 0 < (overlapCells spans events rid).card
      then some ((overlapCells spans events rid).card : ℤ) else none := by
  rw [reqLatencyOf, Dict.get?_filterMap, overlapCells, Dict.getD]
  cases (rawReqOsIntervals (spans.filterMap workerSpan) events).get? rid with
  | none => rfl
  | some overlaps =>
    simp only [Option.bind_some, Option.getD_some, totalOverlapNs_mergeOverlaps, Nat.cast_pos]

/-- The latency of a request is the measure of its overlaps, zero when it has none. -/
theorem getD_reqLatencyOf (spans : List ExecuteModelSpan) (events : List SchedLatencyEvent)
    (rid : String) :
    (reqLatencyOf spans events).getD rid 0 = (overlapCells spans events rid).card := by
  rw [Dict.getD, get?_reqLatencyOf]
  split
  · rfl
  · rw [Option.getD_none]
    omega

/-- The slices drawn for a request do not overlap and add up to its latency. -/
theorem reqOsOverlapIntervals_spec (log : Log) (rid : String) :
    Separated (((reqOsOverlapIntervals log).getD rid []).map MergedOverlap.span) ∧
      totalOverlapNs ((reqOsOverlapIntervals log).getD rid []) =
        (reqLatencyMap log).getD rid 0 := by
  -- sorting the sets of a merged overlap moves none of its ends
  have hsorted : ∀ l : List MergedOverlap,
      (l.map sortOverlapSets).map MergedOverlap.span = l.map MergedOverlap.span := by
    intro l
    rw [List.map_map]
    rfl
  have hslices : ((reqOsOverlapIntervals log).getD rid []).map MergedOverlap.span =
      (mergeOverlaps ((rawReqOsIntervals (log.executeModelSpans.filterMap workerSpan)
        log.ebpfSchedLatencyEvents).getD rid [])).map MergedOverlap.span := by
    simp only [reqOsOverlapIntervals, Dict.getD, Dict.get?_filterMap]
    cases (rawReqOsIntervals (log.executeModelSpans.filterMap workerSpan)
      log.ebpfSchedLatencyEvents).get? rid with
    | none => rfl
    | some overlaps => exact hsorted (mergeOverlaps overlaps)
  constructor
  · rw [hslices]
    exact separated_mergeOverlaps _
  · rw [totalOverlapNs_eq, hslices, ← totalOverlapNs_eq, totalOverlapNs_mergeOverlaps,
      reqLatencyMap, getD_reqLatencyOf]
    rfl

/-! ## The critical path -/

/-- A worker execute span that names a thread and requests and has a positive window. -/
structure Executes (span : ExecuteModelSpan) (tid : ℤ) (window : ℤ × ℤ) : Prop where
  tid_eq : span.tid = some tid
  start_eq : span.startNs = some window.1
  end_eq : span.endNs = some window.2
  lt : window.1 < window.2
  reqIds_ne : span.reqIds ≠ []

/-- An eBPF event that names a thread (`0` is the idle task) and both of its times. -/
structure Waits (ev : SchedLatencyEvent) (tid : ℤ) (wait : ℤ × ℤ) : Prop where
  tid_eq : ev.tid = some tid
  tid_ne : tid ≠ 0
  start_eq : ev.startNs = some wait.1
  end_eq : ev.endNs = some wait.2

/-- The union of the windows of `rid` in a group. -/
def executing (spans : List ExecuteModelSpan) (group : WorkerGroup) (rid : String) : Set ℝ :=
  {x | ∃ span ∈ spans, ∃ tid window, Executes span tid window ∧
    workerGroupKey span.ranks tid = group ∧ rid ∈ span.reqIds ∧ (window.1 : ℝ) ≤ x ∧ x < window.2}

/-- The union of the waits of all workers of a group. -/
def waiting (spans : List ExecuteModelSpan) (events : List SchedLatencyEvent)
    (group : WorkerGroup) : Set ℝ :=
  {x | ∃ span ∈ spans, ∃ tid window, Executes span tid window ∧
    workerGroupKey span.ranks tid = group ∧
      ∃ ev ∈ events, ∃ wait, Waits ev tid wait ∧ (wait.1 : ℝ) ≤ x ∧ x < wait.2}

/-- The time at which `rid` executes in some group while a worker of it waits. -/
def delayed (spans : List ExecuteModelSpan) (events : List SchedLatencyEvent) (rid : String) :
    Set ℝ :=
  ⋃ group, executing spans group rid ∩ waiting spans events group

/-- The span times are nanoseconds as they stand. -/
def SpansInNs (spans : List ExecuteModelSpan) : Prop :=
  ∀ span ∈ spans, (∀ t ∈ span.startNs, NsTime t) ∧ ∀ t ∈ span.endNs, NsTime t

instance (spans : List ExecuteModelSpan) : Decidable (SpansInNs spans) :=
  inferInstanceAs (Decidable (∀ span ∈ spans, _ ∧ _))

/-- The wait times are nanoseconds as they stand. -/
def WaitsInNs (events : List SchedLatencyEvent) : Prop :=
  ∀ ev ∈ events, (∀ t ∈ ev.startNs, NsTime t) ∧ ∀ t ∈ ev.endNs, NsTime t

instance (events : List SchedLatencyEvent) : Decidable (WaitsInNs events) :=
  inferInstanceAs (Decidable (∀ ev ∈ events, _ ∧ _))

/-- Times in nanoseconds are read as they stand. -/
private theorem bind_toNsInt {raw : Option ℤ} (h : ∀ t ∈ raw, NsTime t) :
    raw.bind toNsInt = raw := by
  cases raw with
  | none => rfl
  | some t => exact (h t rfl).toNsInt

/-- The loop keeps a span exactly when it executes. -/
theorem workerSpan_eq_some {span : ExecuteModelSpan} (hstart : ∀ t ∈ span.startNs, NsTime t)
    (hend : ∀ t ∈ span.endNs, NsTime t) {s : WorkerSpan} :
    workerSpan span = some s ↔ Executes span s.tid s.window ∧
      workerGroupKey span.ranks s.tid = s.group ∧ span.reqIds = s.reqIds := by
  unfold workerSpan
  rw [bind_toNsInt hstart, bind_toNsInt hend]
  constructor
  · intro h
    split at h
    · -- the span has its three numbers; it counts when it takes time and names a request
      next tid spanStart spanEnd htid hs he =>
      split at h
      · cases h
      · next hkeep =>
        rw [not_or, not_le] at hkeep
        cases h
        exact ⟨⟨htid, hs, he, hkeep.1, hkeep.2⟩, rfl, rfl⟩
    · cases h
  · intro hx
    obtain ⟨hex, hgroup, hreqs⟩ := hx
    obtain ⟨group, tid, startNs, endNs, reqIds⟩ := s
    have hlt : startNs < endNs := hex.lt
    have hkeep : ¬(endNs ≤ startNs ∨ span.reqIds = []) :=
      not_or.mpr ⟨not_le.mpr hlt, hex.reqIds_ne⟩
    rw [hex.tid_eq, hex.start_eq, hex.end_eq]
    simp only [WorkerSpan.window, hkeep, if_false] at hgroup hreqs ⊢
    rw [hgroup, hreqs]

/-- The loop keeps an event exactly when it is a wait. -/
theorem osWait_eq_some {ev : SchedLatencyEvent} (hstart : ∀ t ∈ ev.startNs, NsTime t)
    (hend : ∀ t ∈ ev.endNs, NsTime t) {tid : ℤ} {wait : ℤ × ℤ} :
    (∃ w, osWait ev = some (tid, w) ∧ w.span = wait) ↔ Waits ev tid wait := by
  unfold osWait
  constructor
  · intro hx
    obtain ⟨w, h, rfl⟩ := hx
    split at h
    · next tid' startNs endNs htid hs he =>
      split at h
      · -- the wait has a thread other than zero, and takes time
        next hkeep =>
        cases h
        exact ⟨htid, hkeep.1, hs, he⟩
      · cases h
    · cases h
  · intro h
    obtain ⟨startNs, endNs⟩ := wait
    have hs : NsTime startNs := hstart _ h.start_eq
    have he : NsTime endNs := hend _ h.end_eq
    unfold NsTime at hs he
    rw [h.tid_eq, h.start_eq, h.end_eq]
    simp only
    rw [if_pos ⟨h.tid_ne, by omega, by omega⟩]
    exact ⟨_, rfl, rfl⟩

section Delayed

variable {spans : List ExecuteModelSpan} {x : ℝ}

/-- An instant is executing when its nanosecond is in one of the windows. -/
theorem mem_executing (hspans : SpansInNs spans) :
    x ∈ executing spans group rid ↔
      ⌊x⌋ ∈ cells (groupWindows (spans.filterMap workerSpan) group rid) := by
  simp only [mem_cells, mem_groupWindows, List.mem_filterMap]
  constructor
  · intro h
    obtain ⟨span, hspan, tid, window, hex, hgroup, hrid, hx⟩ := h
    -- an execution that counts is one of the worker spans, with the same window
    have hkeep : workerSpan span = some ⟨group, tid, window.1, window.2, span.reqIds⟩ :=
      (workerSpan_eq_some (hspans span hspan).1 (hspans span hspan).2).mpr ⟨hex, hgroup, rfl⟩
    exact ⟨window, ⟨_, ⟨span, hspan, hkeep⟩, rfl, hrid, rfl⟩, Int.le_floor.mpr hx.1,
      Int.floor_lt.mpr hx.2⟩
  · intro h
    obtain ⟨_, ⟨s, ⟨span, hspan, hkeep⟩, rfl, hrid, rfl⟩, hx⟩ := h
    obtain ⟨hex, hgroup, hreqs⟩ :=
      (workerSpan_eq_some (hspans span hspan).1 (hspans span hspan).2).mp hkeep
    exact ⟨span, hspan, s.tid, s.window, hex, hgroup, hreqs ▸ hrid, Int.le_floor.mp hx.1,
      Int.floor_lt.mp hx.2⟩

/-- An instant is waiting when its nanosecond is in one of the waits. -/
theorem mem_waiting (hspans : SpansInNs spans) (hwaits : WaitsInNs events) :
    x ∈ waiting spans events group ↔
      ⌊x⌋ ∈ cells (groupWaits (spans.filterMap workerSpan) events group) := by
  simp only [mem_cells, mem_groupWaits, List.mem_filterMap]
  constructor
  · intro h
    obtain ⟨span, hspan, tid, window, hex, hgroup, ev, hev, wait, hwait, hx⟩ := h
    -- a thread of the group counts through one of its executions
    have hkeep : workerSpan span = some ⟨group, tid, window.1, window.2, span.reqIds⟩ :=
      (workerSpan_eq_some (hspans span hspan).1 (hspans span hspan).2).mpr ⟨hex, hgroup, rfl⟩
    obtain ⟨w, hw, hspanw⟩ := (osWait_eq_some (hwaits ev hev).1 (hwaits ev hev).2).mpr hwait
    exact ⟨wait, ⟨_, ⟨span, hspan, hkeep⟩, rfl, w, ⟨ev, hev, hw⟩, hspanw⟩, Int.le_floor.mpr hx.1,
      Int.floor_lt.mpr hx.2⟩
  · intro h
    obtain ⟨wait, ⟨s, ⟨span, hspan, hkeep⟩, rfl, w, ⟨ev, hev, hw⟩, hspanw⟩, hx⟩ := h
    obtain ⟨hex, hgroup, -⟩ :=
      (workerSpan_eq_some (hspans span hspan).1 (hspans span hspan).2).mp hkeep
    have hwait := (osWait_eq_some (hwaits ev hev).1 (hwaits ev hev).2).mp ⟨w, hw, hspanw⟩
    exact ⟨span, hspan, s.tid, s.window, hex, hgroup, ev, hev, wait, hwait, Int.le_floor.mp hx.1,
      Int.floor_lt.mp hx.2⟩

end Delayed

/-- The OS delay of a request is the measure of the time at which it executes in some
    worker group while a worker of that group waits. -/
theorem osDelay_eq (spans : List ExecuteModelSpan) (events : List SchedLatencyEvent)
    (hspans : SpansInNs spans) (hwaits : WaitsInNs events) (rid : String) :
    MeasureTheory.volume (delayed spans events rid) =
      ENNReal.ofReal ((reqLatencyOf spans events).getD rid 0 : ℤ) := by
  have hset : delayed spans events rid = {x : ℝ | ⌊x⌋ ∈ overlapCells spans events rid} := by
    ext x
    simp only [overlapCells, delayed, Set.mem_iUnion, Set.mem_inter_iff, mem_executing hspans,
      mem_waiting hspans hwaits, Set.mem_ofPred_eq, mem_cells_rawReqOsIntervals]
  rw [hset, volume_floor_mem, getD_reqLatencyOf, Int.cast_natCast, ENNReal.ofReal_natCast]

/-- Two workers of one group execute a step for a request; both wait for a while, and
    their waits overlap. -/
def twoWorkerSpans : List ExecuteModelSpan :=
  [(11, 200000000000000, 200000000008000), (12, 200000000001000, 200000000009000)].map
    fun (tid, startNs, endNs) => {
      tid := some tid
      startNs := some startNs
      endNs := some endNs
      reqIds := ["r"]
      ranks := { dp := some (.int 0) } }

def twoWorkerWaits : List SchedLatencyEvent :=
  [(12, 200000000003000, 200000000005000), (11, 200000000002000, 200000000004000),
    (11, 200000000010000, 200000000020000)].map fun (tid, startNs, endNs) => {
      tid := some tid
      startNs := some startNs
      endNs := some endNs
      reason := some "preempt" }

example : (reqLatencyOf twoWorkerSpans twoWorkerWaits).getD "r" 0 = 3000 := by decide

/-- Two workers wait at once: the shared time counts once. -/
theorem osDelay_eq_twoWorkers :
    MeasureTheory.volume (delayed twoWorkerSpans twoWorkerWaits "r") =
      ENNReal.ofReal ((reqLatencyOf twoWorkerSpans twoWorkerWaits).getD "r" 0 : ℤ) :=
  osDelay_eq twoWorkerSpans twoWorkerWaits (by decide) (by decide) "r"

end DeLatency
