import DeLatency.Spec.Breakdown
import DeLatency.Spec.Queue

/-!
# The TPOT components add up

Four kinds of time tile the window of a `tpot` entry: the scheduling waits and the
merged dispatches, both inside the decode stretch, the tail after it, and what none of
these covers.  The waits are free of the dispatches when the dispatches also end in
order of their starts; then the ten components are non-negative and add up to the
window (`tpot_conserved`).
-/

namespace DeLatency

open Intervals

namespace RequestInputs

variable {r : RequestInputs} {windowStart windowEnd execEnd : ℤ}

/-! ## The execution components -/

/-- The execution components of `components_ns_total`. -/
def execComponentNames : List String :=
  ["worker_preprocess", "model_forward", "postprocess", "sampling", "bookkeeping_sync", "pp_gap",
    "other_exec"]

/-- The execution components add up to the execution time: every phase of the entry is
    one of them. -/
theorem sum_execComponents (h : r.DispatchesInNs) :
    (execComponentNames.map fun name =>
      (r.buildTpot windowStart windowEnd execEnd).execPhaseNs.getD name 0).sum =
        (cells ((r.tpotExecDispatches windowStart execEnd).map DispatchInterval.window)).card := by
  have htotal : (r.buildTpot windowStart windowEnd execEnd).execPhaseNs.total =
      (cells ((r.tpotExecDispatches windowStart execEnd).map DispatchInterval.window)).card :=
    (total_execPhaseNs_tpot h).trans (execTotal_eq h)
  rw [← htotal]
  -- reading the names one by one misses no phase
  apply Dict.sum_getD_of_keys_subset _ (by decide)
  intro name hname
  rw [execPhaseNs_buildTpot] at hname
  obtain rfl | ⟨hkey, hcompute, hgap⟩ := mem_keys_execPhaseNs hname
  · decide
  · obtain h1 | rfl | h1 | h1 := mem_keys_breakdown (tpotExec_inNs h) hkey
    · -- folded into `other_exec`
      exact absurd h1 hgap
    · decide
    · -- folded into `other_exec`
      exact absurd h1 hcompute
    · -- a component that `phase_exec_name_map` names
      have hmapped : ∀ n ∈ phaseExecNameMap.map Prod.snd, n ∈ execComponentNames := by decide
      exact hmapped name h1

/-- No phase counts less than nothing. -/
theorem execComponent_nonneg (h : r.DispatchesInNs) (name : String) :
    0 ≤ (r.buildTpot windowStart windowEnd execEnd).execPhaseNs.getD name 0 := by
  rw [execPhaseNs_buildTpot]
  exact execPhaseNs_nonneg (by decide) (by decide)
    (wallComponents_breakdown_nonneg (tpotExec_inNs h)) name

/-! ## The scheduling waits -/

/-- Queue slices on nanosecond times that overlap neither one another nor a dispatch. -/
structure QueueApart (r : RequestInputs) : Prop where
  inNs : ∀ q ∈ r.queueIntervals, NsSpan q.span
  free : ∀ q ∈ r.queueIntervals, ∀ d ∈ r.dispatches, ¬Meets q.span d.window
  disjoint : (r.queueIntervals.map QueueInterval.span).Pairwise
    fun p q => Disjoint (Finset.Ico p.1 p.2) (Finset.Ico q.1 q.2)

/-- The clipped waits of the window. -/
def waitSpans (r : RequestInputs) (windowStart execEnd : ℤ) : List (ℤ × ℤ) :=
  (r.schedulingWaits windowStart execEnd).map SchedulingWait.span

/-- The waits are the queue intervals after the start, inside the window. -/
theorem waitSpans_eq (r : RequestInputs) (windowStart execEnd : ℤ) :
    r.waitSpans windowStart execEnd = clipAll (some windowStart) (some execEnd)
      (r.postStartQueue.map QueueInterval.span) := by
  rw [waitSpans, schedulingWaits, clipAll, List.map_filterMap, List.filterMap_map]
  refine congrArg (List.filterMap · _) (funext fun q => ?_)
  simp only [Option.map_map, Function.comp_def, QueueInterval.span]
  exact Option.map_id'

/-- They are queue intervals. -/
theorem mem_postStartQueue {q : QueueInterval} (hq : q ∈ r.postStartQueue) :
    q ∈ r.queueIntervals :=
  List.mem_sortBy.mp (List.mem_of_mem_filter hq)

/-- Their times are in nanoseconds. -/
theorem postStartQueue_inNs (hqueue : r.QueueApart) :
    ∀ p ∈ r.postStartQueue.map QueueInterval.span, NsSpan p := by
  intro p hp
  obtain ⟨q, hq, rfl⟩ := List.mem_map.mp hp
  exact hqueue.inNs q (mem_postStartQueue hq)

/-- They lie inside the window. -/
theorem waitSpans_bounds {p : ℤ × ℤ} (hp : p ∈ r.waitSpans windowStart execEnd) :
    windowStart ≤ p.1 ∧ p.1 < p.2 ∧ p.2 ≤ execEnd := by
  rw [waitSpans_eq] at hp
  exact clipAll_bounds hp

/-- Normal and preempt waits together are all waits, and they measure what the waits
    cover. -/
theorem sum_waits_eq (hqueue : r.QueueApart) :
    (((r.schedulingWaits windowStart execEnd).filter fun w => !w.isPreempt).map
        SchedulingWait.lengthNs).sum +
      (((r.schedulingWaits windowStart execEnd).filter SchedulingWait.isPreempt).map
        SchedulingWait.lengthNs).sum =
      (cells (r.waitSpans windowStart execEnd)).card := by
  -- every wait is one or the other
  have hsplit : ((r.schedulingWaits windowStart execEnd).filter SchedulingWait.isPreempt ++
      (r.schedulingWaits windowStart execEnd).filter fun w => !w.isPreempt).Perm
        (r.schedulingWaits windowStart execEnd) := List.filter_append_perm _ _
  have hsum := (hsplit.map SchedulingWait.lengthNs).sum_eq
  rw [List.map_append, List.sum_append, add_comm] at hsum
  have hlength : ((r.schedulingWaits windowStart execEnd).map SchedulingWait.lengthNs).sum =
      totalLength (r.waitSpans windowStart execEnd) := by
    rw [← sum_lengths fun p hp => (waitSpans_bounds hp).2.1, waitSpans, List.map_map]
    rfl
  -- sorting and selecting slices keeps them apart
  have hdisj : (r.postStartQueue.map QueueInterval.span).Pairwise
      fun p q => Disjoint (Finset.Ico p.1 p.2) (Finset.Ico q.1 q.2) := by
    have hsorted := ((List.sortBy_perm (fun q : QueueInterval => startEndKey (q.startNs, q.endNs))
      r.queueIntervals).symm.map QueueInterval.span).pairwise hqueue.disjoint fun h => h.symm
    exact hsorted.sublist (List.filter_sublist.map _)
  rw [hsum, hlength, waitSpans_eq,
    card_cells (pairwise_disjoint_clipAll (postStartQueue_inNs hqueue) hdisj)]

/-- The waits are free of the dispatches of the decode stretch. -/
theorem disjoint_waits_exec (h : r.DispatchesInNs) (hqueue : r.QueueApart) :
    Disjoint (cells (r.waitSpans windowStart execEnd))
      (cells ((r.tpotExecDispatches windowStart execEnd).map DispatchInterval.window)) := by
  rw [waitSpans_eq, window_tpotExecDispatches, cells_clipAll (postStartQueue_inNs hqueue),
    cells_clipAll fun p hp => (postStart_inNs h hp).1, Finset.disjoint_left]
  intro x hwait hexec
  -- a common point would be one of a whole slice and of a whole dispatch
  obtain ⟨p, hp, hpx⟩ := mem_cells.mp (Finset.mem_inter.mp hwait).1
  obtain ⟨d, hd, hdx⟩ := mem_cells.mp (Finset.mem_inter.mp hexec).1
  obtain ⟨q, hq, rfl⟩ := List.mem_map.mp hp
  obtain ⟨-, d, hdmem, rfl⟩ := postStart_inNs h hd
  exact Finset.disjoint_left.mp
    (disjoint_Ico_of_not_meets (hqueue.free q (mem_postStartQueue hq) d hdmem))
    (Finset.mem_Ico.mpr hpx) (Finset.mem_Ico.mpr hdx)

/-! ## The tiling -/

/-- Two disjoint parts of the decode stretch, the tail and the uncovered rest add up to
    the window. -/
private theorem card_tiles {waits exec : Finset ℤ} {a x z : ℤ} (hax : a < x) (hxz : x ≤ z)
    (hwaits : waits ⊆ Finset.Ico a x) (hexec : exec ⊆ Finset.Ico a x)
    (hdisj : Disjoint waits exec) :
    (waits.card : ℤ) + exec.card + (z - x) +
      (Finset.Ico a z \ (waits ∪ exec ∪ Finset.Ico x z)).card = z - a := by
  have hinside : waits ∪ exec ⊆ Finset.Ico a x := Finset.union_subset hwaits hexec
  have htail : Disjoint (waits ∪ exec) (Finset.Ico x z) :=
    Finset.disjoint_of_subset_left hinside (Finset.Ico_disjoint_Ico_consecutive a x z)
  have hwhole : waits ∪ exec ∪ Finset.Ico x z ⊆ Finset.Ico a z :=
    Finset.union_subset (hinside.trans (Finset.Ico_subset_Ico_right hxz))
      (Finset.Ico_subset_Ico_left hax.le)
  -- count the window as its parts and the rest
  have hrest := Finset.card_sdiff_add_card_eq_card hwhole
  rw [Finset.card_union_of_disjoint htail, Finset.card_union_of_disjoint hdisj] at hrest
  have htailCard := card_Ico x z
  have hwholeCard := card_Ico a z
  omega

/-- The instants of the waits lie inside the window. -/
theorem waits_subset (r : RequestInputs) (windowStart execEnd : ℤ) :
    cells (r.waitSpans windowStart execEnd) ⊆ Finset.Ico windowStart execEnd :=
  cells_subset_Ico fun _ hp => ⟨(waitSpans_bounds hp).1, (waitSpans_bounds hp).2.2⟩

/-- The instants of the dispatches lie inside the window. -/
theorem exec_subset (h : r.DispatchesInNs) :
    cells ((r.tpotExecDispatches windowStart execEnd).map DispatchInterval.window) ⊆
      Finset.Ico windowStart execEnd := by
  apply cells_subset_Ico
  intro p hmem
  obtain ⟨d, hd, rfl⟩ := List.mem_map.mp hmem
  obtain ⟨-, hstart, -, hend⟩ := tpotExecDispatches_spec h hd
  exact ⟨hstart, hend⟩

/-- `other_gap` measures what waits, dispatches and tail leave of the window. -/
theorem otherGap_eq (h : r.DispatchesInNs) (hqueue : r.QueueApart) (hstart : NsTime windowStart)
    (hlt : windowStart < execEnd) (hle : execEnd ≤ windowEnd) :
    (r.buildTpot windowStart windowEnd execEnd).componentsNsTotal.otherGap =
      (Finset.Ico windowStart windowEnd \
        (cells (r.waitSpans windowStart execEnd) ∪
          cells ((r.tpotExecDispatches windowStart execEnd).map DispatchInterval.window) ∪
          Finset.Ico execEnd windowEnd)).card := by
  have hexec : ∀ p ∈ (r.tpotExecDispatches windowStart execEnd).map DispatchInterval.window,
      NsSpan p := by
    intro p hp
    obtain ⟨d, hd, rfl⟩ := List.mem_map.mp hp
    exact tpotExec_inNs h d hd
  -- merging and clipping the dispatches again changes nothing
  have hmerged : cells (execNs (r.tpotExecDispatches windowStart execEnd) windowStart execEnd).2 =
      cells ((r.tpotExecDispatches windowStart execEnd).map DispatchInterval.window) := by
    simp only [execNs, sumClippedIntervalItems, if_true, cells_mergeIntervals, cells_clipAll hexec]
    exact Finset.inter_eq_left.mpr (exec_subset h)
  have hns : ∀ p ∈ r.waitSpans windowStart execEnd ++
      (execNs (r.tpotExecDispatches windowStart execEnd) windowStart execEnd).2 ++
      [(execEnd, windowEnd)], NsSpan p := by
    intro p hp
    simp only [List.mem_append, List.mem_singleton] at hp
    -- a wait, a merged dispatch, or the tail
    obtain (hp | hp) | rfl := hp
    · rw [waitSpans_eq] at hp
      exact nsSpan_of_mem_clipAll (postStartQueue_inNs hqueue) hp
    · simp only [execNs, sumClippedIntervalItems, if_true] at hp
      exact nsSpan_of_mem_mergeIntervals (fun q hq => nsSpan_of_mem_clipAll hexec hq) hp
    · exact ⟨hstart.mono hlt.le, hstart.mono (hlt.le.trans hle)⟩
  have hcovered : uncoveredIntervalNs windowStart windowEnd _ = _ := uncoveredIntervalNs_eq hns
  rw [cells_append, cells_append, hmerged, cells_cons, cells_nil, Finset.union_empty] at hcovered
  rw [← hcovered]
  simp only [buildTpot, waitSpans]

/-- The components of a `tpot` entry: waits, execution, tail, rest. -/
theorem values_buildTpot (r : RequestInputs) (windowStart windowEnd execEnd : ℤ) :
    (r.buildTpot windowStart windowEnd execEnd).componentsNsTotal.values =
      (r.buildTpot windowStart windowEnd execEnd).componentsNsTotal.vllmSchedulingWait ::
        (execComponentNames.map fun name =>
          (r.buildTpot windowStart windowEnd execEnd).execPhaseNs.getD name 0) ++
        [max 0 (windowEnd - execEnd),
          (r.buildTpot windowStart windowEnd execEnd).componentsNsTotal.otherGap] := by
  simp only [buildTpot, TpotComponents.values, execComponentNames, List.map_cons, List.map_nil,
    List.cons_append, List.nil_append]

/-- The components of an entry that is built from such parts. -/
theorem tpotComponents_spec (h : r.DispatchesInNs) (hqueue : r.QueueApart)
    (hstart : NsTime windowStart) (hlt : windowStart < execEnd) (hle : execEnd ≤ windowEnd) :
    (∀ v ∈ (r.buildTpot windowStart windowEnd execEnd).componentsNsTotal.values, 0 ≤ v) ∧
      (r.buildTpot windowStart windowEnd execEnd).componentsNsTotal.values.sum =
        windowEnd - windowStart := by
  have hwait : (r.buildTpot windowStart windowEnd execEnd).componentsNsTotal.vllmSchedulingWait =
      (cells (r.waitSpans windowStart execEnd)).card := by
    rw [← sum_waits_eq hqueue]
    simp only [buildTpot]
  have hgap := otherGap_eq h hqueue hstart hlt hle
  have htile := card_tiles hlt hle (waits_subset r windowStart execEnd) (exec_subset h)
    (disjoint_waits_exec h hqueue)
  have htail : max 0 (windowEnd - execEnd) = windowEnd - execEnd := by omega
  rw [values_buildTpot, hwait, hgap, htail]
  constructor
  · -- each part is a measure, a charge, or a length
    intro v hv
    simp only [List.cons_append, List.mem_cons, List.mem_append, List.mem_map, List.not_mem_nil,
      or_false] at hv
    obtain rfl | ⟨name, -, rfl⟩ | rfl | rfl := hv
    · exact Int.natCast_nonneg _
    · exact execComponent_nonneg h name
    · omega
    · exact Int.natCast_nonneg _
  · -- the execution components together are the measure of the dispatches
    rw [List.cons_append, List.sum_cons, List.sum_append, sum_execComponents h]
    simp only [List.sum_cons, List.sum_nil]
    omega

end RequestInputs

/-! ## The entry of a log -/

/-- The queue slices of a request whose dispatches also end in order of their starts. -/
theorem queueApart_requestInputs {log : Log} (h : SchedulerInNs log) {rid : String}
    (hends : (sortDispatches (reqDispatchIntervals log rid)).Pairwise
      fun a b => a.endNs ≤ b.endNs) : (requestInputs log rid).QueueApart := by
  have hd : ∀ d ∈ reqDispatchIntervals log rid, NsSpan d.window ∧ d.startNs < d.endNs :=
    fun _ hmem => nsSpan_of_mem_dispatches h hmem
  have hfree : ReadGapsFree ((reqEnqueueMap log.schedulerEvents rid).bind toNsInt)
      (sortedWindows (reqDispatchIntervals log rid)) := by
    -- with the ends in order no earlier dispatch reaches into a gap
    rw [readGapsFree_iff hd]
    exact gapsFree_of_pairwise_end (List.pairwise_map.mpr hends)
  refine ⟨fun q hq => ?_, (slices_free_iff (pos_of_nsSpan hd)).mpr hfree,
    pairwise_disjoint_slices hd⟩
  have hspan : q.span ∈ (queueIntervals log rid).map QueueInterval.span :=
    List.mem_map.mpr ⟨q, hq, rfl⟩
  have htime : ∀ p ∈ sortedWindows (reqDispatchIntervals log rid), NsSpan p := by
    intro p hp
    obtain ⟨d, hmem, rfl⟩ := mem_sortedWindows.mp hp
    exact (hd d hmem).1
  obtain hgap | ⟨e, he, p, hp, -, hq⟩ := (mem_spans_buildQueue (pos_of_nsSpan hd)).mp hspan
  · -- a gap between the end of one window and the start of the next
    rw [readWindows_eq fun d hmem => (hd d hmem).1] at hgap
    obtain ⟨before, p, p', after, heq, -, hq⟩ := mem_gaps.mp hgap
    rw [hq]
    exact ⟨(htime p (by rw [heq]; simp)).finish, (htime p' (by rw [heq]; simp)).start⟩
  · -- the slice from the enqueue to the first start
    have hstart := (htime p (List.mem_of_mem_head? hp)).start
    rw [hq, hstart.readNs]
    exact ⟨nsTime_enqueue h he, hstart⟩

/-- The components of a `tpot` entry are non-negative and add up to its window, when
    the dispatches of the request end in order of their starts. -/
theorem tpot_conserved (log : Log) (h : SchedulerInNs log) (rid : String)
    (hends : (sortDispatches (reqDispatchIntervals log rid)).Pairwise fun a b => a.endNs ≤ b.endNs)
    (e : TpotEntry) (he : (requestInputs log rid).tpotEntry = some e) :
    (∀ v ∈ e.componentsNsTotal.values, 0 ≤ v) ∧ e.componentsNsTotal.values.sum = e.windowNs := by
  have hin := dispatchesInNs_requestInputs h rid
  obtain ⟨ttft, windowStart, execEnd, windowEnd, httft, hstart, hlt, hle, rfl⟩ :=
    RequestInputs.exists_buildTpot he
  obtain ⟨_, _, _, lastEnd, hp, rfl⟩ := RequestInputs.exists_buildTtft hin httft
  -- the window starts at the end of the initial prefills
  have hns := hp.nsTime_last hin
  have hread : toNsInt lastEnd = some windowStart := hstart
  rw [hns.toNsInt] at hread
  cases hread
  exact RequestInputs.tpotComponents_spec hin (queueApart_requestInputs h hends) hns hlt hle

/-- The log of a pipeline: the components add up to the window. -/
theorem tpot_conserved_pipeline :
    ∃ e, (requestInputs pipelineLog "r").tpotEntry = some e ∧
      (∀ v ∈ e.componentsNsTotal.values, 0 ≤ v) ∧ e.componentsNsTotal.values.sum = e.windowNs :=
  ⟨_, rfl, tpot_conserved pipelineLog (schedulerInNs_of_times (by decide)) "r" (by decide) _ rfl⟩

end DeLatency
