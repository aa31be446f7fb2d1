import DeLatency.Converter.PpGap
import DeLatency.Spec.WallComponents

/-!
# The breakdown of a request counts wall time once

Whatever phases and steps it is given, `build_pp_gap_dispatch_breakdown` splits
every dispatch window exactly (`total_wallComponents_row`) and the union of the
windows exactly (`total_wallComponents_breakdown`).  Pipeline gaps lie inside
their dispatch windows, so the request-level charge of `pp_gap` is the measure of
all gaps (`totalPpGapNs_eq`).
-/

namespace DeLatency

open Intervals

/-- The windows of a row. -/
def DispatchRow.window (row : DispatchRow) : ℤ × ℤ := (row.startNs, row.endNs)

/-- The interval of a pipeline gap. -/
def PpGapInterval.span (gap : PpGapInterval) : ℤ × ℤ := (gap.startNs, gap.endNs)

/-! ## Stage windows and pipeline gaps -/

section Stages

variable {a b : ℤ}

/-- A fold of choices stays between common bounds. -/
private theorem foldl_bounds {f : ℤ → ℤ × ℤ → ℤ} {l : List (ℤ × ℤ)} {x : ℤ} (hx : a ≤ x ∧ x ≤ b)
    (hf : ∀ y, a ≤ y ∧ y ≤ b → ∀ p ∈ l, a ≤ f y p ∧ f y p ≤ b) :
    a ≤ l.foldl f x ∧ l.foldl f x ≤ b := by
  induction l generalizing x with
  | nil => exact hx
  | cons p rest ih =>
    exact ih (hf x hx p List.mem_cons_self) fun y hy q hq => hf y hy q (List.mem_cons_of_mem _ hq)

/-- The window of a stage lies where its spans lie. -/
theorem stageWindow_bounds {stage : Rank × Rank} {spans : List (ℤ × ℤ)} {tpRanks : List Rank}
    {w : StageWindow} (hspans : ∀ p ∈ spans, a ≤ p.1 ∧ p.1 < p.2 ∧ p.2 ≤ b)
    (h : stageWindow stage spans tpRanks = some w) :
    (a ≤ w.startNs ∧ w.startNs ≤ b) ∧ a ≤ w.endNs ∧ w.endNs ≤ b := by
  have hmerged : ∀ q ∈ mergeIntervals spans, a ≤ q.1 ∧ q.1 < q.2 ∧ q.2 ≤ b := by
    intro q hq
    obtain ⟨⟨r, hr, hr1⟩, t, ht, ht2⟩ := ends_coalesce hq
    rw [List.mem_sortBy] at hr ht
    exact ⟨hr1 ▸ (hspans r hr).1, (separated_mergeIntervals spans).pos q hq,
      ht2 ▸ (hspans t ht).2.2⟩
  unfold stageWindow at h
  split at h
  · cases h
  · next m merged heq =>
    rw [heq] at hmerged
    cases h
    have hm := hmerged m List.mem_cons_self
    refine ⟨foldl_bounds (by omega) ?_, foldl_bounds (by omega) ?_⟩
    · -- the least start
      intro y hy p hp
      have hbounds := hmerged p (List.mem_cons_of_mem _ hp)
      omega
    · -- the greatest end
      intro y hy p hp
      have hbounds := hmerged p (List.mem_cons_of_mem _ hp)
      omega

/-- The clipped steps of a dispatch lie in its window. -/
theorem clippedSteps_bounds {key : Option String} {steps : List StepExecution} {s : RankedSpan}
    (hs : s ∈ clippedSteps key a b steps) : a ≤ s.span.1 ∧ s.span.1 < s.span.2 ∧ s.span.2 ≤ b := by
  obtain ⟨interval, -, h⟩ := List.mem_filterMap.mp hs
  split at h
  · obtain ⟨span, hspan, rfl⟩ := Option.map_eq_some_iff.mp h
    exact clipInterval_bounds hspan
  · cases h

/-- The stage windows of a dispatch lie in its window. -/
theorem stageWindowsByDp_bounds {steps : List RankedSpan}
    (hsteps : ∀ s ∈ steps, a ≤ s.span.1 ∧ s.span.1 < s.span.2 ∧ s.span.2 ≤ b)
    {entry : Rank × List StageWindow} (he : entry ∈ (stageWindowsByDp steps).entries)
    {w : StageWindow} (hw : w ∈ entry.2) :
    (a ≤ w.startNs ∧ w.startNs ≤ b) ∧ a ≤ w.endNs ∧ w.endNs ≤ b := by
  -- the window was built for a stage, and the stage's spans are spans of the steps
  have hmem := Dict.mem_of_mem_entries_pushAll he hw
  obtain ⟨w', hw', heq⟩ := List.mem_map.mp hmem
  obtain rfl : w' = w := congrArg Prod.snd heq
  obtain ⟨stage, hstage, hwin⟩ := List.mem_filterMap.mp hw'
  apply stageWindow_bounds (fun p hp => ?_) hwin
  obtain ⟨s, hs, hsp⟩ := List.mem_map.mp (Dict.mem_of_mem_entries_pushAll hstage hp)
  obtain rfl : s.span = p := congrArg Prod.snd hsp
  exact hsteps s hs

/-- A pipeline gap lies in the window of its dispatch and has positive length. -/
theorem ppGapIntervals_bounds {steps : List RankedSpan} (ha : NsTime a)
    (hsteps : ∀ s ∈ steps, a ≤ s.span.1 ∧ s.span.1 < s.span.2 ∧ s.span.2 ≤ b)
    {gap : PpGapInterval} (hgap : gap ∈ ppGapIntervals (stageWindowsByDp steps)) :
    a ≤ gap.startNs ∧ gap.startNs < gap.endNs ∧ gap.endNs ≤ b := by
  obtain ⟨entry, he, hgap⟩ := List.mem_flatMap.mp hgap
  obtain ⟨⟨prev, next⟩, hpair, hgap⟩ := List.mem_filterMap.mp hgap
  obtain ⟨hprev, hnext⟩ := List.of_mem_zip hpair
  have hprev := stageWindowsByDp_bounds hsteps he (List.mem_sortBy.mp hprev)
  have hnext := stageWindowsByDp_bounds hsteps he (List.mem_sortBy.mp (List.mem_of_mem_tail hnext))
  -- both ends were clipped to the window, so `to_ns` leaves them as they are
  have hstart : NsTime prev.endNs := ha.mono hprev.2.1
  have hend : NsTime next.startNs := ha.mono hnext.1.1
  simp only [ppGapBetween, hstart.toNsInt, hend.toNsInt] at hgap
  split at hgap
  · cases hgap
  · next hlt =>
    cases hgap
    exact ⟨hprev.2.1, not_le.mp hlt, hnext.1.2⟩

end Stages

/-! ## One row -/

section Rows

variable {dispatches : List DispatchInterval} {phases : Dict String (List PhaseInterval)}
  {stepExecution : List StepExecution} {phaseMap : List (String × String)}

/-- What is known of every row: it belongs to a dispatch with its window. -/
theorem mem_dispatchRows (hd : ∀ d ∈ dispatches, NsSpan d.window) {row : DispatchRow} :
    row ∈ dispatchRows dispatches phases stepExecution phaseMap ↔
      ∃ d ∈ dispatches, d.startNs < d.endNs ∧
        row = dispatchRow phaseMap phases stepExecution d d.startNs d.endNs := by
  simp only [dispatchRows, List.mem_filterMap, sortDispatches, List.mem_sortBy]
  refine exists_congr fun d => and_congr_right fun hmem => ?_
  -- nanosecond times are converted to themselves
  have hstart : toNsInt d.startNs = some d.startNs := (hd d hmem).start.toNsInt
  have hend : toNsInt d.endNs = some d.endNs := (hd d hmem).finish.toNsInt
  simp only [hstart, hend]
  split
  · next h => simp [not_lt.mpr h]
  · next h => simp [not_le.mp h, eq_comm]

/-- A row's window is positive and between nanosecond times. -/
theorem window_of_mem_dispatchRows (hd : ∀ d ∈ dispatches, NsSpan d.window) {row : DispatchRow}
    (hrow : row ∈ dispatchRows dispatches phases stepExecution phaseMap) :
    NsSpan row.window ∧ row.startNs < row.endNs := by
  obtain ⟨d, hmem, hlt, rfl⟩ := (mem_dispatchRows hd).mp hrow
  exact ⟨hd d hmem, hlt⟩

/-- The components of a dispatch add up to its duration. -/
theorem total_wallComponents_row (hd : ∀ d ∈ dispatches, NsSpan d.window) {row : DispatchRow}
    (hrow : row ∈ dispatchRows dispatches phases stepExecution phaseMap) :
    row.wallComponentsNs.total = row.durationNs := by
  obtain ⟨d, hmem, hlt, rfl⟩ := (mem_dispatchRows hd).mp hrow
  exact total_wallComponents (hd d hmem).start (hd d hmem).finish hlt

/-- The pipeline gaps of a row lie in its window. -/
theorem ppGapIntervals_row_bounds (hd : ∀ d ∈ dispatches, NsSpan d.window) {row : DispatchRow}
    (hrow : row ∈ dispatchRows dispatches phases stepExecution phaseMap) {gap : PpGapInterval}
    (hgap : gap ∈ row.ppGapIntervals) :
    row.startNs ≤ gap.startNs ∧ gap.startNs < gap.endNs ∧ gap.endNs ≤ row.endNs := by
  obtain ⟨d, hmem, hlt, rfl⟩ := (mem_dispatchRows hd).mp hrow
  exact ppGapIntervals_bounds (hd d hmem).start (fun s hs => clippedSteps_bounds hs) hgap

/-- The windows of the rows cover what the dispatches cover. -/
theorem cells_row_windows (hd : ∀ d ∈ dispatches, NsSpan d.window) :
    cells ((dispatchRows dispatches phases stepExecution phaseMap).map DispatchRow.window) =
      cells (dispatches.map DispatchInterval.window) := by
  ext x
  simp only [mem_cells, List.mem_map, mem_dispatchRows hd]
  constructor
  · intro h
    obtain ⟨_, ⟨row, ⟨d, hmem, -, rfl⟩, rfl⟩, hx⟩ := h
    exact ⟨d.window, ⟨d, hmem, rfl⟩, hx⟩
  · intro h
    obtain ⟨_, ⟨d, hmem, rfl⟩, hx⟩ := h
    -- a dispatch that covers a point has a positive window, and so a row
    exact ⟨_, ⟨_, ⟨d, hmem, hx.1.trans_lt hx.2, rfl⟩, rfl⟩, hx⟩

/-! ## The request -/

/-- The merged windows of the request. -/
private theorem mergedWindows_spec (hd : ∀ d ∈ dispatches, NsSpan d.window) {w : ℤ × ℤ}
    (hw : w ∈ (buildPpGapDispatchBreakdown dispatches phases stepExecution
      phaseMap).mergedDispatchWindows) : NsSpan w ∧ w.1 < w.2 := by
  refine ⟨nsSpan_of_mem_mergeIntervals (fun p hp => ?_) hw, (separated_mergeIntervals _).pos w hw⟩
  obtain ⟨row, hrow, rfl⟩ := List.mem_map.mp hp
  exact (window_of_mem_dispatchRows hd hrow).1

/-- The merged windows cover what the dispatches cover. -/
theorem cells_mergedDispatchWindows (hd : ∀ d ∈ dispatches, NsSpan d.window) :
    cells (buildPpGapDispatchBreakdown dispatches phases stepExecution
      phaseMap).mergedDispatchWindows = cells (dispatches.map DispatchInterval.window) :=
  (cells_mergeIntervals _).trans (cells_row_windows hd)

/-- The total wall time measures the union of the dispatch windows. -/
theorem totalWallNs_eq (hd : ∀ d ∈ dispatches, NsSpan d.window) :
    (buildPpGapDispatchBreakdown dispatches phases stepExecution phaseMap).totalWallNs =
      (cells (dispatches.map DispatchInterval.window)).card := by
  have hmerged : (buildPpGapDispatchBreakdown dispatches phases stepExecution
      phaseMap).totalWallNs = (cells ((dispatchRows dispatches phases stepExecution phaseMap).map
        DispatchRow.window)).card := sumIntervalPairs_mergeIntervals _
  rw [hmerged, cells_row_windows hd]

/-- The request-level components add up to the total wall time. -/
theorem total_wallComponents_breakdown (hd : ∀ d ∈ dispatches, NsSpan d.window) :
    (buildPpGapDispatchBreakdown dispatches phases stepExecution phaseMap).wallComponentsNs.total =
      (buildPpGapDispatchBreakdown dispatches phases stepExecution phaseMap).totalWallNs := by
  have hsum : (buildPpGapDispatchBreakdown dispatches phases stepExecution
      phaseMap).wallComponentsNs.total = ((buildPpGapDispatchBreakdown dispatches phases
        stepExecution phaseMap).mergedDispatchWindows.map fun w => w.2 - w.1).sum := by
    apply (Dict.total_addAll_flatMap _ _).trans
    rw [List.map_map]
    -- window by window
    refine congrArg List.sum (List.map_congr_left fun w hw => ?_)
    obtain ⟨hspan, hlt⟩ := mergedWindows_spec hd hw
    exact total_wallComponents hspan.start hspan.finish hlt
  rw [hsum]
  exact sum_lengths fun w hw => (mergedWindows_spec hd hw).2

/-- Compute, pipeline gaps and unattributed gaps make up the total wall time. -/
theorem totalWallNs_split (hd : ∀ d ∈ dispatches, NsSpan d.window) :
    (buildPpGapDispatchBreakdown dispatches phases stepExecution phaseMap).totalComputeNs +
        (buildPpGapDispatchBreakdown dispatches phases stepExecution phaseMap).totalPpGapNs +
        (buildPpGapDispatchBreakdown dispatches phases stepExecution
          phaseMap).totalUnattributedGapNs =
      (buildPpGapDispatchBreakdown dispatches phases stepExecution phaseMap).totalWallNs := by
  -- `totalComputeNs` leaves out exactly the two keys that are added here
  have hsplit : ∀ components : Dict String ℤ,
      ((components.entries.filter fun e => e.1 ≠ "pp_gap" ∧ e.1 ≠ "pipeline_gap").map
        Prod.snd).sum + components.getD "pp_gap" 0 + components.getD "pipeline_gap" 0 =
      components.total := fun components => components.sum_entries_of_ne_add (by decide)
  rw [← total_wallComponents_breakdown hd, ← hsplit]
  rfl

/-- No component is charged a negative time. -/
theorem wallComponents_breakdown_nonneg (hd : ∀ d ∈ dispatches, NsSpan d.window) (name : String) :
    0 ≤ (buildPpGapDispatchBreakdown dispatches phases stepExecution
      phaseMap).wallComponentsNs.getD name 0 := by
  refine (List.sum_nonneg fun x hx => ?_).trans_eq (Dict.getD_addAll_flatMap _ _ _).symm
  rw [List.map_map] at hx
  obtain ⟨w, hw, rfl⟩ := List.mem_map.mp hx
  obtain ⟨hspan, hlt⟩ := mergedWindows_spec hd hw
  exact wallComponents_nonneg hspan.start hspan.finish hlt name

/-- The total wall time is the Lebesgue measure of the union of the windows. -/
theorem volume_dispatch_windows (hd : ∀ d ∈ dispatches, NsSpan d.window) :
    MeasureTheory.volume (covered (dispatches.map DispatchInterval.window)) =
      ENNReal.ofReal (buildPpGapDispatchBreakdown dispatches phases stepExecution
        phaseMap).totalWallNs := by
  rw [volume_covered, totalWallNs_eq hd, Int.cast_natCast, ENNReal.ofReal_natCast]

/-! ## Which components occur -/

/-- The components of a dispatch's compute intervals come from the phase map. -/
theorem component_of_mem_compute {key : Option String} {a b : ℤ} {c : ComponentInterval}
    (hc : c ∈ computeComponentIntervals (clippedPhases phaseMap key a b phases)) :
    c.component = "other_compute" ∨ c.component ∈ phaseMap.map Prod.snd := by
  obtain ⟨⟨⟨pp, component⟩, spans⟩, he, hc⟩ := List.mem_flatMap.mp hc
  obtain ⟨p, hp, rfl⟩ := List.mem_map.mp hc
  -- a merged interval needs at least one span under its key
  obtain ⟨⟨r, hr, -⟩, -⟩ := ends_coalesce hp
  rw [List.mem_sortBy] at hr
  obtain ⟨s, hs, heq⟩ := List.mem_map.mp (Dict.mem_of_mem_entries_pushAll he hr)
  have hcomp : s.component = component := congrArg (fun x => x.1.2) heq
  show component = _ ∨ component ∈ _
  rw [← hcomp]
  obtain ⟨entry, -, hs⟩ := List.mem_flatMap.mp hs
  obtain ⟨interval, -, hs⟩ := List.mem_filterMap.mp hs
  split at hs
  · obtain ⟨span, -, rfl⟩ := Option.map_eq_some_iff.mp hs
    cases hlookup : phaseMap.lookup entry.1 with
    | none => exact .inl rfl
    | some name =>
      obtain ⟨l₁, l₂, hmap, -⟩ := List.lookup_eq_some_iff.mp hlookup
      exact .inr (List.mem_map.mpr ⟨(entry.1, name), by rw [hmap]; simp, rfl⟩)
  · cases hs

/-- Every component of a row is `other_compute`, `pp_gap` or one of the map. -/
theorem component_of_mem_row (hd : ∀ d ∈ dispatches, NsSpan d.window) {row : DispatchRow}
    (hrow : row ∈ dispatchRows dispatches phases stepExecution phaseMap) {c : ComponentInterval}
    (hc : c ∈ row.componentIntervals) :
    c.component = "pp_gap" ∨ c.component = "other_compute" ∨
      c.component ∈ phaseMap.map Prod.snd := by
  obtain ⟨d, -, -, rfl⟩ := (mem_dispatchRows hd).mp hrow
  obtain hc | hc := List.mem_append.mp hc
  · exact .inr (component_of_mem_compute hc)
  · obtain ⟨gap, -, rfl⟩ := List.mem_map.mp hc
    exact .inl rfl

/-- Every component charged at request level is a known one. -/
theorem mem_keys_breakdown (hd : ∀ d ∈ dispatches, NsSpan d.window) {name : String}
    (h : name ∈ (buildPpGapDispatchBreakdown dispatches phases stepExecution
      phaseMap).wallComponentsNs.keys) :
    name = "pipeline_gap" ∨ name = "pp_gap" ∨ name = "other_compute" ∨
      name ∈ phaseMap.map Prod.snd := by
  obtain ⟨info, hinfo, hname⟩ := Dict.mem_keys_addAll_flatMap.mp h
  obtain ⟨w, hw, rfl⟩ := List.mem_map.mp hinfo
  obtain ⟨hspan, hlt⟩ := mergedWindows_spec hd hw
  -- the window is idle, in the gap alone, or under some component of a row
  obtain rfl | rfl | ⟨c, hc, rfl⟩ := mem_keys_wallComponents hspan.start hspan.finish hlt hname
  · exact .inr (.inr (.inl rfl))
  · exact .inl rfl
  · obtain ⟨row, hrow, hc⟩ := List.mem_flatMap.mp hc
    exact .inr (component_of_mem_row hd hrow hc)

/-! ## The charge of the pipeline gaps -/

/-- The pipeline gaps of all rows. -/
def PpGapBreakdown.ppGapSpans (breakdown : PpGapBreakdown) : List (ℤ × ℤ) :=
  (breakdown.dispatches.flatMap (·.ppGapIntervals)).map PpGapInterval.span

/-- Every pipeline gap lies in the window of some dispatch. -/
theorem ppGapSpans_bounds (hd : ∀ d ∈ dispatches, NsSpan d.window) {p : ℤ × ℤ}
    (hp : p ∈ (buildPpGapDispatchBreakdown dispatches phases stepExecution phaseMap).ppGapSpans) :
    NsSpan p ∧ p.1 < p.2 ∧ ∃ d ∈ dispatches, d.startNs ≤ p.1 ∧ p.2 ≤ d.endNs := by
  obtain ⟨gap, hgap, rfl⟩ := List.mem_map.mp hp
  obtain ⟨row, hrow, hgap⟩ := List.mem_flatMap.mp hgap
  obtain ⟨h1, h2, h3⟩ := ppGapIntervals_row_bounds hd hrow hgap
  obtain ⟨hspan, -⟩ := window_of_mem_dispatchRows hd hrow
  have hstart : NsTime gap.startNs := NsTime.mono hspan.start h1
  obtain ⟨d, hmem, -, rfl⟩ := (mem_dispatchRows hd).mp hrow
  exact ⟨⟨hstart, hstart.mono h2.le⟩, h2, d, hmem, h1, h3⟩

/-- Pipeline gaps cover part of what the dispatches cover. -/
theorem cells_ppGapSpans_subset (hd : ∀ d ∈ dispatches, NsSpan d.window) :
    cells (buildPpGapDispatchBreakdown dispatches phases stepExecution phaseMap).ppGapSpans ⊆
      cells (dispatches.map DispatchInterval.window) := by
  intro x hx
  obtain ⟨p, hp, hpx⟩ := mem_cells.mp hx
  obtain ⟨-, -, d, hmem, h1, h2⟩ := ppGapSpans_bounds hd hp
  exact mem_cells.mpr ⟨d.window, List.mem_map.mpr ⟨d, hmem, rfl⟩, h1.trans hpx.1, hpx.2.trans_le h2⟩

/-- The `pp_gap` components of a request are its pipeline gaps. -/
private theorem spansOf_ppGap (hmap : "pp_gap" ∉ phaseMap.map Prod.snd)
    (hd : ∀ d ∈ dispatches, NsSpan d.window) (rows : List DispatchRow)
    (hrows : ∀ row ∈ rows, row ∈ dispatchRows dispatches phases stepExecution phaseMap) :
    spansOf "pp_gap" (rows.flatMap DispatchRow.componentIntervals) =
      (rows.flatMap (·.ppGapIntervals)).map PpGapInterval.span := by
  induction rows with
  | nil => rfl
  | cons row rest ih =>
    have hrow : spansOf "pp_gap" row.componentIntervals =
        row.ppGapIntervals.map PpGapInterval.span := by
      obtain ⟨d, -, -, rfl⟩ := (mem_dispatchRows hd).mp (hrows row List.mem_cons_self)
      have hcompute : spansOf "pp_gap" (computeComponentIntervals
          (clippedPhases phaseMap d.dispatchKey d.startNs d.endNs phases)) = [] := by
        rw [spansOf, List.map_eq_nil_iff, List.filter_eq_nil_iff]
        intro c hc hname
        rw [decide_eq_true_eq] at hname
        cases component_of_mem_compute hc with
        | inl h => rw [hname] at h; exact absurd h (by decide)
        | inr h => exact hmap (hname ▸ h)
      -- what is left are the components made from the gaps
      show spansOf "pp_gap"
        (computeComponentIntervals _ ++ List.map PpGapInterval.toComponent _) = _
      rw [spansOf_append, hcompute, List.nil_append]
      simp [spansOf, PpGapInterval.toComponent, ComponentInterval.span, PpGapInterval.span,
        List.filter_map, Function.comp_def, dispatchRow]
    rw [List.flatMap_cons, spansOf_append, hrow, List.flatMap_cons, List.map_append,
      ih fun r hr => hrows r (List.mem_cons_of_mem _ hr)]

/-- The request-level charge of `pp_gap` measures the union of all its gaps. -/
theorem totalPpGapNs_eq (hmap : "pp_gap" ∉ phaseMap.map Prod.snd)
    (hd : ∀ d ∈ dispatches, NsSpan d.window) :
    (buildPpGapDispatchBreakdown dispatches phases stepExecution
      phaseMap).wallComponentsNs.getD "pp_gap" 0 =
      (cells (buildPpGapDispatchBreakdown dispatches phases stepExecution
        phaseMap).ppGapSpans).card := by
  set breakdown := buildPpGapDispatchBreakdown dispatches phases stepExecution phaseMap with hb
  have hspans : spansOf "pp_gap" (breakdown.dispatches.flatMap DispatchRow.componentIntervals) =
      breakdown.ppGapSpans := spansOf_ppGap hmap hd _ fun _ hrow => hrow
  have hns : ∀ p ∈ spansOf "pp_gap" (breakdown.dispatches.flatMap DispatchRow.componentIntervals),
      NsSpan p := by
    rw [hspans]
    exact fun p hp => (ppGapSpans_bounds hd hp).1
  have hsum : breakdown.wallComponentsNs.getD "pp_gap" 0 =
      (breakdown.mergedDispatchWindows.map fun w =>
        ((cells breakdown.ppGapSpans ∩ Finset.Ico w.1 w.2).card : ℤ)).sum := by
    apply (Dict.getD_addAll_flatMap _ _ _).trans
    rw [List.map_map]
    refine congrArg List.sum (List.map_congr_left fun w hw => ?_)
    obtain ⟨hspan, hlt⟩ := mergedWindows_spec hd hw
    rw [← hspans]
    exact getD_ppGap hns hspan.start hspan.finish hlt
  have hdisj : breakdown.mergedDispatchWindows.Pairwise
      fun p q => Disjoint (Finset.Ico p.1 p.2) (Finset.Ico q.1 q.2) :=
    (separated_mergeIntervals _).pairwise_disjoint
  -- the gaps lie inside the windows, so cutting them along the windows loses nothing
  rw [hsum, sum_card_inter hdisj, cells_mergedDispatchWindows hd,
    Finset.inter_eq_left.mpr (cells_ppGapSpans_subset hd)]

end Rows

end DeLatency
