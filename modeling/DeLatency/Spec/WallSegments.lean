import DeLatency.Spec.WallComponents

/-!
# Wall-time attribution is right at every instant

The segments of a window tile it, and at each instant of a segment the segment's component
is the active one of least priority, or `pipeline_gap` when none is active.  The overlap
that is counted is the length that the union of the intervals saves over their sum.
-/

namespace DeLatency

open Intervals

namespace ComponentInterval

/-- Both ends as `to_ns` reads them, when the end comes after the start. -/
def nsSpan (c : ComponentInterval) : Option (ℤ × ℤ) :=
  match toNsInt c.startNs, toNsInt c.endNs with
  | some s, some e => if e ≤ s then none else some (s, e)
  | _, _ => none

/-- The interval is on at an instant. -/
def ActiveAt (c : ComponentInterval) (x : ℝ) : Prop := ∃ p ∈ c.nsSpan, (p.1 : ℝ) ≤ x ∧ x < p.2

/-- `item.get("component") or "other_compute"`. -/
def name (c : ComponentInterval) : String :=
  if c.component = "" then "other_compute" else c.component

/-- How much of the interval lies in a window. -/
def lengthIn (c : ComponentInterval) (a b : ℤ) : ℤ :=
  c.nsSpan.elim 0 fun p => max 0 (min p.2 b - max p.1 a)

/-- The part of the interval in a window. -/
def clippedTo (c : ComponentInterval) (a b : ℤ) (p : ℤ × ℤ) : ComponentInterval :=
  { c with startNs := max p.1 a, endNs := min p.2 b, component := c.name }

end ComponentInterval

variable {comps : List ComponentInterval} {a b : ℤ}

/-! ## Clipping -/

/-- What is left of a component in the window. -/
theorem clipInterval_eq_nsSpan (c : ComponentInterval) (a b : ℤ) :
    clipInterval c.startNs c.endNs (some a) (some b) =
      c.nsSpan.bind fun p =>
        if min p.2 b ≤ max p.1 a then none else some (max p.1 a, min p.2 b) := by
  simp only [clipInterval, ComponentInterval.nsSpan]
  cases toNsInt c.startNs with
  | none => rfl
  | some s =>
    cases toNsInt c.endNs with
    -- an end that does not convert drops the interval
    | none => rfl
    | some e =>
      dsimp only
      split <;> rfl

/-- The clipped components are those that reach into the window. -/
theorem mem_clipComponents {d : ComponentInterval} :
    d ∈ clipComponents comps a b ↔
      ∃ c ∈ comps, ∃ p ∈ c.nsSpan, max p.1 a < min p.2 b ∧ d = c.clippedTo a b p := by
  simp only [clipComponents, List.mem_filterMap, clipInterval_eq_nsSpan, Option.map_eq_some_iff,
    Option.bind_eq_some_iff, Option.mem_def]
  constructor
  · intro h
    obtain ⟨c, hc, span, ⟨p, hp, hspan⟩, rfl⟩ := h
    split at hspan
    · -- nothing of the component lies in the window
      cases hspan
    · next hlt =>
      cases hspan
      exact ⟨c, hc, p, hp, not_le.mp hlt, rfl⟩
  · intro h
    obtain ⟨c, hc, p, hp, hlt, rfl⟩ := h
    exact ⟨c, hc, _, ⟨p, hp, if_neg (not_le.mpr hlt)⟩, rfl⟩

/-- The parts of the intervals in the window. -/
def clippedSpans (comps : List ComponentInterval) (a b : ℤ) : List (ℤ × ℤ) :=
  (clipComponents comps a b).map ComponentInterval.span

/-- Their lengths add up to what lies in the window. -/
theorem totalLength_clippedSpans :
    totalLength (clippedSpans comps a b) = (comps.map fun c => c.lengthIn a b).sum := by
  induction comps with
  | nil => rfl
  | cons c rest ih =>
    rw [List.map_cons, List.sum_cons, ← ih, clippedSpans, clipComponents, List.filterMap_cons,
      clipInterval_eq_nsSpan, ComponentInterval.lengthIn]
    cases c.nsSpan with
    | none => simp [clippedSpans, clipComponents]
    | some p =>
      rw [Option.bind_some, Option.elim_some]
      -- a component that does not reach into the window has no length there
      by_cases hle : min p.2 b ≤ max p.1 a
      · rw [if_pos hle, max_eq_left (sub_nonpos.mpr hle), zero_add]
        rfl
      · rw [if_neg hle]
        rfl

/-- An instant of the window lies in one of the parts when one of the intervals is on. -/
theorem mem_covered_clippedSpans {x : ℝ} :
    x ∈ covered (clippedSpans comps a b) ↔ (a : ℝ) ≤ x ∧ x < b ∧ ∃ c ∈ comps, c.ActiveAt x := by
  simp only [covered, clippedSpans, Set.mem_ofPred_eq, List.mem_map, mem_clipComponents]
  constructor
  · intro h
    obtain ⟨_, ⟨_, ⟨c, hc, p, hp, -, rfl⟩, rfl⟩, hle, hlt⟩ := h
    simp only [ComponentInterval.span, ComponentInterval.clippedTo, Int.cast_max, Int.cast_min,
      max_le_iff, lt_min_iff] at hle hlt
    exact ⟨hle.2, hlt.2, c, hc, p, hp, hle.1, hlt.1⟩
  · intro h
    obtain ⟨hax, hxb, c, hc, p, hp, hle, hlt⟩ := h
    have hmax : ((max p.1 a : ℤ) : ℝ) ≤ x := by
      rw [Int.cast_max]
      exact max_le hle hax
    have hmin : x < ((min p.2 b : ℤ) : ℝ) := by
      rw [Int.cast_min]
      exact lt_min hlt hxb
    -- an instant between the two ends shows that they are in order
    have hpos : max p.1 a < min p.2 b := by exact_mod_cast hmax.trans_lt hmin
    exact ⟨_, ⟨_, ⟨c, hc, p, hp, hpos, rfl⟩, rfl⟩, hmax, hmin⟩

/-! ## One segment -/

/-- On a step between boundaries a part is active throughout or nowhere. -/
theorem active_iff_of_mem_step {l : List ℤ} (hl : l.Pairwise (· < ·)) {s p : ℤ × ℤ}
    (hs : s ∈ steps l) (hp1 : p.1 ∈ l) (hp2 : p.2 ∈ l) {x : ℝ} (hx : (s.1 : ℝ) ≤ x ∧ x < s.2) :
    (p.1 < s.2 ∧ s.1 < p.2) ↔ ((p.1 : ℝ) ≤ x ∧ x < p.2) := by
  constructor
  · intro h
    obtain ⟨h1, h2⟩ := h
    obtain ⟨hle, hge⟩ := contains_step hl hs hp1 hp2 h1 h2
    exact ⟨le_trans (by exact_mod_cast hle) hx.1, lt_of_lt_of_le hx.2 (by exact_mod_cast hge)⟩
  · intro h
    obtain ⟨h1, h2⟩ := h
    exact ⟨by exact_mod_cast h1.trans_lt hx.2, by exact_mod_cast hx.1.trans_lt h2⟩

/-- The parts of the window run between boundaries. -/
theorem clippedSpans_boundaries {p : ℤ × ℤ} (hp : p ∈ clippedSpans comps a b) :
    p.1 ∈ sortedBoundaries (clipComponents comps a b) a b ∧
      p.2 ∈ sortedBoundaries (clipComponents comps a b) a b := by
  obtain ⟨c, hc, rfl⟩ := List.mem_map.mp hp
  exact ⟨mem_sortedBoundaries.mpr (.inr (.inr ⟨c, hc, .inl rfl⟩)),
    mem_sortedBoundaries.mpr (.inr (.inr ⟨c, hc, .inr rfl⟩))⟩

/-- An instant of a step lies in the window. -/
theorem mem_window_of_mem_step (hab : a < b) {s : ℤ × ℤ} (hs : s ∈ sweepSteps comps a b) {x : ℝ}
    (hx : (s.1 : ℝ) ≤ x ∧ x < s.2) : (a : ℝ) ≤ x ∧ x < b := by
  obtain ⟨h1, h2, -⟩ := mem_of_mem_steps (pairwise_sortedBoundaries _ a b) hs
  have ha := (sortedBoundaries_bounds hab h1).1
  have hb := (sortedBoundaries_bounds hab h2).2
  exact ⟨le_trans (by exact_mod_cast ha) hx.1, lt_of_lt_of_le hx.2 (by exact_mod_cast hb)⟩

/-- The parts that are active on a step are those of the intervals that are on, at any of its
    instants. -/
theorem mem_activeOn_step (hab : a < b) {s : ℤ × ℤ} (hs : s ∈ sweepSteps comps a b) {x : ℝ}
    (hx : (s.1 : ℝ) ≤ x ∧ x < s.2) {d : ComponentInterval} :
    d ∈ activeOn (clipComponents comps a b) s ↔
      ∃ c ∈ comps, ∃ p ∈ c.nsSpan, ((p.1 : ℝ) ≤ x ∧ x < p.2) ∧ d = c.clippedTo a b p := by
  have hwindow := mem_window_of_mem_step hab hs hx
  have hl := pairwise_sortedBoundaries (clipComponents comps a b) a b
  rw [activeOn, List.mem_filter, decide_eq_true_eq]
  constructor
  · -- the ends of a clipped interval are boundaries, so one instant of the step is enough
    intro h
    obtain ⟨hd, hactive⟩ := h
    have hends := clippedSpans_boundaries (List.mem_map_of_mem (f := ComponentInterval.span) hd)
    have hxd := (active_iff_of_mem_step hl hs hends.1 hends.2 hx).mp hactive
    obtain ⟨c, hc, p, hp, -, rfl⟩ := mem_clipComponents.mp hd
    simp only [ComponentInterval.span, ComponentInterval.clippedTo, Int.cast_max, Int.cast_min,
      max_le_iff, lt_min_iff] at hxd
    exact ⟨c, hc, p, hp, ⟨hxd.1.1, hxd.2.1⟩, rfl⟩
  · intro h
    obtain ⟨c, hc, p, hp, hxp, rfl⟩ := h
    -- an interval that is on inside the window is not clipped away
    have hmax : ((max p.1 a : ℤ) : ℝ) ≤ x := by
      rw [Int.cast_max]
      exact max_le hxp.1 hwindow.1
    have hmin : x < ((min p.2 b : ℤ) : ℝ) := by
      rw [Int.cast_min]
      exact lt_min hxp.2 hwindow.2
    have hpos : max p.1 a < min p.2 b := by exact_mod_cast hmax.trans_lt hmin
    have hd := mem_clipComponents.mpr ⟨c, hc, p, hp, hpos, rfl⟩
    have hends := clippedSpans_boundaries (List.mem_map_of_mem (f := ComponentInterval.span) hd)
    exact ⟨hd, (active_iff_of_mem_step hl hs hends.1 hends.2 hx).mpr ⟨hmax, hmin⟩⟩

/-- The names that are active on a step. -/
theorem mem_sortedComponents_step (hab : a < b) {s : ℤ × ℤ} (hs : s ∈ sweepSteps comps a b)
    {x : ℝ} (hx : (s.1 : ℝ) ≤ x ∧ x < s.2) {name : String} :
    name ∈ sortedComponents (activeOn (clipComponents comps a b) s) ↔
      ∃ c ∈ comps, c.ActiveAt x ∧ c.name = name := by
  -- being active on a step is being active at any point of it
  simp only [sortedComponents, List.mem_sortBy, List.mem_dedup, List.mem_map,
    mem_activeOn_step hab hs hx]
  constructor
  · intro h
    obtain ⟨_, ⟨c, hc, p, hp, hxp, rfl⟩, rfl⟩ := h
    exact ⟨c, hc, ⟨p, hp, hxp⟩, rfl⟩
  · intro h
    obtain ⟨c, hc, ⟨p, hp, hxp⟩, rfl⟩ := h
    exact ⟨_, ⟨c, hc, p, hp, hxp, rfl⟩, rfl⟩

/-- An interval is on at every instant of a step or at none. -/
theorem activeAt_all_or_none (hab : a < b) {s : ℤ × ℤ} (hs : s ∈ sweepSteps comps a b)
    {c : ComponentInterval} (hc : c ∈ comps) {x y : ℝ} (hx : (s.1 : ℝ) ≤ x ∧ x < s.2)
    (hy : (s.1 : ℝ) ≤ y ∧ y < s.2) (h : c.ActiveAt x) : c.ActiveAt y := by
  obtain ⟨p, hp, hxp⟩ := h
  have hl := pairwise_sortedBoundaries (clipComponents comps a b) a b
  have hd := (mem_activeOn_step hab hs hx).mpr ⟨c, hc, p, hp, hxp, rfl⟩
  rw [activeOn, List.mem_filter, decide_eq_true_eq] at hd
  -- the ends of the component are boundaries, so none lies inside the step
  have hends := clippedSpans_boundaries (List.mem_map_of_mem (f := ComponentInterval.span) hd.1)
  have hyp := (active_iff_of_mem_step hl hs hends.1 hends.2 hy).mp hd.2
  simp only [ComponentInterval.span, ComponentInterval.clippedTo, Int.cast_max, Int.cast_min,
    max_le_iff, lt_min_iff] at hyp
  exact ⟨p, hp, hyp.1.1, hyp.2.1⟩

/-- The component of a segment comes first among the active ones. -/
theorem wallSegment_component_least (clipped : List ComponentInterval) (s : ℤ × ℤ) :
    (sortedComponents (activeOn clipped s) = [] ∧
      (wallSegment clipped s).component = "pipeline_gap") ∨
    (wallSegment clipped s).component ∈ sortedComponents (activeOn clipped s) ∧
      ∀ name ∈ sortedComponents (activeOn clipped s),
        componentPriority (wallSegment clipped s).component ≤ componentPriority name := by
  simp only [wallSegment]
  -- no component is active, or the first of the sorted ones is taken
  cases h : sortedComponents (activeOn clipped s) with
  | nil => exact .inl ⟨rfl, rfl⟩
  | cons first rest =>
    right
    refine ⟨List.mem_cons_self, fun name hname => ?_⟩
    have hsorted := List.pairwise_sortBy componentPriority
      ((activeOn clipped s).map (·.component)).dedup
    rw [show List.sortBy componentPriority _ = first :: rest from h] at hsorted
    exact hsorted.head_key_le hname

/-! ## The whole window -/

/-- Some instant of the window is active, so some component is left. -/
theorem clipComponents_ne_nil
    (hoverlap : ∃ c ∈ comps, ∃ x : ℝ, (a : ℝ) ≤ x ∧ x < b ∧ c.ActiveAt x) :
    clipComponents comps a b ≠ [] := by
  obtain ⟨c, hc, x, hax, hxb, hactive⟩ := hoverlap
  obtain ⟨p, hp, -⟩ := mem_covered_clippedSpans.mpr ⟨hax, hxb, c, hc, hactive⟩
  intro hnil
  rw [clippedSpans, hnil] at hp
  cases hp

/-- The segments are the steps, each with its component. -/
theorem attributeWallComponents_segments (ha : NsTime a) (hb : NsTime b) (hab : a < b)
    (hclip : clipComponents comps a b ≠ []) :
    (attributeWallComponents comps a b).segments =
        (sweepSteps comps a b).map (wallSegment (clipComponents comps a b)) ∧
      (attributeWallComponents comps a b).parallelOverlapNs =
        ((sweepSteps comps a b).map (stepOverlapNs (clipComponents comps a b))).sum := by
  simp only [attributeWallComponents, ha.toNsInt, hb.toNsInt, if_neg (not_le.mpr hab), if_neg hclip]
  rw [filter_sweepSteps]
  exact ⟨rfl, rfl⟩

/-- The steps tile the window. -/
theorem tiles_sweepSteps (hab : a < b) : Tiles a b (sweepSteps comps a b) :=
  tiles_steps (pairwise_sortedBoundaries _ a b) (mem_sortedBoundaries.mpr (.inl rfl))
    (mem_sortedBoundaries.mpr (.inr (.inl rfl))) fun _ hx => sortedBoundaries_bounds hab hx

/-- The active parts of a step are counted as intervals. -/
theorem stepOverlapNs_eq (s : ℤ × ℤ) :
    stepOverlapNs (clipComponents comps a b) s =
      max 0 ((overlapCount (clippedSpans comps a b) s : ℤ) - 1) * (s.2 - s.1) := by
  rw [stepOverlapNs, activeOn, ← List.countP_eq_length_filter, overlapCount, clippedSpans,
    List.countP_map]
  rfl

/-- The overlap is what the components have too much over their union. -/
theorem sum_stepOverlapNs (hab : a < b) :
    ((sweepSteps comps a b).map (stepOverlapNs (clipComponents comps a b))).sum =
      totalLength (clippedSpans comps a b) - (cells (clippedSpans comps a b)).card := by
  rw [← sum_excess_steps (pairwise_sortedBoundaries _ a b) (mem_sortedBoundaries.mpr (.inl rfl))
    (mem_sortedBoundaries.mpr (.inr (.inl rfl))) (fun _ hx => sortedBoundaries_bounds hab hx)
    fun _ hp => clippedSpans_boundaries hp]
  exact congrArg List.sum (List.map_congr_left fun s _ => stepOverlapNs_eq s)

/-- The component of a segment at one of its instants. -/
theorem wallSegment_component_at (hab : a < b) {s : ℤ × ℤ} (hs : s ∈ sweepSteps comps a b) {x : ℝ}
    (hx : (s.1 : ℝ) ≤ x ∧ x < s.2) :
    ((∀ c ∈ comps, ¬c.ActiveAt x) →
      (wallSegment (clipComponents comps a b) s).component = "pipeline_gap") ∧
    ((∃ c ∈ comps, c.ActiveAt x) →
      (∃ c ∈ comps, c.ActiveAt x ∧
        c.name = (wallSegment (clipComponents comps a b) s).component) ∧
      ∀ c ∈ comps, c.ActiveAt x →
        componentPriority (wallSegment (clipComponents comps a b) s).component ≤
          componentPriority c.name) := by
  -- what is said of names is said of the intervals that are on
  have hnames : ∀ name, name ∈ sortedComponents (activeOn (clipComponents comps a b) s) ↔
      ∃ c ∈ comps, c.ActiveAt x ∧ c.name = name := fun _ => mem_sortedComponents_step hab hs hx
  obtain ⟨hnil, hgap⟩ | ⟨hmem, hleast⟩ :=
    wallSegment_component_least (clipComponents comps a b) s
  · refine ⟨fun _ => hgap, ?_⟩
    intro h
    obtain ⟨c, hc, hactive⟩ := h
    have hname := (hnames c.name).mpr ⟨c, hc, hactive, rfl⟩
    rw [hnil] at hname
    cases hname
  · have hfirst := (hnames _).mp hmem
    constructor
    · intro hnone
      obtain ⟨c, hc, hactive, -⟩ := hfirst
      exact absurd hactive (hnone c hc)
    · intro _
      exact ⟨hfirst, fun c hc hactive => hleast _ ((hnames _).mpr ⟨c, hc, hactive, rfl⟩)⟩

/-- The attribution of a window that some interval overlaps, instant by instant. -/
theorem attributeWallComponents_pointwise (comps : List ComponentInterval) {a b : ℤ}
    (ha : NsTime a) (hb : NsTime b) (hab : a < b)
    (hoverlap : ∃ c ∈ comps, ∃ x : ℝ, (a : ℝ) ≤ x ∧ x < b ∧ c.ActiveAt x) :
    let info := attributeWallComponents comps a b
    -- the segments tile the window in order
    Tiles a b (info.segments.map fun seg => (seg.startNs, seg.endNs)) ∧
    (∀ seg ∈ info.segments,
      -- an interval is on throughout a segment or nowhere in it
      (∀ c ∈ comps, (∀ x : ℝ, (seg.startNs : ℝ) ≤ x ∧ x < seg.endNs → c.ActiveAt x) ∨
        ∀ x : ℝ, (seg.startNs : ℝ) ≤ x ∧ x < seg.endNs → ¬c.ActiveAt x) ∧
      -- the component is the active one of least priority
      ∀ x : ℝ, (seg.startNs : ℝ) ≤ x ∧ x < seg.endNs →
        ((∀ c ∈ comps, ¬c.ActiveAt x) → seg.component = "pipeline_gap") ∧
        ((∃ c ∈ comps, c.ActiveAt x) →
          (∃ c ∈ comps, c.ActiveAt x ∧ c.name = seg.component) ∧
          ∀ c ∈ comps, c.ActiveAt x →
            componentPriority seg.component ≤ componentPriority c.name)) ∧
    -- the overlap is the total length less the measure of the union
    (info.parallelOverlapNs : ℝ) = ((comps.map fun c => c.lengthIn a b).sum : ℤ) -
      (MeasureTheory.volume
        {x : ℝ | (a : ℝ) ≤ x ∧ x < b ∧ ∃ c ∈ comps, c.ActiveAt x}).toReal := by
  intro info
  obtain ⟨hsegments, hexcess⟩ :=
    attributeWallComponents_segments ha hb hab (clipComponents_ne_nil hoverlap)
  refine ⟨?_, ?_, ?_⟩
  · have hspans : (info.segments.map fun seg => (seg.startNs, seg.endNs)) =
        sweepSteps comps a b := by
      rw [hsegments, List.map_map]
      exact List.map_id _
    rw [hspans]
    exact tiles_sweepSteps hab
  · intro seg hseg
    rw [hsegments] at hseg
    obtain ⟨s, hs, rfl⟩ := List.mem_map.mp hseg
    refine ⟨fun c hc => ?_, fun x hx => wallSegment_component_at hab hs hx⟩
    by_cases hon : ∃ x : ℝ, ((s.1 : ℝ) ≤ x ∧ x < s.2) ∧ c.ActiveAt x
    · obtain ⟨y, hy, hactive⟩ := hon
      exact .inl fun x hx => activeAt_all_or_none hab hs hc hy hx hactive
    · exact .inr fun x hx hactive => hon ⟨x, hx, hactive⟩
  · have hunion : {x : ℝ | (a : ℝ) ≤ x ∧ x < b ∧ ∃ c ∈ comps, c.ActiveAt x} =
        covered (clippedSpans comps a b) := Set.ext fun x => mem_covered_clippedSpans.symm
    rw [hunion, volume_covered, ← totalLength_clippedSpans, hexcess, sum_stepOverlapNs hab]
    simp

/-- Two components that overlap in the middle of a window. -/
theorem attributeWallComponents_pointwise_twoComponents :
    Tiles (2 * 10 ^ 14 : ℤ) (2 * 10 ^ 14 + 4) ((attributeWallComponents
      [⟨2 * 10 ^ 14, 2 * 10 ^ 14 + 2, "sampling", ""⟩,
        ⟨2 * 10 ^ 14 + 1, 2 * 10 ^ 14 + 3, "pp_gap", ""⟩]
      (2 * 10 ^ 14) (2 * 10 ^ 14 + 4)).segments.map fun seg => (seg.startNs, seg.endNs)) := by
  refine (attributeWallComponents_pointwise _ (by decide) (by decide) (by decide) ?_).1
  refine ⟨_, List.mem_cons_self, 2 * 10 ^ 14, ?_, ?_, (2 * 10 ^ 14, 2 * 10 ^ 14 + 2), ?_, ?_, ?_⟩
  · norm_num
  · norm_num
  · decide
  · norm_num
  · norm_num

end DeLatency
