import DeLatency.Converter.WallComponents
import DeLatency.Spec.Intervals

/-!
# Wall-time attribution is exact

Every elementary segment of a window is charged to one component, so the charges
add up to the window (`total_wallComponents`).  `pp_gap` has the least priority
number and wins every segment it covers, so its charge is the measure of its
intervals inside the window (`getD_ppGap`).
-/

namespace DeLatency

open Intervals

/-- The interval of a component. -/
def ComponentInterval.span (c : ComponentInterval) : ℤ × ℤ := (c.startNs, c.endNs)

/-- The intervals of one component. -/
def spansOf (name : String) (comps : List ComponentInterval) : List (ℤ × ℤ) :=
  (comps.filter (·.component = name)).map ComponentInterval.span

/-- The spans of a name are collected part by part. -/
theorem spansOf_append (name : String) (comps comps' : List ComponentInterval) :
    spansOf name (comps ++ comps') = spansOf name comps ++ spansOf name comps' := by
  simp [spansOf]

variable {comps : List ComponentInterval} {a b : ℤ}

/-! ## The clipped components -/

/-- Clipped components lie in the window. -/
theorem clipComponents_bounds {c : ComponentInterval} (hc : c ∈ clipComponents comps a b) :
    a ≤ c.startNs ∧ c.startNs < c.endNs ∧ c.endNs ≤ b := by
  obtain ⟨item, -, h⟩ := List.mem_filterMap.mp hc
  obtain ⟨span, hspan, rfl⟩ := Option.map_eq_some_iff.mp h
  exact clipInterval_bounds hspan

/-- Clipping the components clips the intervals of each named one. -/
theorem spansOf_clipComponents {name : String} (hname : name ≠ "other_compute")
    (hempty : name ≠ "") :
    spansOf name (clipComponents comps a b) = clipAll (some a) (some b) (spansOf name comps) := by
  induction comps with
  | nil => rfl
  | cons item rest ih =>
    -- the component of an item is kept unless it is empty, and `name` is not
    have hcomp : (if item.component = "" then "other_compute" else item.component) = name ↔
        item.component = name := by
      by_cases h : item.component = ""
      · simp [h, Ne.symm hname, Ne.symm hempty]
      · simp [h]
    have ih : ((clipComponents rest a b).filter (·.component = name)).map ComponentInterval.span =
        clipAll (some a) (some b) (spansOf name rest) := ih
    by_cases hitem : item.component = name
    · -- an item of the named component: dropped on both sides or clipped on both
      cases hclip : clipInterval item.startNs item.endNs (some a) (some b) with
      | none =>
        have hl : clipComponents (item :: rest) a b = clipComponents rest a b := by
          simp [clipComponents, hclip]
        have hr : clipAll (some a) (some b) (spansOf name (item :: rest)) =
            clipAll (some a) (some b) (spansOf name rest) := by
          simp [clipAll, spansOf, hitem, ComponentInterval.span, hclip]
        rw [hl, hr]
        exact ih
      | some span =>
        have hl : spansOf name (clipComponents (item :: rest) a b) =
            span :: spansOf name (clipComponents rest a b) := by
          simp [clipComponents, spansOf, hclip, hcomp.mpr hitem, ComponentInterval.span]
        have hr : clipAll (some a) (some b) (spansOf name (item :: rest)) =
            span :: clipAll (some a) (some b) (spansOf name rest) := by
          simp [clipAll, spansOf, hitem, ComponentInterval.span, hclip]
        rw [hl, hr]
        exact congrArg _ ih
    · -- an item of another component counts on neither side
      have hr : spansOf name (item :: rest) = spansOf name rest := by simp [spansOf, hitem]
      rw [hr, ← ih]
      cases hclip : clipInterval item.startNs item.endNs (some a) (some b) with
      | none => simp [clipComponents, spansOf, hclip]
      | some span => simp [clipComponents, spansOf, hclip, mt hcomp.mp hitem]

/-! ## The boundaries -/

/-- The boundaries are the window's ends and those of the components. -/
theorem mem_sortedBoundaries {clipped : List ComponentInterval} {x : ℤ} :
    x ∈ sortedBoundaries clipped a b ↔
      x = a ∨ x = b ∨ ∃ c ∈ clipped, x = c.startNs ∨ x = c.endNs := by
  simp [sortedBoundaries]

/-- The boundaries are strictly increasing. -/
theorem pairwise_sortedBoundaries (clipped : List ComponentInterval) (a b : ℤ) :
    (sortedBoundaries clipped a b).Pairwise (· < ·) := by
  have hle : (sortedBoundaries clipped a b).Pairwise fun x y => id x ≤ id y :=
    List.pairwise_sortBy id _
  have hne : (sortedBoundaries clipped a b).Pairwise (· ≠ ·) :=
    (List.sortBy_perm id _).nodup_iff.mpr (List.nodup_dedup _)
  exact (hle.and hne).imp fun h => lt_of_le_of_ne h.1 h.2

/-- The boundaries of clipped components lie in the window. -/
theorem sortedBoundaries_bounds (hab : a < b) {x : ℤ}
    (hx : x ∈ sortedBoundaries (clipComponents comps a b) a b) : a ≤ x ∧ x ≤ b := by
  obtain rfl | rfl | ⟨c, hc, rfl | rfl⟩ := mem_sortedBoundaries.mp hx
  · exact ⟨le_refl _, hab.le⟩
  · exact ⟨hab.le, le_refl _⟩
  · have hbounds := clipComponents_bounds hc
    omega
  · have hbounds := clipComponents_bounds hc
    omega

/-! ## The segments -/

/-- The steps of the sweep. -/
def sweepSteps (comps : List ComponentInterval) (a b : ℤ) : List (ℤ × ℤ) :=
  steps (sortedBoundaries (clipComponents comps a b) a b)

/-- Every step takes time. -/
theorem sweepSteps_pos {s : ℤ × ℤ} (hs : s ∈ sweepSteps comps a b) : s.1 < s.2 :=
  (mem_of_mem_steps (pairwise_sortedBoundaries _ a b) hs).2.2

/-- The boundaries increase strictly, so the loop skips no step. -/
theorem filter_sweepSteps (comps : List ComponentInterval) (a b : ℤ) :
    (steps (sortedBoundaries (clipComponents comps a b) a b)).filter (fun s => s.1 < s.2) =
      sweepSteps comps a b := by
  rw [← sweepSteps, List.filter_eq_self]
  intro s hs
  exact decide_eq_true (sweepSteps_pos hs)

/-- Outside the case of no component at all, the wall components are the charges
    of the steps. -/
private theorem wallComponents_eq (ha : NsTime a) (hb : NsTime b) (hab : a < b)
    (hclip : clipComponents comps a b ≠ []) :
    (attributeWallComponents comps a b).wallComponentsNs =
      Dict.empty.addAll ((sweepSteps comps a b).map fun s =>
        ((wallSegment (clipComponents comps a b) s).component, s.2 - s.1)) := by
  simp only [attributeWallComponents, ha.toNsInt, hb.toNsInt, if_neg (not_le.mpr hab), if_neg hclip]
  rw [filter_sweepSteps, List.map_map]
  rfl

/-- With no component the window is other compute. -/
private theorem wallComponents_of_nil (ha : NsTime a) (hb : NsTime b) (hab : a < b)
    (hclip : clipComponents comps a b = []) :
    (attributeWallComponents comps a b).wallComponentsNs =
      Dict.empty.addAll [("other_compute", b - a)] := by
  simp only [attributeWallComponents, ha.toNsInt, hb.toNsInt, if_neg (not_le.mpr hab), if_pos hclip]
  rfl

/-- The steps are as long as the window. -/
private theorem totalLength_sweepSteps (hab : a < b) :
    totalLength (sweepSteps comps a b) = b - a := by
  have hl := pairwise_sortedBoundaries (clipComponents comps a b) a b
  -- the steps tile the window, and tiles are disjoint
  have hcells : cells (sweepSteps comps a b) = Finset.Ico a b :=
    cells_steps hl (mem_sortedBoundaries.mpr (.inl rfl))
      (mem_sortedBoundaries.mpr (.inr (.inl rfl))) fun x hx => sortedBoundaries_bounds hab hx
  have hcard := card_cells (pairwise_disjoint_of_le (pairwise_steps hl))
  have hwhole := card_Ico a b
  rw [show steps (sortedBoundaries (clipComponents comps a b) a b) = sweepSteps comps a b from rfl,
    hcells] at hcard
  omega

/-- The charges of a window add up to its length. -/
theorem total_wallComponents (ha : NsTime a) (hb : NsTime b) (hab : a < b) :
    (attributeWallComponents comps a b).wallComponentsNs.total = b - a := by
  by_cases hclip : clipComponents comps a b = []
  · rw [wallComponents_of_nil ha hb hab hclip]
    simp
  · rw [wallComponents_eq ha hb hab hclip, Dict.total_addAll, Dict.total_empty, zero_add,
      List.map_map]
    exact (sum_lengths fun s hs => sweepSteps_pos hs).trans (totalLength_sweepSteps hab)

/-- No component is charged a negative time. -/
theorem wallComponents_nonneg (ha : NsTime a) (hb : NsTime b) (hab : a < b) (name : String) :
    0 ≤ (attributeWallComponents comps a b).wallComponentsNs.getD name 0 := by
  by_cases hclip : clipComponents comps a b = []
  · -- nothing overlaps the window, which is counted whole
    rw [wallComponents_of_nil ha hb hab hclip]
    apply Dict.getD_addAll_nonneg (by simp)
    intro e he
    rw [List.mem_singleton] at he
    subst he
    omega
  · -- each step of the sweep adds its own length
    rw [wallComponents_eq ha hb hab hclip]
    apply Dict.getD_addAll_nonneg (by simp)
    intro e he
    obtain ⟨s, hs, rfl⟩ := List.mem_map.mp he
    exact sub_nonneg.mpr (sweepSteps_pos hs).le

/-! ## Which component is charged -/

/-- The component of a segment is one of the active ones, or `pipeline_gap`. -/
theorem wallSegment_component (clipped : List ComponentInterval) (s : ℤ × ℤ) :
    (wallSegment clipped s).component = "pipeline_gap" ∨
      ∃ c ∈ clipped, (wallSegment clipped s).component = c.component := by
  simp only [wallSegment]
  cases h : sortedComponents (activeOn clipped s) with
  | nil => exact .inl rfl
  | cons name rest =>
    right
    -- the first of the sorted components is one of them
    have hname : name ∈ sortedComponents (activeOn clipped s) := by rw [h]; exact List.mem_cons_self
    simp only [sortedComponents, List.mem_sortBy, List.mem_dedup, List.mem_map] at hname
    obtain ⟨c, hc, hceq⟩ := hname
    exact ⟨c, List.mem_of_mem_filter hc, hceq.symm⟩

/-- Only components of the list are charged, next to `other_compute` and
    `pipeline_gap`. -/
theorem mem_keys_wallComponents (ha : NsTime a) (hb : NsTime b) (hab : a < b) {name : String}
    (h : name ∈ (attributeWallComponents comps a b).wallComponentsNs.keys) :
    name = "other_compute" ∨ name = "pipeline_gap" ∨ ∃ c ∈ comps, c.component = name := by
  by_cases hclip : clipComponents comps a b = []
  · rw [wallComponents_of_nil ha hb hab hclip, Dict.mem_keys_addAll] at h
    obtain h | h := h
    · simp [Dict.keys, Dict.empty] at h
    · exact .inl (by simpa using h)
  · rw [wallComponents_eq ha hb hab hclip, Dict.mem_keys_addAll, List.map_map] at h
    obtain h | h := h
    · simp [Dict.keys, Dict.empty] at h
    · -- the key is the component of some step
      obtain ⟨s, -, rfl⟩ := List.mem_map.mp h
      obtain heq | ⟨c, hc, heq⟩ := wallSegment_component (clipComponents comps a b) s
      · exact .inr (.inl heq)
      · obtain ⟨item, hitem, hmap⟩ := List.mem_filterMap.mp hc
        obtain ⟨span, -, rfl⟩ := Option.map_eq_some_iff.mp hmap
        simp only [Function.comp_apply, heq]
        -- an interval without a component is charged as `other_compute`
        by_cases hempty : item.component = ""
        · exact .inl (by simp [hempty])
        · exact .inr (.inr ⟨item, hitem, by simp [hempty]⟩)

/-- `pp_gap` comes before every other component. -/
theorem componentPriority_ppGap_le (name : String) :
    componentPriority "pp_gap" ≤ componentPriority name := by
  by_cases h : name = "pp_gap"
  · rw [h]
  · -- every other entry of the table, and the default, is above zero
    have hpos : 0 < (componentPriorityTable.lookup name).getD 80 := by
      simp only [componentPriorityTable, List.lookup_cons, List.lookup_nil,
        beq_eq_false_iff_ne.mpr h]
      repeat' split
      all_goals simp
    exact Prod.Lex.le_iff.mpr (.inl hpos)

/-- The name is part of the priority, so no two names share one. -/
theorem componentPriority_injective {name name' : String}
    (h : componentPriority name = componentPriority name') : name = name' :=
  congrArg (fun k : ℕ ×ₗ String => (ofLex k).2) h

/-- `pp_gap` is charged with every step on which it is active. -/
theorem wallSegment_component_eq_ppGap (clipped : List ComponentInterval) (s : ℤ × ℤ) :
    (wallSegment clipped s).component = "pp_gap" ↔
      ∃ p ∈ spansOf "pp_gap" clipped, p.1 < s.2 ∧ s.1 < p.2 := by
  have hmem : (∃ p ∈ spansOf "pp_gap" clipped, p.1 < s.2 ∧ s.1 < p.2) ↔
      "pp_gap" ∈ (activeOn clipped s).map (·.component) := by
    simp only [spansOf, activeOn, List.mem_map, List.mem_filter, decide_eq_true_eq]
    constructor
    · intro hx
      obtain ⟨_, ⟨c, ⟨hc, hname⟩, rfl⟩, h⟩ := hx
      exact ⟨c, ⟨hc, h⟩, hname⟩
    · intro hx
      obtain ⟨c, ⟨hc, h⟩, hname⟩ := hx
      exact ⟨c.span, ⟨c, ⟨hc, hname⟩, rfl⟩, h⟩
  rw [hmem]
  simp only [wallSegment]
  constructor
  · intro h
    cases hs : sortedComponents (activeOn clipped s) with
    | nil =>
      -- the segment would be charged to `pipeline_gap`
      rw [hs] at h
      exact absurd h (by decide)
    | cons name rest =>
      rw [hs] at h
      have hname : name ∈ sortedComponents (activeOn clipped s) := by
        rw [hs]
        exact List.mem_cons_self
      simp only [sortedComponents, List.mem_sortBy, List.mem_dedup] at hname
      exact (show name = "pp_gap" from h) ▸ hname
  · intro h
    -- no other component comes before it in the order of priorities
    have hhead : (sortedComponents (activeOn clipped s)).head? = some "pp_gap" :=
      List.head?_sortBy_of_least (List.mem_dedup.mpr h)
        (fun name _ => componentPriority_ppGap_le name) fun name _ => componentPriority_injective
    rw [List.headD_eq_head?_getD, hhead]
    rfl

/-- The charge of `pp_gap` measures its intervals inside the window. -/
theorem getD_ppGap (hspan : ∀ p ∈ spansOf "pp_gap" comps, NsSpan p) (ha : NsTime a) (hb : NsTime b)
    (hab : a < b) :
    (attributeWallComponents comps a b).wallComponentsNs.getD "pp_gap" 0 =
      (cells (spansOf "pp_gap" comps) ∩ Finset.Ico a b).card := by
  rw [← cells_clipAll hspan,
    ← spansOf_clipComponents (a := a) (b := b) (by decide : "pp_gap" ≠ "other_compute") (by decide)]
  by_cases hclip : clipComponents comps a b = []
  · rw [wallComponents_of_nil ha hb hab hclip, Dict.getD_addAll, hclip]
    rfl
  · rw [wallComponents_eq ha hb hab hclip, Dict.getD_addAll, Dict.getD_empty, zero_add]
    have hl := pairwise_sortedBoundaries (clipComponents comps a b) a b
    -- the steps charged to `pp_gap` tile what its clipped intervals cover
    set active : ℤ × ℤ → Bool := fun s =>
      (wallSegment (clipComponents comps a b) s).component = "pp_gap" with hactive
    have hfilter : ((sweepSteps comps a b).map fun s =>
        ((wallSegment (clipComponents comps a b) s).component, s.2 - s.1)).filter
          (fun e => e.1 = "pp_gap") = ((sweepSteps comps a b).filter active).map fun s =>
        ((wallSegment (clipComponents comps a b) s).component, s.2 - s.1) := by
      rw [List.filter_map]
      rfl
    have hcells : cells ((sweepSteps comps a b).filter active) =
        cells (spansOf "pp_gap" (clipComponents comps a b)) := by
      refine cells_filter_steps hl (mem_sortedBoundaries.mpr (.inl rfl))
        (mem_sortedBoundaries.mpr (.inr (.inl rfl))) (fun x hx => sortedBoundaries_bounds hab hx)
        ?_ ?_
      · -- the ends of a clipped interval are boundaries
        intro p hp
        obtain ⟨c, hc, rfl⟩ := List.mem_map.mp hp
        have hc := List.mem_of_mem_filter hc
        exact ⟨mem_sortedBoundaries.mpr (.inr (.inr ⟨c, hc, .inl rfl⟩)),
          mem_sortedBoundaries.mpr (.inr (.inr ⟨c, hc, .inr rfl⟩))⟩
      · intro s _
        rw [hactive, decide_eq_true_eq]
        exact wallSegment_component_eq_ppGap _ s
    have hdisj : ((sweepSteps comps a b).filter active).Pairwise
        fun p q => Disjoint (Finset.Ico p.1 p.2) (Finset.Ico q.1 q.2) :=
      (pairwise_disjoint_of_le (pairwise_steps hl)).filter _
    rw [hfilter, List.map_map, ← hcells, card_cells hdisj]
    exact sum_lengths fun s hs => sweepSteps_pos (List.mem_filter.mp hs).1

end DeLatency
