import DeLatency.ForStd.Intervals
import DeLatency.ForStd.ListExtra

/-!
# Sweeping over a list of boundaries

`steps l` pairs each boundary with the next one.  The steps of an increasing
list tile the stretch between its ends, and an interval whose endpoints are
both boundaries contains a step as soon as it overlaps it, so the steps that
meet some interval of a list tile exactly the set the list covers
(`cells_filter_steps`).
-/

namespace Intervals

variable {α : Type*}

/-- Each boundary with its successor. -/
def steps (l : List α) : List (α × α) := l.zip l.tail

/-- No cut points, no steps. -/
@[simp] theorem steps_nil : steps ([] : List α) = [] := rfl

/-- One cut point alone makes no step. -/
@[simp] theorem steps_singleton (a : α) : steps [a] = [] := rfl

/-- The first step joins the first two cut points. -/
@[simp] theorem steps_cons_cons (a b : α) (rest : List α) :
    steps (a :: b :: rest) = (a, b) :: steps (b :: rest) := rfl

/-- A new boundary is the end of one step. -/
theorem steps_concat (l : List α) (a : α) :
    steps (l ++ [a]) = steps l ++ (l.getLast?.map fun b => (b, a)).toList := by
  induction l with
  | nil => rfl
  | cons b rest ih =>
    cases rest with
    | nil => rfl
    -- the first step is not touched by what comes at the end
    | cons c rest =>
      rw [List.cons_append, List.cons_append, steps_cons_cons, steps_cons_cons, List.cons_append,
        ← List.cons_append, ih, List.getLast?_cons_cons]

variable [LinearOrder α]

/-- Both ends of a step are boundaries, in order. -/
theorem mem_of_mem_steps {l : List α} (hl : l.Pairwise (· < ·)) {s : α × α} (hs : s ∈ steps l) :
    s.1 ∈ l ∧ s.2 ∈ l ∧ s.1 < s.2 := by
  induction l with
  | nil => simp at hs
  | cons a rest ih =>
    cases rest with
    | nil => simp at hs
    | cons b rest =>
      rw [List.pairwise_cons] at hl
      rw [steps_cons_cons, List.mem_cons] at hs
      -- the first step, or one of the later points
      cases hs with
      | inl heq => subst heq; exact ⟨by simp, by simp, hl.1 b List.mem_cons_self⟩
      | inr hs =>
        obtain ⟨h1, h2, h3⟩ := ih hl.2 hs
        exact ⟨List.mem_cons_of_mem _ h1, List.mem_cons_of_mem _ h2, h3⟩

/-- No boundary lies strictly inside a step. -/
theorem boundary_outside_step {l : List α} (hl : l.Pairwise (· < ·)) {s : α × α}
    (hs : s ∈ steps l) {x : α} (hx : x ∈ l) : x ≤ s.1 ∨ s.2 ≤ x := by
  induction l with
  | nil => simp at hs
  | cons a rest ih =>
    cases rest with
    | nil => simp at hs
    | cons b rest =>
      rw [List.pairwise_cons] at hl
      rw [steps_cons_cons, List.mem_cons] at hs
      cases hs with
      | inl heq =>
        subst heq
        cases List.mem_cons.mp hx with
        | inl heq => exact .inl heq.le
        | inr hx =>
          -- every later boundary is at or after `b`
          right
          exact (hl.2.imp le_of_lt).head_key_le hx
      | inr hs =>
        cases List.mem_cons.mp hx with
        | inl heq =>
          -- the head is before every later step
          subst heq
          exact .inl (hl.1 s.1 (mem_of_mem_steps hl.2 hs).1).le
        | inr hx => exact ih hl.2 hs hx

/-- The steps follow one another. -/
theorem pairwise_steps {l : List α} (hl : l.Pairwise (· < ·)) :
    (steps l).Pairwise fun s t => s.2 ≤ t.1 := by
  induction l with
  | nil => simp
  | cons a rest ih =>
    cases rest with
    | nil => simp
    | cons b rest =>
      rw [List.pairwise_cons] at hl
      rw [steps_cons_cons, List.pairwise_cons]
      refine ⟨fun t ht => ?_, ih hl.2⟩
      -- every later step starts at a later cut point
      exact (hl.2.imp le_of_lt).head_key_le (mem_of_mem_steps hl.2 ht).1

/-- An interval between boundaries contains every step it overlaps. -/
theorem contains_step {l : List α} (hl : l.Pairwise (· < ·)) {s p : α × α} (hs : s ∈ steps l)
    (hp1 : p.1 ∈ l) (hp2 : p.2 ∈ l) (h1 : p.1 < s.2) (h2 : s.1 < p.2) :
    p.1 ≤ s.1 ∧ s.2 ≤ p.2 :=
  ⟨(boundary_outside_step hl hs hp1).resolve_right (not_le.mpr h1),
    (boundary_outside_step hl hs hp2).resolve_left (not_le.mpr h2)⟩

/-! ## Tilings -/

/-- The intervals of the list cut the stretch from `a` to `b` into pieces, in order. -/
def Tiles {α : Type*} [LT α] (a b : α) : List (α × α) → Prop
  | [] => a = b
  | p :: rest => p.1 = a ∧ p.1 < p.2 ∧ Tiles p.2 b rest

/-- The steps of an increasing list tile the stretch from its least to its greatest element. -/
theorem tiles_steps {α : Type*} [LinearOrder α] {l : List α} {a b : α} (hl : l.Pairwise (· < ·))
    (ha : a ∈ l) (hb : b ∈ l) (hle : ∀ x ∈ l, a ≤ x ∧ x ≤ b) : Tiles a b (steps l) := by
  induction l generalizing a with
  | nil => cases ha
  | cons c rest ih =>
    -- the least point of an increasing list is its first
    have hca : c = a :=
      le_antisymm ((hl.imp le_of_lt).head_key_le ha) (hle c List.mem_cons_self).1
    subst hca
    cases rest with
    | nil => exact (List.mem_singleton.mp hb).symm
    | cons d rest =>
      rw [List.pairwise_cons] at hl
      have hcd : c < d := hl.1 d List.mem_cons_self
      have hdb : d ≤ b := (hle d (by simp)).2
      -- the end is not the first point, so the rest tiles what is left
      have hb' : b ∈ d :: rest := (List.mem_cons.mp hb).resolve_left fun h =>
        absurd (h ▸ hdb) (not_le.mpr hcd)
      refine ⟨rfl, hcd, ih hl.2 List.mem_cons_self hb' ?_⟩
      intro x hx
      exact ⟨(hl.2.imp le_of_lt).head_key_le hx, (hle x (List.mem_cons_of_mem c hx)).2⟩

/-- A tiled window does not end before it starts. -/
theorem Tiles.le {α : Type*} [Preorder α] {a b : α} {l : List (α × α)} (h : Tiles a b l) :
    a ≤ b := by
  induction l generalizing a with
  | nil => exact le_of_eq h
  | cons p rest ih =>
    obtain ⟨rfl, hlt, hrest⟩ := h
    exact hlt.le.trans (ih hrest)

/-! ## What the steps cover -/

variable [LocallyFiniteOrder α]

/-- A tiling covers the stretch. -/
theorem cells_of_tiles {l : List (α × α)} {a b : α} (h : Tiles a b l) :
    cells l = Finset.Ico a b := by
  induction l generalizing a with
  | nil =>
    -- an empty tiling tiles the empty window
    obtain rfl : a = b := h
    simp
  | cons p rest ih =>
    obtain ⟨rfl, hlt, hrest⟩ := h
    -- the first tile meets the rest where it ends
    rw [cells_cons, ih hrest]
    exact Finset.Ico_union_Ico_eq_Ico hlt.le hrest.le

/-- The steps tile the stretch between the first and the last boundary. -/
theorem cells_steps {l : List α} {a b : α} (hl : l.Pairwise (· < ·)) (ha : a ∈ l) (hb : b ∈ l)
    (hle : ∀ x ∈ l, a ≤ x ∧ x ≤ b) : cells (steps l) = Finset.Ico a b :=
  cells_of_tiles (tiles_steps hl ha hb hle)

/-- The steps that overlap some interval of `ps` tile exactly what `ps` covers,
    provided the boundaries include the ends of every interval. -/
theorem cells_filter_steps {l : List α} {ps : List (α × α)} {a b : α} {active : α × α → Bool}
    (hl : l.Pairwise (· < ·)) (ha : a ∈ l) (hb : b ∈ l) (hle : ∀ x ∈ l, a ≤ x ∧ x ≤ b)
    (hps : ∀ p ∈ ps, p.1 ∈ l ∧ p.2 ∈ l)
    (hactive : ∀ s ∈ steps l, active s = true ↔ ∃ p ∈ ps, p.1 < s.2 ∧ s.1 < p.2) :
    cells ((steps l).filter active) = cells ps := by
  ext x
  simp only [mem_cells, List.mem_filter]
  constructor
  · intro hx
    obtain ⟨s, ⟨hs, hact⟩, hsx⟩ := hx
    -- an overlapped step lies inside the interval
    obtain ⟨p, hp, h1, h2⟩ := (hactive s hs).mp hact
    obtain ⟨h3, h4⟩ := contains_step hl hs (hps p hp).1 (hps p hp).2 h1 h2
    exact ⟨p, hp, h3.trans hsx.1, hsx.2.trans_le h4⟩
  · intro hx
    obtain ⟨p, hp, hpx⟩ := hx
    -- the step around `x` overlaps the interval that covers `x`
    have hx : x ∈ cells (steps l) := by
      rw [cells_steps hl ha hb hle, Finset.mem_Ico]
      exact ⟨(hle _ (hps p hp).1).1.trans hpx.1, hpx.2.trans_le (hle _ (hps p hp).2).2⟩
    obtain ⟨s, hs, hsx⟩ := mem_cells.mp hx
    exact ⟨s, ⟨hs, (hactive s hs).mpr ⟨p, hp, hpx.1.trans_lt hsx.2, hsx.1.trans_lt hpx.2⟩⟩, hsx⟩

/-! ## Counting over the steps -/

/-- How many intervals of the list overlap a step. -/
def overlapCount (ps : List (ℤ × ℤ)) (s : ℤ × ℤ) : ℕ :=
  ps.countP fun p => p.1 < s.2 ∧ s.1 < p.2

/-- A stretch is counted exactly when some interval overlaps it. -/
theorem overlapCount_pos {ps : List (ℤ × ℤ)} {s : ℤ × ℤ} :
    0 < overlapCount ps s ↔ ∃ p ∈ ps, p.1 < s.2 ∧ s.1 < p.2 := by
  simp [overlapCount, List.countP_pos_iff]

section Counting

variable {l : List ℤ} {ps : List (ℤ × ℤ)} {a b : ℤ} (hl : l.Pairwise (· < ·)) (ha : a ∈ l)
  (hb : b ∈ l) (hle : ∀ x ∈ l, a ≤ x ∧ x ≤ b) (hps : ∀ p ∈ ps, p.1 ∈ l ∧ p.2 ∈ l)

include hl ha hb hle hps

/-- Every step that some interval overlaps, counted once, measures the union. -/
theorem sum_overlapped_steps :
    ((steps l).map fun s => if 0 < overlapCount ps s then s.2 - s.1 else 0).sum =
      ((cells ps).card : ℤ) := by
  have hcells : cells ((steps l).filter fun s => 0 < overlapCount ps s) = cells ps :=
    cells_filter_steps hl ha hb hle hps fun s _ => by rw [decide_eq_true_eq, overlapCount_pos]
  -- the overlapped steps are disjoint and cover the same instants
  have hdisj : ((steps l).filter fun s => 0 < overlapCount ps s).Pairwise
      fun p q => Disjoint (Finset.Ico p.1 p.2) (Finset.Ico q.1 q.2) :=
    (pairwise_disjoint_of_le (pairwise_steps hl)).filter _
  have hpos : ∀ s ∈ (steps l).filter fun s => 0 < overlapCount ps s, s.1 < s.2 :=
    fun s hs => (mem_of_mem_steps hl (List.mem_of_mem_filter hs)).2.2
  rw [← hcells, card_cells hdisj, ← sum_lengths hpos, List.sum_map_ite]
  simp

/-- Every step, counted once for each interval that overlaps it, measures the intervals. -/
theorem sum_overlapCount_steps :
    ((steps l).map fun s => (overlapCount ps s : ℤ) * (s.2 - s.1)).sum = totalLength ps := by
  induction ps with
  | nil => simp [overlapCount]
  | cons p rest ih =>
    have ih := ih fun q hq => hps q (List.mem_cons_of_mem p hq)
    -- the steps that overlap `p` alone measure `p`
    have hp : ((steps l).map fun s => if 0 < overlapCount [p] s then s.2 - s.1 else 0).sum =
        ((cells [p]).card : ℤ) :=
      sum_overlapped_steps hl ha hb hle
        fun q hq => hps q (List.mem_singleton.mp hq ▸ List.mem_cons_self)
    rw [cells_cons, cells_nil, Finset.union_empty, card_Ico] at hp
    rw [totalLength_cons, ← ih, ← hp, ← List.sum_map_add]
    refine congrArg List.sum (List.map_congr_left fun s _ => ?_)
    by_cases h : p.1 < s.2 ∧ s.1 < p.2
    · simp [overlapCount, h, add_mul, add_comm]
    · simp [overlapCount, h]

/-- What the steps are counted beyond once is the length that the union saves. -/
theorem sum_excess_steps :
    ((steps l).map fun s => max 0 ((overlapCount ps s : ℤ) - 1) * (s.2 - s.1)).sum =
      totalLength ps - (cells ps).card := by
  rw [← sum_overlapCount_steps hl ha hb hle hps, ← sum_overlapped_steps hl ha hb hle hps,
    eq_sub_iff_add_eq, ← List.sum_map_add]
  refine congrArg List.sum (List.map_congr_left fun s _ => ?_)
  split
  · -- an overlapped step counts once as covered
    next hpos =>
    rw [max_eq_right (by omega), sub_mul, one_mul, sub_add_cancel]
  · next hzero =>
    have hcount : overlapCount ps s = 0 := by omega
    simp [hcount]

end Counting

end Intervals
