import Mathlib.Data.Int.Interval
import Mathlib.Data.Finset.Union
import Mathlib.Algebra.Order.Floor.Ring
import Mathlib.MeasureTheory.Measure.Lebesgue.Basic

/-!
# Lists of half-open intervals

An interval is a pair `(a, b)` standing for `[a, b)`.  Over a locally finite
linear order the set a list covers is the finite set `cells l`; over `ℤ` a cell
`t` stands for the unit `[t, t + 1)` of the real line, and counting cells is
Lebesgue measure (`volume_covered`).

* `coalesce` merges a start-ordered list into separated intervals that cover
  the same set (`separated_coalesce`, `cells_coalesce`); they are the only such
  list (`Separated.eq_of_cells_eq`).
* `card_cells` turns a sum of lengths of disjoint intervals into a measure.
-/

namespace Intervals

section Cells

variable {α : Type*} [LinearOrder α] [LocallyFiniteOrder α]

/-- The set covered by a list of intervals. -/
def cells (l : List (α × α)) : Finset α :=
  l.toFinset.biUnion fun p => Finset.Ico p.1 p.2

/-- A cell is covered when it lies in an interval. -/
theorem mem_cells {l : List (α × α)} {x : α} :
    x ∈ cells l ↔ ∃ p ∈ l, p.1 ≤ x ∧ x < p.2 := by
  simp [cells]

/-- No interval covers nothing. -/
@[simp] theorem cells_nil : cells ([] : List (α × α)) = ∅ := rfl

/-- The first interval covers its cells and the others theirs. -/
@[simp] theorem cells_cons (p : α × α) (l : List (α × α)) :
    cells (p :: l) = Finset.Ico p.1 p.2 ∪ cells l := by
  simp [cells]

/-- Two lists cover what each of them does. -/
@[simp] theorem cells_append (l l' : List (α × α)) : cells (l ++ l') = cells l ∪ cells l' := by
  ext x; simp only [mem_cells, Finset.mem_union, List.mem_append, or_and_right, exists_or]

/-- Covered sets depend only on which intervals occur. -/
theorem cells_congr {l l' : List (α × α)} (h : ∀ p, p ∈ l ↔ p ∈ l') : cells l = cells l' := by
  ext x; simp only [mem_cells, h]

/-- The order of the intervals does not matter. -/
theorem cells_perm {l l' : List (α × α)} (h : l.Perm l') : cells l = cells l' :=
  cells_congr fun _ => h.mem_iff

/-- Reversing the intervals does not change what they cover. -/
theorem cells_reverse (l : List (α × α)) : cells l.reverse = cells l :=
  cells_congr fun _ => List.mem_reverse

/-- A list of intervals that all lie in `[a, b)` covers part of it. -/
theorem cells_subset_Ico {l : List (α × α)} {a b : α} (h : ∀ p ∈ l, a ≤ p.1 ∧ p.2 ≤ b) :
    cells l ⊆ Finset.Ico a b := by
  intro x hx
  obtain ⟨p, hp, hpx⟩ := mem_cells.mp hx
  exact Finset.mem_Ico.mpr ⟨(h p hp).1.trans hpx.1, hpx.2.trans_le (h p hp).2⟩

end Cells

/-! ## Merging -/

section Coalesce

variable {α : Type*} [LinearOrder α]

/-- Two intervals overlap with positive length. -/
def Meets (p q : α × α) : Prop := max p.1 q.1 < min p.2 q.2

instance (p q : α × α) : Decidable (Meets p q) := inferInstanceAs (Decidable (_ < _))

/-- Intervals that do not overlap cover disjoint sets. -/
theorem disjoint_Ico_of_not_meets [LocallyFiniteOrder α] {p q : α × α} (h : ¬Meets p q) :
    Disjoint (Finset.Ico p.1 p.2) (Finset.Ico q.1 q.2) := by
  rw [Finset.disjoint_left]
  intro x hp hq
  rw [Finset.mem_Ico] at hp hq
  exact h ((max_le hp.1 hq.1).trans_lt (lt_min hp.2 hq.2))

/-- Positive intervals in order, no two of which overlap or touch. -/
structure Separated (l : List (α × α)) : Prop where
  pos : ∀ p ∈ l, p.1 < p.2
  apart : l.Pairwise fun p q => p.2 < q.1

/-- Extend a merged list, kept last interval first, by one interval whose start
    is not before the last one's: an empty interval is dropped, one that starts
    inside or at the end of the last is merged into it. -/
def absorb (merged : List (α × α)) (p : α × α) : List (α × α) :=
  if p.2 ≤ p.1 then merged
  else match merged with
    | [] => [p]
    | q :: rest => if q.2 < p.1 then p :: q :: rest else (q.1, max q.2 p.2) :: rest

/-- Merge a start-ordered list of intervals. -/
def coalesce (l : List (α × α)) : List (α × α) := (l.foldl absorb []).reverse

/-- What `absorb` keeps: the list, last interval first, is separated, and its
    last interval starts no later than the interval just absorbed. -/
private theorem absorb_separated {merged : List (α × α)} {p : α × α}
    (hsep : Separated merged.reverse) (hle : ∀ q ∈ merged.head?, q.1 ≤ p.1) :
    Separated (absorb merged p).reverse ∧ ∀ q ∈ (absorb merged p).head?, q.1 ≤ p.1 := by
  unfold absorb
  split
  · exact ⟨hsep, hle⟩
  · next hpos =>
    rw [not_le] at hpos
    cases merged with
    | nil => exact ⟨⟨by simpa using hpos, by simp⟩, by simp⟩
    | cons q rest =>
      have hq : q.1 ≤ p.1 := hle q rfl
      obtain ⟨hp, ha⟩ := hsep
      simp only [List.pairwise_reverse, List.pairwise_cons, List.mem_reverse] at hp ha
      have hqpos : q.1 < q.2 := hp q List.mem_cons_self
      have hrest : ∀ r ∈ rest, r.1 < r.2 := fun r hr => hp r (List.mem_cons_of_mem _ hr)
      simp only
      split
      · -- `p` starts a new merged interval after `q`
        next hlt =>
        refine ⟨⟨?_, ?_⟩, by simp⟩
        · intro r hr
          obtain rfl | hr := List.mem_cons.mp (List.mem_reverse.mp hr)
          · exact hpos
          · exact hp r hr
        · rw [List.pairwise_reverse, List.pairwise_cons, List.pairwise_cons]
          refine ⟨?_, ha⟩
          intro r hr
          obtain rfl | hr := List.mem_cons.mp hr
          · exact hlt
          · exact (ha.1 r hr).trans (hqpos.trans hlt)
      · -- `q` grows at its end only, so it stays apart from the earlier ones
        refine ⟨⟨?_, ?_⟩, by simpa using hq⟩
        · intro r hr
          obtain rfl | hr := List.mem_cons.mp (List.mem_reverse.mp hr)
          · exact lt_max_of_lt_left hqpos
          · exact hrest r hr
        · rw [List.pairwise_reverse, List.pairwise_cons]
          exact ha

/-- Absorbing an interval adds its cells. -/
private theorem cells_absorb [LocallyFiniteOrder α] {merged : List (α × α)} {p : α × α}
    (hsep : Separated merged.reverse) (hle : ∀ q ∈ merged.head?, q.1 ≤ p.1) :
    cells (absorb merged p) = cells merged ∪ Finset.Ico p.1 p.2 := by
  unfold absorb
  split
  · next h => rw [Finset.Ico_eq_empty (not_lt.mpr h), Finset.union_empty]
  · cases merged with
    | nil => simp
    | cons q rest =>
      have hq : q.1 ≤ p.1 := hle q rfl
      have hqpos : q.1 < q.2 := hsep.pos q (by simp)
      simp only
      split
      · simp only [cells_cons]
        rw [Finset.union_comm]
      · next hnlt =>
        rw [not_lt] at hnlt
        -- `q` and `p` overlap or touch, so together they cover one interval
        have hcover : Finset.Ico q.1 (max q.2 p.2) = Finset.Ico q.1 q.2 ∪ Finset.Ico p.1 p.2 := by
          ext x
          simp only [Finset.mem_Ico, Finset.mem_union, lt_max_iff]
          constructor
          · intro hx
            by_cases h3 : x < q.2
            · exact .inl ⟨hx.1, h3⟩
            · -- past the end of `q`, and so past the start of `p`
              exact .inr ⟨hnlt.trans (not_lt.mp h3), hx.2.resolve_left h3⟩
          · intro hx
            cases hx with
            | inl hx => exact ⟨hx.1, .inl hx.2⟩
            | inr hx => exact ⟨hq.trans hx.1, .inr hx.2⟩
        simp only [cells_cons, hcover]
        rw [Finset.union_right_comm]

/-- The merging loop keeps a separated list and adds exactly the cells it reads. -/
private theorem foldl_absorb [LocallyFiniteOrder α] (l merged : List (α × α))
    (hsep : Separated merged.reverse) (hl : l.Pairwise fun p q => p.1 ≤ q.1)
    (hle : ∀ q ∈ merged.head?, ∀ p ∈ l, q.1 ≤ p.1) :
    Separated (l.foldl absorb merged).reverse ∧
      cells (l.foldl absorb merged) = cells merged ∪ cells l := by
  induction l generalizing merged with
  | nil => exact ⟨hsep, by simp⟩
  | cons p rest ih =>
    rw [List.pairwise_cons] at hl
    have hp : ∀ q ∈ merged.head?, q.1 ≤ p.1 := fun q hq => hle q hq p List.mem_cons_self
    -- the invariant: separated, and the last one starts before all that is left
    obtain ⟨hsep', hhead⟩ := absorb_separated hsep hp
    obtain ⟨hfin, hcells⟩ := ih (absorb merged p) hsep' hl.2
      fun q hq r hr => (hhead q hq).trans (hl.1 r hr)
    refine ⟨hfin, ?_⟩
    rw [List.foldl_cons, hcells, cells_absorb hsep hp, cells_cons, Finset.union_assoc]

/-- One step of merging makes up no endpoint. -/
private theorem ends_absorb {merged : List (α × α)} {p q : α × α} (hq : q ∈ absorb merged p) :
    (∃ r ∈ p :: merged, r.1 = q.1) ∧ ∃ r ∈ p :: merged, r.2 = q.2 := by
  unfold absorb at hq
  split at hq
  · -- `p` is empty and dropped
    exact ⟨⟨q, by simp [hq], rfl⟩, q, by simp [hq], rfl⟩
  · cases merged with
    | nil =>
      rw [List.mem_singleton] at hq
      exact ⟨⟨p, by simp, by rw [hq]⟩, p, by simp, by rw [hq]⟩
    | cons last rest =>
      simp only at hq
      split at hq
      · exact ⟨⟨q, hq, rfl⟩, q, hq, rfl⟩
      · obtain rfl | hq := List.mem_cons.mp hq
        · -- the grown interval keeps its start and takes the later of the two ends
          refine ⟨⟨last, by simp, rfl⟩, ?_⟩
          cases max_choice last.2 p.2 with
          | inl h => exact ⟨last, by simp, h.symm⟩
          | inr h => exact ⟨p, by simp, h.symm⟩
        · exact ⟨⟨q, by simp [hq], rfl⟩, q, by simp [hq], rfl⟩

/-- The ends of a merged interval are ends of given ones. -/
private theorem ends_foldl_absorb (l merged : List (α × α)) {q : α × α}
    (hq : q ∈ l.foldl absorb merged) :
    (∃ r ∈ merged ++ l, r.1 = q.1) ∧ ∃ r ∈ merged ++ l, r.2 = q.2 := by
  induction l generalizing merged with
  | nil => exact ⟨⟨q, by simpa using hq, rfl⟩, q, by simpa using hq, rfl⟩
  | cons p rest ih =>
    obtain ⟨⟨r, hr, hr1⟩, t, ht, ht2⟩ := ih (absorb merged p) hq
    -- an endpoint of the merged part is one of `p` or of an interval merged before
    have hmem : ∀ u ∈ p :: merged, u ∈ merged ++ p :: rest := by
      intro u hu
      obtain rfl | hu := List.mem_cons.mp hu
      · simp
      · exact List.mem_append_left _ hu
    have hlater : ∀ u ∈ rest, u ∈ merged ++ p :: rest := by
      intro u hu
      exact List.mem_append_right _ (List.mem_cons_of_mem _ hu)
    rw [List.mem_append] at hr ht
    constructor
    · cases hr with
      | inl hr =>
        obtain ⟨⟨u, hu, hu1⟩, -⟩ := ends_absorb hr
        exact ⟨u, hmem u hu, hu1.trans hr1⟩
      | inr hr => exact ⟨r, hlater r hr, hr1⟩
    · cases ht with
      | inl ht =>
        obtain ⟨-, u, hu, hu2⟩ := ends_absorb ht
        exact ⟨u, hmem u hu, hu2.trans ht2⟩
      | inr ht => exact ⟨t, hlater t ht, ht2⟩

/-- Merging makes up no endpoint. -/
theorem ends_coalesce {l : List (α × α)} {q : α × α} (hq : q ∈ coalesce l) :
    (∃ r ∈ l, r.1 = q.1) ∧ ∃ r ∈ l, r.2 = q.2 :=
  ends_foldl_absorb l [] (List.mem_reverse.mp hq)

/-- The rest of a separated list is separated. -/
theorem Separated.tail {p : α × α} {l : List (α × α)} (h : Separated (p :: l)) : Separated l :=
  ⟨fun q hq => h.pos q (List.mem_cons_of_mem _ hq), (List.pairwise_cons.mp h.apart).2⟩

variable [LocallyFiniteOrder α]

/-- Merging a start-ordered list gives separated intervals. -/
theorem separated_coalesce {l : List (α × α)} (hl : l.Pairwise fun p q => p.1 ≤ q.1) :
    Separated (coalesce l) :=
  (foldl_absorb l [] ⟨by simp, by simp⟩ hl (by simp)).1

/-- Merging a start-ordered list keeps the covered set. -/
theorem cells_coalesce {l : List (α × α)} (hl : l.Pairwise fun p q => p.1 ≤ q.1) :
    cells (coalesce l) = cells l := by
  rw [coalesce, cells_reverse, (foldl_absorb l [] ⟨by simp, by simp⟩ hl (by simp)).2, cells_nil,
    Finset.empty_union]

/-- Intervals that follow one another cover disjoint sets. -/
theorem pairwise_disjoint_of_le {l : List (α × α)} (h : l.Pairwise fun p q => p.2 ≤ q.1) :
    l.Pairwise fun p q => Disjoint (Finset.Ico p.1 p.2) (Finset.Ico q.1 q.2) := by
  refine h.imp fun {p q} hpq => ?_
  rw [Finset.disjoint_left]
  intro x hp hq
  rw [Finset.mem_Ico] at hp hq
  exact absurd (hp.2.trans_le (hpq.trans hq.1)) (lt_irrefl x)

/-- Separated intervals have no cell in common. -/
theorem Separated.pairwise_disjoint {l : List (α × α)} (h : Separated l) :
    l.Pairwise fun p q => Disjoint (Finset.Ico p.1 p.2) (Finset.Ico q.1 q.2) :=
  pairwise_disjoint_of_le (h.apart.imp le_of_lt)

/-! ### Canonical form -/

/-- The rest of a separated list starts after the end of its first interval. -/
theorem Separated.lt_of_mem_cells {p : α × α} {l : List (α × α)} (h : Separated (p :: l)) {x : α}
    (hx : x ∈ cells l) : p.2 < x := by
  obtain ⟨q, hq, hqx, -⟩ := mem_cells.mp hx
  exact ((List.pairwise_cons.mp h.apart).1 q hq).trans_le hqx

/-- A separated list starts at the least point it covers. -/
theorem Separated.isLeast_start {p : α × α} {l : List (α × α)} (h : Separated (p :: l)) :
    IsLeast (cells (p :: l) : Set α) p.1 := by
  have hpos : p.1 < p.2 := h.pos p List.mem_cons_self
  constructor
  · exact mem_cells.mpr ⟨p, List.mem_cons_self, le_rfl, hpos⟩
  · intro x hx
    rw [Finset.mem_coe, cells_cons, Finset.mem_union, Finset.mem_Ico] at hx
    -- a cell of the first interval, or of one after it
    cases hx with
    | inl hx => exact hx.1
    | inr hx => exact (hpos.trans (h.lt_of_mem_cells hx)).le

/-- The end of the first interval is not covered. -/
theorem Separated.end_notMem_cells {p : α × α} {l : List (α × α)} (h : Separated (p :: l)) :
    p.2 ∉ cells (p :: l) := by
  intro hmem
  rw [cells_cons, Finset.mem_union, Finset.mem_Ico] at hmem
  cases hmem with
  | inl hx => exact lt_irrefl _ hx.2
  | inr hx => exact lt_irrefl _ (h.lt_of_mem_cells hx)

/-- Everything from the start of the first interval to its end is covered. -/
theorem mem_cells_of_head {p : α × α} {l : List (α × α)} {x : α} (hx : p.1 ≤ x) (hx' : x < p.2) :
    x ∈ cells (p :: l) :=
  mem_cells.mpr ⟨p, List.mem_cons_self, hx, hx'⟩

/-- A set is covered by at most one separated list. -/
theorem Separated.eq_of_cells_eq {l m : List (α × α)} (hl : Separated l) (hm : Separated m)
    (h : cells l = cells m) : l = m := by
  induction l generalizing m with
  | nil =>
    cases m with
    | nil => rfl
    | cons q rest =>
      have hq := hm.isLeast_start.1
      rw [← h] at hq
      simp at hq
  | cons p l ih =>
    cases m with
    | nil =>
      have hp := hl.isLeast_start.1
      rw [h] at hp
      simp at hp
    | cons q m =>
      -- the first intervals start at the least covered point ...
      have hstart : p.1 = q.1 := hl.isLeast_start.unique (h ▸ hm.isLeast_start)
      -- ... and end at the first point after it that is not covered
      have hend : p.2 = q.2 := by
        refine le_antisymm (not_lt.mp fun hlt => ?_) (not_lt.mp fun hlt => ?_)
        · have hq := hm.pos q List.mem_cons_self
          exact hm.end_notMem_cells (h ▸ mem_cells_of_head (hstart ▸ hq.le) hlt)
        · have hp := hl.pos p List.mem_cons_self
          exact hl.end_notMem_cells (h ▸ mem_cells_of_head (hstart ▸ hp.le) hlt)
      have hpq : p = q := Prod.ext hstart hend
      subst hpq
      -- what is left on both sides lies after that end
      have hrest : cells l = cells m := by
        ext x
        have hx : x ∈ cells (p :: l) ↔ x ∈ cells (p :: m) := by rw [h]
        rw [cells_cons, cells_cons, Finset.mem_union, Finset.mem_union, Finset.mem_Ico] at hx
        constructor
        · intro hxl
          have hlt := hl.lt_of_mem_cells hxl
          exact (hx.mp (.inr hxl)).resolve_left fun hin => absurd hin.2 (not_lt.mpr hlt.le)
        · intro hxm
          have hlt := hm.lt_of_mem_cells hxm
          exact (hx.mpr (.inr hxm)).resolve_left fun hin => absurd hin.2 (not_lt.mpr hlt.le)
      rw [ih hl.tail hm.tail hrest]

end Coalesce

/-! ## Lengths -/

/-- The sum of the lengths of integer intervals, an inverted one counting zero. -/
def totalLength (l : List (ℤ × ℤ)) : ℤ := (l.map fun p => max 0 (p.2 - p.1)).sum

/-- No interval has no length. -/
@[simp] theorem totalLength_nil : totalLength [] = 0 := rfl

/-- The length of the first interval is added, unless it is reversed. -/
@[simp] theorem totalLength_cons (p : ℤ × ℤ) (l : List (ℤ × ℤ)) :
    totalLength (p :: l) = max 0 (p.2 - p.1) + totalLength l := rfl

/-- Lengths are not negative. -/
theorem totalLength_nonneg (l : List (ℤ × ℤ)) : 0 ≤ totalLength l :=
  List.sum_nonneg fun x hx => by
    obtain ⟨p, -, rfl⟩ := List.mem_map.mp hx
    exact le_max_left _ _

/-- Positive intervals sum up without the cut-off at zero. -/
theorem sum_lengths {l : List (ℤ × ℤ)} (h : ∀ p ∈ l, p.1 < p.2) :
    (l.map fun p => p.2 - p.1).sum = totalLength l := by
  refine congrArg List.sum (List.map_congr_left fun p hp => ?_)
  have := h p hp
  omega

/-- An interval has as many cells as it is long. -/
theorem card_Ico (a b : ℤ) : ((Finset.Ico a b).card : ℤ) = max 0 (b - a) := by
  rw [Int.card_Ico]; omega

/-- Two intervals have as many cells in common as their overlap is long. -/
theorem card_Ico_inter_Ico (a b c d : ℤ) :
    ((Finset.Ico a b ∩ Finset.Ico c d).card : ℤ) = max 0 (min b d - max a c) := by
  rw [Finset.Ico_inter_Ico, card_Ico]

/-- An interval disjoint from each of a list is disjoint from what they cover. -/
private theorem disjoint_Ico_cells {p : ℤ × ℤ} {l : List (ℤ × ℤ)}
    (h : ∀ q ∈ l, Disjoint (Finset.Ico p.1 p.2) (Finset.Ico q.1 q.2)) :
    Disjoint (Finset.Ico p.1 p.2) (cells l) := by
  rw [Finset.disjoint_left]
  intro x hx hl
  obtain ⟨q, hq, hqx⟩ := mem_cells.mp hl
  exact Finset.disjoint_left.mp (h q hq) hx (Finset.mem_Ico.mpr hqx)

/-- Disjoint intervals cover as many cells as their lengths add up to. -/
theorem card_cells {l : List (ℤ × ℤ)}
    (h : l.Pairwise fun p q => Disjoint (Finset.Ico p.1 p.2) (Finset.Ico q.1 q.2)) :
    ((cells l).card : ℤ) = totalLength l := by
  induction l with
  | nil => rfl
  | cons p rest ih =>
    rw [List.pairwise_cons] at h
    -- the first interval shares no cell with the rest
    rw [cells_cons, Finset.card_union_of_disjoint (disjoint_Ico_cells h.1), Nat.cast_add,
      card_Ico, ih h.2, totalLength_cons]

/-- Measuring a set inside each of some disjoint intervals measures it inside
    their union. -/
theorem sum_card_inter {l : List (ℤ × ℤ)}
    (h : l.Pairwise fun p q => Disjoint (Finset.Ico p.1 p.2) (Finset.Ico q.1 q.2)) (s : Finset ℤ) :
    (l.map fun p => ((s ∩ Finset.Ico p.1 p.2).card : ℤ)).sum = (s ∩ cells l).card := by
  induction l with
  | nil => simp
  | cons p rest ih =>
    rw [List.pairwise_cons] at h
    -- cutting with `s` keeps disjoint sets disjoint
    have hdisj : Disjoint (s ∩ Finset.Ico p.1 p.2) (s ∩ cells rest) :=
      (disjoint_Ico_cells h.1).mono Finset.inter_subset_right Finset.inter_subset_right
    rw [List.map_cons, List.sum_cons, ih h.2, cells_cons, Finset.inter_union_distrib_left,
      Finset.card_union_of_disjoint hdisj, Nat.cast_add]

/-- The real line covered by a list of integer intervals. -/
def covered (l : List (ℤ × ℤ)) : Set ℝ := {x | ∃ p ∈ l, (p.1 : ℝ) ≤ x ∧ x < p.2}

/-- A point is covered when its cell is. -/
theorem mem_covered_iff_floor {l : List (ℤ × ℤ)} {x : ℝ} : x ∈ covered l ↔ ⌊x⌋ ∈ cells l := by
  simp only [covered, Set.mem_ofPred_eq, mem_cells, Int.le_floor, Int.floor_lt]

/-- The covered reals and the covered cells determine each other. -/
theorem covered_eq_iff {l m : List (ℤ × ℤ)} : covered l = covered m ↔ cells l = cells m := by
  constructor
  · intro h
    ext t
    -- an integer is its own floor
    have ht : (t : ℝ) ∈ covered l ↔ (t : ℝ) ∈ covered m := by rw [h]
    rwa [mem_covered_iff_floor, mem_covered_iff_floor, Int.floor_intCast] at ht
  · -- a real point is covered just when its floor is a cell
    intro h
    ext x
    rw [mem_covered_iff_floor, mem_covered_iff_floor, h]

/-- A finite set of cells measures as many units as it has cells. -/
theorem volume_floor_mem (s : Finset ℤ) :
    MeasureTheory.volume {x : ℝ | ⌊x⌋ ∈ s} = s.card := by
  have hunion : {x : ℝ | ⌊x⌋ ∈ s} = ⋃ t ∈ s, Set.Ico (t : ℝ) (t + 1) := by
    ext x
    simp only [Set.mem_ofPred_eq, Set.mem_iUnion, Set.mem_Ico, exists_prop]
    constructor
    · intro hx
      exact ⟨⌊x⌋, hx, Int.floor_le x, Int.lt_floor_add_one x⟩
    · intro h
      obtain ⟨t, ht, hx⟩ := h
      rwa [Int.floor_eq_iff.mpr hx]
  -- a point has one floor, so the units are disjoint
  have hdisj : (s : Set ℤ).PairwiseDisjoint fun t : ℤ => Set.Ico (t : ℝ) (t + 1) := by
    intro t _ u _ htu
    refine Set.disjoint_left.mpr fun x hx hx' => htu ?_
    rw [← Int.floor_eq_iff.mpr hx, ← Int.floor_eq_iff.mpr hx']
  rw [hunion, MeasureTheory.measure_biUnion_finset hdisj fun _ _ => measurableSet_Ico]
  simp [Real.volume_Ico]

/-- Counting cells is Lebesgue measure. -/
theorem volume_covered (l : List (ℤ × ℤ)) :
    MeasureTheory.volume (covered l) = (cells l).card := by
  rw [← volume_floor_mem]
  congr 1
  ext x
  exact mem_covered_iff_floor

end Intervals
