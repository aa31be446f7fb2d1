import Mathlib.Algebra.Order.Group.Nat
import Mathlib.Data.Finset.Card
import Mathlib.Data.Finset.Range
import Mathlib.Data.List.Nodup
import Mathlib.Data.List.Pairwise
import Mathlib.Order.Bounds.Basic

/-!
# First-fit colouring of intervals

`Intervals.firstFit span items` gives each item the first lane that is free at
its start, in the order of the list; a lane is free once the last interval on it
has ended.  An item without a span takes lane `0` and occupies nothing.

Intervals are half open.  No two intervals of a lane overlap, and when the list
is ordered by the starts, there are exactly as many lanes as intervals that share
a point (`isGreatest_firstFit`).
-/

namespace Intervals

variable {α ι : Type*} [LinearOrder α] {span : ι → Option (α × α)}

/-- Put one item on a lane; the state holds the end of each lane and the lanes given so far. -/
def placeFirst (span : ι → Option (α × α)) (state : List α × List (ι × ℕ)) (i : ι) :
    List α × List (ι × ℕ) :=
  match span i with
  | none => (state.1, state.2 ++ [(i, 0)])
  | some p =>
    match state.1.findIdx? (· ≤ p.1) with
    | some k => (state.1.set k p.2, state.2 ++ [(i, k)])
    | none => (state.1 ++ [p.2], state.2 ++ [(i, state.1.length)])

/-- The ends of the lanes and the lane of each item. -/
def firstFit (span : ι → Option (α × α)) (items : List ι) : List α × List (ι × ℕ) :=
  items.foldl (placeFirst span) ([], [])

/-- The item has a span and the span contains the point. -/
def Holds (span : ι → Option (α × α)) (t : α) (i : ι) : Prop :=
  ∃ p ∈ span i, p.1 ≤ t ∧ t < p.2

instance (t : α) (i : ι) : Decidable (Holds span t i) :=
  match h : span i with
  | none => .isFalse (by rintro ⟨p, hp, -⟩; rw [h] at hp; cases hp)
  | some p => decidable_of_iff (p.1 ≤ t ∧ t < p.2) (by simp [Holds, h])

/-- How many of the items hold a point. -/
def depth (span : ι → Option (α × α)) (items : List ι) (t : α) : ℕ :=
  items.countP fun i => Holds span t i

/-- How many items share a point does not depend on their order. -/
theorem depth_perm {items items' : List ι} (h : items.Perm items') (t : α) :
    depth span items t = depth span items' t := h.countP_eq _

/-! ## What the loop keeps -/

/-- The lanes are consistent with their ends. -/
structure Placed (span : ι → Option (α × α)) (ends : List α) (lanes : List (ι × ℕ)) : Prop where
  lane_lt : ∀ a ∈ lanes, ∀ p ∈ span a.1, a.2 < ends.length
  /-- A lane ends no earlier than any interval on it. -/
  le_end : ∀ a ∈ lanes, ∀ p ∈ span a.1, ∀ e ∈ ends[a.2]?, p.2 ≤ e
  /-- The end of a lane is the end of an interval on it. -/
  exists_last : ∀ k e, ends[k]? = some e → ∃ a ∈ lanes, ∃ p ∈ span a.1, a.2 = k ∧ p.2 = e
  /-- Two intervals of a lane stand in the order in which they were placed. -/
  apart : lanes.Pairwise fun a b => ∀ p ∈ span a.1, ∀ q ∈ span b.1, a.2 = b.2 → p.2 ≤ q.1

/-- The lanes on which an interval holds a point. -/
def lanesAt (span : ι → Option (α × α)) (t : α) (lanes : List (ι × ℕ)) : List ℕ :=
  (lanes.filter fun a => Holds span t a.1).map Prod.snd

/-- A lane is taken at a point when an item in it holds the point. -/
@[simp] theorem mem_lanesAt {t : α} {lanes : List (ι × ℕ)} {k : ℕ} :
    k ∈ lanesAt span t lanes ↔ ∃ a ∈ lanes, Holds span t a.1 ∧ a.2 = k := by
  simp [lanesAt, and_assoc]

/-- As many lanes are taken, with repetitions, as items share the point. -/
theorem length_lanesAt (t : α) (lanes : List (ι × ℕ)) :
    (lanesAt span t lanes).length = depth span (lanes.map Prod.fst) t := by
  rw [lanesAt, List.length_map, depth, List.countP_map, List.countP_eq_length_filter]
  rfl

/-- The intervals that hold a point are on different lanes. -/
theorem Placed.depth_le {ends : List α} {lanes : List (ι × ℕ)} (h : Placed span ends lanes)
    (t : α) : depth span (lanes.map Prod.fst) t ≤ ends.length := by
  -- two intervals of one lane do not share the instant
  have hnodup : (lanesAt span t lanes).Nodup := by
    rw [lanesAt, List.Nodup, List.pairwise_map]
    apply (h.apart.filter _).imp_of_mem
    intro a b ha hb hab heq
    obtain ⟨p, hp, -, hlt⟩ := of_decide_eq_true (List.mem_filter.mp ha).2
    obtain ⟨q, hq, hle, -⟩ := of_decide_eq_true (List.mem_filter.mp hb).2
    exact absurd (hlt.trans_le (hab p hp q hq heq)) (not_lt.mpr hle)
  -- so the lanes that are taken at the instant are as many as the intervals there
  have hsub : (lanesAt span t lanes).toFinset ⊆ Finset.range ends.length := by
    intro k hk
    obtain ⟨a, ha, ⟨p, hp, -⟩, rfl⟩ := mem_lanesAt.mp (List.mem_toFinset.mp hk)
    exact Finset.mem_range.mpr (h.lane_lt a ha p hp)
  have hcard := Finset.card_le_card hsub
  rwa [List.toFinset_card_of_nodup hnodup, Finset.card_range, length_lanesAt] at hcard

/-- When every lane is busy at a point that no placed interval starts after, as many
    intervals as there are lanes hold the point. -/
theorem Placed.length_le_depth {ends : List α} {lanes : List (ι × ℕ)}
    (h : Placed span ends lanes) {t : α} (hbusy : ∀ e ∈ ends, t < e)
    (hstart : ∀ a ∈ lanes, ∀ p ∈ span a.1, p.1 ≤ t) :
    ends.length ≤ depth span (lanes.map Prod.fst) t := by
  -- the last interval of each lane is busy at the instant
  have hsub : Finset.range ends.length ⊆ (lanesAt span t lanes).toFinset := by
    intro k hk
    have hlt := Finset.mem_range.mp hk
    obtain ⟨a, ha, p, hp, hlane, hend⟩ := h.exists_last k _ (List.getElem?_eq_getElem hlt)
    rw [List.mem_toFinset, mem_lanesAt]
    exact ⟨a, ha, ⟨p, hp, hstart a ha p hp, hend ▸ hbusy _ (List.getElem_mem hlt)⟩, hlane⟩
  calc ends.length = (Finset.range ends.length).card := (Finset.card_range _).symm
    _ ≤ (lanesAt span t lanes).toFinset.card := Finset.card_le_card hsub
    _ ≤ (lanesAt span t lanes).length := List.toFinset_card_le _
    _ = depth span (lanes.map Prod.fst) t := length_lanesAt t lanes

/-- On one lane the two do not overlap. -/
private def Apart (span : ι → Option (α × α)) (a b : ι × ℕ) : Prop :=
  ∀ p ∈ span a.1, ∀ q ∈ span b.1, a.2 = b.2 → p.2 ≤ q.1 ∨ q.2 ≤ p.1

/-- Two intervals of a lane do not overlap, whichever was placed first. -/
theorem Placed.disjoint {ends : List α} {lanes : List (ι × ℕ)} (h : Placed span ends lanes)
    {a b : ι × ℕ} (ha : a ∈ lanes) (hb : b ∈ lanes) (hne : a ≠ b) (hlane : a.2 = b.2)
    {p q : α × α} (hp : span a.1 = some p) (hq : span b.1 = some q) : p.2 ≤ q.1 ∨ q.2 ≤ p.1 := by
  have hsymm : Std.Symm (Apart span) :=
    ⟨fun a b hab p hp q hq heq => (hab q hq p hp heq.symm).symm⟩
  have hapart : lanes.Pairwise (Apart span) :=
    h.apart.imp fun hab p hp q hq heq => .inl (hab p hp q hq heq)
  exact hapart.forall ha hb hne p hp q hq hlane

/-- Nothing has been placed yet. -/
theorem placed_nil : Placed span [] [] where
  lane_lt := by simp
  le_end := by simp
  exists_last := by simp
  apart := .nil

/-- An item without a span changes no lane. -/
theorem Placed.skip {ends : List α} {lanes : List (ι × ℕ)} (h : Placed span ends lanes) {i : ι}
    (hi : span i = none) : Placed span ends (lanes ++ [(i, 0)]) where
  lane_lt := by
    simp only [List.mem_append, List.mem_singleton]
    intro a hx p hp
    obtain ha | rfl := hx
    · exact h.lane_lt a ha p hp
    · -- the new item has no interval
      rw [hi] at hp; cases hp
  le_end := by
    simp only [List.mem_append, List.mem_singleton]
    intro a hx p hp
    obtain ha | rfl := hx
    · exact h.le_end a ha p hp
    · rw [hi] at hp; cases hp
  exists_last k e hk := by
    obtain ⟨a, ha, hrest⟩ := h.exists_last k e hk
    exact ⟨a, List.mem_append_left _ ha, hrest⟩
  apart := by
    refine List.pairwise_append.mpr ⟨h.apart, List.pairwise_singleton _ _, ?_⟩
    intro a _ b hb p _ q hq
    rw [List.mem_singleton.mp hb, hi] at hq
    cases hq

/-- A free lane is taken over: its last interval ended before the new one starts. -/
theorem Placed.reuse {ends : List α} {lanes : List (ι × ℕ)} (h : Placed span ends lanes) {i : ι}
    {p : α × α} (hi : span i = some p) (hp : p.1 ≤ p.2) {k : ℕ} {e : α}
    (hk : ends[k]? = some e) (hfree : e ≤ p.1) :
    Placed span (ends.set k p.2) (lanes ++ [(i, k)]) := by
  have hlt : k < ends.length := (List.getElem?_eq_some_iff.mp hk).1
  refine ⟨?_, ?_, ?_, ?_⟩
  · simp only [List.mem_append, List.mem_singleton, List.length_set]
    intro a hx q hq
    obtain ha | rfl := hx
    · exact h.lane_lt a ha q hq
    · exact hlt
  · simp only [List.mem_append, List.mem_singleton]
    intro a hx q hq e' he'
    obtain ha | rfl := hx
    · by_cases hka : k = a.2
      · -- what was on the lane ended no later than `e`, which the new end does not precede
        rw [← hka, List.getElem?_set_self hlt] at he'
        cases he'
        exact (h.le_end a ha q hq e (hka ▸ hk)).trans (hfree.trans hp)
      · rw [List.getElem?_set_ne hka] at he'
        exact h.le_end a ha q hq e' he'
    · rw [List.getElem?_set_self hlt] at he'
      cases he'
      rw [hi] at hq
      cases hq
      exact le_refl _
  · intro j e' he'
    by_cases hkj : k = j
    · subst hkj
      rw [List.getElem?_set_self hlt] at he'
      cases he'
      exact ⟨(i, k), by simp, p, hi, rfl, rfl⟩
    · rw [List.getElem?_set_ne hkj] at he'
      obtain ⟨a, ha, hrest⟩ := h.exists_last j e' he'
      exact ⟨a, List.mem_append_left _ ha, hrest⟩
  · refine List.pairwise_append.mpr ⟨h.apart, List.pairwise_singleton _ _, ?_⟩
    intro a ha b hb q hq r hr hlane
    rw [List.mem_singleton.mp hb] at hr hlane
    rw [hi] at hr
    cases hr
    exact (h.le_end a ha q hq e (hlane ▸ hk)).trans hfree

/-- A new lane is opened for the new interval alone. -/
theorem Placed.open {ends : List α} {lanes : List (ι × ℕ)} (h : Placed span ends lanes) {i : ι}
    {p : α × α} (hi : span i = some p) :
    Placed span (ends ++ [p.2]) (lanes ++ [(i, ends.length)]) := by
  -- the lanes that were there keep their ends
  have hold : ∀ a ∈ lanes, ∀ q ∈ span a.1, a.2 < ends.length := h.lane_lt
  refine ⟨?_, ?_, ?_, ?_⟩
  · simp only [List.mem_append, List.mem_singleton, List.length_append, List.length_singleton]
    intro a hx q hq
    obtain ha | rfl := hx
    · exact (hold a ha q hq).trans (Nat.lt_succ_self _)
    · omega
  · simp only [List.mem_append, List.mem_singleton]
    intro a hx q hq e' he'
    obtain ha | rfl := hx
    · rw [List.getElem?_append_left (hold a ha q hq)] at he'
      exact h.le_end a ha q hq e' he'
    · rw [List.getElem?_concat_length] at he'
      cases he'
      rw [hi] at hq
      cases hq
      exact le_refl _
  · intro j e' he'
    obtain hlt | heq : j < ends.length ∨ j = ends.length := by
      have := (List.getElem?_eq_some_iff.mp he').1
      rw [List.length_append, List.length_singleton] at this
      omega
    · rw [List.getElem?_append_left hlt] at he'
      obtain ⟨a, ha, hrest⟩ := h.exists_last j e' he'
      exact ⟨a, List.mem_append_left _ ha, hrest⟩
    · rw [heq, List.getElem?_concat_length] at he'
      cases he'
      exact ⟨(i, ends.length), by simp, p, hi, heq.symm, rfl⟩
  · refine List.pairwise_append.mpr ⟨h.apart, List.pairwise_singleton _ _, ?_⟩
    intro a ha b hb q hq r _ hlane
    rw [List.mem_singleton.mp hb] at hlane
    exact absurd hlane (hold a ha q hq).ne

/-- One turn keeps the lanes consistent. -/
theorem Placed.placeFirst (hspan : ∀ i, ∀ p ∈ span i, p.1 ≤ p.2)
    {state : List α × List (ι × ℕ)} (h : Placed span state.1 state.2) (i : ι) :
    Placed span (placeFirst span state i).1 (placeFirst span state i).2 := by
  rw [Intervals.placeFirst]
  split
  · next hi => exact h.skip hi
  · next p hi =>
    split
    · -- a lane has ended: the first such is used again
      next k hk =>
      obtain ⟨hlt, hfree, -⟩ := List.findIdx?_eq_some_iff_getElem.mp hk
      exact h.reuse hi (hspan i p hi) (List.getElem?_eq_getElem hlt) (of_decide_eq_true hfree)
    · -- all are busy: a new one is opened
      exact h.open hi

/-! ## The whole list -/

/-- The last item is placed after the others. -/
@[simp] theorem firstFit_append (items : List ι) (i : ι) :
    firstFit span (items ++ [i]) = placeFirst span (firstFit span items) i := by
  simp [firstFit]

/-- Every item is given one lane, in the order of the list. -/
theorem map_fst_firstFit (items : List ι) : (firstFit span items).2.map Prod.fst = items := by
  induction items using List.reverseRecOn with
  | nil => rfl
  | append_singleton items i ih =>
    rw [firstFit_append, placeFirst]
    split
    · simp [ih]
    · split <;> simp [ih]

/-- First fit places all items. -/
theorem placed_firstFit (hspan : ∀ i, ∀ p ∈ span i, p.1 ≤ p.2) (items : List ι) :
    Placed span (firstFit span items).1 (firstFit span items).2 := by
  induction items using List.reverseRecOn with
  | nil => exact placed_nil
  | append_singleton items i ih =>
    rw [firstFit_append]
    exact ih.placeFirst hspan i

/-- In the order of the starts a lane is opened only when all lanes are busy, and then as many
    intervals meet in one point. -/
theorem exists_length_le_depth [Nonempty α] (hspan : ∀ i, ∀ p ∈ span i, p.1 < p.2)
    {items : List ι} (hsorted : items.Pairwise fun i j => ∀ p ∈ span i, ∀ q ∈ span j, p.1 ≤ q.1) :
    ∃ t, (firstFit span items).1.length ≤ depth span items t := by
  induction items using List.reverseRecOn with
  | nil => exact ⟨Classical.arbitrary α, by simp [firstFit]⟩
  | append_singleton items i ih =>
    rw [List.pairwise_append] at hsorted
    obtain ⟨hsorted, -, hlast⟩ := hsorted
    obtain ⟨t, ht⟩ := ih hsorted
    have hmono : depth span items t ≤ depth span (items ++ [i]) t := by
      rw [depth, depth, List.countP_append]
      omega
    rw [firstFit_append, placeFirst]
    split
    · exact ⟨t, ht.trans hmono⟩
    · next p hi =>
      split
      · exact ⟨t, by rw [List.length_set]; exact ht.trans hmono⟩
      · next hnone =>
        -- the new interval starts while the last interval of every lane is still on
        have hbusy : ∀ e ∈ (firstFit span items).1, p.1 < e := by
          intro e he
          simpa using List.findIdx?_eq_none_iff.mp hnone e he
        have hplaced := placed_firstFit (fun i p hp => (hspan i p hp).le) items
        have hstart : ∀ a ∈ (firstFit span items).2, ∀ q ∈ span a.1, q.1 ≤ p.1 := by
          intro a ha q hq
          have hmem : a.1 ∈ items := by
            have h := List.mem_map_of_mem (f := Prod.fst) ha
            rwa [map_fst_firstFit] at h
          exact hlast a.1 hmem i (List.mem_singleton_self i) q hq p hi
        have hdepth := hplaced.length_le_depth hbusy hstart
        rw [map_fst_firstFit] at hdepth
        refine ⟨p.1, ?_⟩
        have hnew : Holds span p.1 i := ⟨p, hi, le_refl _, hspan i p hi⟩
        rw [List.length_append, List.length_singleton, depth, List.countP_append,
          List.countP_singleton, if_pos (decide_eq_true hnew)]
        exact Nat.add_le_add_right hdepth 1

/-- First fit in the order of the starts is optimal. -/
theorem isGreatest_firstFit [Nonempty α] (hspan : ∀ i, ∀ p ∈ span i, p.1 < p.2)
    {items : List ι} (hsorted : items.Pairwise fun i j => ∀ p ∈ span i, ∀ q ∈ span j, p.1 ≤ q.1) :
    IsGreatest (Set.range (depth span items)) (firstFit span items).1.length := by
  -- no instant is shared by more intervals than there are lanes
  have hle : ∀ t, depth span items t ≤ (firstFit span items).1.length := by
    intro t
    have hplaced := placed_firstFit (fun i p hp => (hspan i p hp).le) items
    simpa [map_fst_firstFit] using hplaced.depth_le t
  constructor
  · obtain ⟨t, ht⟩ := exists_length_le_depth hspan hsorted
    exact ⟨t, le_antisymm (hle t) ht⟩
  · intro n h
    obtain ⟨t, rfl⟩ := h
    exact hle t

end Intervals
