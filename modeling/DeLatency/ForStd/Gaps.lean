import DeLatency.ForStd.Intervals
import DeLatency.ForStd.ListExtra

/-!
# Gaps between consecutive intervals

`gaps l` looks only at neighbours: it lists `[p.2, q.1)` whenever `q` follows
`p` and starts after `p` ends.  An earlier, longer interval may still cover
such a gap.  `GapsFree` says when none does (`gaps_not_meets_iff`), and
`card_cells_add_totalLength_gaps` says by how much the gaps over-count
otherwise.
-/

namespace Intervals

section Order

variable {α : Type*} [LinearOrder α]

/-- The positive stretches between each interval and its successor. -/
def gaps : List (α × α) → List (α × α)
  | p :: q :: rest => if p.2 < q.1 then (p.2, q.1) :: gaps (q :: rest) else gaps (q :: rest)
  | _ => []

/-- Whenever an interval ends before its successor starts, every earlier one
    has ended too. -/
def GapsFree (l : List (α × α)) : Prop :=
  ∀ before p q after, l = before ++ p :: q :: after → p.2 < q.1 → ∀ d ∈ before, d.2 ≤ p.2

/-- A gap is between two spans in a row, the first of which ends before the second begins. -/
theorem mem_gaps {l : List (α × α)} {g : α × α} :
    g ∈ gaps l ↔
      ∃ before p q after, l = before ++ p :: q :: after ∧ p.2 < q.1 ∧ g = (p.2, q.1) := by
  fun_induction gaps l with
  | case1 p q rest hlt ih =>
    -- the gap after the head, or one further on
    rw [List.mem_cons, ih]
    constructor
    · intro hg
      cases hg with
      | inl heq => exact ⟨[], p, q, rest, rfl, hlt, heq⟩
      | inr hg =>
        obtain ⟨before, p', q', after, heq, h⟩ := hg
        exact ⟨p :: before, p', q', after, by rw [heq]; rfl, h⟩
    · intro hg
      obtain ⟨before, p', q', after, heq, h, rfl⟩ := hg
      cases before with
      | nil =>
        simp only [List.nil_append, List.cons.injEq] at heq
        obtain ⟨rfl, rfl, rfl⟩ := heq
        exact .inl rfl
      | cons b bs =>
        simp only [List.cons_append, List.cons.injEq] at heq
        exact .inr ⟨bs, p', q', after, heq.2, h, rfl⟩
  | case2 p q rest hlt ih =>
    -- no gap after the head
    rw [ih]
    constructor
    · intro hg
      obtain ⟨before, p', q', after, heq, h⟩ := hg
      exact ⟨p :: before, p', q', after, by rw [heq]; rfl, h⟩
    · intro hg
      obtain ⟨before, p', q', after, heq, h, rfl⟩ := hg
      cases before with
      | nil =>
        simp only [List.nil_append, List.cons.injEq] at heq
        obtain ⟨rfl, rfl, rfl⟩ := heq
        exact absurd h hlt
      | cons b bs =>
        simp only [List.cons_append, List.cons.injEq] at heq
        exact ⟨bs, p', q', after, heq.2, h, rfl⟩
  | case3 l hl =>
    -- fewer than two intervals have no neighbours
    simp only [List.not_mem_nil, false_iff]
    intro hg
    obtain ⟨before, p, q, after, rfl, -⟩ := hg
    cases before with
    | nil => exact hl _ _ _ rfl
    | cons b bs =>
      cases bs with
      | nil => exact hl _ _ _ rfl
      | cons b' bs => exact hl _ _ _ rfl

/-- Every gap has positive length. -/
theorem gaps_pos {l : List (α × α)} {g : α × α} (hg : g ∈ gaps l) : g.1 < g.2 := by
  obtain ⟨_, p, q, _, -, hlt, rfl⟩ := mem_gaps.mp hg
  exact hlt

/-- What lies before and after a neighbouring pair of a start-ordered list. -/
private theorem around_pair {before after : List (α × α)} {p q : α × α}
    (hl : (before ++ p :: q :: after).Pairwise fun a b => a.1 ≤ b.1) :
    (∀ d ∈ before, d.1 ≤ p.1) ∧ ∀ d ∈ after, q.1 ≤ d.1 := by
  rw [List.pairwise_append, List.pairwise_cons, List.pairwise_cons] at hl
  exact ⟨fun d hd => hl.2.2 d hd p List.mem_cons_self, fun d hd => hl.2.1.2.1 d hd⟩

/-- In a start-ordered list of positive intervals, exactly the earlier ones that
    end later than `p` reach into the gap after `p`. -/
theorem gaps_not_meets_iff {l : List (α × α)} (hpos : ∀ p ∈ l, p.1 < p.2)
    (hl : l.Pairwise fun a b => a.1 ≤ b.1) :
    (∀ g ∈ gaps l, ∀ d ∈ l, ¬Meets g d) ↔ GapsFree l := by
  constructor
  · intro h before p q after heq hlt d hd
    subst heq
    have hp : d.1 ≤ p.1 := (around_pair hl).1 d hd
    have hpp : p.1 < p.2 := hpos p (by simp)
    by_contra hdp
    rw [not_le] at hdp
    have hgap : (p.2, q.1) ∈ gaps (before ++ p :: q :: after) :=
      mem_gaps.mpr ⟨before, p, q, after, rfl, hlt, rfl⟩
    apply h (p.2, q.1) hgap d (by simp [hd])
    -- `d` starts before `p` ends, so ending later it reaches into the gap
    simp only [Meets, max_lt_iff, lt_min_iff]
    exact ⟨⟨hlt, (hp.trans_lt hpp).trans hlt⟩, hdp, (hp.trans_lt hpp).trans hdp⟩
  · intro h g hg d hd hmeets
    obtain ⟨before, p, q, after, rfl, hlt, rfl⟩ := mem_gaps.mp hg
    simp only [Meets, max_lt_iff, lt_min_iff] at hmeets
    obtain ⟨⟨-, hdq⟩, hdp, -⟩ := hmeets
    simp only [List.mem_append, List.mem_cons] at hd
    -- only an interval before the pair could reach in, and those have ended
    obtain hd | rfl | rfl | hd := hd
    · exact absurd hdp (not_lt.mpr (h before p q after rfl hlt d hd))
    · exact lt_irrefl _ hdp
    · exact lt_irrefl _ hdq
    · exact absurd hdq (not_lt.mpr ((around_pair hl).2 d hd))

/-- Intervals that also end in order leave their gaps free. -/
theorem gapsFree_of_pairwise_end {l : List (α × α)} (h : l.Pairwise fun a b => a.2 ≤ b.2) :
    GapsFree l := by
  intro before p q after heq _ d hd
  rw [heq, List.pairwise_append] at h
  exact h.2.2 d hd p List.mem_cons_self

/-- The gaps of a start-ordered list follow one another. -/
theorem pairwise_gaps {l : List (α × α)} (hpos : ∀ p ∈ l, p.1 < p.2)
    (hl : l.Pairwise fun a b => a.1 ≤ b.1) :
    (gaps l).Pairwise fun g h => g.2 ≤ h.1 := by
  fun_induction gaps l with
  | case1 p q rest hlt ih =>
    rw [List.pairwise_cons] at hl
    refine List.pairwise_cons.mpr ⟨?_, ih (fun r hr => hpos r (List.mem_cons_of_mem _ hr)) hl.2⟩
    intro g hg
    obtain ⟨before, p', q', after, heq, -, rfl⟩ := mem_gaps.mp hg
    -- the gap comes after `p'`, which is `q` or later
    have hp' : p' ∈ q :: rest := by rw [heq]; simp
    have hq : q.1 ≤ p'.1 := hl.2.head_key_le hp'
    exact hq.trans (hpos p' (List.mem_cons_of_mem _ hp')).le
  | case2 p q rest hlt ih =>
    rw [List.pairwise_cons] at hl
    exact ih (fun r hr => hpos r (List.mem_cons_of_mem _ hr)) hl.2
  | case3 l hl => simp

/-- Every gap lies between the first start and any bound on the starts. -/
theorem gaps_bounds {p : α × α} {rest : List (α × α)} {b : α} (hpos : ∀ r ∈ p :: rest, r.1 < r.2)
    (hl : (p :: rest).Pairwise fun a b => a.1 ≤ b.1) (hb : ∀ r ∈ p :: rest, r.1 ≤ b)
    {g : α × α} (hg : g ∈ gaps (p :: rest)) : p.1 ≤ g.1 ∧ g.2 ≤ b := by
  obtain ⟨before, r, q, after, heq, -, rfl⟩ := mem_gaps.mp hg
  have hr : r ∈ p :: rest := by rw [heq]; simp
  have hpr : p.1 ≤ r.1 := hl.head_key_le hr
  exact ⟨hpr.trans (hpos r hr).le, hb q (by rw [heq]; simp)⟩

end Order

/-! ## Counting -/

section Counting

variable {α : Type*} [LinearOrder α] [LocallyFiniteOrder α]

/-- A start-ordered list and its gaps together fill the stretch from the first
    start to the last end. -/
theorem cells_union_cells_gaps {p : α × α} {rest : List (α × α)} {b : α}
    (hpos : ∀ r ∈ p :: rest, r.1 < r.2) (hl : (p :: rest).Pairwise fun a b => a.1 ≤ b.1)
    (hb : ∀ r ∈ p :: rest, r.2 ≤ b) (hb' : ∃ r ∈ p :: rest, r.2 = b) :
    cells (p :: rest) ∪ cells (gaps (p :: rest)) = Finset.Ico p.1 b := by
  refine Finset.Subset.antisymm (Finset.union_subset ?_ ?_) ?_
  · exact cells_subset_Ico fun r hr => ⟨hl.head_key_le hr, hb r hr⟩
  · exact cells_subset_Ico fun g hg =>
      gaps_bounds hpos hl (fun r hr => (hpos r hr).le.trans (hb r hr)) hg
  · -- walk along the list: before the first end, in the first gap, or further on
    clear hb
    induction rest generalizing p with
    | nil =>
      obtain ⟨r, hr, rfl⟩ := hb'
      rw [List.mem_singleton] at hr
      subst hr
      simp [gaps]
    | cons q rest ih =>
      rw [List.pairwise_cons] at hl
      have hpq : p.1 ≤ q.1 := hl.1 q List.mem_cons_self
      have hpos' : ∀ r ∈ q :: rest, r.1 < r.2 := fun r hr => hpos r (List.mem_cons_of_mem _ hr)
      intro x hx
      rw [Finset.mem_Ico] at hx
      rw [Finset.mem_union, cells_cons, Finset.mem_union, Finset.mem_Ico]
      by_cases hxp : x < p.2
      · exact .inl (.inl ⟨hx.1, hxp⟩)
      rw [not_lt] at hxp
      by_cases hxq : x < q.1
      · right
        rw [gaps, if_pos (hxp.trans_lt hxq), cells_cons, Finset.mem_union, Finset.mem_Ico]
        exact .inl ⟨hxp, hxq⟩
      · rw [not_lt] at hxq
        -- `x` is past the end of `p`, so the interval that ends at `b` is a later one
        obtain ⟨r, hr, hrb⟩ := hb'
        have hr' : r ∈ q :: rest := by
          cases List.mem_cons.mp hr with
          | inl heq => exact absurd hx.2 (not_lt.mpr (hrb ▸ heq ▸ hxp))
          | inr hmem => exact hmem
        have hmem := ih hpos' hl.2 ⟨r, hr', hrb⟩ (Finset.mem_Ico.mpr ⟨hxq, hx.2⟩)
        rw [Finset.mem_union] at hmem
        apply hmem.imp .inr
        intro hg
        rw [gaps]
        split
        · rw [cells_cons]; exact Finset.mem_union_right _ hg
        · exact hg

end Counting

/-- The intervals and their gaps add up to the whole stretch plus whatever part
    of the gaps an interval still covers. -/
theorem card_cells_add_totalLength_gaps {p : ℤ × ℤ} {rest : List (ℤ × ℤ)} {b : ℤ}
    (hpos : ∀ r ∈ p :: rest, r.1 < r.2) (hl : (p :: rest).Pairwise fun a b => a.1 ≤ b.1)
    (hb : ∀ r ∈ p :: rest, r.2 ≤ b) (hb' : ∃ r ∈ p :: rest, r.2 = b) :
    ((cells (p :: rest)).card : ℤ) + totalLength (gaps (p :: rest)) =
      b - p.1 + (cells (gaps (p :: rest)) ∩ cells (p :: rest)).card := by
  have hgap : ((cells (gaps (p :: rest))).card : ℤ) = totalLength (gaps (p :: rest)) :=
    card_cells (pairwise_disjoint_of_le (pairwise_gaps hpos hl))
  -- the intervals and their gaps cover the window, and what lies in both counts twice
  have hcount := Finset.card_union_add_card_inter (cells (p :: rest)) (cells (gaps (p :: rest)))
  rw [cells_union_cells_gaps hpos hl hb hb', Finset.inter_comm] at hcount
  have hwhole : ((Finset.Ico p.1 b).card : ℤ) = b - p.1 := by
    have hpb : p.1 < b := (hpos p List.mem_cons_self).trans_le (hb p List.mem_cons_self)
    rw [card_Ico]
    omega
  omega

end Intervals
