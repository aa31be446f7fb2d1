import DeLatency.Converter.Intervals

/-!
# The interval helpers on nanosecond times

The stages read a time with `to_ns` wherever they use it (`readNs`).  A time above
`1e14` is read as it stands (`NsTime`), and intervals between such times stay so under
clipping and merging.  In terms of covered sets, clipping
intersects with the window and merging changes nothing, so the sums of the
converter are cardinalities (`interval_algebra`).
-/

namespace DeLatency

open Intervals

/-- A time that `to_ns` reads as nanoseconds. -/
def NsTime (t : ℤ) : Prop := 10 ^ 14 < t

instance (t : ℤ) : Decidable (NsTime t) := inferInstanceAs (Decidable (_ < _))

/-- An interval between nanosecond times. -/
structure NsSpan (p : ℤ × ℤ) : Prop where
  start : NsTime p.1
  finish : NsTime p.2

instance (p : ℤ × ℤ) : Decidable (NsSpan p) :=
  decidable_of_iff (NsTime p.1 ∧ NsTime p.2) ⟨fun h => ⟨h.1, h.2⟩, fun h => ⟨h.start, h.finish⟩⟩

/-- A time in nanoseconds is read as it stands. -/
theorem NsTime.toNsInt {t : ℤ} (h : NsTime t) : toNsInt t = some t := toNsInt_of_lt h

/-- A time after one in nanoseconds is in nanoseconds as well. -/
theorem NsTime.mono {t u : ℤ} (h : NsTime t) (hle : t ≤ u) : NsTime u := h.trans_le hle

/-! ## Reading times -/

/-- A positive time, read by `to_ns`. -/
def readNs (t : ℤ) : ℤ := (toNsInt t).getD t

/-- Both ends of an interval, read by `to_ns`. -/
def readSpan (p : ℤ × ℤ) : ℤ × ℤ := (readNs p.1, readNs p.2)

/-- A positive number is always read. -/
theorem toNsInt_eq_readNs {t : ℤ} (h : 0 < t) : toNsInt t = some (readNs t) := by
  unfold readNs toNsInt
  rw [if_neg (not_le.mpr h)]
  split
  · rfl
  · rfl

/-- Reading leaves a time in nanoseconds alone. -/
theorem NsTime.readNs {t : ℤ} (h : NsTime t) : readNs t = t := by
  rw [DeLatency.readNs, h.toNsInt, Option.getD_some]

/-- Reading leaves an interval of times in nanoseconds alone. -/
theorem NsSpan.readSpan {p : ℤ × ℤ} (h : NsSpan p) : readSpan p = p := by
  rw [DeLatency.readSpan, h.start.readNs, h.finish.readNs]

/-! ## Clipping -/

/-- The part of an interval in a window, by the bounds as they stand. -/
def clipSpan (windowStartNs windowEndNs : Option ℤ) (p : ℤ × ℤ) : Option (ℤ × ℤ) :=
  let q := (windowStartNs.elim p.1 (max p.1), windowEndNs.elim p.2 (min p.2))
  if p.1 < p.2 ∧ q.1 < q.2 then some q else none

/-- What is left of an interval in a window, if anything. -/
theorem clipSpan_eq_some {windowStartNs windowEndNs : Option ℤ} {p q : ℤ × ℤ} :
    clipSpan windowStartNs windowEndNs p = some q ↔
      p.1 < p.2 ∧ q = (windowStartNs.elim p.1 (max p.1), windowEndNs.elim p.2 (min p.2)) ∧
        q.1 < q.2 := by
  unfold clipSpan
  dsimp only
  split
  · -- the interval takes time and reaches into the window
    next hclip =>
    constructor
    · intro hq
      cases hq
      exact ⟨hclip.1, rfl, hclip.2⟩
    · intro hq
      rw [hq.2.1]
  · next hclip =>
    constructor
    · intro hq
      cases hq
    · intro hq
      -- otherwise nothing is left of it
      obtain ⟨hlt, rfl, hmeet⟩ := hq
      exact absurd ⟨hlt, hmeet⟩ hclip

/-- In nanoseconds the converter's clipping is that of the intervals. -/
theorem clipInterval_eq_clipSpan {p : ℤ × ℤ} (h : NsSpan p) (windowStartNs windowEndNs : Option ℤ) :
    clipInterval p.1 p.2 windowStartNs windowEndNs = clipSpan windowStartNs windowEndNs p := by
  -- the two checks of the code are one condition
  have hclip : ∀ q : ℤ × ℤ,
      (if p.2 ≤ p.1 then none else if q.2 ≤ q.1 then none else some q) =
        if p.1 < p.2 ∧ q.1 < q.2 then some q else none := by
    intro q
    by_cases hlt : p.1 < p.2
    · by_cases hq : q.1 < q.2
      · rw [if_neg (not_le.mpr hlt), if_neg (not_le.mpr hq), if_pos ⟨hlt, hq⟩]
      · rw [if_neg (not_le.mpr hlt), if_pos (not_lt.mp hq), if_neg fun hboth => hq hboth.2]
    · rw [if_pos (not_lt.mp hlt), if_neg fun hboth => hlt hboth.1]
  simp only [clipInterval, h.start.toNsInt, h.finish.toNsInt]
  have hwindow := hclip (windowStartNs.elim p.1 (max p.1), windowEndNs.elim p.2 (min p.2))
  cases windowStartNs <;> cases windowEndNs <;> exact hwindow

/-- In nanoseconds a list is clipped interval by interval. -/
theorem clipAll_eq_clipSpan {spans : List (ℤ × ℤ)} (h : ∀ p ∈ spans, NsSpan p)
    (windowStartNs windowEndNs : Option ℤ) :
    clipAll windowStartNs windowEndNs spans =
      spans.filterMap (clipSpan windowStartNs windowEndNs) :=
  List.filterMap_congr fun p hp => clipInterval_eq_clipSpan (h p hp) ..

/-- Clipping to a window, for an interval between nanosecond times. -/
theorem clipInterval_eq_some {s e a b : ℤ} (hp : NsSpan (s, e)) {q : ℤ × ℤ} :
    clipInterval s e (some a) (some b) = some q ↔
      s < e ∧ q = (max s a, min e b) ∧ q.1 < q.2 := by
  rw [clipInterval_eq_clipSpan hp]
  exact clipSpan_eq_some

/-- Without a window, clipping only drops empty intervals. -/
theorem clipInterval_none {s e : ℤ} (hp : NsSpan (s, e)) (hlt : s < e) :
    clipInterval s e none none = some (s, e) := by
  rw [clipInterval_eq_clipSpan hp]
  simp [clipSpan, hlt]

/-- Whatever is clipped lies in the window and has positive length. -/
theorem clipInterval_bounds {s e a b : ℤ} {q : ℤ × ℤ}
    (h : clipInterval s e (some a) (some b) = some q) : a ≤ q.1 ∧ q.1 < q.2 ∧ q.2 ≤ b := by
  unfold clipInterval at h
  split at h
  · split at h
    · cases h
    · simp only at h
      split at h
      · cases h
      · -- something is left, and it lies inside the window
        next hlt =>
        cases h
        exact ⟨le_max_right _ _, not_le.mp hlt, min_le_right _ _⟩
  · cases h

variable {l : List (ℤ × ℤ)} {a b : ℤ}

/-- The clipped intervals are the non-empty parts inside the window. -/
theorem mem_clipAll (hl : ∀ p ∈ l, NsSpan p) {q : ℤ × ℤ} :
    q ∈ clipAll (some a) (some b) l ↔
      ∃ p ∈ l, p.1 < p.2 ∧ q = (max p.1 a, min p.2 b) ∧ q.1 < q.2 := by
  simp only [clipAll, List.mem_filterMap]
  constructor
  · intro h
    obtain ⟨p, hp, hq⟩ := h
    exact ⟨p, hp, (clipInterval_eq_some (hl p hp)).mp hq⟩
  · intro h
    obtain ⟨p, hp, hq⟩ := h
    exact ⟨p, hp, (clipInterval_eq_some (hl p hp)).mpr hq⟩

/-- Clipped intervals lie in the window. -/
theorem clipAll_bounds {q : ℤ × ℤ} (hq : q ∈ clipAll (some a) (some b) l) :
    a ≤ q.1 ∧ q.1 < q.2 ∧ q.2 ≤ b := by
  obtain ⟨p, -, hq⟩ := List.mem_filterMap.mp hq
  exact clipInterval_bounds hq

/-- Clipped intervals are again between nanosecond times. -/
theorem nsSpan_of_mem_clipAll (hl : ∀ p ∈ l, NsSpan p) {q : ℤ × ℤ}
    (hq : q ∈ clipAll (some a) (some b) l) : NsSpan q := by
  obtain ⟨p, hp, -, rfl, hlt⟩ := (mem_clipAll hl).mp hq
  -- the clipped start is not before the interval's own
  have hstart : NsTime (max p.1 a) := (hl p hp).start.mono (le_max_left _ _)
  exact ⟨hstart, hstart.mono hlt.le⟩

/-- Clipping intersects the covered set with the window. -/
theorem cells_clipAll (hl : ∀ p ∈ l, NsSpan p) :
    cells (clipAll (some a) (some b) l) = cells l ∩ Finset.Ico a b := by
  ext x
  simp only [mem_cells, mem_clipAll hl, Finset.mem_inter, Finset.mem_Ico]
  constructor
  · intro h
    obtain ⟨q, ⟨p, hp, -, rfl, -⟩, hx⟩ := h
    simp only [max_le_iff, lt_min_iff] at hx
    exact ⟨⟨p, hp, hx.1.1, hx.2.1⟩, hx.1.2, hx.2.2⟩
  · intro h
    obtain ⟨⟨p, hp, h1, h2⟩, h3, h4⟩ := h
    -- `x` itself shows that the clipped interval is not empty
    refine ⟨(max p.1 a, min p.2 b), ⟨p, hp, by omega, rfl, ?_⟩, max_le h1 h3, lt_min h2 h4⟩
    omega

/-- Clipping keeps disjoint intervals disjoint. -/
theorem pairwise_disjoint_clipAll (hl : ∀ p ∈ l, NsSpan p)
    (h : l.Pairwise fun p q => Disjoint (Finset.Ico p.1 p.2) (Finset.Ico q.1 q.2)) :
    (clipAll (some a) (some b) l).Pairwise
      fun p q => Disjoint (Finset.Ico p.1 p.2) (Finset.Ico q.1 q.2) := by
  -- clipping shrinks each interval
  have hsub : ∀ p ∈ l, ∀ q, clipInterval p.1 p.2 (some a) (some b) = some q →
      Finset.Ico q.1 q.2 ⊆ Finset.Ico p.1 p.2 := by
    intro p hp q hq
    obtain ⟨-, rfl, -⟩ := (clipInterval_eq_some (hl p hp)).mp hq
    exact Finset.Ico_subset_Ico (le_max_left _ _) (min_le_left _ _)
  rw [clipAll, List.pairwise_filterMap]
  refine h.imp_of_mem fun {p q} hp hq hdisj p' hp' q' hq' => ?_
  exact hdisj.mono (hsub p hp p' hp') (hsub q hq q' hq')

/-- Without a window, clipping keeps positive intervals as they are. -/
theorem clipAll_none (hl : ∀ p ∈ l, NsSpan p) (hpos : ∀ p ∈ l, p.1 < p.2) :
    clipAll none none l = l := by
  induction l with
  | nil => rfl
  | cons p rest ih =>
    have hp := clipInterval_none (hl p List.mem_cons_self) (hpos p List.mem_cons_self)
    rw [clipAll, List.filterMap_cons, hp]
    exact congrArg _ (ih (fun q hq => hl q (List.mem_cons_of_mem _ hq))
      fun q hq => hpos q (List.mem_cons_of_mem _ hq))

/-! ## Merging -/

/-- Ordering by `(start, end)` orders the starts. -/
theorem fst_le_of_startEndKey {p q : ℤ × ℤ} (h : startEndKey p ≤ startEndKey q) : p.1 ≤ q.1 := by
  obtain hlt | ⟨heq, -⟩ := Prod.Lex.le_iff.mp h
  · exact hlt.le
  · exact heq.le

/-- After the sort the starts are in order. -/
private theorem pairwise_sortBy_start (l : List (ℤ × ℤ)) :
    (l.sortBy startEndKey).Pairwise fun p q => p.1 ≤ q.1 :=
  (List.pairwise_sortBy startEndKey l).imp fst_le_of_startEndKey

/-- Merged intervals neither overlap nor touch. -/
theorem separated_mergeIntervals (l : List (ℤ × ℤ)) : Separated (mergeIntervals l) :=
  separated_coalesce (pairwise_sortBy_start l)

/-- Merging keeps the covered set. -/
theorem cells_mergeIntervals (l : List (ℤ × ℤ)) : cells (mergeIntervals l) = cells l := by
  rw [mergeIntervals, cells_coalesce (pairwise_sortBy_start l),
    cells_perm (List.sortBy_perm startEndKey l)]

/-- The merged sum is the measure of the covered set. -/
theorem sumIntervalPairs_mergeIntervals (l : List (ℤ × ℤ)) :
    sumIntervalPairs (mergeIntervals l) = (cells l).card := by
  rw [sumIntervalPairs, ← card_cells (separated_mergeIntervals l).pairwise_disjoint,
    cells_mergeIntervals]

/-- Merged intervals are between nanosecond times when their parts are. -/
theorem nsSpan_of_mem_mergeIntervals (hl : ∀ p ∈ l, NsSpan p) {q : ℤ × ℤ}
    (hq : q ∈ mergeIntervals l) : NsSpan q := by
  -- its start and its end may come from two different parts
  obtain ⟨⟨r, hr, hr1⟩, t, ht, ht2⟩ := ends_coalesce hq
  rw [List.mem_sortBy] at hr ht
  exact ⟨hr1 ▸ (hl r hr).start, ht2 ▸ (hl t ht).finish⟩

/-! ## The sums of the converter -/

/-- A merged sum over clipped intervals measures what they cover in the window. -/
theorem sumClippedIntervalItems_merged (hl : ∀ p ∈ l, NsSpan p) :
    (sumClippedIntervalItems l (some a) (some b) true).1 = (cells l ∩ Finset.Ico a b).card := by
  simp only [sumClippedIntervalItems, if_true, sumIntervalPairs_mergeIntervals, cells_clipAll hl]

/-- A merged sum over intervals inside the window measures what they cover. -/
theorem sumClippedIntervalItems_inside (hl : ∀ p ∈ l, NsSpan p)
    (hin : ∀ p ∈ l, a ≤ p.1 ∧ p.2 ≤ b) :
    (sumClippedIntervalItems l (some a) (some b) true).1 = (cells l).card := by
  rw [sumClippedIntervalItems_merged hl, Finset.inter_eq_left.mpr (cells_subset_Ico hin)]

/-- `uncovered_interval_ns` measures the rest of the window. -/
theorem uncoveredIntervalNs_eq (hl : ∀ p ∈ l, NsSpan p) :
    uncoveredIntervalNs a b l = (Finset.Ico a b \ cells l).card := by
  have hcount : (Finset.Ico a b \ cells l).card + (cells l ∩ Finset.Ico a b).card =
      (Finset.Ico a b).card := by
    rw [Finset.inter_comm]
    exact Finset.card_sdiff_add_card_inter (Finset.Ico a b) (cells l)
  have hwhole := card_Ico a b
  simp only [uncoveredIntervalNs, sumIntervalPairs_mergeIntervals, cells_clipAll hl]
  omega

/-! ## Interval algebra -/

/-- Empty and inverted intervals cover nothing. -/
theorem cells_filter_pos (l : List (ℤ × ℤ)) :
    cells (l.filter fun p => p.1 < p.2) = cells l := by
  ext x
  simp only [mem_cells, List.mem_filter, decide_eq_true_eq]
  constructor
  · intro h
    obtain ⟨p, ⟨hp, -⟩, hx⟩ := h
    exact ⟨p, hp, hx⟩
  · intro h
    obtain ⟨p, hp, hx⟩ := h
    -- an interval that holds a cell is not empty
    exact ⟨p, ⟨hp, hx.1.trans_lt hx.2⟩, hx⟩

/-- The merge is the only separated list with its covered set. -/
theorem mergeIntervals_eq_of_cells_eq {m : List (ℤ × ℤ)} (hm : Separated m)
    (h : cells m = cells l) : mergeIntervals l = m :=
  (separated_mergeIntervals l).eq_of_cells_eq hm ((cells_mergeIntervals l).trans h.symm)

/-- The canonical form: separated, and covering what the positive intervals cover. -/
theorem eq_mergeIntervals_iff {m : List (ℤ × ℤ)} :
    m = mergeIntervals l ↔
      Separated m ∧ covered m = covered (l.filter fun p => p.1 < p.2) := by
  -- in cells, where the uniqueness is known
  rw [covered_eq_iff, cells_filter_pos]
  constructor
  · intro h
    subst h
    exact ⟨separated_mergeIntervals l, cells_mergeIntervals l⟩
  · intro h
    exact (mergeIntervals_eq_of_cells_eq h.1 h.2).symm

/-- Merging twice is merging once. -/
theorem mergeIntervals_idem (l : List (ℤ × ℤ)) :
    mergeIntervals (mergeIntervals l) = mergeIntervals l :=
  mergeIntervals_eq_of_cells_eq (separated_mergeIntervals l) rfl

/-- Merging does not depend on the order of the intervals. -/
theorem mergeIntervals_perm {l' : List (ℤ × ℤ)} (h : l.Perm l') :
    mergeIntervals l = mergeIntervals l' := by
  apply mergeIntervals_eq_of_cells_eq (separated_mergeIntervals l')
  rw [cells_mergeIntervals, cells_perm h]

/-- `uncovered_interval_ns` is the Lebesgue measure of what the covered intervals
    leave of the window. -/
theorem volume_window_diff (hl : ∀ p ∈ l, NsSpan p) :
    MeasureTheory.volume (Set.Ico (a : ℝ) b \ covered l) =
      ENNReal.ofReal (uncoveredIntervalNs a b l) := by
  -- a point of the window is left over when its cell is
  have hset : Set.Ico (a : ℝ) b \ covered l = {x : ℝ | ⌊x⌋ ∈ Finset.Ico a b \ cells l} := by
    ext x
    simp only [Set.mem_sdiff, Set.mem_Ico, Set.mem_ofPred_eq, Finset.mem_sdiff, Finset.mem_Ico,
      mem_covered_iff_floor, Int.le_floor, Int.floor_lt]
  rw [hset, volume_floor_mem, uncoveredIntervalNs_eq hl, Int.cast_natCast, ENNReal.ofReal_natCast]

/-- Merging gives the one list of positive intervals, in order and apart from one
    another, that covers what the positive intervals of the input cover; it is
    idempotent and blind to the order of the input; and `uncovered_interval_ns`
    measures what nanosecond intervals leave of a window. -/
theorem interval_algebra (l : List (ℤ × ℤ)) :
    (∀ m, Separated m ∧ covered m = covered (l.filter fun p => p.1 < p.2) ↔
      m = mergeIntervals l) ∧
    mergeIntervals (mergeIntervals l) = mergeIntervals l ∧
    (∀ l', l.Perm l' → mergeIntervals l = mergeIntervals l') ∧
    ∀ a b : ℤ, a ≤ b → (∀ p ∈ l, NsSpan p) →
      MeasureTheory.volume (Set.Ico (a : ℝ) b \ covered l) =
        ENNReal.ofReal (uncoveredIntervalNs a b l) := by
  -- uniqueness, idempotence, order independence and the rest of the window
  refine ⟨fun m => eq_mergeIntervals_iff.symm, mergeIntervals_idem l, ?_, ?_⟩
  · intro l' h
    exact mergeIntervals_perm h
  · intro a b _ hl
    exact volume_window_diff hl

/-- Nested, touching, inverted and empty intervals in a window of a hundred. -/
def mixedIntervals : List (ℤ × ℤ) :=
  [(10 ^ 15 + 30, 10 ^ 15 + 50), (10 ^ 15 + 10, 10 ^ 15 + 20), (10 ^ 15 + 20, 10 ^ 15 + 25),
    (10 ^ 15 + 35, 10 ^ 15 + 40), (10 ^ 15 + 9, 10 ^ 15 + 5), (10 ^ 15 + 70, 10 ^ 15 + 70)]

/-- They merge to two intervals, and leave 65 of the 100. -/
theorem interval_algebra_mixed :
    mergeIntervals mixedIntervals =
        [(10 ^ 15 + 10, 10 ^ 15 + 25), (10 ^ 15 + 30, 10 ^ 15 + 50)] ∧
      mergeIntervals mixedIntervals = mergeIntervals mixedIntervals.reverse ∧
      MeasureTheory.volume
          (Set.Ico ((10 ^ 15 : ℤ) : ℝ) ((10 ^ 15 + 100 : ℤ) : ℝ) \ covered mixedIntervals) =
        ENNReal.ofReal ((65 : ℤ) : ℝ) := by
  obtain ⟨-, -, hperm, hvolume⟩ := interval_algebra mixedIntervals
  refine ⟨by decide, hperm _ (List.reverse_perm _).symm, ?_⟩
  exact hvolume (10 ^ 15) (10 ^ 15 + 100) (by decide) (by decide)

end DeLatency
