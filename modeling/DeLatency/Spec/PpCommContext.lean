import DeLatency.Converter.PpComm
import DeLatency.ForStd.Intervals
import DeLatency.ForStd.RunningMax

/-!
# The request context of a pipeline transfer

`_infer_pp_comm_request_context` keeps a running maximum with ties over the
executions of the transfer's process.  Here its result is stated without the
loop: the executions that share the most time with the transfer among those
that can belong to it (`BestSpan`), and what is read off them (`IsContext`).
Nothing in that depends on the order of the executions, so the result does not
either.
-/

namespace DeLatency

/-! ## Compatible executions -/

/-- Two ranks that are both known have the same text. -/
def RankAgrees (left right : Option Rank) : Prop :=
  rankValueKnown left → rankValueKnown right →
    (left.getD .null).text = (right.getD .null).text

/-- Ranks are compatible when they agree or one is not known. -/
theorem rankCompatible_iff {left right : Option Rank} :
    rankCompatible left right ↔ RankAgrees left right := by
  unfold rankCompatible RankAgrees
  split
  · -- one of the ranks is unknown, and the code lets the pair pass
    next h =>
    apply iff_of_true rfl
    intro hl hr
    cases h with
    | inl h => exact absurd hl h
    | inr h => exact absurd hr h
  · next h =>
    -- both ranks are known, and the code compares them
    rw [not_or, not_not, not_not] at h
    rw [decide_eq_true_eq]
    exact ⟨fun heq _ _ => heq, fun heq => heq h.1 h.2⟩

/-- The execution has a start and a later end. -/
def DispatchSlice.Valid (span : DispatchSlice) : Prop :=
  (validSpan (some span.start) (some span.endNs)).isSome

/-- The time an execution shares with `[startNs, endNs)`, none if it is not valid. -/
noncomputable def DispatchSlice.sharedNs (span : DispatchSlice) (startNs endNs : ℤ) : ℤ :=
  match validSpan (some span.start) (some span.endNs) with
  | some (s, e) => (Finset.Ico startNs endNs ∩ Finset.Ico s e).card
  | none => 0

/-- The execution can belong to a transfer with this key and these ranks. -/
structure ContextMatch (ranks : Ranks) (dispatchKey : Option String) (span : DispatchSlice) :
    Prop where
  key : truthyKey dispatchKey ≠ none → truthyKey span.dispatchKey ≠ none →
    span.dispatchKey = dispatchKey
  dp : RankAgrees ranks.dp span.ranks.dp
  pp : RankAgrees ranks.pp span.ranks.pp
  tp : RankAgrees ranks.tp span.ranks.tp

/-- The executions a transfer is compared with: those of its process if one of them
    is valid, else all. -/
structure IsCandidate (spans : List DispatchSlice) (pid : Option ℤ) (span : DispatchSlice) :
    Prop where
  mem : span ∈ spans
  own : (∃ other ∈ spans, other.Valid ∧ other.pid = pid) → span.pid = pid

section Transfer

variable (spans : List DispatchSlice) (startNs endNs : ℤ) (pid : Option ℤ) (ranks : Ranks)
  (dispatchKey : Option String)

/-- A compatible candidate whose overlap with the transfer is positive and greatest. -/
structure BestSpan (span : DispatchSlice) : Prop where
  candidate : IsCandidate spans pid span
  agrees : ContextMatch ranks dispatchKey span
  pos : 0 < span.sharedNs startNs endNs
  greatest : ∀ other, IsCandidate spans pid other → ContextMatch ranks dispatchKey other →
    other.sharedNs startNs endNs ≤ span.sharedNs startNs endNs

/-- The non-empty dispatch keys of the best executions. -/
def bestKeys : Set String :=
  {key | ∃ span, BestSpan spans startNs endNs pid ranks dispatchKey span ∧
    truthyKey span.dispatchKey = some key}

/-- The context of a transfer: the request ids of the best executions in order and
    without repetition, their dispatch key if they have exactly one, and the greatest
    overlap. -/
structure IsContext (context : List String × Option String × ℤ) : Prop where
  sorted : context.1.Pairwise (· < ·)
  reqIds : ∀ rid, rid ∈ context.1 ↔
    ∃ span, BestSpan spans startNs endNs pid ranks dispatchKey span ∧
      rid ∈ normalizeRequestIds span.reqIds
  one_key : ∀ key, bestKeys spans startNs endNs pid ranks dispatchKey = {key} →
    context.2.1 = some key
  other_keys : (¬∃ key, bestKeys spans startNs endNs pid ranks dispatchKey = {key}) →
    context.2.1 = dispatchKey
  overlap : IsGreatest (insert 0 {n | ∃ span, IsCandidate spans pid span ∧
    ContextMatch ranks dispatchKey span ∧ n = span.sharedNs startNs endNs}) context.2.2

end Transfer

variable {spans : List DispatchSlice} {startNs endNs : ℤ} {pid : Option ℤ} {ranks : Ranks}
  {dispatchKey : Option String}

/-! ## The overlap of one execution -/

/-- A span that shares time is a valid one. -/
theorem valid_of_sharedNs_pos {span : DispatchSlice} (h : 0 < span.sharedNs startNs endNs) :
    span.Valid := by
  unfold DispatchSlice.sharedNs at h
  unfold DispatchSlice.Valid
  split at h
  · next hv => rw [hv]; rfl
  · omega

/-- The overlap the loop computes is the shared time of a compatible execution, when
    there is any. -/
theorem dispatchOverlap_eq_some {span : DispatchSlice} {n : ℤ} :
    dispatchOverlap startNs endNs ranks dispatchKey span = some n ↔
      ContextMatch ranks dispatchKey span ∧ 0 < n ∧ n = span.sharedNs startNs endNs := by
  unfold dispatchOverlap DispatchSlice.sharedNs
  cases hv : validSpan (some span.start) (some span.endNs) with
  | none =>
    simp only
    constructor
    · intro h; cases h
    · intro h; omega
  | some p =>
    obtain ⟨s, e⟩ := p
    simp only [Intervals.card_Ico_inter_Ico]
    split
    · -- another dispatch
      next hkey =>
      constructor
      · intro h; cases h
      · intro h; exact absurd (h.1.key hkey.1 hkey.2.1) hkey.2.2
    · next hkey =>
      split
      · -- another rank
        next hrank =>
        constructor
        · intro h; cases h
        · intro h
          obtain ⟨⟨-, hdp, hpp, htp⟩, -⟩ := h
          exact absurd ⟨rankCompatible_iff.mpr hpp, rankCompatible_iff.mpr htp,
            rankCompatible_iff.mpr hdp⟩ hrank
      · next hrank =>
        rw [not_not] at hrank
        have hmatch : ContextMatch ranks dispatchKey span := by
          refine ⟨fun h h' => ?_, rankCompatible_iff.mp hrank.2.2, rankCompatible_iff.mp hrank.1,
            rankCompatible_iff.mp hrank.2.1⟩
          by_contra hne
          exact hkey ⟨h, h', hne⟩
        split
        · next hle =>
          constructor
          · intro h; cases h
          · intro h; omega
        · next hlt =>
          rw [Option.some.injEq]
          constructor
          · intro h; exact ⟨hmatch, by omega, h.symm⟩
          · intro h; exact h.2.2.symm

/-! ## The loop -/

/-- The list the loop runs over. -/
def contextCandidates (spans : List DispatchSlice) (pid : Option ℤ) : List DispatchSlice :=
  let samePid := spans.filter fun span =>
    (validSpan (some span.start) (some span.endNs)).isSome ∧ span.pid = pid
  let samePid := samePid.sortBy fun span =>
    toLex ((toNsInt span.start).getD 0, (toNsInt span.endNs).getD 0)
  if samePid = [] then spans else samePid

/-- The loop runs over candidates, and misses none that shares time with the transfer. -/
theorem mem_contextCandidates {span : DispatchSlice} (h : 0 < span.sharedNs startNs endNs) :
    span ∈ contextCandidates spans pid ↔ IsCandidate spans pid span := by
  have hvalid := valid_of_sharedNs_pos h
  simp only [contextCandidates, List.sortBy_eq_nil, List.filter_eq_nil_iff]
  split
  · -- no valid span is of the process: all spans are candidates
    next hnone =>
    constructor
    · intro hmem
      refine ⟨hmem, fun hown => ?_⟩
      obtain ⟨other, hother, hv, hpid⟩ := hown
      exact absurd (decide_eq_true ⟨hv, hpid⟩) (hnone other hother)
    · intro hc
      exact hc.mem
  · -- some is: only those of the process are
    next hsome =>
    push Not at hsome
    obtain ⟨other, hother, hv⟩ := hsome
    rw [decide_eq_true_eq] at hv
    rw [List.mem_sortBy, List.mem_filter, decide_eq_true_eq]
    constructor
    · intro hmem
      exact ⟨hmem.1, fun _ => hmem.2.2⟩
    · intro hc
      exact ⟨hc.mem, hvalid, hc.own ⟨other, hother, hv⟩⟩

/-- The loop is the running maximum of the overlaps. -/
theorem bestOverlapStep_eq (overlap : DispatchSlice → Option ℤ) :
    bestOverlapStep overlap = RunningMax.step overlap := by
  funext best span
  unfold bestOverlapStep RunningMax.step
  cases overlap span <;> rfl

/-- What the loop of the function ends with. -/
def bestOverlapSpans (spans : List DispatchSlice) (startNs endNs : ℤ) (pid : Option ℤ)
    (ranks : Ranks) (dispatchKey : Option String) : ℤ × List DispatchSlice :=
  (contextCandidates spans pid).foldl
    (RunningMax.step (dispatchOverlap startNs endNs ranks dispatchKey)) (0, [])

/-- The only element of a list, or the given key. -/
def onlyKey (keys : List String) (dispatchKey : Option String) : Option String :=
  match keys with
  | [key] => some key
  | _ => dispatchKey

/-- The inference keeps the spans that share the most time. -/
theorem inferPpCommRequestContext_eq :
    inferPpCommRequestContext spans startNs endNs pid ranks dispatchKey =
      let best := bestOverlapSpans spans startNs endNs pid ranks dispatchKey
      ((best.2.flatMap fun span => normalizeRequestIds span.reqIds).dedup.sortBy id,
        onlyKey (best.2.filterMap fun span => truthyKey span.dispatchKey).dedup dispatchKey,
        best.1) := by
  unfold inferPpCommRequestContext bestOverlapSpans
  rw [bestOverlapStep_eq]
  rfl

/-- The overlap is the greatest among the compatible candidates, or 0. -/
theorem isGreatest_bestOverlap :
    IsGreatest (insert 0 {n | ∃ span, IsCandidate spans pid span ∧
        ContextMatch ranks dispatchKey span ∧ n = span.sharedNs startNs endNs})
      (bestOverlapSpans spans startNs endNs pid ranks dispatchKey).1 := by
  obtain ⟨hmem, hub⟩ := RunningMax.isGreatest_foldl_step
    (dispatchOverlap startNs endNs ranks dispatchKey) 0 (contextCandidates spans pid)
  constructor
  · cases RunningMax.mem_seen.mp hmem with
    | inl h => exact .inl h
    | inr h =>
      obtain ⟨span, hspan, hn⟩ := h
      obtain ⟨hmatch, hpos, heq⟩ := dispatchOverlap_eq_some.mp hn
      exact .inr ⟨span, (mem_contextCandidates (heq ▸ hpos)).mp hspan, hmatch, heq⟩
  · intro n hn
    obtain rfl | ⟨span, hspan, hmatch, rfl⟩ := hn
    · exact hub (.inl rfl)
    · -- a candidate that shares no time does not exceed the start of the loop
      by_cases hpos : 0 < span.sharedNs startNs endNs
      · exact hub (.inr ⟨span, (mem_contextCandidates hpos).mpr hspan,
          dispatchOverlap_eq_some.mpr ⟨hmatch, hpos, rfl⟩⟩)
      · exact (not_lt.mp hpos).trans (hub (.inl rfl))

/-- The loop keeps the best executions. -/
theorem mem_bestOverlapSpans {span : DispatchSlice} :
    span ∈ (bestOverlapSpans spans startNs endNs pid ranks dispatchKey).2 ↔
      BestSpan spans startNs endNs pid ranks dispatchKey span := by
  have hgreatest : IsGreatest _ (bestOverlapSpans spans startNs endNs pid ranks dispatchKey).1 :=
    isGreatest_bestOverlap
  rw [bestOverlapSpans, RunningMax.mem_foldl_step, dispatchOverlap_eq_some]
  refine ⟨fun h => ?_, fun h => ?_⟩
  · obtain ⟨hspan, hmatch, hpos, heq⟩ := h
    rw [heq] at hpos
    refine ⟨(mem_contextCandidates hpos).mp hspan, hmatch, hpos, fun other hother hm => ?_⟩
    calc other.sharedNs startNs endNs
        ≤ (bestOverlapSpans spans startNs endNs pid ranks dispatchKey).1 :=
          hgreatest.2 (.inr ⟨other, hother, hm, rfl⟩)
      _ = span.sharedNs startNs endNs := heq
  · -- the greatest overlap is reached by some candidate, so by this one
    have heq : (bestOverlapSpans spans startNs endNs pid ranks dispatchKey).1 =
        span.sharedNs startNs endNs := by
      refine le_antisymm ?_ (hgreatest.2 (.inr ⟨span, h.candidate, h.agrees, rfl⟩))
      obtain h0 | ⟨other, hother, hm, hn⟩ := hgreatest.1
      · rw [h0]; exact h.pos.le
      · rw [hn]; exact h.greatest other hother hm
    exact ⟨(mem_contextCandidates h.pos).mpr h.candidate, h.agrees, heq ▸ h.pos, heq⟩

/-! ## The result -/

/-- One key for all is the inferred key. -/
theorem onlyKey_singleton {keys : List String} {key : String} (hnodup : keys.Nodup)
    (h : ∀ k, k ∈ keys ↔ k = key) : onlyKey keys dispatchKey = some key := by
  have hperm : keys.Perm [key] := by
    rw [List.perm_ext_iff_of_nodup hnodup (List.nodup_singleton key)]
    intro k
    rw [h k, List.mem_singleton]
  rw [List.perm_singleton.mp hperm]
  rfl

/-- Otherwise the key stays as it was. -/
theorem onlyKey_of_not_singleton {keys : List String} (h : ¬∃ key, keys = [key]) :
    onlyKey keys dispatchKey = dispatchKey := by
  unfold onlyKey
  split
  · next key => exact absurd ⟨key, rfl⟩ h
  · rfl

/-- The function computes the context. -/
theorem isContext_infer : IsContext spans startNs endNs pid ranks dispatchKey
    (inferPpCommRequestContext spans startNs endNs pid ranks dispatchKey) := by
  rw [inferPpCommRequestContext_eq]
  -- the keys read off the kept executions are those of the best ones
  have hkeys : ∀ key, key ∈
      ((bestOverlapSpans spans startNs endNs pid ranks dispatchKey).2.filterMap
        fun span => truthyKey span.dispatchKey).dedup ↔
      key ∈ bestKeys spans startNs endNs pid ranks dispatchKey := by
    intro key
    simp only [List.mem_dedup, List.mem_filterMap, mem_bestOverlapSpans]
    rfl
  constructor
  · -- distinct and in order
    have hnodup := (List.sortBy_perm id _).nodup_iff.mpr (List.nodup_dedup
      ((bestOverlapSpans spans startNs endNs pid ranks dispatchKey).2.flatMap
        fun span => normalizeRequestIds span.reqIds))
    exact ((List.pairwise_sortBy id _).and hnodup).imp fun h => lt_of_le_of_ne h.1 h.2
  · intro rid
    simp only [List.mem_sortBy, List.mem_dedup, List.mem_flatMap, mem_bestOverlapSpans]
  · intro key hkey
    apply onlyKey_singleton (List.nodup_dedup _)
    intro k
    rw [hkeys, hkey, Set.mem_singleton_iff]
  · intro hnone
    apply onlyKey_of_not_singleton
    intro hx
    obtain ⟨key, hkey⟩ := hx
    refine hnone ⟨key, ?_⟩
    ext k
    rw [← hkeys, hkey, List.mem_singleton, Set.mem_singleton_iff]
  · exact isGreatest_bestOverlap

/-- A transfer has one context. -/
theorem IsContext.unique {context context' : List String × Option String × ℤ}
    (h : IsContext spans startNs endNs pid ranks dispatchKey context)
    (h' : IsContext spans startNs endNs pid ranks dispatchKey context') : context = context' := by
  have hids : context.1 = context'.1 := by
    -- two sorted lists with the same members are the same
    have hperm : context.1.Perm context'.1 := by
      rw [List.perm_ext_iff_of_nodup (h.sorted.imp ne_of_lt) (h'.sorted.imp ne_of_lt)]
      intro rid
      rw [h.reqIds, h'.reqIds]
    exact hperm.eq_of_pairwise' h.sorted h'.sorted
  have hkey : context.2.1 = context'.2.1 := by
    -- one key for all, or the default
    by_cases hone : ∃ key, bestKeys spans startNs endNs pid ranks dispatchKey = {key}
    · obtain ⟨key, hkey⟩ := hone
      rw [h.one_key key hkey, h'.one_key key hkey]
    · rw [h.other_keys hone, h'.other_keys hone]
  exact Prod.ext hids (Prod.ext hkey (h.overlap.unique h'.overlap))

/-- Nothing in a context depends on the order of the executions. -/
theorem IsContext.perm {spans' : List DispatchSlice} (hperm : spans.Perm spans')
    {context : List String × Option String × ℤ}
    (h : IsContext spans startNs endNs pid ranks dispatchKey context) :
    IsContext spans' startNs endNs pid ranks dispatchKey context := by
  -- the choice only asks which spans there are
  have hc : IsCandidate spans pid = IsCandidate spans' pid := by
    funext span
    refine propext ⟨fun hc => ⟨hperm.mem_iff.mp hc.mem, ?_⟩,
      fun hc => ⟨hperm.mem_iff.mpr hc.mem, ?_⟩⟩
    · intro hx
      obtain ⟨other, hother, hv⟩ := hx
      exact hc.own ⟨other, hperm.mem_iff.mpr hother, hv⟩
    · intro hx
      obtain ⟨other, hother, hv⟩ := hx
      exact hc.own ⟨other, hperm.mem_iff.mp hother, hv⟩
  have hbest : BestSpan spans startNs endNs pid ranks dispatchKey =
      BestSpan spans' startNs endNs pid ranks dispatchKey := by
    funext span
    refine propext ⟨fun hb => ⟨hc ▸ hb.candidate, hb.agrees, hb.pos, ?_⟩,
      fun hb => ⟨hc ▸ hb.candidate, hb.agrees, hb.pos, ?_⟩⟩
    · rw [← hc]; exact hb.greatest
    · rw [hc]; exact hb.greatest
  have hkeys : bestKeys spans startNs endNs pid ranks dispatchKey =
      bestKeys spans' startNs endNs pid ranks dispatchKey := by
    unfold bestKeys
    rw [hbest]
  obtain ⟨hsorted, hids, hone, hother, hoverlap⟩ := h
  rw [hbest] at hids
  rw [hkeys] at hone hother
  rw [hc] at hoverlap
  exact ⟨hsorted, hids, hone, hother, hoverlap⟩

/-- The context of a transfer is that of the compatible executions it overlaps most,
    whatever the order of the executions. -/
theorem inferPpCommRequestContext_argmax (spans : List DispatchSlice) (startNs endNs : ℤ)
    (pid : Option ℤ) (ranks : Ranks) (dispatchKey : Option String) :
    IsContext spans startNs endNs pid ranks dispatchKey
      (inferPpCommRequestContext spans startNs endNs pid ranks dispatchKey) ∧
    ∀ spans', spans.Perm spans' →
      inferPpCommRequestContext spans' startNs endNs pid ranks dispatchKey =
        inferPpCommRequestContext spans startNs endNs pid ranks dispatchKey := by
  refine ⟨isContext_infer, fun spans' hperm => ?_⟩
  exact isContext_infer.unique (isContext_infer.perm hperm)

/-- Two executions that share as much time with a transfer. -/
def tiedSpans : List DispatchSlice :=
  [{ pid := some 7, start := 10 ^ 15, endNs := 10 ^ 15 + 10, reqIds := ["b"],
     dispatchKey := some "d" },
   { pid := some 7, start := 10 ^ 15 + 5, endNs := 10 ^ 15 + 15, reqIds := ["a"] }]

/-- Both count, in either order. -/
theorem inferPpCommRequestContext_argmax_tied :
    inferPpCommRequestContext tiedSpans (10 ^ 15) (10 ^ 15 + 15) (some 7) {} none =
        (["a", "b"], some "d", 10) ∧
      inferPpCommRequestContext tiedSpans.reverse (10 ^ 15) (10 ^ 15 + 15) (some 7) {} none =
        (["a", "b"], some "d", 10) := by
  have hvalue : inferPpCommRequestContext tiedSpans (10 ^ 15) (10 ^ 15 + 15) (some 7) {} none =
      (["a", "b"], some "d", 10) := by decide
  refine ⟨hvalue, ?_⟩
  rw [← hvalue]
  exact (inferPpCommRequestContext_argmax tiedSpans _ _ _ _ _).2 _ (List.reverse_perm _).symm

end DeLatency
