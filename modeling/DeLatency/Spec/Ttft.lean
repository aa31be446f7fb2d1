import DeLatency.Spec.Breakdown
import DeLatency.Spec.Queue

/-!
# When the TTFT components add up

The six components of a `ttft` entry are measured separately: input-queue waits are
summed, gaps between prefills are taken between neighbours only, and every stretch is
cut off at zero.  The rest of the window goes to `other_gap`, so the components add up
to the window unless they already exceed it.  `ttft_conserved_iff` says when they do
not: the input-queue waits, together with whatever a prefill covers of a gap and with
the time the last prefill runs past the window, must fit between the first wait and the
first prefill.
-/

namespace DeLatency

open Intervals

namespace RequestInputs

/-- The start of the first initial prefill. -/
def firstPrefillStart (r : RequestInputs) : ℤ := (r.initialPrefills.head?.map (·.startNs)).getD 0

/-- The end of the last initial prefill. -/
def lastPrefillEnd (r : RequestInputs) : ℤ := ((r.initialPrefills.map (·.endNs)).max?).getD 0

/-- The windows of the initial prefills. -/
def prefillWindows (r : RequestInputs) : List (ℤ × ℤ) :=
  r.initialPrefills.map DispatchInterval.window

/-- How much of the gaps between neighbouring prefills an earlier prefill covers. -/
def coveredGapNs (r : RequestInputs) : ℤ :=
  (cells (gaps r.prefillWindows) ∩ cells r.prefillWindows).card

/-- Nothing in the window is counted twice.  Without an input-queue wait: the window
    starts no later than the first prefill, no prefill reaches into a later gap, and
    the last prefill ends inside the window.  With waits: they fit, along with the
    reached-into gaps and the overrun, between the first wait's start and the earlier of
    the last wait's end and the first prefill's start. -/
def CountsOnce (r : RequestInputs) (startNs endNs : ℤ) : Prop :=
  match (r.enginecoreQueueSpans startNs endNs).head?,
      (r.enginecoreQueueSpans startNs endNs).getLast? with
  | some firstWait, some lastWait =>
    firstWait.1 ≤ r.firstPrefillStart ∧
      totalLength (r.enginecoreQueueSpans startNs endNs) + r.coveredGapNs +
          max 0 (r.lastPrefillEnd - endNs) ≤
        min lastWait.2 r.firstPrefillStart - firstWait.1
  | _, _ => startNs ≤ r.firstPrefillStart ∧ r.coveredGapNs = 0 ∧ r.lastPrefillEnd ≤ endNs

instance (r : RequestInputs) (startNs endNs : ℤ) : Decidable (r.CountsOnce startNs endNs) := by
  unfold CountsOnce
  split
  · infer_instance
  · infer_instance

variable {r : RequestInputs} {startNs endNs firstStart lastEnd : ℤ}

/-! ## The measured stretches -/

/-- The input-queue component sums the clipped waits. -/
theorem enginecoreQueue_eq (r : RequestInputs) (startNs endNs firstStart lastEnd : ℤ) :
    (r.buildTtft startNs endNs firstStart lastEnd).componentsNs.enginecoreQueue =
      totalLength (r.enginecoreQueueSpans startNs endNs) := by
  have hperm : (clipAll (some startNs) (some endNs) r.enginecoreQueue).Perm
      (r.enginecoreQueueSpans startNs endNs) :=
    (List.sortBy_perm startEndKey r.enginecoreQueue).symm.filterMap _
  exact (hperm.map _).sum_eq

/-- The gaps between neighbouring prefills add up to the schedule gap. -/
theorem prefillScheduleGap_eq {prefills : List DispatchInterval}
    (h : ∀ d ∈ prefills, NsSpan d.window) :
    prefillScheduleGap prefills = totalLength (gaps (prefills.map DispatchInterval.window)) := by
  induction prefills with
  | nil => rfl
  | cons d rest ih =>
    cases rest with
    | nil => rfl
    | cons d' rest =>
      have ih := ih fun x hx => h x (List.mem_cons_of_mem _ hx)
      have hend : toNsInt d.endNs = some d.endNs := (h d (by simp)).finish.toNsInt
      have hstart : toNsInt d'.startNs = some d'.startNs := (h d' (by simp)).start.toNsInt
      simp only [prefillScheduleGap, List.tail_cons, List.zip_cons_cons, List.map_cons,
        List.sum_cons, hend, hstart, gaps] at ih ⊢
      rw [ih]
      split
      · next hlt => rw [totalLength_cons]; rfl
      · -- the next prefill starts before this one ends, so there is no gap
        next hlt =>
        have hle : d'.startNs - d.endNs ≤ 0 := by
          have hnlt : ¬d.endNs < d'.startNs := hlt
          omega
        rw [max_eq_left hle, zero_add]

/-- Prefills and the gaps between them fill the stretch from the first start to the
    last end, plus what is covered of the gaps. -/
theorem prefillExec_add_scheduleGap (h : r.DispatchesInNs)
    (hp : TtftParts r startNs endNs firstStart lastEnd) :
    (cells r.prefillWindows).card + prefillScheduleGap r.initialPrefills =
      lastEnd - firstStart + r.coveredGapNs := by
  obtain ⟨first, rest, heq, rfl⟩ := hp.first
  have hpos : ∀ p ∈ r.prefillWindows, p.1 < p.2 := by
    intro p hmem
    obtain ⟨d, hd, rfl⟩ := List.mem_map.mp hmem
    exact (h d (mem_initialPrefills hd)).2
  have hle : ∀ p ∈ r.prefillWindows, p.2 ≤ lastEnd := by
    intro p hmem
    obtain ⟨d, hd, rfl⟩ := List.mem_map.mp hmem
    exact hp.le_last d hd
  have hlast : ∃ p ∈ r.prefillWindows, p.2 = lastEnd := by
    obtain ⟨d, hd, hde⟩ := hp.last
    exact ⟨d.window, List.mem_map.mpr ⟨d, hd, rfl⟩, hde⟩
  have hsorted := pairwise_initialPrefills r
  -- the windows are a list with a head, as the counting lemma wants them
  have hwindows : r.prefillWindows = first.window :: rest.map DispatchInterval.window := by
    rw [prefillWindows, heq, List.map_cons]
  rw [prefillScheduleGap_eq (prefills_inNs h)]
  unfold coveredGapNs
  show _ + totalLength (gaps r.prefillWindows) = _
  rw [show r.initialPrefills.map DispatchInterval.window = r.prefillWindows from rfl] at hsorted
  rw [hwindows] at hpos hle hlast hsorted ⊢
  exact card_cells_add_totalLength_gaps hpos hsorted hle hlast

/-- The wait spans lie in the window. -/
theorem enginecoreQueueSpans_bounds {w : ℤ × ℤ} (hw : w ∈ r.enginecoreQueueSpans startNs endNs) :
    startNs ≤ w.1 ∧ w.1 < w.2 ∧ w.2 ≤ endNs :=
  clipAll_bounds hw

/-- The boundary is not before the start. -/
theorem preprocessBoundary_ge (r : RequestInputs) (startNs endNs firstStart : ℤ) :
    startNs ≤ r.preprocessBoundary startNs endNs firstStart :=
  le_max_left _ _

/-- The six components add up exactly when the boundary comes no later than the first
    prefill and nothing is counted beyond the input-queue stretch. -/
private theorem sum_components_iff (h : r.DispatchesInNs)
    (hp : TtftParts r startNs endNs firstStart lastEnd) :
    (r.buildTtft startNs endNs firstStart lastEnd).componentsNs.values.sum =
        (r.buildTtft startNs endNs firstStart lastEnd).windowNs ↔
      r.preprocessBoundary startNs endNs firstStart ≤ firstStart ∧
        totalLength (r.enginecoreQueueSpans startNs endNs) + r.coveredGapNs +
            max 0 (lastEnd - endNs) ≤
          r.enginecoreQueueEnd startNs endNs firstStart -
            r.preprocessBoundary startNs endNs firstStart := by
  have hexec : (r.buildTtft startNs endNs firstStart lastEnd).componentsNs.prefillExec =
      (cells r.prefillWindows).card := prefillExec_eq h hp
  have hqueue := enginecoreQueue_eq r startNs endNs firstStart lastEnd
  have hfill := prefillExec_add_scheduleGap h hp
  have hwaits : 0 ≤ totalLength (r.enginecoreQueueSpans startNs endNs) := totalLength_nonneg _
  have hcovered : 0 ≤ r.coveredGapNs := Int.natCast_nonneg _
  have hboundary := preprocessBoundary_ge r startNs endNs firstStart
  have hlt := hp.lt
  -- the queue stretch runs from the boundary to the first prefill at most
  have hend : r.enginecoreQueueEnd startNs endNs firstStart ≤
      max (r.preprocessBoundary startNs endNs firstStart) firstStart :=
    max_le_max le_rfl (min_le_right _ _)
  have hend' : r.preprocessBoundary startNs endNs firstStart ≤
      r.enginecoreQueueEnd startNs endNs firstStart := le_max_left _ _
  simp only [buildTtft, TtftComponents.values, List.sum_cons, List.sum_nil] at hexec hqueue ⊢
  -- what is left is linear: `other_gap` is cut off exactly when too much is counted
  rw [hexec, hqueue]
  omega

/-! ## The input-queue stretch -/

/-- The condition, in terms of the boundary and the end of the queue that the breakdown takes. -/
private theorem countsOnce_iff (hp : TtftParts r startNs endNs firstStart lastEnd)
    (hfirst : r.firstPrefillStart = firstStart) (hlast : r.lastPrefillEnd = lastEnd) :
    r.CountsOnce startNs endNs ↔
      r.preprocessBoundary startNs endNs firstStart ≤ firstStart ∧
        totalLength (r.enginecoreQueueSpans startNs endNs) + r.coveredGapNs +
            max 0 (lastEnd - endNs) ≤
          r.enginecoreQueueEnd startNs endNs firstStart -
            r.preprocessBoundary startNs endNs firstStart := by
  have hlt := hp.lt
  have hcovered : 0 ≤ r.coveredGapNs := Int.natCast_nonneg _
  have hbounds : ∀ w ∈ r.enginecoreQueueSpans startNs endNs,
      startNs ≤ w.1 ∧ w.1 < w.2 ∧ w.2 ≤ endNs := fun w hw => enginecoreQueueSpans_bounds hw
  unfold CountsOnce enginecoreQueueEnd preprocessBoundary
  rw [hfirst, hlast]
  generalize r.enginecoreQueueSpans startNs endNs = waits at hbounds ⊢
  cases waits with
  | nil =>
    -- the boundary is the earliest of enqueue, first prefill and window end
    simp only [List.head?_nil, List.getLast?_nil, totalLength_nil]
    cases r.enqueueTs.bind toNsInt with
    | none =>
      simp only
      generalize hboundary : max startNs (min (min firstStart endNs) endNs) = boundary
      omega
    | some enqueueNs =>
      simp only
      generalize hboundary :
        max startNs (min (min enqueueNs (min firstStart endNs)) endNs) = boundary
      omega
  | cons w rest =>
    -- the boundary is the start of the first wait, which lies in the window
    obtain ⟨hw1, hw2, hw3⟩ := hbounds w List.mem_cons_self
    have hrest : 0 ≤ totalLength rest := totalLength_nonneg rest
    have hlastMem : ∃ last, (w :: rest).getLast? = some last := ⟨_, List.getLast?_cons⟩
    obtain ⟨last, hlastEq⟩ := hlastMem
    rw [hlastEq, List.head?_cons, totalLength_cons]
    simp only
    omega

end RequestInputs

/-- No component of a `ttft` entry is negative. -/
theorem ttftComponents_nonneg {r : RequestInputs} (h : r.DispatchesInNs) {e : TtftEntry}
    (he : r.ttftEntry = some e) : ∀ v ∈ e.componentsNs.values, 0 ≤ v := by
  obtain ⟨startNs, endNs, firstStart, lastEnd, hp, rfl⟩ := RequestInputs.exists_buildTtft h he
  have hexec : 0 ≤ (r.buildTtft startNs endNs firstStart lastEnd).componentsNs.prefillExec := by
    rw [RequestInputs.prefillExec_eq h hp]; exact Int.natCast_nonneg _
  have hqueue :
      0 ≤ (r.buildTtft startNs endNs firstStart lastEnd).componentsNs.enginecoreQueue := by
    rw [RequestInputs.enginecoreQueue_eq]; exact totalLength_nonneg _
  have hgap : 0 ≤ RequestInputs.prefillScheduleGap r.initialPrefills := by
    rw [RequestInputs.prefillScheduleGap_eq (RequestInputs.prefills_inNs h)]
    exact totalLength_nonneg _
  intro v hv
  simp only [TtftComponents.values, List.mem_cons, List.not_mem_nil, or_false] at hv
  -- three components are cut off at zero, the others are sums of lengths
  obtain rfl | rfl | rfl | rfl | rfl | rfl := hv
  · exact le_max_left _ _
  · exact hqueue
  · exact add_nonneg (le_max_left _ _) hgap
  · exact hexec
  · exact le_max_left _ _
  · exact le_max_left _ _

/-- The components of a `ttft` entry are non-negative and add up to its window exactly
    when nothing in the window is counted twice. -/
theorem ttft_conserved_iff (log : Log) (h : SchedulerInNs log) (rid : String) (e : TtftEntry)
    (he : (requestInputs log rid).ttftEntry = some e) :
    ((∀ v ∈ e.componentsNs.values, 0 ≤ v) ∧ e.componentsNs.values.sum = e.windowNs) ↔
      (requestInputs log rid).CountsOnce e.startNs e.endNs := by
  have hin := dispatchesInNs_requestInputs h rid
  rw [and_iff_right (ttftComponents_nonneg hin he)]
  obtain ⟨startNs, endNs, firstStart, lastEnd, hp, rfl⟩ := RequestInputs.exists_buildTtft hin he
  -- the parts of the entry are the request's own first start and last end
  have hfirst : (requestInputs log rid).firstPrefillStart = firstStart := by
    obtain ⟨first, rest, heq, rfl⟩ := hp.first
    rw [RequestInputs.firstPrefillStart, heq]
    rfl
  have hlast : (requestInputs log rid).lastPrefillEnd = lastEnd := by
    have hmax : ((requestInputs log rid).initialPrefills.map (·.endNs)).max? = some lastEnd := by
      rw [List.max?_eq_some_iff]
      obtain ⟨d, hd, hde⟩ := hp.last
      refine ⟨List.mem_map.mpr ⟨d, hd, hde⟩, fun x hx => ?_⟩
      obtain ⟨d', hd', rfl⟩ := List.mem_map.mp hx
      exact hp.le_last d' hd'
    rw [RequestInputs.lastPrefillEnd, hmax]
    rfl
  rw [RequestInputs.sum_components_iff hin hp]
  exact (RequestInputs.countsOnce_iff hp hfirst hlast).symm

/-- A request that is prefilled, gets its first token, and is preempted and prefilled
    again before its first decode step. -/
def reprefillLog : Log :=
  [{ event := .coroutine {
      type := .coroutineStart
      timestampNs := some 1700000000000000000
      requestId := some "r"
      coroutineId := some 7 } },
    -- the first token is consumed after the first prefill
    { event := .coroutineExec {
      requestId := some "r"
      startNs := some 1700000000022000000
      endNs := some 1700000000025000000
      taskKind := some "generate_consume" } }] ++
  -- the second prefill starts only after that
  [(1700000000010000000, 1700000000020000000, "step-1"),
    (1700000000040000000, 1700000000050000000, "step-2")].flatMap
      fun (outNs, readyNs, key) => [
        { event := .scheduler {
            type := .reqSchedulerOutRpc
            timestampNs := some outNs
            reqIds := ["r"]
            dispatchKey := some key } },
        { event := .scheduler {
            type := .reqStepReady
            timestampNs := some readyNs
            reqIds := ["r"]
            dispatchKey := some key
            phaseByReq := [("r", "prefill")] } }]

/-- Its components add up to twice the window: the second prefill is counted, and the
    wait before it, though both come after the first token. -/
theorem reprefillLog_not_conserved :
    ∃ e, (requestInputs reprefillLog "r").ttftEntry = some e ∧ e.windowNs = 25000000 ∧
      e.componentsNs.values.sum = 50000000 :=
  ⟨_, rfl, by decide, by decide⟩

/-- The log of a pipeline: the components and the condition agree. -/
theorem ttft_conserved_iff_pipeline :
    ∃ e, (requestInputs pipelineLog "r").ttftEntry = some e ∧
      (((∀ v ∈ e.componentsNs.values, 0 ≤ v) ∧ e.componentsNs.values.sum = e.windowNs) ↔
        (requestInputs pipelineLog "r").CountsOnce e.startNs e.endNs) :=
  ⟨_, rfl, ttft_conserved_iff pipelineLog (schedulerInNs_of_times (by decide)) "r" _ rfl⟩

end DeLatency
