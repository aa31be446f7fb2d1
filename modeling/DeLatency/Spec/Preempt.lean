import DeLatency.Spec.EngineEvents
import DeLatency.Spec.Queue

/-!
# Preempt waits

A gap between two dispatches is classified by comparing the preempt times of the
request with the ends of the gap.  The dispatches are on the wall clock, the
engine-core events on the monotonic clock, and the comparison uses both as they
stand; moreover an update is read only up to its first dequeue event
(`mem_reqPreemptTsByReq`).  `preempt_classified_iff` states what follows: where the
two clocks are far apart, as they are on a machine that knows the date, the
classification is right exactly for requests that were not preempted in any gap.
-/

namespace DeLatency

/-! ## The preempt events of a request -/

/-- The updates of a request, over all messages. -/
def requestUpdates (log : Log) (rid : String) : List MetricsUpdate :=
  (log.reqMetricEvents.flatMap (·.reqEvents)).filter (·.reqId = some rid)

/-- The monotonic times of all preempt events recorded for a request. -/
def recordedPreempts (log : Log) (rid : String) : List ℤ :=
  (requestUpdates log rid).flatMap fun update => preemptTimes update.events

/-- Those that come before the first dequeue event of their update. -/
def visiblePreempts (log : Log) (rid : String) : List ℤ :=
  (requestUpdates log rid).flatMap fun update =>
    preemptTimes (update.events.takeWhile fun ev => normalizeReqEventType ev.type ≠ some .dequeue)

/-! ## What the extraction loop collects -/

/-- A normalised request id is not blank. -/
theorem normalizeRequestId_ne_blank {raw rid : String} (h : normalizeRequestId raw = some rid) :
    rid ≠ "" := by
  unfold normalizeRequestId at h
  simp only at h
  split at h
  · cases h
  · next hne => cases h; exact hne

/-- The updates of a log carry normalised request ids. -/
private theorem reqId_ne_blank {log : Log} {item : ReqMetricEvent}
    (hitem : item ∈ log.reqMetricEvents) {update : MetricsUpdate}
    (hu : update ∈ item.reqEvents) : update.reqId ≠ some "" := by
  obtain ⟨entry, -, hmatch⟩ := List.mem_filterMap.mp hitem
  cases hevent : entry.event with
  | reqMetrics reqEvents =>
    simp only [hevent] at hmatch
    cases hmatch
    -- the id was normalised on reading, which never leaves a blank text
    obtain ⟨raw, -, rfl⟩ := List.mem_map.mp hu
    intro h
    obtain ⟨r, -, hr⟩ := Option.bind_eq_some_iff.mp h
    exact normalizeRequestId_ne_blank hr rfl
  | _ => simp only [hevent] at hmatch; cases hmatch

/-- The converter's preempt times of a request are the visible ones. -/
theorem mem_reqPreemptTsByReq {log : Log} {rid : String} {t : ℤ} :
    t ∈ reqPreemptTsByReq log rid ↔ t ∈ visiblePreempts log rid := by
  -- the ids are not blank, and the sort by batch time keeps the messages
  have hupdates : ∀ update, update ∈ updatesOf log.reqMetricEvents rid ↔
      update ∈ requestUpdates log rid := by
    intro update
    simp only [updatesOf, requestUpdates, List.mem_filter, List.mem_flatMap, List.mem_sortBy,
      decide_eq_true_eq]
    apply and_congr_right
    intro hmem
    obtain ⟨item, hitem, hu⟩ := hmem
    have hne := reqId_ne_blank hitem hu
    unfold truthyKey
    cases hreq : update.reqId with
    | none => simp
    | some r =>
      have hr : r ≠ "" := fun h => hne (h ▸ hreq)
      simp [Option.filter_some, hr]
  rw [reqPreemptTsByReq, extractEngineHints_apply, visiblePreempts]
  simp only [List.mem_flatMap, hupdates]
  rfl

/-! ## The classification -/

/-- Some of the times, moved by `offset`, lies in the stretch. -/
def HitsGap (times : List ℤ) (offset : ℤ) (gap : ℤ × ℤ) : Prop :=
  ∃ t ∈ times, gap.1 ≤ t + offset ∧ t + offset ≤ gap.2

instance (times : List ℤ) (offset : ℤ) (gap : ℤ × ℤ) : Decidable (HitsGap times offset gap) :=
  inferInstanceAs (Decidable (∃ t ∈ times, _))

/-- A positive gap between consecutive dispatches gets a slice of kind preempt wait
    exactly when a recorded preempt event happened inside the gap, wall time being
    monotonic time plus `offset`. -/
def PreemptClassified (log : Log) (rid : String) (offset : ℤ) : Prop :=
  ∀ gap ∈ Intervals.gaps (sortedWindows (reqDispatchIntervals log rid)),
    (∃ q ∈ queueIntervals log rid, q.scheduledFrom = .stepReady ∧ q.span = readSpan gap ∧
      q.gapKind = .preemptWait) ↔ HitsGap (recordedPreempts log rid) offset gap

instance (log : Log) (rid : String) (offset : ℤ) : Decidable (PreemptClassified log rid offset) :=
  inferInstanceAs (Decidable (∀ gap ∈ _, _ ↔ _))

/-- A step-ready slice is a preempt wait when a visible time, as it stands, hits it. -/
private theorem gapKind_of_mem {dispatches : List DispatchInterval} {preemptTs : List ℤ}
    {enqueueTs : Option ℤ} (hpos : ∀ d ∈ dispatches, 0 < d.startNs ∧ d.startNs < d.endNs)
    {q : QueueInterval} (hq : q ∈ (buildQueue enqueueTs preemptTs dispatches).intervals)
    (hfrom : q.scheduledFrom = .stepReady) :
    q.gapKind = .preemptWait ↔ HitsGap preemptTs 0 q.span := by
  rw [buildQueue_intervals hpos, List.mem_append] at hq
  obtain hq | hq := hq
  · -- the slice from the enqueue is not a step-ready slice
    rw [(mem_enqueueSlice hq).1] at hfrom
    cases hfrom
  · obtain ⟨pr, -, rfl⟩ := List.mem_map.mp hq
    have hhits : preemptHits preemptTs (readNs pr.1.endNs) (readNs pr.2.startNs) ≠ [] ↔
        HitsGap preemptTs 0 (gapSlice preemptTs pr).span := by
      rw [preemptHits, ne_eq, List.filter_eq_nil_iff]
      simp [HitsGap, QueueInterval.span, gapSlice]
    rw [← hhits]
    simp only [gapSlice]
    split
    · next h => simp [h]
    · next h => simp [h]

/-- A gap gets a preempt-wait slice when, as it is read, it is positive and a visible
    time hits it as it stands. -/
private theorem exists_preemptWait_iff (log : Log) (rid : String) {gap : ℤ × ℤ}
    (hgap : gap ∈ Intervals.gaps (sortedWindows (reqDispatchIntervals log rid))) :
    (∃ q ∈ queueIntervals log rid, q.scheduledFrom = .stepReady ∧ q.span = readSpan gap ∧
      q.gapKind = .preemptWait) ↔
      (readSpan gap).1 < (readSpan gap).2 ∧ HitsGap (visiblePreempts log rid) 0 (readSpan gap) := by
  have hpos : ∀ d ∈ reqDispatchIntervals log rid, 0 < d.startNs ∧ d.startNs < d.endNs :=
    fun _ hmem => pos_of_mem_dispatches hmem
  have hvisible : ∀ g, HitsGap (reqPreemptTsByReq log rid) 0 g ↔
      HitsGap (visiblePreempts log rid) 0 g := fun g => by
    simp only [HitsGap, mem_reqPreemptTsByReq]
  have hspans : ((queueIntervals log rid).filter (·.scheduledFrom = .stepReady)).map
      QueueInterval.span = Intervals.gaps (readWindows (reqDispatchIntervals log rid)) :=
    stepReady_spans hpos
  rw [← hvisible]
  constructor
  · -- the span of a slice is a gap as it is read, hence positive
    intro h
    obtain ⟨q, hq, hfrom, hspan, hkind⟩ := h
    have hread : q.span ∈ Intervals.gaps (readWindows (reqDispatchIntervals log rid)) := by
      rw [← hspans]
      exact List.mem_map.mpr ⟨q, List.mem_filter.mpr ⟨hq, by simpa using hfrom⟩, rfl⟩
    rw [← hspan]
    exact ⟨Intervals.gaps_pos hread, (gapKind_of_mem hpos hq hfrom).mp hkind⟩
  · -- a gap that is positive as it is read has a slice
    intro h
    obtain ⟨hlt, hhits⟩ := h
    obtain ⟨before, p, p', after, heq, -, rfl⟩ := Intervals.mem_gaps.mp hgap
    have hread : readSpan (p.2, p'.1) ∈
        Intervals.gaps (readWindows (reqDispatchIntervals log rid)) :=
      mem_gaps_readWindows.mpr ⟨before, p, p', after, heq, hlt, rfl⟩
    rw [← hspans] at hread
    obtain ⟨q, hq, hspan⟩ := List.mem_map.mp hread
    obtain ⟨hq, hfrom⟩ := List.mem_filter.mp hq
    rw [decide_eq_true_eq] at hfrom
    rw [← hspan] at hhits
    exact ⟨q, hq, hfrom, hspan, (gapKind_of_mem hpos hq hfrom).mpr hhits⟩

/-- A visible preempt event is a recorded one. -/
theorem visiblePreempts_subset (log : Log) (rid : String) :
    visiblePreempts log rid ⊆ recordedPreempts log rid := by
  intro t ht
  obtain ⟨update, hupdate, ht⟩ := List.mem_flatMap.mp ht
  refine List.mem_flatMap.mpr ⟨update, hupdate, ?_⟩
  -- the loop has seen only the first events of the update
  exact (((List.takeWhile_sublist _).filter _).filterMap _).subset ht

/-- The gap, as it is read, has a visible monotonic time in it, taken as it stands. -/
def SeesPreempt (log : Log) (rid : String) (gap : ℤ × ℤ) : Prop :=
  (readSpan gap).1 < (readSpan gap).2 ∧ HitsGap (visiblePreempts log rid) 0 (readSpan gap)

instance (log : Log) (rid : String) (gap : ℤ × ℤ) : Decidable (SeesPreempt log rid gap) :=
  inferInstanceAs (Decidable (_ ∧ _))

/-- The monotonic times of the preempt events, taken as they stand, are before every gap: they
    count from the boot of the machine, and the gaps from 1970. -/
def PreemptsBeforeGaps (log : Log) (rid : String) : Prop :=
  ∀ gap ∈ Intervals.gaps (sortedWindows (reqDispatchIntervals log rid)),
    ∀ t ∈ recordedPreempts log rid, t < (readSpan gap).1

instance (log : Log) (rid : String) : Decidable (PreemptsBeforeGaps log rid) :=
  inferInstanceAs (Decidable (∀ gap ∈ _, _))

/-- With the clocks that far apart no gap is ever seen to have a preempt event. -/
theorem PreemptsBeforeGaps.not_seesPreempt {log : Log} {rid : String}
    (h : PreemptsBeforeGaps log rid) {gap : ℤ × ℤ}
    (hgap : gap ∈ Intervals.gaps (sortedWindows (reqDispatchIntervals log rid))) :
    ¬SeesPreempt log rid gap := by
  intro hsees
  obtain ⟨-, t, ht, hle, -⟩ := hsees
  have hlt := h gap hgap t (visiblePreempts_subset log rid ht)
  omega

/-- Where the monotonic times are before every gap, the gaps of a request are classified rightly
    exactly when no recorded preempt event happened in any of them: all waits are taken for
    normal ones.  In any log, they are when no gap with a preempt event misses being seen to have
    one, and none without is seen to have one. -/
theorem preempt_classified_iff (log : Log) (rid : String) (offset : ℤ) :
    (PreemptsBeforeGaps log rid → (PreemptClassified log rid offset ↔
      ∀ gap ∈ Intervals.gaps (sortedWindows (reqDispatchIntervals log rid)),
        ∀ t ∈ recordedPreempts log rid, ¬(gap.1 ≤ t + offset ∧ t + offset ≤ gap.2))) ∧
    (PreemptClassified log rid offset ↔
      ∀ gap ∈ Intervals.gaps (sortedWindows (reqDispatchIntervals log rid)),
        (∀ t ∈ recordedPreempts log rid, gap.1 ≤ t + offset → t + offset ≤ gap.2 →
          SeesPreempt log rid gap) ∧
        (SeesPreempt log rid gap → HitsGap (recordedPreempts log rid) offset gap)) := by
  have hsees : PreemptClassified log rid offset ↔
      ∀ gap ∈ Intervals.gaps (sortedWindows (reqDispatchIntervals log rid)),
        SeesPreempt log rid gap ↔ HitsGap (recordedPreempts log rid) offset gap := by
    refine forall₂_congr fun gap hgap => ?_
    rw [exists_preemptWait_iff log rid hgap, SeesPreempt]
  refine ⟨fun hbefore => hsees.trans (forall₂_congr fun gap hgap => ?_),
    hsees.trans (forall₂_congr fun gap hgap => ?_)⟩
  · -- nothing is seen, so nothing may have happened
    rw [iff_false_left (hbefore.not_seesPreempt hgap)]
    simp [HitsGap]
  · constructor
    · intro h
      exact ⟨fun t ht hlo hhi => h.mpr ⟨t, ht, hlo, hhi⟩, h.mp⟩
    · intro h
      obtain ⟨hlost, hmadeUp⟩ := h
      refine ⟨hmadeUp, fun hhits => ?_⟩
      obtain ⟨t, ht, hlo, hhi⟩ := hhits
      exact hlost t ht hlo hhi

/-- Two batches of one request and a preempt event between them: `500000` seconds
    after boot, reported by the engine as a float. -/
def preemptedLog : Log := [
  { event := .scheduler {
      type := .reqSchedulerOutRpc
      timestampNs := some 1700000000000000000
      reqIds := ["r"]
      dispatchKey := some "a" } },
  { event := .scheduler {
      type := .reqStepReady
      timestampNs := some 1700000000010000000
      reqIds := ["r"]
      dispatchKey := some "a" } },
  -- the engine's clock counts from boot, the other events from the epoch
  { event := .reqMetrics [{
      reqId := some "r"
      events := [{ type := some "3", ts := .float (.finite 500000 0) }] }]
    timestampNs := some 1700000000035000000 },
  { event := .scheduler {
      type := .reqSchedulerOutRpc
      timestampNs := some 1700000000050000000
      reqIds := ["r"]
      dispatchKey := some "b" } },
  { event := .scheduler {
      type := .reqStepReady
      timestampNs := some 1700000000060000000
      reqIds := ["r"]
      dispatchKey := some "b" } }]

/-- With this offset the preempt event happened after the second batch, and all is well. -/
theorem preempt_classified_iff_preempted :
    PreemptClassified preemptedLog "r" 1699500000070000000 :=
  ((preempt_classified_iff preemptedLog "r" 1699500000070000000).1 (by decide)).mpr (by decide)

/-- With the clocks this far apart the preempt event is inside the gap, and the gap is
    a normal wait. -/
theorem preemptedLog_not_classified :
    ¬PreemptClassified preemptedLog "r" 1699500000030000000 := by decide

end DeLatency
