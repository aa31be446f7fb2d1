import DeLatency.Spec.OsDelay
import DeLatency.Converter.Log
import Mathlib.Data.Int.LeastGreatest

/-!
# OS delay and the time since boot

Worker spans and eBPF waits are stamped with nanoseconds since boot.  The converter
takes the waits as they stand but reads the spans with `to_ns`, which takes a value of
at most `1e14` for seconds: before `1e5` seconds of uptime, a little over a day, the
windows of a request are moved away from the waits.  `boot_independent_iff` says that
this is the only reason why the latencies depend on when the machine booted.
-/

namespace DeLatency

open Intervals

/-! ## Moving the monotonic clock -/

/-- A worker span, `c` nanoseconds later. -/
def ExecuteModelSpan.addUptime (c : ℤ) (span : ExecuteModelSpan) : ExecuteModelSpan :=
  { span with startNs := span.startNs.map (· + c), endNs := span.endNs.map (· + c) }

/-- An eBPF wait, `c` nanoseconds later. -/
def SchedLatencyEvent.addUptime (c : ℤ) (ev : SchedLatencyEvent) : SchedLatencyEvent :=
  { ev with startNs := ev.startNs.map (· + c), endNs := ev.endNs.map (· + c) }

/-- The monotonic times of an event, `c` nanoseconds later. -/
def LogEvent.addUptime (c : ℤ) : LogEvent → LogEvent
  | .executeModelSpan ev => .executeModelSpan (ev.addUptime c)
  | .schedLatency ev => .schedLatency (ev.addUptime c)
  | .threadRole ev => .threadRole { ev with monoTimestampNs := ev.monoTimestampNs.map (· + c) }
  | ev => ev

/-- The log of the same run on a machine that booted `c` nanoseconds earlier. -/
def Log.addUptime (c : ℤ) (log : Log) : Log :=
  log.map fun entry => { entry with event := entry.event.addUptime c }

/-- The log with other eBPF waits. -/
def Log.withWaits (waits : List SchedLatencyEvent) (log : Log) : Log :=
  (log.filter fun entry => match entry.event with
    | .schedLatency _ => false
    | _ => true) ++ waits.map fun ev => { event := .schedLatency ev }

/-- The latency map does not depend on when the machine booted. -/
def BootIndependent (log : Log) : Prop :=
  ∀ c > 0, ∀ rid, (reqLatencyMap (log.addUptime c)).get? rid = (reqLatencyMap log).get? rid

/-- Events that are moved one by one. -/
private theorem filterMap_addUptime {β : Type} {pick : LogEntry → Option β} {move : β → β} {c : ℤ}
    (h : ∀ entry, pick { entry with event := entry.event.addUptime c } = (pick entry).map move)
    (log : Log) : (log.addUptime c).filterMap pick = (log.filterMap pick).map move := by
  rw [Log.addUptime, List.filterMap_map, List.map_filterMap]
  exact congrArg (List.filterMap · log) (funext h)

/-- A shifted log has the shifted spans. -/
theorem executeModelSpans_addUptime (c : ℤ) (log : Log) :
    (log.addUptime c).executeModelSpans = log.executeModelSpans.map (·.addUptime c) := by
  apply filterMap_addUptime
  intro entry
  obtain ⟨ts, event⟩ := entry
  cases event with
  | _ => rfl

/-- A shifted log has the shifted waits. -/
theorem ebpfSchedLatencyEvents_addUptime (c : ℤ) (log : Log) :
    (log.addUptime c).ebpfSchedLatencyEvents = log.ebpfSchedLatencyEvents.map (·.addUptime c) := by
  apply filterMap_addUptime
  intro entry
  obtain ⟨ts, event⟩ := entry
  cases event with
  | _ => rfl

/-- Replacing the waits replaces the waits, and nothing else that the stage reads. -/
theorem events_withWaits (waits : List SchedLatencyEvent) (log : Log) :
    (log.withWaits waits).executeModelSpans = log.executeModelSpans ∧
      (log.withWaits waits).ebpfSchedLatencyEvents = waits := by
  induction log with
  | nil =>
    -- the new entries hold no span and all of the waits
    constructor
    · induction waits with
      | nil => rfl
      | cons ev rest ih => exact ih
    · induction waits with
      | nil => rfl
      | cons ev rest ih => exact congrArg (ev :: ·) ih
  | cons entry rest ih =>
    obtain ⟨ts, event⟩ := entry
    cases event with
    | executeModelSpan ev => exact ⟨congrArg (_ :: ·) ih.1, ih.2⟩
    | _ => exact ih

/-! ## Spans that are read as they stand -/

/-- The span times are positive. -/
def PositiveSpans (spans : List ExecuteModelSpan) : Prop :=
  ∀ span ∈ spans, (∀ t ∈ span.startNs, 0 < t) ∧ ∀ t ∈ span.endNs, 0 < t

instance (spans : List ExecuteModelSpan) : Decidable (PositiveSpans spans) :=
  inferInstanceAs (Decidable (∀ span ∈ spans, _ ∧ _))

/-- The wait times are positive. -/
def PositiveWaits (events : List SchedLatencyEvent) : Prop :=
  ∀ ev ∈ events, (∀ t ∈ ev.startNs, 0 < t) ∧ ∀ t ∈ ev.endNs, 0 < t

instance (events : List SchedLatencyEvent) : Decidable (PositiveWaits events) :=
  inferInstanceAs (Decidable (∀ ev ∈ events, _ ∧ _))

/-- Every span with a thread and requests is empty or has times above `1e14`. -/
def SpansReadAsNs (spans : List ExecuteModelSpan) : Prop :=
  ∀ span ∈ spans, span.tid.isSome → span.reqIds ≠ [] →
    ∀ startNs ∈ span.startNs, ∀ endNs ∈ span.endNs, startNs ≠ endNs →
      NsTime startNs ∧ NsTime endNs

instance (spans : List ExecuteModelSpan) : Decidable (SpansReadAsNs spans) :=
  inferInstanceAs (Decidable (∀ span ∈ spans, _ → _))

/-- What the worker hook promises: it reads the clock before and after the step, and a
    native thread id is not `0`. -/
def SpansInOrder (spans : List ExecuteModelSpan) : Prop :=
  ∀ span ∈ spans, span.tid ≠ some 0 ∧
    ∀ startNs ∈ span.startNs, ∀ endNs ∈ span.endNs, startNs ≤ endNs

instance (spans : List ExecuteModelSpan) : Decidable (SpansInOrder spans) :=
  inferInstanceAs (Decidable (∀ span ∈ spans, _ ∧ _))

/-- A kept span, `c` nanoseconds later. -/
def WorkerSpan.addUptime (c : ℤ) (s : WorkerSpan) : WorkerSpan :=
  { s with startNs := s.startNs + c, endNs := s.endNs + c }

/-- A kept wait, `c` nanoseconds later. -/
def OsWait.addUptime (c : ℤ) (w : OsWait) : OsWait :=
  { w with startNs := w.startNs + c, endNs := w.endNs + c }

variable {c : ℤ}

/-- The loop keeps a span with its times as they are read. -/
theorem workerSpan_eq {tid startNs endNs : ℤ} {reqIds : List String} {ranks : Ranks}
    (hstart : 0 < startNs) (hend : 0 < endNs) :
    workerSpan ⟨some tid, some startNs, some endNs, reqIds, ranks⟩ =
      if readNs endNs ≤ readNs startNs ∨ reqIds = [] then none
      else some ⟨workerGroupKey ranks tid, tid, readNs startNs, readNs endNs, reqIds⟩ := by
  simp only [workerSpan, Option.bind_some, toNsInt_eq_readNs hstart, toNsInt_eq_readNs hend]

/-- A span that is read as it stands is kept later exactly when it is kept now. -/
private theorem workerSpan_addUptime (hc : 0 < c) {span : ExecuteModelSpan}
    (hpos : (∀ t ∈ span.startNs, 0 < t) ∧ ∀ t ∈ span.endNs, 0 < t)
    (hread : span.tid.isSome → span.reqIds ≠ [] → ∀ startNs ∈ span.startNs,
      ∀ endNs ∈ span.endNs, startNs ≠ endNs → NsTime startNs ∧ NsTime endNs) :
    workerSpan (span.addUptime c) = (workerSpan span).map (WorkerSpan.addUptime c) := by
  obtain ⟨tid, startNs, endNs, reqIds, ranks⟩ := span
  cases tid with
  | none => rfl
  | some tid =>
    cases startNs with
    | none => rfl
    | some startNs =>
      have hstart : 0 < startNs := hpos.1 startNs rfl
      cases endNs with
      | none =>
        simp only [workerSpan, ExecuteModelSpan.addUptime, Option.map_some, Option.map_none,
          Option.bind_some, Option.bind_none, toNsInt_eq_readNs hstart,
          toNsInt_eq_readNs (show 0 < startNs + c by omega)]
      | some endNs =>
        have hend : 0 < endNs := hpos.2 endNs rfl
        show workerSpan ⟨some tid, some (startNs + c), some (endNs + c), reqIds, ranks⟩ = _
        rw [workerSpan_eq (by omega) (by omega), workerSpan_eq hstart hend]
        by_cases hreqs : reqIds = []
        · -- a span without requests is never kept
          rw [if_pos (.inr hreqs), if_pos (.inr hreqs), Option.map_none]
        by_cases hne : startNs = endNs
        · -- an empty span stays empty
          subst hne
          rw [if_pos (.inl le_rfl), if_pos (.inl le_rfl), Option.map_none]
        · -- both times are read as they stand, now and later
          obtain ⟨hs, he⟩ := hread rfl hreqs startNs rfl endNs rfl hne
          rw [hs.readNs, he.readNs, (hs.mono (by omega) : NsTime (startNs + c)).readNs,
            (he.mono (by omega) : NsTime (endNs + c)).readNs]
          by_cases hle : endNs ≤ startNs
          · rw [if_pos (.inl (by omega)), if_pos (.inl hle), Option.map_none]
          · rw [if_neg (not_or.mpr ⟨by omega, hreqs⟩), if_neg (not_or.mpr ⟨hle, hreqs⟩)]
            rfl

/-- A wait is kept later exactly when it is kept now. -/
private theorem osWait_addUptime (hc : 0 < c) {ev : SchedLatencyEvent}
    (hpos : (∀ t ∈ ev.startNs, 0 < t) ∧ ∀ t ∈ ev.endNs, 0 < t) :
    osWait (ev.addUptime c) = (osWait ev).map fun e => (e.1, e.2.addUptime c) := by
  obtain ⟨tid, startNs, endNs, reason⟩ := ev
  cases tid with
  | none => rfl
  | some tid =>
    cases startNs with
    | none => rfl
    | some startNs =>
      have hstart : 0 < startNs := hpos.1 startNs rfl
      cases endNs with
      | none => rfl
      | some endNs =>
        have hend : 0 < endNs := hpos.2 endNs rfl
        simp only [osWait, SchedLatencyEvent.addUptime, Option.map_some]
        by_cases htid : tid = 0
        · simp only [htid, ne_eq, not_true_eq_false, false_and, if_false, Option.map_none]
        · -- the check for zero never fails on positive times
          rw [if_pos ⟨htid, by omega, by omega⟩, if_pos ⟨htid, by omega, by omega⟩, Option.map_some]
          simp only [OsWait.addUptime, add_sub_add_right_eq_sub]

/-! ## Moving the overlaps -/

section Shift

variable {spans : List WorkerSpan} {events : List SchedLatencyEvent} {group : WorkerGroup}
  {rid : String} {x : ℤ}

/-- The instants of the windows move with the log. -/
theorem mem_cells_groupWindows_addUptime :
    x + c ∈ cells (groupWindows (spans.map (·.addUptime c)) group rid) ↔
      x ∈ cells (groupWindows spans group rid) := by
  simp only [mem_cells, mem_groupWindows, List.mem_map]
  -- each shifted window covers the shifted instants
  constructor
  · intro h
    obtain ⟨_, ⟨_, ⟨s, hs, rfl⟩, hgroup, hrid, rfl⟩, hx⟩ := h
    refine ⟨s.window, ⟨s, hs, hgroup, hrid, rfl⟩, ?_⟩
    simp only [WorkerSpan.window, WorkerSpan.addUptime] at hx ⊢
    omega
  · intro h
    obtain ⟨_, ⟨s, hs, hgroup, hrid, rfl⟩, hx⟩ := h
    refine ⟨(s.addUptime c).window, ⟨_, ⟨s, hs, rfl⟩, hgroup, hrid, rfl⟩, ?_⟩
    simp only [WorkerSpan.window, WorkerSpan.addUptime] at hx ⊢
    omega

/-- The instants of the waits move with the log. -/
theorem mem_cells_groupWaits_addUptime (hc : 0 < c) (hpos : PositiveWaits events) :
    x + c ∈ cells (groupWaits (spans.map (·.addUptime c)) (events.map (·.addUptime c)) group) ↔
      x ∈ cells (groupWaits spans events group) := by
  simp only [mem_cells, mem_groupWaits, List.mem_map, List.mem_filterMap]
  constructor
  · intro h
    obtain ⟨_, ⟨_, ⟨s, hs, rfl⟩, hgroup, w, ⟨_, ⟨ev, hev, rfl⟩, hw⟩, rfl⟩, hx⟩ := h
    -- the later wait is a wait of now, moved
    rw [osWait_addUptime hc (hpos ev hev)] at hw
    obtain ⟨⟨tid, w'⟩, hw', heq⟩ := Option.map_eq_some_iff.mp hw
    cases heq
    refine ⟨w'.span, ⟨s, hs, hgroup, w', ⟨ev, hev, hw'⟩, rfl⟩, ?_⟩
    simp only [OsWait.span, OsWait.addUptime] at hx ⊢
    omega
  · intro h
    obtain ⟨_, ⟨s, hs, hgroup, w, ⟨ev, hev, hw⟩, rfl⟩, hx⟩ := h
    have hlater : osWait (ev.addUptime c) = some (s.tid, w.addUptime c) := by
      rw [osWait_addUptime hc (hpos ev hev), hw, Option.map_some]
    refine ⟨(w.addUptime c).span, ⟨_, ⟨s, hs, rfl⟩, hgroup, w.addUptime c,
      ⟨_, ⟨ev, hev, rfl⟩, hlater⟩, rfl⟩, ?_⟩
    simp only [OsWait.span, OsWait.addUptime] at hx ⊢
    omega

end Shift

variable {spans : List ExecuteModelSpan} {events : List SchedLatencyEvent} {rid : String}

/-- When the spans are read as they stand, the overlaps move with the clock. -/
theorem overlapCells_addUptime (hc : 0 < c) (hspans : PositiveSpans spans)
    (hwaits : PositiveWaits events) (hread : SpansReadAsNs spans) (rid : String) :
    overlapCells (spans.map (·.addUptime c)) (events.map (·.addUptime c)) rid =
      (overlapCells spans events rid).map (addRightEmbedding c) := by
  have hkept : (spans.map (·.addUptime c)).filterMap workerSpan =
      (spans.filterMap workerSpan).map (·.addUptime c) := by
    rw [List.filterMap_map, List.map_filterMap]
    apply List.filterMap_congr
    intro span hspan
    exact workerSpan_addUptime hc (hspans span hspan) (hread span hspan)
  ext y
  rw [Finset.mem_map]
  simp only [overlapCells, hkept, mem_cells_rawReqOsIntervals, addRightEmbedding_apply]
  constructor
  · intro h
    obtain ⟨group, hwindow, hwait⟩ := h
    -- `y` is some time `c` later
    rw [← sub_add_cancel y c] at hwindow hwait
    rw [mem_cells_groupWindows_addUptime] at hwindow
    rw [mem_cells_groupWaits_addUptime hc hwaits] at hwait
    exact ⟨y - c, ⟨group, hwindow, hwait⟩, sub_add_cancel y c⟩
  · intro h
    obtain ⟨x, ⟨group, hwindow, hwait⟩, rfl⟩ := h
    rw [← mem_cells_groupWindows_addUptime] at hwindow
    rw [← mem_cells_groupWaits_addUptime hc hwaits] at hwait
    exact ⟨group, hwindow, hwait⟩

/-- Spans that are read as they stand make the latencies independent of the uptime. -/
theorem bootIndependent_of_readAsNs {log : Log} (hspans : PositiveSpans log.executeModelSpans)
    (hwaits : PositiveWaits log.ebpfSchedLatencyEvents)
    (hread : SpansReadAsNs log.executeModelSpans) : BootIndependent log := by
  intro c hc rid
  rw [reqLatencyMap, reqLatencyMap, executeModelSpans_addUptime, ebpfSchedLatencyEvents_addUptime,
    get?_reqLatencyOf, get?_reqLatencyOf, overlapCells_addUptime hc hspans hwaits hread,
    Finset.card_map]

/-! ## A wait that is lost -/

/-- The unit wait at one instant. -/
def unitWait (tid startNs : ℤ) : SchedLatencyEvent where
  tid := some tid
  startNs := some startNs
  endNs := some (startNs + 1)

/-- The times of a kept span, before they are read. -/
theorem exists_times_of_workerSpan {span : ExecuteModelSpan}
    (hpos : (∀ t ∈ span.startNs, 0 < t) ∧ ∀ t ∈ span.endNs, 0 < t) {s : WorkerSpan}
    (h : workerSpan span = some s) :
    ∃ startNs endNs, span.tid = some s.tid ∧ span.startNs = some startNs ∧
      span.endNs = some endNs ∧ s.startNs = readNs startNs ∧ s.endNs = readNs endNs ∧
      s.startNs < s.endNs ∧ span.reqIds ≠ [] := by
  obtain ⟨tid, startNs, endNs, reqIds, ranks⟩ := span
  cases tid with
  | none => cases h
  | some tid =>
    cases startNs with
    | none => cases h
    | some startNs =>
      have hstart : 0 < startNs := hpos.1 startNs rfl
      cases endNs with
      | none =>
        simp only [workerSpan, Option.bind_some, Option.bind_none, toNsInt_eq_readNs hstart] at h
        cases h
      | some endNs =>
        rw [workerSpan_eq hstart (hpos.2 endNs rfl)] at h
        split at h
        · cases h
        · -- the span is kept: it takes time and names a request
          next hkeep =>
          rw [not_or, not_le] at hkeep
          cases h
          exact ⟨startNs, endNs, rfl, rfl, rfl, rfl, rfl, hkeep.1, hkeep.2⟩

/-- A time that is read as seconds is moved past every earlier one. -/
theorem lt_readNs {t first : ℤ} (ht : 0 < t) (hle : first ≤ t) (hfirst : first ≤ 10 ^ 14) :
    first < readNs t := by
  by_cases hsec : t ≤ 10 ^ 14
  · have hlt : t < readNs t := lt_of_toNsInt_of_le (toNsInt_eq_readNs ht) hsec
    omega
  · have hns : NsTime t := not_le.mp hsec
    rw [hns.readNs]
    omega

/-- Read as seconds, every span starts after the earliest start there is. -/
theorem overlapCells_unitWait_eq_empty (hspans : PositiveSpans spans) (horder : SpansInOrder spans)
    {tid first : ℤ} (hfirst : first ≤ 10 ^ 14)
    (hleast : ∀ span ∈ spans, ∀ t window, Executes span t window → first ≤ window.1) :
    overlapCells spans [unitWait tid first] rid = ∅ := by
  rw [Finset.eq_empty_iff_forall_notMem]
  intro x hx
  obtain ⟨group, hwindow, hwait⟩ := mem_cells_rawReqOsIntervals.mp hx
  obtain ⟨p, hp, hpx⟩ := mem_cells.mp hwindow
  obtain ⟨q, hq, hqx⟩ := mem_cells.mp hwait
  obtain ⟨s, hs, -, -, rfl⟩ := mem_groupWindows.mp hp
  obtain ⟨span, hspan, hkeep⟩ := List.mem_filterMap.mp hs
  obtain ⟨startNs, endNs, htid, hstart, hend, hs1, hs2, hlt, hreqs⟩ :=
    exists_times_of_workerSpan (hspans span hspan) hkeep
  -- the wait is the unit at `first`
  have hat : x = first := by
    obtain ⟨_, _, _, w, hw, rfl⟩ := mem_groupWaits.mp hq
    obtain ⟨ev, hev, hw⟩ := List.mem_filterMap.mp hw
    rw [List.mem_singleton] at hev
    subst hev
    simp only [osWait, unitWait] at hw
    split at hw
    · cases hw
      have h1 : first ≤ x := hqx.1
      have h2 : x < first + 1 := hqx.2
      omega
    · cases hw
  have hle : startNs ≤ endNs := (horder span hspan).2 startNs hstart endNs hend
  have hne : startNs ≠ endNs := by
    intro heq
    rw [hs1, hs2, heq] at hlt
    omega
  have hleast' : first ≤ startNs :=
    hleast span hspan s.tid (startNs, endNs) ⟨htid, hstart, hend, lt_of_le_of_ne hle hne, hreqs⟩
  -- the window is read to start after `first`, so it does not contain `x`
  have hmoved := lt_readNs ((hspans span hspan).1 startNs hstart) hleast' hfirst
  have hstartx : s.startNs ≤ x := hpx.1
  omega

/-- Once the machine has been up for long enough, the unit at the start of a window of
    the thread itself is charged to each of its requests. -/
theorem mem_overlapCells_unitWait {span : ExecuteModelSpan} (hspan : span ∈ spans) {tid : ℤ}
    (htid : tid ≠ 0) {window : ℤ × ℤ} (hex : Executes span tid window) (hpos : 0 < window.1)
    (hrid : rid ∈ span.reqIds) :
    window.1 + 10 ^ 14 ∈ overlapCells (spans.map (·.addUptime (10 ^ 14)))
      ([unitWait tid window.1].map (·.addUptime (10 ^ 14))) rid := by
  have hlt := hex.lt
  -- a day and more after boot all times are read as they stand
  have hs : NsTime (window.1 + 10 ^ 14) := by unfold NsTime; omega
  have he : NsTime (window.2 + 10 ^ 14) := hs.mono (by omega)
  have hkeep : workerSpan (span.addUptime (10 ^ 14)) = some ⟨workerGroupKey span.ranks tid, tid,
      window.1 + 10 ^ 14, window.2 + 10 ^ 14, span.reqIds⟩ := by
    refine (workerSpan_eq_some ?_ ?_).mpr
      ⟨⟨hex.tid_eq, ?_, ?_, add_lt_add_left hlt _, hex.reqIds_ne⟩, rfl, rfl⟩
    · intro t ht
      simp only [ExecuteModelSpan.addUptime, hex.start_eq, Option.map_some, Option.mem_def,
        Option.some.injEq] at ht
      exact ht ▸ hs
    · intro t ht
      simp only [ExecuteModelSpan.addUptime, hex.end_eq, Option.map_some, Option.mem_def,
        Option.some.injEq] at ht
      exact ht ▸ he
    · simp only [ExecuteModelSpan.addUptime, hex.start_eq, Option.map_some, WorkerSpan.window]
    · simp only [ExecuteModelSpan.addUptime, hex.end_eq, Option.map_some, WorkerSpan.window]
  have hmem : ⟨workerGroupKey span.ranks tid, tid, window.1 + 10 ^ 14, window.2 + 10 ^ 14,
      span.reqIds⟩ ∈ (spans.map (·.addUptime (10 ^ 14))).filterMap workerSpan :=
    List.mem_filterMap.mpr ⟨_, List.mem_map.mpr ⟨span, hspan, rfl⟩, hkeep⟩
  refine mem_cells_rawReqOsIntervals.mpr ⟨workerGroupKey span.ranks tid, ?_, ?_⟩
  · -- the request executes there
    refine mem_cells.mpr ⟨_, mem_groupWindows.mpr ⟨_, hmem, rfl, hrid, rfl⟩, le_rfl, ?_⟩
    show window.1 + 10 ^ 14 < window.2 + 10 ^ 14
    omega
  · -- and the worker waits there
    have hwait : osWait ((unitWait tid window.1).addUptime (10 ^ 14)) =
        some (tid, ⟨window.1 + 10 ^ 14, window.1 + 1 + 10 ^ 14, 1, none⟩) := by
      simp only [osWait, SchedLatencyEvent.addUptime, unitWait, Option.map_some]
      rw [if_pos ⟨htid, by omega, by omega⟩, add_sub_add_right_eq_sub, add_sub_cancel_left]
    refine mem_cells.mpr ⟨_, mem_groupWaits.mpr ⟨_, hmem, rfl, _, List.mem_filterMap.mpr
      ⟨_, List.mem_singleton.mpr rfl, hwait⟩, rfl⟩, le_rfl, ?_⟩
    show window.1 + 10 ^ 14 < window.1 + 1 + 10 ^ 14
    omega

/-- Among the spans that execute there is one that starts first. -/
private theorem exists_earliest (hspans : PositiveSpans spans) {span : ExecuteModelSpan}
    (hspan : span ∈ spans) {tid : ℤ} {window : ℤ × ℤ} (hex : Executes span tid window) :
    ∃ sp ∈ spans, ∃ t w, Executes sp t w ∧ w.1 ≤ window.1 ∧
      ∀ sp' ∈ spans, ∀ t' w', Executes sp' t' w' → w.1 ≤ w'.1 := by
  -- starts are positive, so there is a least one
  have hbound : ∀ z, (∃ sp ∈ spans, ∃ t w, Executes sp t w ∧ w.1 = z) → 0 ≤ z := by
    intro z hz
    obtain ⟨sp, hsp, t, w, hex', rfl⟩ := hz
    exact ((hspans sp hsp).1 w.1 hex'.start_eq).le
  obtain ⟨first, ⟨sp, hsp, t, w, hex', rfl⟩, hleast⟩ :=
    Int.exists_least_of_bdd ⟨0, hbound⟩ ⟨window.1, span, hspan, tid, window, hex, rfl⟩
  exact ⟨sp, hsp, t, w, hex', hleast window.1 ⟨span, hspan, tid, window, hex, rfl⟩,
    fun sp' hsp' t' w' h => hleast w'.1 ⟨sp', hsp', t', w', h, rfl⟩⟩

/-- If the latencies are independent of the uptime whatever the waits are, the spans
    are read as they stand. -/
theorem readAsNs_of_bootIndependent {log : Log} (hspans : PositiveSpans log.executeModelSpans)
    (horder : SpansInOrder log.executeModelSpans)
    (h : ∀ waits, PositiveWaits waits → BootIndependent (log.withWaits waits)) :
    SpansReadAsNs log.executeModelSpans := by
  intro span hspan htid hreqs startNs hstart endNs hend hne
  by_contra hsec
  have hlt : startNs < endNs :=
    lt_of_le_of_ne ((horder span hspan).2 startNs hstart endNs hend) hne
  have hstart14 : startNs ≤ 10 ^ 14 := by
    by_contra hns
    have hns : NsTime startNs := not_le.mp hns
    exact hsec ⟨hns, hns.mono hlt.le⟩
  obtain ⟨tid, htid⟩ := Option.isSome_iff_exists.mp htid
  -- the first span starts in seconds too
  have hex : Executes span tid (startNs, endNs) := ⟨htid, hstart, hend, hlt, hreqs⟩
  obtain ⟨sp, hsp, t, w, hex, hle, hleast⟩ := exists_earliest hspans hspan hex
  have hpos : 0 < w.1 := (hspans sp hsp).1 w.1 hex.start_eq
  have hfirst : w.1 ≤ 10 ^ 14 := hle.trans hstart14
  obtain ⟨rid, hrid⟩ := List.exists_mem_of_ne_nil sp.reqIds hex.reqIds_ne
  have ht : t ≠ 0 := by
    intro hzero
    exact (horder sp hsp).1 (hzero ▸ hex.tid_eq)
  -- one unit of waiting at its start is charged only after the machine has been up longer
  have hwaits : PositiveWaits [unitWait t w.1] := by
    intro ev hev
    rw [List.mem_singleton] at hev
    subst hev
    refine ⟨fun u hu => ?_, fun u hu => ?_⟩
    · cases hu; exact hpos
    · cases hu; omega
  have hlaw := h _ hwaits (10 ^ 14) (by omega) rid
  obtain ⟨hsp', hev'⟩ := events_withWaits [unitWait t w.1] log
  rw [reqLatencyMap, reqLatencyMap, executeModelSpans_addUptime, ebpfSchedLatencyEvents_addUptime,
    hsp', hev', get?_reqLatencyOf, get?_reqLatencyOf,
    overlapCells_unitWait_eq_empty hspans horder hfirst hleast,
    if_pos (Finset.card_pos.mpr ⟨_, mem_overlapCells_unitWait hsp ht hex hpos hrid⟩)] at hlaw
  simp only [Finset.card_empty, lt_self_iff_false, if_false, reduceCtorEq] at hlaw

/-- In every log whose spans are empty or have times above `1e14`, the latencies do not
    depend on when the machine booted; and with any other spans, as the worker hook emits
    them, they do for some waits. -/
theorem boot_independent_iff (log : Log) (hspans : PositiveSpans log.executeModelSpans)
    (hwaits : PositiveWaits log.ebpfSchedLatencyEvents) :
    (SpansReadAsNs log.executeModelSpans → BootIndependent log) ∧
      (SpansInOrder log.executeModelSpans →
        ((∀ waits, PositiveWaits waits → BootIndependent (log.withWaits waits)) ↔
          SpansReadAsNs log.executeModelSpans)) := by
  refine ⟨bootIndependent_of_readAsNs hspans hwaits, fun horder =>
    ⟨readAsNs_of_bootIndependent hspans horder, fun hread waits hpos => ?_⟩⟩
  obtain ⟨hsp, hev⟩ := events_withWaits waits log
  exact bootIndependent_of_readAsNs (by rwa [hsp]) (by rwa [hev]) (by rwa [hsp])

/-- One step of one worker, and a wait inside it, at a given time since boot. -/
def uptimeLog (bootNs : ℤ) : Log := [
  { event := .executeModelSpan {
      tid := some 11
      startNs := some (bootNs + 1000)
      endNs := some (bootNs + 9000)
      reqIds := ["r"]
      ranks := { dp := some (.int 0) } } },
  { event := .schedLatency {
      tid := some 11
      startNs := some (bootNs + 2000)
      endNs := some (bootNs + 8000)
      reason := some "preempt" } }]

/-- A log read in nanoseconds does not depend on the boot time. -/
theorem boot_independent_iff_uptime :
    BootIndependent (uptimeLog 200000000000000) ∧
      ((∀ waits, PositiveWaits waits →
          BootIndependent (Log.withWaits waits (uptimeLog 200000000000000))) ↔
        SpansReadAsNs (uptimeLog 200000000000000).executeModelSpans) :=
  have h := boot_independent_iff (uptimeLog 200000000000000) (by decide) (by decide)
  ⟨h.1 (by decide), h.2 (by decide)⟩

/-- After fourteen hours of uptime the wait is not charged. -/
theorem uptimeLog_not_bootIndependent : ¬BootIndependent (uptimeLog 50000000000000) := by
  intro h
  have hlaw := h 100000000000000 (by decide) "r"
  revert hlaw
  decide

end DeLatency
