import DeLatency.Converter.Breakdown
import DeLatency.Spec.PpGap
import DeLatency.Spec.Times

/-!
# The TTFT and TPOT entries

What the two entries of a request are built from (`exists_buildTtft`,
`exists_buildTpot`), and what the breakdown says about them: the phases of each
entry add up to its execution time, and the pipeline gaps of the two entries are
those of the whole request.
-/

namespace DeLatency

open Intervals

/-! ## Folded components -/

section Fold

variable {other : String} {d : Dict String ℤ} {key : String}

/-- Folding a component into another keeps the total. -/
theorem total_foldComponent (into key : String) (d : Dict String ℤ) :
    (foldComponent into key d).total = d.total := by
  unfold foldComponent
  split
  · rw [Dict.total_add, Dict.total_erase_add]
  · rfl

/-- The other components stay. -/
theorem getD_foldComponent {into name : String} (hinto : name ≠ into) (hkey : name ≠ key) :
    (foldComponent into key d).getD name 0 = d.getD name 0 := by
  unfold foldComponent
  split
  · rw [Dict.getD_add, if_neg hinto, Dict.getD_erase_of_ne d hkey]
  · rfl

/-- Folding a component takes its key away. -/
theorem mem_keys_foldComponent {into name : String}
    (h : name ∈ (foldComponent into key d).keys) : name = into ∨ name ∈ d.keys ∧ name ≠ key := by
  unfold foldComponent at h
  split at h
  · exact (Dict.mem_keys_add.mp h).imp_right Dict.mem_keys_erase.mp
  · next hkey => exact .inr ⟨h, fun heq => hkey (heq ▸ h)⟩

/-- Folding makes no component negative. -/
theorem foldComponent_nonneg {into : String} (hinto : into ≠ key)
    (hd : ∀ name, 0 ≤ d.getD name 0) (name : String) :
    0 ≤ (foldComponent into key d).getD name 0 := by
  unfold foldComponent
  split
  · rw [Dict.getD_add]
    split
    · -- the target: its own value and the one moved into it
      rw [Dict.getD_erase_of_ne d hinto]
      exact add_nonneg (hd into) (hd key)
    · by_cases hname : name = key
      · -- the source is gone and reads as zero
        have habsent : name ∉ (d.erase key).keys := fun h => (Dict.mem_keys_erase.mp h).2 hname
        rw [Dict.getD_of_notMem_keys habsent]
      · rw [Dict.getD_erase_of_ne d hname]
        exact hd name
  · exact hd name

variable {breakdown : PpGapBreakdown}

/-- Folding keeps the total. -/
theorem total_execPhaseNs (other : String) (breakdown : PpGapBreakdown) :
    (execPhaseNs other breakdown).total = breakdown.wallComponentsNs.total := by
  rw [execPhaseNs, total_foldComponent, total_foldComponent, Dict.total_addAll, Dict.total_empty,
    zero_add]
  rfl

/-- Components that are not folded keep their value. -/
theorem getD_execPhaseNs {name : String} (hother : name ≠ other) (hcompute : name ≠ "other_compute")
    (hgap : name ≠ "pipeline_gap") :
    (execPhaseNs other breakdown).getD name 0 = breakdown.wallComponentsNs.getD name 0 := by
  rw [execPhaseNs, getD_foldComponent hother hgap, getD_foldComponent hother hcompute,
    Dict.getD_addAll, Dict.sum_entries_of_key, Dict.getD_empty, zero_add]

/-- The phases are the components without the two that are folded or left out. -/
theorem mem_keys_execPhaseNs {name : String} (h : name ∈ (execPhaseNs other breakdown).keys) :
    name = other ∨ name ∈ breakdown.wallComponentsNs.keys ∧ name ≠ "other_compute" ∧
      name ≠ "pipeline_gap" := by
  -- the two folded components leave as keys, and only `other` comes in
  obtain h | ⟨h, hgap⟩ := mem_keys_foldComponent h
  · exact .inl h
  obtain h | ⟨h, hcompute⟩ := mem_keys_foldComponent h
  · exact .inl h
  obtain h | h := Dict.mem_keys_addAll.mp h
  · simp [Dict.keys, Dict.empty] at h
  · exact .inr ⟨h, hcompute, hgap⟩

/-- No phase is negative. -/
theorem execPhaseNs_nonneg (hcompute : other ≠ "other_compute") (hgap : other ≠ "pipeline_gap")
    (h : ∀ name, 0 ≤ breakdown.wallComponentsNs.getD name 0) (name : String) :
    0 ≤ (execPhaseNs other breakdown).getD name 0 := by
  refine foldComponent_nonneg hgap (foldComponent_nonneg hcompute fun name => ?_) name
  rw [Dict.getD_addAll, Dict.sum_entries_of_key, Dict.getD_empty, zero_add]
  exact h name

end Fold

/-! ## Inputs on nanosecond times -/

/-- The dispatches of a request have positive windows between nanosecond times. -/
def RequestInputs.DispatchesInNs (r : RequestInputs) : Prop :=
  ∀ d ∈ r.dispatches, NsSpan d.window ∧ d.startNs < d.endNs

/-- A log in nanoseconds has dispatches in nanoseconds. -/
theorem dispatchesInNs_requestInputs {log : Log} (h : SchedulerInNs log) (rid : String) :
    (requestInputs log rid).DispatchesInNs :=
  fun _ hd => nsSpan_of_mem_dispatches h hd

namespace RequestInputs

variable {r : RequestInputs}

/-- The prefills of the start are dispatches. -/
theorem mem_initialPrefills {d : DispatchInterval} (hd : d ∈ r.initialPrefills) :
    d ∈ r.dispatches := by
  have h := List.mem_of_mem_filter (List.mem_sortBy.mp hd)
  exact List.mem_sortBy.mp ((List.takeWhile_sublist _).subset h)

/-! ## Inversion of the entries -/

/-- What a `ttft` entry is built from. -/
structure TtftParts (r : RequestInputs) (startNs endNs firstPrefillStart lastPrefillEnd : ℤ) :
    Prop where
  lt : startNs < endNs
  first : ∃ d rest, r.initialPrefills = d :: rest ∧ d.startNs = firstPrefillStart
  le_last : ∀ d ∈ r.initialPrefills, d.endNs ≤ lastPrefillEnd
  last : ∃ d ∈ r.initialPrefills, d.endNs = lastPrefillEnd

/-- A `ttft` entry is built from a window and the initial prefills. -/
theorem exists_buildTtft (h : r.DispatchesInNs) {e : TtftEntry} (he : r.ttftEntry = some e) :
    ∃ startNs endNs firstPrefillStart lastPrefillEnd,
      TtftParts r startNs endNs firstPrefillStart lastPrefillEnd ∧
      e = r.buildTtft startNs endNs firstPrefillStart lastPrefillEnd := by
  unfold ttftEntry at he
  split at he
  · next startNs endNs first lastPrefillEnd hstart hend hfirst hlast =>
    split at he
    · next hlt =>
      -- the first start is above the limit of seconds, so `to_ns` keeps it
      have hmem : first ∈ r.initialPrefills := List.mem_of_mem_head? hfirst
      have hns : NsTime first.startNs := (h first (mem_initialPrefills hmem)).1.start
      rw [hns.toNsInt, Option.map_some, Option.some.injEq] at he
      obtain ⟨hlast_mem, hlast_le⟩ := List.max?_eq_some_iff.mp hlast
      refine ⟨startNs, endNs, first.startNs, lastPrefillEnd, ⟨hlt, ?_, ?_, ?_⟩, he.symm⟩
      · obtain ⟨rest, hrest⟩ := List.head?_eq_some_iff.mp hfirst
        exact ⟨first, rest, hrest, rfl⟩
      · intro d hd
        exact hlast_le d.endNs (List.mem_map.mpr ⟨d, hd, rfl⟩)
      · obtain ⟨d, hd, hde⟩ := List.mem_map.mp hlast_mem
        exact ⟨d, hd, hde⟩
    · cases he
  · cases he

/-- A `tpot` entry is built from a `ttft` entry, the last decode end and the last
    consume end. -/
theorem exists_buildTpot {e : TpotEntry} (he : r.tpotEntry = some e) :
    ∃ ttft windowStart execEnd windowEnd, r.ttftEntry = some ttft ∧
      toNsInt ttft.initialPrefillEndNs = some windowStart ∧ windowStart < execEnd ∧
      execEnd ≤ windowEnd ∧ e = r.buildTpot windowStart windowEnd execEnd := by
  obtain ⟨ttft, httft, he⟩ := Option.bind_eq_some_iff.mp he
  unfold tpotEntryAfter at he
  split at he
  · -- no decode dispatch at all
    cases he
  · split at he
    · cases he
    · next windowStart hstart =>
      split at he
      · next execEnd windowEnd hexec hend =>
        split at he
        · next hlt =>
          cases he
          exact ⟨ttft, windowStart, execEnd, windowEnd, httft, hstart, hlt.1, hlt.2, rfl⟩
        · cases he
      · cases he

/-! ## The breakdowns of the entries -/

/-- The breakdown of the initial prefills. -/
def prefillBreakdown (r : RequestInputs) : PpGapBreakdown :=
  buildPpGapDispatchBreakdown r.initialPrefills r.phaseIntervals r.stepExecution phaseExecNameMap

/-- The breakdown of the decode stretch. -/
def decodeBreakdown (r : RequestInputs) (windowStart execEnd : ℤ) : PpGapBreakdown :=
  buildPpGapDispatchBreakdown (r.tpotExecDispatches windowStart execEnd) r.phaseIntervals
    r.stepExecution phaseExecNameMap

/-- The phases of the prefill are those of its breakdown. -/
theorem prefillExecPhaseNs_buildTtft (r : RequestInputs) (startNs endNs firstStart lastEnd : ℤ) :
    (r.buildTtft startNs endNs firstStart lastEnd).prefillExecPhaseNs =
      execPhaseNs "other_prefill_exec" r.prefillBreakdown := by
  simp only [buildTtft, prefillBreakdown]

/-- The gaps of the first entry come from the breakdown of the prefill. -/
@[simp] theorem ppGapBreakdown_buildTtft (r : RequestInputs)
    (startNs endNs firstStart lastEnd : ℤ) :
    (r.buildTtft startNs endNs firstStart lastEnd).ppGapBreakdown = r.prefillBreakdown := by
  simp only [buildTtft, prefillBreakdown]

/-- The gaps of the second entry come from the breakdown of the decoding. -/
@[simp] theorem ppGapBreakdown_buildTpot (r : RequestInputs) (windowStart windowEnd execEnd : ℤ) :
    (r.buildTpot windowStart windowEnd execEnd).ppGapBreakdown =
      r.decodeBreakdown windowStart execEnd := by
  simp only [buildTpot, decodeBreakdown]

/-- The phases of the decoding are those of its breakdown. -/
theorem execPhaseNs_buildTpot (r : RequestInputs) (windowStart windowEnd execEnd : ℤ) :
    (r.buildTpot windowStart windowEnd execEnd).execPhaseNs =
      DeLatency.execPhaseNs "other_exec" (r.decodeBreakdown windowStart execEnd) := by
  simp only [buildTpot, decodeBreakdown]

/-! ## Execution time -/

variable {startNs endNs firstPrefillStart lastPrefillEnd windowStart windowEnd execEnd : ℤ}

/-- The prefills are spans in nanoseconds. -/
theorem prefills_inNs (h : r.DispatchesInNs) : ∀ d ∈ r.initialPrefills, NsSpan d.window :=
  fun d hd => (h d (mem_initialPrefills hd)).1

/-- The initial prefills in order of start. -/
theorem pairwise_initialPrefills (r : RequestInputs) :
    (r.initialPrefills.map DispatchInterval.window).Pairwise fun p q => p.1 ≤ q.1 :=
  List.pairwise_map.mpr ((List.pairwise_sortBy dispatchKeyOrder _).imp
    fun {_ _} h => fst_le_of_startEndKey h)

/-- The initial prefills lie between the first start and the last end. -/
theorem TtftParts.bounds
    (hp : TtftParts r startNs endNs firstPrefillStart lastPrefillEnd) {d : DispatchInterval}
    (hd : d ∈ r.initialPrefills) : firstPrefillStart ≤ d.startNs ∧ d.endNs ≤ lastPrefillEnd := by
  refine ⟨?_, hp.le_last d hd⟩
  obtain ⟨first, rest, heq, rfl⟩ := hp.first
  have hsorted := pairwise_initialPrefills r
  rw [heq] at hsorted hd
  exact hsorted.head_key_le (List.mem_map_of_mem hd)

/-- The last prefill end is the end of a dispatch, so `to_ns` keeps it. -/
theorem TtftParts.nsTime_last (h : r.DispatchesInNs)
    (hp : TtftParts r startNs endNs firstPrefillStart lastPrefillEnd) : NsTime lastPrefillEnd := by
  obtain ⟨last, hlast, rfl⟩ := hp.last
  exact (prefills_inNs h last hlast).finish

/-- `prefill_exec` measures the union of the initial prefills. -/
theorem prefillExec_eq (h : r.DispatchesInNs)
    (hp : TtftParts r startNs endNs firstPrefillStart lastPrefillEnd) :
    (r.buildTtft startNs endNs firstPrefillStart lastPrefillEnd).componentsNs.prefillExec =
      (cells (r.initialPrefills.map DispatchInterval.window)).card := by
  have hns : ∀ p ∈ r.initialPrefills.map DispatchInterval.window, NsSpan p := by
    intro p hmem
    obtain ⟨d, hd, rfl⟩ := List.mem_map.mp hmem
    exact prefills_inNs h d hd
  -- the prefills lie inside the window, so clipping leaves them alone
  apply sumClippedIntervalItems_inside hns
  intro p hmem
  obtain ⟨d, hd, rfl⟩ := List.mem_map.mp hmem
  exact hp.bounds hd

/-- The dispatches of the decode stretch are the clipped ones. -/
theorem window_tpotExecDispatches (r : RequestInputs) (windowStart execEnd : ℤ) :
    (r.tpotExecDispatches windowStart execEnd).map DispatchInterval.window =
      clipAll (some windowStart) (some execEnd)
        ((r.postStartDispatches windowStart).map DispatchInterval.window) := by
  rw [tpotExecDispatches, clipAll, List.map_filterMap, List.filterMap_map]
  refine congrArg (List.filterMap · _) (funext fun d => ?_)
  simp only [Option.map_map, Function.comp_def, DispatchInterval.window]
  exact Option.map_id'

/-- The dispatches after the first token are dispatches of the request, with times in nanoseconds.
    -/
theorem postStart_inNs (h : r.DispatchesInNs) {p : ℤ × ℤ}
    (hp : p ∈ (r.postStartDispatches windowStart).map DispatchInterval.window) :
    NsSpan p ∧ ∃ d ∈ r.dispatches, d.window = p := by
  obtain ⟨d, hd, rfl⟩ := List.mem_map.mp hp
  have hmem := List.mem_sortBy.mp (List.mem_of_mem_filter hd)
  exact ⟨(h d hmem).1, d, hmem, rfl⟩

/-- The dispatches of the decode stretch lie in it, between nanosecond times. -/
theorem tpotExecDispatches_spec (h : r.DispatchesInNs) {d : DispatchInterval}
    (hd : d ∈ r.tpotExecDispatches windowStart execEnd) :
    NsSpan d.window ∧ windowStart ≤ d.startNs ∧ d.startNs < d.endNs ∧ d.endNs ≤ execEnd := by
  have hmem : d.window ∈ clipAll (some windowStart) (some execEnd)
      ((r.postStartDispatches windowStart).map DispatchInterval.window) := by
    rw [← window_tpotExecDispatches]
    exact List.mem_map.mpr ⟨d, hd, rfl⟩
  exact ⟨nsSpan_of_mem_clipAll (fun p hp => (postStart_inNs h hp).1) hmem, clipAll_bounds hmem⟩

/-- The execution time of the decode stretch measures the union of its dispatches. -/
theorem execTotal_eq (h : r.DispatchesInNs) :
    (r.buildTpot windowStart windowEnd execEnd).execTotalNs =
      (cells ((r.tpotExecDispatches windowStart execEnd).map DispatchInterval.window)).card := by
  have hns : ∀ p ∈ (r.tpotExecDispatches windowStart execEnd).map DispatchInterval.window,
      NsSpan p := by
    intro p hmem
    obtain ⟨d, hd, rfl⟩ := List.mem_map.mp hmem
    exact (tpotExecDispatches_spec h hd).1
  -- the dispatches that count lie inside the window
  apply sumClippedIntervalItems_inside hns
  intro p hmem
  obtain ⟨d, hd, rfl⟩ := List.mem_map.mp hmem
  obtain ⟨-, hstart, -, hend⟩ := tpotExecDispatches_spec h hd
  exact ⟨hstart, hend⟩

/-- The phases of a `ttft` entry add up to its prefill execution time. -/
theorem total_prefillExecPhaseNs (h : r.DispatchesInNs)
    (hp : TtftParts r startNs endNs firstPrefillStart lastPrefillEnd) :
    (r.buildTtft startNs endNs firstPrefillStart lastPrefillEnd).prefillExecPhaseNs.total =
      (r.buildTtft startNs endNs firstPrefillStart lastPrefillEnd).componentsNs.prefillExec := by
  calc (r.buildTtft startNs endNs firstPrefillStart lastPrefillEnd).prefillExecPhaseNs.total
    _ = r.prefillBreakdown.wallComponentsNs.total := by
      rw [prefillExecPhaseNs_buildTtft, total_execPhaseNs]
    _ = r.prefillBreakdown.totalWallNs := total_wallComponents_breakdown (prefills_inNs h)
    _ = (cells (r.initialPrefills.map DispatchInterval.window)).card :=
      totalWallNs_eq (prefills_inNs h)
    _ = _ := (prefillExec_eq h hp).symm

/-- The dispatches that count for the decoding have times in nanoseconds. -/
theorem tpotExec_inNs (h : r.DispatchesInNs) :
    ∀ d ∈ r.tpotExecDispatches windowStart execEnd, NsSpan d.window :=
  fun _ hd => (tpotExecDispatches_spec h hd).1

/-- The phases of a `tpot` entry add up to its execution time. -/
theorem total_execPhaseNs_tpot (h : r.DispatchesInNs) :
    (r.buildTpot windowStart windowEnd execEnd).execPhaseNs.total =
      (r.buildTpot windowStart windowEnd execEnd).execTotalNs := by
  calc (r.buildTpot windowStart windowEnd execEnd).execPhaseNs.total
    _ = (r.decodeBreakdown windowStart execEnd).wallComponentsNs.total := by
      rw [execPhaseNs_buildTpot, total_execPhaseNs]
    _ = (r.decodeBreakdown windowStart execEnd).totalWallNs :=
      total_wallComponents_breakdown (tpotExec_inNs h)
    _ = (cells ((r.tpotExecDispatches windowStart execEnd).map DispatchInterval.window)).card :=
      totalWallNs_eq (tpotExec_inNs h)
    _ = _ := (execTotal_eq h).symm

end RequestInputs

/-- Wall time is counted once: in every row, in the whole breakdown, whose total is
    the measure of the union of the dispatch windows, and so in the two entries. -/
theorem wall_time_counted_once (dispatches : List DispatchInterval)
    (phases : Dict String (List PhaseInterval)) (stepExecution : List StepExecution)
    (phaseMap : List (String × String)) (hd : ∀ d ∈ dispatches, NsSpan d.window) (log : Log)
    (hlog : SchedulerInNs log) (rid : String) :
    (∀ row ∈ (buildPpGapDispatchBreakdown dispatches phases stepExecution phaseMap).dispatches,
        row.wallComponentsNs.total = row.durationNs) ∧
      (buildPpGapDispatchBreakdown dispatches phases stepExecution
          phaseMap).wallComponentsNs.total =
        (buildPpGapDispatchBreakdown dispatches phases stepExecution phaseMap).totalWallNs ∧
      MeasureTheory.volume (covered (dispatches.map DispatchInterval.window)) =
        ENNReal.ofReal (buildPpGapDispatchBreakdown dispatches phases stepExecution
          phaseMap).totalWallNs ∧
      (buildPpGapDispatchBreakdown dispatches phases stepExecution phaseMap).totalWallNs =
        (buildPpGapDispatchBreakdown dispatches phases stepExecution phaseMap).totalComputeNs +
        (buildPpGapDispatchBreakdown dispatches phases stepExecution phaseMap).totalPpGapNs +
        (buildPpGapDispatchBreakdown dispatches phases stepExecution
          phaseMap).totalUnattributedGapNs ∧
      (∀ e ∈ (requestInputs log rid).ttftEntry,
        e.componentsNs.prefillExec = e.prefillExecPhaseNs.total) ∧
      (∀ e ∈ (requestInputs log rid).tpotEntry, e.execTotalNs = e.execPhaseNs.total) := by
  have hin := dispatchesInNs_requestInputs hlog rid
  -- each part has its own lemma; the two entries add theirs up over the same dispatches
  refine ⟨fun row hrow => total_wallComponents_row hd hrow, total_wallComponents_breakdown hd,
    volume_dispatch_windows hd, (totalWallNs_split hd).symm, fun e he => ?_, fun e he => ?_⟩
  · obtain ⟨startNs, endNs, firstStart, lastEnd, hp, rfl⟩ := RequestInputs.exists_buildTtft hin he
    exact (RequestInputs.total_prefillExecPhaseNs hin hp).symm
  · obtain ⟨ttft, windowStart, execEnd, windowEnd, -, -, -, -, rfl⟩ :=
      RequestInputs.exists_buildTpot he
    exact (RequestInputs.total_execPhaseNs_tpot hin).symm

/-- A request with one prefill and one decode step on two pipeline stages; in each
    step the second stage starts some time after the first one ends. -/
def pipelineLog : Log :=
  [{ event := .coroutine {
      type := .coroutineStart
      timestampNs := some 1700000000000000000
      requestId := some "r"
      coroutineId := some 7 } }] ++
  -- two steps, a prefill and a decode
  [(1700000000010000000, 1700000000030000000, "step-1", "prefill"),
    (1700000000050000000, 1700000000060000000, "step-2", "decode")].flatMap
      (fun (outNs, readyNs, key, phase) => [
        { event := .scheduler {
            type := .reqSchedulerOutRpc
            timestampNs := some outNs
            reqIds := ["r"]
            dispatchKey := some key } },
        { event := .scheduler {
            type := .reqStepReady
            timestampNs := some readyNs
            reqIds := ["r"]
            dispatchKey := some key
            phaseByReq := [("r", phase)] } }]) ++
  -- each step runs on two pipeline stages, with a gap between them
  [(0, 1700000000012000000, 1700000000018000000, "step-1"),
    (1, 1700000000020000000, 1700000000028000000, "step-1"),
    (0, 1700000000051000000, 1700000000053000000, "step-2"),
    (1, 1700000000055000000, 1700000000058000000, "step-2")].map
      (fun (pp, startNs, endNs, key) => {
        event := .worker {
          type := .gpuExecuteModel
          startNs := some startNs
          endNs := some endNs
          pid := some (100 + pp)
          tid := some (100 + pp)
          reqIds := ["r"]
          dispatchKey := some key
          ranks := { dp := some (.int 0), pp := some (.int pp), tp := some (.int 0) } } }) ++
  -- and is consumed once by the generate task
  [(1700000000035000000, 1700000000040000000),
    (1700000000065000000, 1700000000070000000)].map
      (fun (startNs, endNs) => {
        event := .coroutineExec {
          requestId := some "r"
          startNs := some startNs
          endNs := some endNs
          taskKind := some "generate_consume" } })

/-- The prefill of a request on two ranks. -/
theorem wall_time_counted_once_pipeline :
    ∃ e, (requestInputs pipelineLog "r").ttftEntry = some e ∧
      e.componentsNs.prefillExec = e.prefillExecPhaseNs.total :=
  ⟨_, rfl, (wall_time_counted_once (reqDispatchIntervals pipelineLog "r") Dict.empty []
    phaseExecNameMap
    (fun _ hd => (nsSpan_of_mem_dispatches (schedulerInNs_of_times (by decide)) hd).1)
    pipelineLog (schedulerInNs_of_times (by decide)) "r").2.2.2.2.1 _ rfl⟩

/-! ## Pipeline gaps of the two entries -/

namespace RequestInputs

variable {r : RequestInputs}

/-- No phase has the name of the gaps. -/
private theorem ppGap_not_mapped : "pp_gap" ∉ phaseExecNameMap.map Prod.snd := by decide

/-- The `pp_gap` phase of a `ttft` entry measures its pipeline gaps. -/
theorem ppGap_buildTtft (h : r.DispatchesInNs) (startNs endNs firstStart lastEnd : ℤ) :
    (r.buildTtft startNs endNs firstStart lastEnd).prefillExecPhaseNs.getD "pp_gap" 0 =
      (cells r.prefillBreakdown.ppGapSpans).card := by
  rw [prefillExecPhaseNs_buildTtft, getD_execPhaseNs (by decide) (by decide) (by decide)]
  exact totalPpGapNs_eq ppGap_not_mapped (prefills_inNs h)

/-- The `pp_gap` component of a `tpot` entry measures its pipeline gaps. -/
theorem ppGap_buildTpot (h : r.DispatchesInNs) (windowStart windowEnd execEnd : ℤ) :
    (r.buildTpot windowStart windowEnd execEnd).componentsNsTotal.ppGap =
      (cells (r.decodeBreakdown windowStart execEnd).ppGapSpans).card := by
  -- the entry reads the gap off the phase table
  have hread : (r.buildTpot windowStart windowEnd execEnd).componentsNsTotal.ppGap =
      (DeLatency.execPhaseNs "other_exec" (r.decodeBreakdown windowStart execEnd)).getD
        "pp_gap" 0 := by
    simp only [buildTpot, decodeBreakdown]
  rw [hread, getD_execPhaseNs (by decide) (by decide) (by decide)]
  exact totalPpGapNs_eq ppGap_not_mapped (tpotExec_inNs h)

/-- The gaps of the prefills end with them. -/
private theorem prefillGaps_bounds (h : r.DispatchesInNs)
    (hp : TtftParts r startNs endNs firstPrefillStart lastPrefillEnd) {p : ℤ × ℤ}
    (hmem : p ∈ r.prefillBreakdown.ppGapSpans) :
    (NsSpan p ∧ p.1 < p.2) ∧ p.2 ≤ lastPrefillEnd := by
  obtain ⟨hspan, hlt, d, hd, -, hle⟩ := ppGapSpans_bounds (prefills_inNs h) hmem
  exact ⟨⟨hspan, hlt⟩, hle.trans (hp.le_last d hd)⟩

/-- The gaps of the decode stretch start in it. -/
private theorem decodeGaps_bounds (h : r.DispatchesInNs) {p : ℤ × ℤ}
    (hmem : p ∈ (r.decodeBreakdown windowStart execEnd).ppGapSpans) :
    (NsSpan p ∧ p.1 < p.2) ∧ windowStart ≤ p.1 := by
  obtain ⟨hspan, hlt, d, hd, hle, -⟩ := ppGapSpans_bounds (tpotExec_inNs h) hmem
  exact ⟨⟨hspan, hlt⟩, (tpotExecDispatches_spec h hd).2.1.trans hle⟩

/-- The decode stretch starts where the initial prefills end, so the two share no
    pipeline gap. -/
private theorem disjoint_gaps (h : r.DispatchesInNs)
    (hp : TtftParts r startNs endNs firstPrefillStart lastPrefillEnd) :
    Disjoint (cells r.prefillBreakdown.ppGapSpans)
      (cells (r.decodeBreakdown lastPrefillEnd execEnd).ppGapSpans) := by
  rw [Finset.disjoint_left]
  intro x hx hx'
  obtain ⟨p, hpmem, hpx⟩ := mem_cells.mp hx
  obtain ⟨q, hqmem, hqx⟩ := mem_cells.mp hx'
  have hend := (prefillGaps_bounds h hp hpmem).2
  have hstart := (decodeGaps_bounds h hqmem).2
  -- prefill gaps end before the last prefill does, decode gaps start after it
  omega


/-- The report merges the gaps of the entries there are. -/
private theorem requestPpGapWallNs_eq {spans : List (ℤ × ℤ)}
    (hspans : (r.requestPpGapIntervals.map PpGapInterval.span).Perm spans)
    (hns : ∀ p ∈ spans, NsSpan p ∧ p.1 < p.2) :
    r.requestPpGapWallNs = (cells spans).card := by
  have hns' : ∀ p ∈ r.requestPpGapIntervals.map PpGapInterval.span, NsSpan p ∧ p.1 < p.2 :=
    fun p hp => hns p (hspans.mem_iff.mp hp)
  -- without a window nothing is cut
  have hclip : clipAll none none (r.requestPpGapIntervals.map PpGapInterval.span) =
      r.requestPpGapIntervals.map PpGapInterval.span :=
    clipAll_none (fun p hp => (hns' p hp).1) fun p hp => (hns' p hp).2
  rw [← cells_perm hspans, ← sumIntervalPairs_mergeIntervals]
  exact congrArg (fun l => sumIntervalPairs (mergeIntervals l)) hclip

/-- The gaps of the report come from the breakdowns of the entries. -/
private theorem requestPpGapIntervals_perm (r : RequestInputs) :
    (r.requestPpGapIntervals.map PpGapInterval.span).Perm
      (((r.ttftEntry.map fun e => e.ppGapBreakdown.ppGapSpans).getD []) ++
        ((r.tpotEntry.map fun e => e.ppGapBreakdown.ppGapSpans).getD [])) := by
  refine ((List.sortBy_perm _ _).map _).trans (List.Perm.of_eq ?_)
  rw [List.flatMap_append, List.map_append]
  cases r.ttftEntry <;> cases r.tpotEntry <;> rfl

/-- No reported gap starts before all dispatches. -/
theorem exists_dispatch_le_ppGap (h : r.DispatchesInNs) {gap : PpGapInterval}
    (hgap : gap ∈ r.requestPpGapIntervals) : ∃ d ∈ r.dispatches, d.startNs ≤ gap.startNs := by
  have hmem := (requestPpGapIntervals_perm r).mem_iff.mp
    (List.mem_map_of_mem (f := PpGapInterval.span) hgap)
  rw [List.mem_append] at hmem
  cases httft : r.ttftEntry with
  | none =>
    -- without a `ttft` entry there is no `tpot` entry either
    have htpot : r.tpotEntry = none := by rw [tpotEntry, httft]; rfl
    simp [httft, htpot] at hmem
  | some ttft =>
    obtain ⟨startNs, endNs, firstStart, lastEnd, hp, rfl⟩ := exists_buildTtft h httft
    obtain hmem | hmem := hmem
    · rw [httft] at hmem
      obtain ⟨-, -, d, hd, hle, -⟩ := ppGapSpans_bounds (prefills_inNs h) hmem
      exact ⟨d, mem_initialPrefills hd, hle⟩
    · cases htpot : r.tpotEntry with
      | none => simp [htpot] at hmem
      | some tpot =>
        obtain ⟨ttft', windowStart, execEnd, windowEnd, httft', hstart, -, -, rfl⟩ :=
          exists_buildTpot htpot
        rw [httft] at httft'
        cases httft'
        have hread : toNsInt lastEnd = some windowStart := hstart
        rw [(hp.nsTime_last h).toNsInt] at hread
        cases hread
        rw [htpot] at hmem
        -- the decode stretch starts where the last of the initial prefills ends
        obtain ⟨d, hd, hend⟩ := hp.last
        have hlt := (h d (mem_initialPrefills hd)).2
        have hle : lastEnd ≤ gap.startNs := (decodeGaps_bounds h hmem).2
        exact ⟨d, mem_initialPrefills hd, by omega⟩

end RequestInputs

/-- The merged pipeline gaps of a request are the `pp_gap` values of its entries. -/
theorem ppGap_reports_agree (log : Log) (hlog : SchedulerInNs log) (rid : String) :
    (requestInputs log rid).requestPpGapWallNs =
      ((requestInputs log rid).ttftEntry.map fun e => e.prefillExecPhaseNs.getD "pp_gap" 0).getD 0 +
      ((requestInputs log rid).tpotEntry.map fun e => e.componentsNsTotal.ppGap).getD 0 := by
  have h := dispatchesInNs_requestInputs hlog rid
  set r := requestInputs log rid with hr
  have hperm := r.requestPpGapIntervals_perm
  cases httft : r.ttftEntry with
  | none =>
    -- without a `ttft` entry there is no `tpot` entry either
    have htpot : r.tpotEntry = none := by rw [RequestInputs.tpotEntry, httft]; rfl
    rw [httft, htpot] at hperm
    rw [RequestInputs.requestPpGapWallNs_eq hperm (by simp), htpot]
    rfl
  | some ttft =>
    obtain ⟨startNs, endNs, firstStart, lastEnd, hp, rfl⟩ := RequestInputs.exists_buildTtft h httft
    cases htpot : r.tpotEntry with
    | none =>
      rw [httft, htpot] at hperm
      have hspans : (r.requestPpGapIntervals.map PpGapInterval.span).Perm
          r.prefillBreakdown.ppGapSpans := by simpa using hperm
      rw [RequestInputs.requestPpGapWallNs_eq hspans
        fun p hmem => (RequestInputs.prefillGaps_bounds h hp hmem).1]
      simp only [Option.map_some, Option.getD_some, Option.map_none, Option.getD_none, add_zero]
      exact (RequestInputs.ppGap_buildTtft h _ _ _ _).symm
    | some tpot =>
      obtain ⟨ttft', windowStart, execEnd, windowEnd, httft', hstart, -, -, rfl⟩ :=
        RequestInputs.exists_buildTpot htpot
      rw [httft] at httft'
      cases httft'
      -- the decode stretch starts where the initial prefills end
      have hread : toNsInt lastEnd = some windowStart := hstart
      rw [(hp.nsTime_last h).toNsInt] at hread
      cases hread
      rw [httft, htpot] at hperm
      have hspans : (r.requestPpGapIntervals.map PpGapInterval.span).Perm
          (r.prefillBreakdown.ppGapSpans ++ (r.decodeBreakdown lastEnd execEnd).ppGapSpans) := by
        simpa using hperm
      rw [RequestInputs.requestPpGapWallNs_eq hspans, cells_append,
        Finset.card_union_of_disjoint (RequestInputs.disjoint_gaps h hp), Nat.cast_add]
      · simp only [Option.map_some, Option.getD_some]
        rw [RequestInputs.ppGap_buildTtft h, RequestInputs.ppGap_buildTpot h]
      · intro p hmem
        cases List.mem_append.mp hmem with
        | inl hmem => exact (RequestInputs.prefillGaps_bounds h hp hmem).1
        | inr hmem => exact (RequestInputs.decodeGaps_bounds h hmem).1

/-- The gaps of a request on two ranks. -/
theorem ppGap_reports_agree_pipeline :
    (requestInputs pipelineLog "r").requestPpGapWallNs =
      ((requestInputs pipelineLog "r").ttftEntry.map fun e =>
        e.prefillExecPhaseNs.getD "pp_gap" 0).getD 0 +
      ((requestInputs pipelineLog "r").tpotEntry.map fun e => e.componentsNsTotal.ppGap).getD 0 :=
  ppGap_reports_agree pipelineLog (schedulerInNs_of_times (by decide)) "r"

example : (requestInputs pipelineLog "r").requestPpGapWallNs = 4000000 := by decide

end DeLatency
