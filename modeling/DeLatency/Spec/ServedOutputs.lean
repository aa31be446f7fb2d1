import DeLatency.Patch.OutputTasks
import DeLatency.Spec.OutputHandler
import DeLatency.Spec.ReqSpans

/-!
# What is drawn of a task's work

A task serves outputs one piece after the other.  The waits that were noted since the last piece
are charged to requests when the next one is begun, and a request is drawn the waits of the pieces
that it was charged for and the slices of those that had outputs of it
(`ServedOutputs.drawn_of_served`).
-/

namespace DeLatency

/-! ## What is drawn -/

/-- Outputs that a task has served: the waits before them, the requests that these were charged
    to, the requests of the outputs, and when the task was busy with them. -/
structure ServedOutputs where
  waits : List SchedWait
  charged : List String
  reqIds : List String
  startNs : ℤ
  endNs : Option ℤ

/-- The interval of a wait. -/
def SchedWait.drawn (wait : SchedWait) : Option (ℤ × ℤ) :=
  drawnInterval (some wait.readyTsNs) (some wait.runTsNs)

/-- The wait that a callback notes. -/
def notedWait (readyTsNs runTsNs : ℤ) : Option SchedWait :=
  if h : readyTsNs ≤ runTsNs then some ⟨readyTsNs, runTsNs, h⟩ else none

/-- It ends when the callback runs. -/
theorem notedWait_sublist (readyTsNs runTsNs : ℤ) :
    ((notedWait readyTsNs runTsNs).toList.map (·.runTsNs)).Sublist [runTsNs] := by
  unfold notedWait
  split
  · exact .refl _
  · exact List.nil_sublist _

/-- The events that charge some waits to some requests. -/
def chargeEvents (waits : List SchedWait) (charged : List String) : List OutputSchedEvent :=
  if charged = [] then []
  else waits.map fun wait =>
    { reqIds := charged
      readyTsNs := some wait.readyTsNs
      runTsNs := some wait.runTsNs
      queueNs := some wait.queueNs
      timestampNs := some wait.runTsNs }

/-- The event that reports a slice with some requests. -/
def busyEvent (startNs endNs : ℤ) (reqIds : List String) : Option OutputExecEvent :=
  if endNs ≤ startNs ∨ reqIds.isEmpty then none
  else some
    { reqIds
      startNs := some startNs
      endNs := some endNs
      durationNs := some (endNs - startNs)
      timestampNs := some endNs }

/-- The log holds the execution when it is reported. -/
theorem logged_emitOutputExecSlice (startNs endNs : ℤ) (reqIds : List String) (taskId : ℕ)
    (taskName : Option String) (roundSeq : Option ℕ) :
    (emitOutputExecSlice startNs endNs reqIds taskId taskName roundSeq).toList.map
      OutputExecSlice.logged = (busyEvent startNs endNs reqIds).toList := by
  unfold emitOutputExecSlice busyEvent
  split <;> rfl

/-- What an event log says about a request. -/
def schedEventsOf (events : List OutputSchedEvent) (rid : String) : List OutputSchedEvent :=
  events.filter fun ev => rid ∈ normalizeRequestIds ev.reqIds

def execEventsOf (events : List OutputExecEvent) (rid : String) : List OutputExecEvent :=
  events.filter fun ev => rid ∈ normalizeRequestIds ev.reqIds

/-- Filtering by request drops no wait of the request. -/
theorem intervals_schedEventsOf (events : List OutputSchedEvent) (rid : String) :
    (schedEventsOf events rid).flatMap (OutputSchedEvent.intervals rid) =
      events.flatMap (OutputSchedEvent.intervals rid) :=
  List.flatMap_filter_of_nil fun _ hev => roundIntervals_of_notMem (by simpa using hev) _ _ _

/-- Filtering by request drops no execution of the request. -/
theorem intervals_execEventsOf (events : List OutputExecEvent) (rid : String) :
    (execEventsOf events rid).flatMap (OutputExecEvent.intervals rid) =
      events.flatMap (OutputExecEvent.intervals rid) :=
  List.flatMap_filter_of_nil fun _ hev => roundIntervals_of_notMem (by simpa using hev) _ _ _

namespace ServedOutputs

/-- When the task was resumed before it began with the outputs, and when it began. -/
def resumed (s : ServedOutputs) : List ℤ := s.waits.map (·.runTsNs) ++ [s.startNs]

def busy (s : ServedOutputs) : List ℤ := s.startNs :: s.endNs.toList

/-- The waits that are drawn, and the slice. -/
def drawnWaits (s : ServedOutputs) : List (ℤ × ℤ) := s.waits.filterMap SchedWait.drawn

def drawnSlice (s : ServedOutputs) : Option (ℤ × ℤ) := drawnInterval (some s.startNs) s.endNs

/-- The events that report the waits, and the slice. -/
def schedEvents (s : ServedOutputs) : List OutputSchedEvent := chargeEvents s.waits s.charged

def execEvent (s : ServedOutputs) : Option OutputExecEvent :=
  s.endNs.bind fun endNs => busyEvent s.startNs endNs s.reqIds

variable {s : ServedOutputs} {rid : String}

/-- A served slice draws its waits for the requests that it charges. -/
theorem intervals_schedEvents (hnodup : s.charged.Nodup)
    (hread : ∀ raw ∈ s.charged, normalizeRequestId raw = some rid ↔ raw = rid) :
    s.schedEvents.flatMap (OutputSchedEvent.intervals rid) =
      if rid ∈ s.charged then s.drawnWaits else [] := by
  unfold schedEvents chargeEvents
  split
  · next hnone =>
    rw [hnone, if_neg List.not_mem_nil]
    rfl
  · rw [List.flatMap_map, drawnWaits, List.filterMap_eq_flatMap_toList]
    -- a noted wait does not end before it starts, so its round is drawn
    have hwait : ∀ wait : SchedWait, roundIntervals rid s.charged (some wait.queueNs)
        (some wait.readyTsNs) (some wait.runTsNs) =
          if rid ∈ s.charged then wait.drawn.toList else [] := fun wait =>
      roundIntervals_some hnodup hread (sub_nonneg.mpr wait.ordered) _ _
    simp only [OutputSchedEvent.intervals, hwait]
    split
    · rfl
    · exact List.flatMap_eq_nil_iff.mpr fun _ _ => rfl

/-- A served slice draws its execution for the requests that it serves. -/
theorem intervals_execEvent (hnodup : s.reqIds.Nodup)
    (hread : ∀ raw ∈ s.reqIds, normalizeRequestId raw = some rid ↔ raw = rid) :
    s.execEvent.toList.flatMap (OutputExecEvent.intervals rid) =
      if rid ∈ s.reqIds then s.drawnSlice.toList else [] := by
  unfold execEvent drawnSlice
  cases hend : s.endNs with
  | none => simp [drawnInterval, truthyInt]
  | some endNs =>
    rw [Option.bind_some, busyEvent]
    split
    · next hnone =>
      -- an empty slice is not drawn either
      rcases hnone with hle | hempty
      · have hdrawn : drawnInterval (some s.startNs) (some endNs) = none := by
          unfold drawnInterval
          split
          · next start finish hstart hfinish =>
            rw [truthyInt_eq_some] at hstart hfinish
            rw [if_neg]
            simp only [Option.some.injEq] at hstart hfinish
            omega
          · rfl
        simp [hdrawn]
      · rw [List.isEmpty_iff.mp hempty]
        simp
    · next hsome =>
      have hlt : 0 ≤ endNs - s.startNs := by omega
      rw [Option.toList_some, List.flatMap_singleton]
      simp only [OutputExecEvent.intervals, eventDuration]
      exact roundIntervals_some hnodup hread hlt _ _

/-- What the converter draws under a request that was read as itself only. -/
theorem drawn_of_served {served : List ServedOutputs} {scheds : List OutputSchedEvent}
    {execs : List OutputExecEvent}
    (hscheds : schedEventsOf scheds rid = schedEventsOf (served.flatMap schedEvents) rid)
    (hexecs : execEventsOf execs rid = execEventsOf (served.filterMap execEvent) rid)
    (hnodup : ∀ s ∈ served, s.charged.Nodup ∧ s.reqIds.Nodup)
    (hread : ∀ s ∈ served, ∀ raw, raw ∈ s.charged ∨ raw ∈ s.reqIds →
      (normalizeRequestId raw = some rid ↔ raw = rid)) :
    (outputSched scheds).intervals.getD rid [] =
        (served.filter (rid ∈ ·.charged)).flatMap drawnWaits ∧
      (outputExec execs).intervals.getD rid [] =
        (served.filter (rid ∈ ·.reqIds)).filterMap drawnSlice := by
  -- filtering by the request drops none of its intervals, on either side
  constructor
  · rw [intervals_outputSched, ← intervals_schedEventsOf, hscheds, intervals_schedEventsOf,
      List.flatMap_assoc, List.flatMap_filter]
    refine List.flatMap_congr fun s hs => ?_
    rw [intervals_schedEvents (hnodup s hs).1 fun raw hraw => hread s hs raw (.inl hraw)]
    simp only [decide_eq_true_eq]
  · rw [intervals_outputExec, ← intervals_execEventsOf, hexecs, intervals_execEventsOf,
      List.filterMap_eq_flatMap_toList, List.flatMap_assoc, List.filterMap_eq_flatMap_toList,
      List.flatMap_filter]
    refine List.flatMap_congr fun s hs => ?_
    rw [intervals_execEvent (hnodup s hs).2 fun raw hraw => hread s hs raw (.inr hraw)]
    simp only [decide_eq_true_eq]

end ServedOutputs

/-- Distinct ids are distinct. -/
theorem nodup_distinctReqIds (outputs : List (EngineCoreOutput String)) :
    (distinctReqIds outputs).Nodup := .of_map _ (List.nodup_firstSeen _)

end DeLatency
