import DeLatency.Converter.Dispatch
import Mathlib.Data.List.Perm.Basic

/-!
# Extraction of the engine-core events

One loop over the updates of a request feeds two consumers: the phases of its
dispatches and the times of its preemptions.  It leaves an update at the first
scheduled event.  That is right for the phase, which is the first one's, and
loses the preempt events that follow (`engineExtracted_iff`).
-/

namespace DeLatency

/-! ## What the messages say -/

/-- An event of a request that is scheduled. -/
def EngineEvent.IsScheduled (ev : EngineEvent) : Prop :=
  normalizeReqEventType ev.type = some .dequeue

instance (ev : EngineEvent) : Decidable ev.IsScheduled := inferInstanceAs (Decidable (_ = _))

/-- A preempt event with a convertible time. -/
def EngineEvent.IsTimedPreempt (ev : EngineEvent) : Prop :=
  normalizeReqEventType ev.type = some .preempt ∧ (toNs (ev.ts.or ev.timestampNs)).isSome

instance (ev : EngineEvent) : Decidable ev.IsTimedPreempt := inferInstanceAs (Decidable (_ ∧ _))

/-- The times of the preempt events in a list of engine-core events. -/
def preemptTimes (events : List EngineEvent) : List ℤ :=
  (events.filter fun ev => normalizeReqEventType ev.type = some .preempt).filterMap fun ev =>
    toNs (ev.ts.or ev.timestampNs)

/-- The events of an update before its first scheduled event. -/
def beforeScheduled (events : List EngineEvent) : List EngineEvent :=
  events.takeWhile fun ev => normalizeReqEventType ev.type ≠ some .dequeue

/-- The phase of the first scheduled event, if it is one of the two. -/
def scheduledPhase (events : List EngineEvent) : Option Phase :=
  (events.find? fun ev => ev.IsScheduled).bind fun ev => explicitPhase ev.phase

/-- The updates of a request, in message order. -/
def updatesOf (events : List ReqMetricEvent) (rid : String) : List MetricsUpdate :=
  ((events.sortBy fun x => (x.batchTsNs.bind toNsInt).getD 0).flatMap (·.reqEvents)).filter
    fun update => truthyKey update.reqId = some rid

/-- Every timed preempt event of the request is there once, and every phase of a first
    scheduled event, in message order. -/
structure EngineExtracted (events : List ReqMetricEvent) (rid : String) : Prop where
  preempts : (extractEngineHints events rid).preemptTs.Perm
    ((updatesOf events rid).flatMap fun update => preemptTimes update.events)
  phases : (extractEngineHints events rid).phases =
    (updatesOf events rid).filterMap fun update => scheduledPhase update.events

/-- A timed preempt event follows a scheduled event of the same update. -/
def LatePreempt (update : MetricsUpdate) : Prop :=
  ∃ before ev after, update.events = before ++ ev :: after ∧
    (∃ ev' ∈ before, ev'.IsScheduled) ∧ ev.IsTimedPreempt

/-! ## The scan of one update -/

/-- The preempts are read event by event. -/
theorem preemptTimes_cons (ev : EngineEvent) (rest : List EngineEvent) :
    preemptTimes (ev :: rest) =
      (if normalizeReqEventType ev.type = some .preempt
        then (toNs (ev.ts.or ev.timestampNs)).toList else []) ++ preemptTimes rest := by
  unfold preemptTimes
  by_cases h : normalizeReqEventType ev.type = some .preempt
  · rw [List.filter_cons_of_pos (by simpa using h), if_pos h, List.filterMap_cons]
    cases toNs (ev.ts.or ev.timestampNs) <;> rfl
  · rw [List.filter_cons_of_neg (by simpa using h), if_neg h, List.nil_append]

/-- Those of two lists are those of the first and then of the second. -/
theorem preemptTimes_append (l l' : List EngineEvent) :
    preemptTimes (l ++ l') = preemptTimes l ++ preemptTimes l' := by
  simp only [preemptTimes, List.filter_append, List.filterMap_append]

/-- There are none exactly when no event is a preempt with a time. -/
theorem preemptTimes_eq_nil {events : List EngineEvent} :
    preemptTimes events = [] ↔ ∀ ev ∈ events, ¬ev.IsTimedPreempt := by
  simp only [preemptTimes, List.filterMap_eq_nil_iff, List.mem_filter, decide_eq_true_eq, and_imp]
  apply forall₂_congr
  intro ev _
  unfold EngineEvent.IsTimedPreempt
  rw [Option.isSome_iff_ne_none, not_and, not_not]

/-- A scan adds the preempt times before the first scheduled event, and its phase. -/
theorem scanEngineEvents_eq (events : List EngineEvent) (hints : EngineHints) :
    scanEngineEvents events hints =
      { phases := hints.phases ++ (scheduledPhase events).toList
        preemptTs := hints.preemptTs ++ preemptTimes (beforeScheduled events) } := by
  induction events generalizing hints with
  | nil => simp [scanEngineEvents, scheduledPhase, beforeScheduled, preemptTimes]
  | cons ev rest ih =>
    unfold scanEngineEvents
    by_cases hdeq : normalizeReqEventType ev.type = some .dequeue
    · -- the scheduled event itself is no preempt event, and nothing after it is read
      have hfirst : scheduledPhase (ev :: rest) = explicitPhase ev.phase := by
        simp [scheduledPhase, EngineEvent.IsScheduled, hdeq]
      have hnone : preemptTimes (beforeScheduled (ev :: rest)) = [] := by
        simp [beforeScheduled, hdeq, preemptTimes]
      rw [hfirst, hnone]
      cases toNs (ev.ts.or ev.timestampNs) with
      | none => cases explicitPhase ev.phase <;> simp [hdeq]
      | some ts => cases explicitPhase ev.phase <;> simp [hdeq]
    · -- any other event is read, and kept if it is a preempt event with a time
      have hlater : scheduledPhase (ev :: rest) = scheduledPhase rest := by
        simp [scheduledPhase, EngineEvent.IsScheduled, hdeq]
      have hcons : beforeScheduled (ev :: rest) = ev :: beforeScheduled rest := by
        simp [beforeScheduled, hdeq]
      simp only [ne_eq, hdeq, not_false_eq_true, if_true, ih]
      rw [hlater, hcons, preemptTimes_cons]
      by_cases hpre : normalizeReqEventType ev.type = some .preempt
      · cases toNs (ev.ts.or ev.timestampNs) <;> simp [hpre]
      · cases toNs (ev.ts.or ev.timestampNs) <;> simp [hpre]

/-! ## The loop over the messages -/

/-- One turn of the loop over the updates. -/
private def scanUpdate (st : String → EngineHints) (update : MetricsUpdate) :
    String → EngineHints :=
  match update.reqId with
  | none => st
  | some rid => if rid = "" then st else Keyed.modify st rid (scanEngineEvents update.events)

/-- A turn scans the update for its own request, and leaves the others alone. -/
private theorem scanUpdate_apply (st : String → EngineHints) (update : MetricsUpdate)
    (rid : String) :
    scanUpdate st update rid =
      if truthyKey update.reqId = some rid then scanEngineEvents update.events (st rid)
      else st rid := by
  unfold scanUpdate
  cases hreq : update.reqId with
  | none => simp [truthyKey]
  | some r =>
    -- an update without an id reaches no request
    by_cases hblank : r = ""
    · simp [truthyKey, hblank]
    · by_cases hr : r = rid
      · subst hr
        simp [truthyKey, hblank]
      · simp [truthyKey, hblank, hr, Keyed.modify_of_ne _ _ (Ne.symm hr)]

/-- The loop scans, for one request, the updates of that request. -/
private theorem foldl_scanUpdate_apply (updates : List MetricsUpdate)
    (st : String → EngineHints) (rid : String) :
    updates.foldl scanUpdate st rid =
      (updates.filter fun update => truthyKey update.reqId = some rid).foldl
        (fun hints update => scanEngineEvents update.events hints) (st rid) := by
  induction updates generalizing st with
  | nil => rfl
  | cons update rest ih =>
    rw [List.foldl_cons, ih, scanUpdate_apply]
    -- an update of another request leaves the hints alone
    split
    · next h => rw [List.filter_cons_of_pos (by simpa using h), List.foldl_cons]
    · next h => rw [List.filter_cons_of_neg (by simpa using h)]

/-- What scanning a list of updates adds up to. -/
private theorem foldl_scan_eq (updates : List MetricsUpdate) (hints : EngineHints) :
    updates.foldl (fun hints update => scanEngineEvents update.events hints) hints =
      { phases := hints.phases ++ updates.filterMap fun update => scheduledPhase update.events
        preemptTs := hints.preemptTs ++
          updates.flatMap fun update => preemptTimes (beforeScheduled update.events) } := by
  induction updates generalizing hints with
  | nil => simp
  | cons update rest ih =>
    rw [List.foldl_cons, ih, scanEngineEvents_eq, List.filterMap_cons, List.flatMap_cons]
    cases scheduledPhase update.events <;> simp

/-- The hints of a request: phases of first scheduled events, times before them. -/
theorem extractEngineHints_apply (events : List ReqMetricEvent) (rid : String) :
    extractEngineHints events rid =
      { phases := (updatesOf events rid).filterMap fun update => scheduledPhase update.events
        preemptTs := (updatesOf events rid).flatMap fun update =>
          preemptTimes (beforeScheduled update.events) } := by
  -- the two loops are one over the updates of all batches
  have hloop : extractEngineHints events = ((events.sortBy fun x =>
      (x.batchTsNs.bind toNsInt).getD 0).flatMap (·.reqEvents)).foldl scanUpdate fun _ => {} := by
    rw [List.foldl_flatMap]
    rfl
  rw [hloop, foldl_scanUpdate_apply, foldl_scan_eq]
  rfl

/-! ## The exact condition -/

/-- The events of an update from its first scheduled event on. -/
private def fromScheduled (events : List EngineEvent) : List EngineEvent :=
  events.dropWhile fun ev => normalizeReqEventType ev.type ≠ some .dequeue

/-- The preempts stand before the first scheduled event or from it on. -/
private theorem preemptTimes_split (events : List EngineEvent) :
    preemptTimes events =
      preemptTimes (beforeScheduled events) ++ preemptTimes (fromScheduled events) := by
  rw [← preemptTimes_append, beforeScheduled, fromScheduled, List.takeWhile_append_dropWhile]

/-- An update has a late preempt event when its rest has a preempt time. -/
private theorem latePreempt_iff {update : MetricsUpdate} :
    LatePreempt update ↔ preemptTimes (fromScheduled update.events) ≠ [] := by
  have hsplit : update.events = beforeScheduled update.events ++ fromScheduled update.events :=
    List.takeWhile_append_dropWhile.symm
  rw [ne_eq, preemptTimes_eq_nil]
  push Not
  constructor
  · intro hx
    obtain ⟨before, ev, after, heq, ⟨ev', hev', hsched⟩, hpre⟩ := hx
    refine ⟨ev, ?_, hpre⟩
    -- the first scheduled event is not after `ev'`, so `ev` is in the rest
    obtain ⟨b, c, rfl⟩ := List.append_of_mem hev'
    rw [heq, fromScheduled, List.append_assoc, List.cons_append, List.dropWhile_append]
    split
    · rw [List.dropWhile_cons_of_neg (by simpa using! hsched)]
      simp
    · simp
  · intro hx
    obtain ⟨ev, hev, hpre⟩ := hx
    cases hrest : fromScheduled update.events with
    | nil => rw [hrest] at hev; cases hev
    | cons first rest =>
      -- the rest begins with a scheduled event, which is no preempt event
      have hfirst : first.IsScheduled := by
        have h := List.head?_dropWhile_not
          (fun ev : EngineEvent => normalizeReqEventType ev.type ≠ some .dequeue) update.events
        rw [show List.dropWhile _ _ = first :: rest from hrest] at h
        simpa using! h
      rw [hrest] at hev
      obtain rfl | hev := List.mem_cons.mp hev
      · rw [EngineEvent.IsTimedPreempt, show normalizeReqEventType ev.type = _ from hfirst] at hpre
        cases hpre.1
      · obtain ⟨b, c, rfl⟩ := List.append_of_mem hev
        refine ⟨beforeScheduled update.events ++ first :: b, ev, c, ?_,
          ⟨first, by simp, hfirst⟩, hpre⟩
        rw [List.append_assoc, List.cons_append, ← hrest]
        exact hsplit

/-- The events of a request are extracted without loss exactly when no update of it has
    a timed preempt event after a scheduled one. -/
theorem engineExtracted_iff (events : List ReqMetricEvent) (rid : String) :
    EngineExtracted events rid ↔ ∀ update ∈ updatesOf events rid, ¬LatePreempt update := by
  -- the preempts of each update stand before its first scheduled event or after it
  have hperm : ((updatesOf events rid).flatMap fun update => preemptTimes update.events).Perm
      (((updatesOf events rid).flatMap fun update =>
        preemptTimes (beforeScheduled update.events)) ++
          (updatesOf events rid).flatMap fun update =>
            preemptTimes (fromScheduled update.events)) := by
    refine List.Perm.trans (List.Perm.of_eq ?_) (List.flatMap_append_perm _ _ _).symm
    exact List.flatMap_congr fun update _ => preemptTimes_split update.events
  -- there is none to lose exactly when no update has one after it
  have hnil : (∀ update ∈ updatesOf events rid, ¬LatePreempt update) ↔
      ((updatesOf events rid).flatMap fun update =>
        preemptTimes (fromScheduled update.events)) = [] := by
    rw [List.flatMap_eq_nil_iff]
    exact forall₂_congr fun update _ => by rw [latePreempt_iff, ne_eq, not_not]
  rw [hnil]
  constructor
  · intro h
    -- the hints hold those before; equal lengths leave nothing after
    have hlen := (h.preempts.trans hperm).length_eq
    rw [extractEngineHints_apply, List.length_append] at hlen
    exact List.eq_nil_of_length_eq_zero (by simpa using hlen)
  · intro h
    rw [h, List.append_nil] at hperm
    constructor
    · rw [extractEngineHints_apply]; exact hperm.symm
    · rw [extractEngineHints_apply]

/-- A request that is scheduled and then preempted before its outputs are sent. -/
def scheduledThenPreempted : List ReqMetricEvent :=
  [{ reqEvents := [{
       reqId := some "r"
       events := [
         { type := some "SCHEDULED", ts := .float (.finite 500000 0), phase := some "decode" },
         { type := some "PREEMPTED", ts := .float (.finite 500001 0) }] }]
     batchTsNs := some 1700000000000000000 }]

/-- Its phase is kept, and its preemption lost. -/
theorem not_engineExtracted_scheduledThenPreempted :
    ¬EngineExtracted scheduledThenPreempted "r" := by
  intro h
  have hpreempts := h.preempts
  revert hpreempts
  decide

end DeLatency
