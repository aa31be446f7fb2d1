import DeLatency.Spec.Coroutine

/-!
# What the lanes of a request hold

Each lane of a request has the intervals of its events, in the order of the loop that
collects them.
-/

namespace DeLatency

/-- The interval that a pair of times draws. -/
def drawnInterval (startNs endNs : Option ℤ) : Option (ℤ × ℤ) :=
  match truthyInt startNs, truthyInt endNs with
  | some startNs, some endNs => if startNs < endNs then some (startNs, endNs) else none
  | _, _ => none

/-- Two positive times are drawn when they are in order. -/
theorem drawnInterval_some {startNs endNs : ℤ} (hstart : 0 < startNs) (hend : 0 < endNs) :
    drawnInterval (some startNs) (some endNs) =
      if startNs < endNs then some (startNs, endNs) else none := by
  unfold drawnInterval
  rw [truthyInt_eq_some.mpr ⟨rfl, hstart.ne'⟩, truthyInt_eq_some.mpr ⟨rfl, hend.ne'⟩]

namespace ReqSpans

variable {spans : ReqSpans} {rid rid' : String} {durNs startNs endNs : Option ℤ}

/-- Noting a length draws nothing. -/
theorem intervals_noteNs : (spans.noteNs rid durNs).intervals = spans.intervals := by
  unfold noteNs
  split
  · split <;> rfl
  · rfl

/-- Noting an interval draws it, if it can be drawn. -/
theorem intervals_noteInterval : (spans.noteInterval rid startNs endNs).intervals =
    (drawnInterval startNs endNs).elim spans.intervals (spans.intervals.push rid) := by
  unfold noteInterval drawnInterval
  cases truthyInt startNs with
  | none => rfl
  | some start =>
    cases truthyInt endNs with
    | none => rfl
    | some finish =>
      dsimp only
      split <;> rfl

/-- An event adds its interval under its own request. -/
theorem getD_intervals_note : (spans.note rid durNs startNs endNs).intervals.getD rid' [] =
    spans.intervals.getD rid' [] ++
      if rid' = rid then (drawnInterval startNs endNs).toList else [] := by
  rw [note, intervals_noteInterval, intervals_noteNs]
  cases drawnInterval startNs endNs with
  | none => simp
  | some p =>
    rw [Option.elim_some, Dict.getD_push]
    split
    · next hrid => rw [hrid, Option.toList_some]
    · rw [List.append_nil]

end ReqSpans

/-! ## Coroutines -/

/-- The wait that an event draws in the coroutine lane of a request. -/
def coroWait (rid : String) (ev : CoroutineEvent) : Option (ℤ × ℤ) :=
  if ev.type = .coroutineSchedLatency ∧ requestIdOf ev.requestId ev.reqId = some rid ∧
      ev.taskKind ≠ some "generate_task" then
    drawnInterval ev.readyTsNs ev.runTsNs
  else none

/-- An event adds its own wait to its request. -/
theorem coroSched_step (st : CoroutineState) (ev : CoroutineEvent) (rid : String) :
    (st.step ev).coroSched.intervals.getD rid [] =
      st.coroSched.intervals.getD rid [] ++ (coroWait rid ev).toList := by
  unfold CoroutineState.step coroWait
  split
  · next rid' htype hrid =>
    split
    · -- the generate task's waits are kept elsewhere
      next hkind => simp [hkind]
    · next hkind =>
      dsimp only
      rw [ReqSpans.getD_intervals_note, htype, hrid]
      by_cases heq : rid = rid'
      · subst heq
        simp [hkind]
      · simp [heq, Ne.symm heq]
  · -- no other event is a wait
    next htype _ =>
    rw [htype, if_neg (by simp)]
    split <;> simp
  · next htype _ =>
    rw [htype, if_neg (by simp)]
    split <;> simp
  · next hrid =>
    rw [hrid, if_neg (by simp), Option.toList_none, List.append_nil]

/-- The coroutine lane of a request has the waits of its events, in the order of the loop. -/
theorem coroSched_coroutineLifecycle (events : List CoroutineEvent) (rid : String) :
    (coroutineLifecycle events).coroSched.intervals.getD rid [] =
      (sortCoroutineEvents events).filterMap (coroWait rid) := by
  unfold coroutineLifecycle
  induction sortCoroutineEvents events using List.reverseRecOn with
  | nil => rfl
  | append_singleton events ev ih =>
    rw [List.foldl_concat, coroSched_step, ih, List.filterMap_append]
    rfl

/-! ## The output side -/

/-- What an output event draws under a request: its interval for every id that is read as the
    request's. -/
def roundIntervals (rid : String) (reqIds : List String) (durNs startNs endNs : Option ℤ) :
    List (ℤ × ℤ) :=
  match durNs with
  | some durNs =>
    if durNs < 0 then []
    else ((normalizeRequestIds reqIds).filter (· = rid)).flatMap fun _ =>
      (drawnInterval startNs endNs).toList
  | none => []

/-- A round adds its interval to every request that it names. -/
theorem ReqSpans.getD_intervals_noteRound (spans : ReqSpans) (rid : String)
    (reqIds : List String) (durNs startNs endNs : Option ℤ) :
    (spans.noteRound reqIds durNs startNs endNs).intervals.getD rid [] =
      spans.intervals.getD rid [] ++ roundIntervals rid reqIds durNs startNs endNs := by
  unfold noteRound roundIntervals
  cases durNs with
  | none => rw [List.append_nil]
  | some durNs =>
    dsimp only
    split
    · rw [List.append_nil]
    · -- by induction on the ids, each of which gets the interval once
      generalize normalizeRequestIds reqIds = rids
      induction rids generalizing spans with
      | nil => simp
      | cons rid' rids ih =>
        rw [List.foldl_cons, ih, getD_intervals_note, List.append_assoc]
        by_cases hrid : rid' = rid
        · rw [if_pos hrid.symm, List.filter_cons_of_pos (by simpa using hrid), List.flatMap_cons]
        · rw [if_neg (Ne.symm hrid), List.filter_cons_of_neg (by simpa using hrid), List.nil_append]

/-- The waits and the slices that an event draws under a request. -/
def OutputSchedEvent.intervals (rid : String) (ev : OutputSchedEvent) : List (ℤ × ℤ) :=
  roundIntervals rid ev.reqIds ev.queueNs ev.readyTsNs ev.runTsNs

def OutputExecEvent.intervals (rid : String) (ev : OutputExecEvent) : List (ℤ × ℤ) :=
  roundIntervals rid ev.reqIds (eventDuration ev.durationNs ev.startNs ev.endNs) ev.startNs ev.endNs

/-- The waits of a request, event by event. -/
theorem intervals_outputSched (events : List OutputSchedEvent) (rid : String) :
    (outputSched events).intervals.getD rid [] =
      events.flatMap (OutputSchedEvent.intervals rid) := by
  unfold outputSched
  induction events using List.reverseRecOn with
  | nil => rfl
  | append_singleton events ev ih =>
    rw [List.foldl_concat, ReqSpans.getD_intervals_noteRound, ih, List.flatMap_append,
      List.flatMap_singleton]
    rfl

/-- The executions of a request, event by event. -/
theorem intervals_outputExec (events : List OutputExecEvent) (rid : String) :
    (outputExec events).intervals.getD rid [] =
      events.flatMap (OutputExecEvent.intervals rid) := by
  unfold outputExec
  induction events using List.reverseRecOn with
  | nil => rfl
  | append_singleton events ev ih =>
    rw [List.foldl_concat, ReqSpans.getD_intervals_noteRound, ih, List.flatMap_append,
      List.flatMap_singleton]
    rfl

/-- An event draws nothing under a request that it does not name. -/
theorem roundIntervals_of_notMem {rid : String} {reqIds : List String}
    (h : rid ∉ normalizeRequestIds reqIds) (durNs startNs endNs : Option ℤ) :
    roundIntervals rid reqIds durNs startNs endNs = [] := by
  -- the filter for the request keeps no id of the round
  have hnone : (normalizeRequestIds reqIds).filter (· = rid) = [] := by
    rw [List.filter_eq_nil_iff]
    rintro rid' hrid'
    simp only [decide_eq_true_eq]
    rintro rfl
    exact h hrid'
  unfold roundIntervals
  rw [hnone]
  split
  · split <;> rfl
  · rfl

/-- Among distinct ids of which only `rid` itself is read as `rid`, it is read once. -/
theorem filter_normalizeRequestIds {rid : String} {reqIds : List String} (hnodup : reqIds.Nodup)
    (hread : ∀ raw ∈ reqIds, normalizeRequestId raw = some rid ↔ raw = rid) :
    (normalizeRequestIds reqIds).filter (· = rid) = if rid ∈ reqIds then [rid] else [] := by
  induction reqIds with
  | nil => rfl
  | cons raw reqIds ih =>
    obtain ⟨hraw, hnodup⟩ := List.nodup_cons.mp hnodup
    have hrest := ih hnodup fun raw' hraw' => hread raw' (List.mem_cons_of_mem _ hraw')
    have hhead := hread raw List.mem_cons_self
    -- the id itself is read as it stands, and no other is read as it
    by_cases heq : raw = rid
    · subst heq
      rw [normalizeRequestIds, List.filterMap_cons_some (hhead.mpr rfl),
        List.filter_cons_of_pos (by simp), if_pos List.mem_cons_self]
      change raw :: (normalizeRequestIds reqIds).filter (· = raw) = [raw]
      rw [hrest, if_neg hraw]
    · have hmem : rid ∈ raw :: reqIds ↔ rid ∈ reqIds := by simp [Ne.symm heq]
      simp only [hmem]
      rw [← hrest, normalizeRequestIds, normalizeRequestIds]
      cases hnorm : normalizeRequestId raw with
      | none => rw [List.filterMap_cons_none hnorm]
      | some rid' =>
        rw [List.filterMap_cons_some hnorm, List.filter_cons_of_neg]
        have hne : normalizeRequestId raw ≠ some rid := fun h => heq (hhead.mp h)
        simpa [hnorm] using hne

/-- A round is drawn once for each of its requests. -/
theorem roundIntervals_some {rid : String} {reqIds : List String} (hnodup : reqIds.Nodup)
    (hread : ∀ raw ∈ reqIds, normalizeRequestId raw = some rid ↔ raw = rid) {durNs : ℤ}
    (hdur : 0 ≤ durNs) (startNs endNs : Option ℤ) :
    roundIntervals rid reqIds (some durNs) startNs endNs =
      if rid ∈ reqIds then (drawnInterval startNs endNs).toList else [] := by
  simp only [roundIntervals]
  rw [if_neg (not_lt.mpr hdur), filter_normalizeRequestIds hnodup hread]
  split
  · rw [List.flatMap_singleton]
  · rfl

end DeLatency
