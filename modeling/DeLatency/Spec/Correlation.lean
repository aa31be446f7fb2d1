import DeLatency.ForStd.ListExtra
import DeLatency.Spec.CuptiOff
import DeLatency.Tracer.Correlation

/-!
# Entries of the correlation map

A call is entered once, and its record is delivered after that.  Nothing but a disable
takes an entry out of the map: an entry that `bufferCompleted` has used stays.  So the map
holds undelivered calls only as long as no lookup finds anything
(`holdsOnlyUndelivered_iff`).  Every action that turns CUPTI off clears the map
(`Tracer.clears_of_turnedOff`), and CUPTI is off after every action that does
(`Tracer.off_of_clears`).
-/

namespace DeLatency

/-! ## Delivered calls -/

/-- The call that an activity belongs to, if it is one of the API. -/
def Activity.callId : Activity → Option UInt32
  | .api _ record => some record.correlationId
  | _ => none

namespace BufferContext

variable (ctx : BufferContext)

/-- Only the activity of an API call becomes a record of one. -/
theorem callId_record (activity : Activity) :
    ((ctx.record activity).filter fun rec => rec.type.IsApi).map
      UnifiedTraceRecord.correlationId = activity.callId := by
  cases activity with
  | kernel k => rfl
  | memcpy m => rfl
  | memset m => rfl
  -- calls of either domain carry their own id
  | api domain api => cases domain <;> rfl
  | other => rfl

end BufferContext

namespace CorrState

variable {callbackName : CallbackDomain → UInt32 → Option String}

/-- With CUPTI on and a socket, all calls of a buffer are delivered. -/
theorem deliveredCalls_eq (s : CorrState) (zmqPush : Bool) (buffer : List Activity) :
    s.deliveredCalls callbackName zmqPush buffer =
      if zmqPush ∧ s.tracer.cuptiEnabled then buffer.filterMap Activity.callId else [] := by
  unfold deliveredCalls sentRecords bufferCompleted
  -- without a socket, or with tracing off, nothing is sent
  cases zmqPush with
  | false => simp
  | true =>
    cases s.tracer.cuptiEnabled with
    | false => simp
    | true =>
      simp only [if_true, and_self, List.filter_filterMap, List.map_filterMap]
      exact congrArg buffer.filterMap (funext (s.context callbackName).callId_record)

end CorrState

/-! ## Clearing -/

/-- An action that turns CUPTI off clears the map. -/
theorem Tracer.clears_of_turnedOff {t : Tracer} {a : TracerAction × CuptiOutcomes}
    (hon : t.cuptiEnabled = true) (hoff : (t.step a).cuptiEnabled = false) :
    t.clears a = true := by
  have henable : ∀ o, (t.cuptiEnableLocked o).1 = t := fun o => by
    rw [cuptiEnableLocked, if_pos hon]
  have hdisable : t.disableClears = true := by rw [disableClears, hon, Bool.true_or]
  have hkeeps : ¬t.cuptiEnabled = false := by rw [hon]; decide
  obtain ⟨action, o⟩ := a
  cases action with
  | initCuptiTracer startEnabled =>
    cases startEnabled with
    | true => exact absurd ((congrArg cuptiEnabled (henable o.enable)).symm.trans hoff) hkeeps
    | false => exact absurd hoff hkeeps
  | controlCommand command =>
    simp only [step, handleControlCommand, respond] at hoff
    simp only [clears]
    -- only the two kinds of `off` change the flag
    split at hoff
    · exact absurd hoff hkeeps
    split at hoff
    · exact absurd ((congrArg cuptiEnabled (henable o.enable)).symm.trans hoff) hkeeps
    next hnotOn =>
    rw [if_neg hnotOn]
    split at hoff
    · next hcommand => rw [if_pos (by tauto), hdisable]
    split at hoff
    · next hcommand => rw [if_pos (by tauto), hdisable]
    split at hoff
    · split at hoff
      · exact absurd hoff hkeeps
      · exact absurd hoff hkeeps
    · exact absurd hoff hkeeps
  | deinitCuptiTracer => exact hdisable

/-- Turning CUPTI on clears the map only when it fails. -/
theorem Tracer.off_of_enableClears {t : Tracer} (h : t.Agrees) {o : EnableOutcomes}
    (hclears : t.enableClears o = true) : (t.cuptiEnableLocked o).1.cuptiEnabled = false := by
  obtain ⟨henabled, hsub⟩ | ⟨subscriber, henabled, -⟩ := h.cases
  · have hresult := cuptiEnableLocked_of_off o henabled hsub
    generalize t.cuptiEnableLocked o = result at hresult
    -- only the way that turns tracing on would clear nothing
    cases hresult with
    | notRegistered => exact henabled
    | notSubscribed => exact henabled
    | rolledBack => exact henabled
    | turnedOn subscriber hreg hsubscribe hall =>
      simp [enableClears, henabled, registerActivityCallbacksLocked_eq, hreg, subscribeLocked,
        hsub, hsubscribe, callAll, hall] at hclears
  · rw [enableClears, if_pos henabled] at hclears
    cases hclears

/-- After an action that clears the map, CUPTI is off. -/
theorem Tracer.off_of_clears {t : Tracer} (h : t.Agrees) {a : TracerAction × CuptiOutcomes}
    (hclears : t.clears a = true) : (t.step a).cuptiEnabled = false := by
  have hdisable : ∀ o, (t.cuptiDisableLocked o).1.cuptiEnabled = false := fun o => by
    obtain ⟨henabled, hsub⟩ | ⟨subscriber, -, hsub⟩ := h.cases
    · rw [cuptiDisableLocked_of_off o henabled hsub]
      exact henabled
    · rw [cuptiDisableLocked_of_subscriber o hsub]
  obtain ⟨action, o⟩ := a
  cases action with
  | initCuptiTracer startEnabled =>
    cases startEnabled with
    | true => exact off_of_enableClears h hclears
    | false =>
      -- nothing is turned on, so nothing was cleared
      cases hclears
  | controlCommand command =>
    simp only [clears] at hclears
    simp only [step, handleControlCommand, respond]
    split at hclears
    · next hon =>
      rw [if_neg (by rintro rfl; revert hon; decide), if_pos hon]
      exact off_of_enableClears h hclears
    split at hclears
    · next hnotOn hcommand =>
      rw [if_neg (by rintro rfl; revert hcommand; decide), if_neg hnotOn]
      split
      · exact hdisable o.disable
      · rw [if_pos (by tauto)]
        exact hdisable o.disable
    · cases hclears
  | deinitCuptiTracer => exact hdisable o.disable

/-! ## Runs -/

namespace CorrEvent

/-- The call that an event enters. -/
def enteredIds : CorrEvent → List UInt32
  | .apiEnter correlationId _ => [correlationId]
  | _ => []

/-- The calls whose records are in the buffer of an event. -/
def recordIds : CorrEvent → List UInt32
  | .bufferCompleted _ buffer => buffer.filterMap Activity.callId
  | _ => []

end CorrEvent

/-- Each correlation id is used by one call: it is entered once, and the record of the call
    comes after that. -/
def OneCallPerId (events : List CorrEvent) : Prop :=
  events.Pairwise fun e later =>
    ∀ id ∈ later.enteredIds, id ∉ e.enteredIds ∧ id ∉ e.recordIds

instance (events : List CorrEvent) : Decidable (OneCallPerId events) :=
  inferInstanceAs (Decidable (List.Pairwise _ _))

namespace CorrState

/-- Every key of the map is a call that has been entered and whose record has not been
    delivered. -/
def HoldsOnlyUndelivered (s : CorrState) : Prop :=
  ∀ id ∈ s.corrToOstid.keys, id ∈ s.entered ∧ id ∉ s.delivered

instance (s : CorrState) : Decidable s.HoldsOnlyUndelivered :=
  inferInstanceAs (Decidable (∀ _ ∈ _, _))

/-- An event delivers no call that has an entry: no lookup of it finds anything. -/
def FindsNothing (callbackName : CallbackDomain → UInt32 → Option String) (s : CorrState) :
    CorrEvent → Prop
  | .bufferCompleted zmqPush buffer =>
    ∀ id ∈ s.deliveredCalls callbackName zmqPush buffer, id ∉ s.corrToOstid.keys
  | _ => True

variable {callbackName : CallbackDomain → UInt32 → Option String}

/-! ### Steps -/

/-- A call that is entered has not been delivered. -/
theorem holdsOnlyUndelivered_apiEnter {s : CorrState} {correlationId : UInt32}
    (osTid : UInt32) (hnew : correlationId ∉ s.delivered) (h : s.HoldsOnlyUndelivered) :
    (s.apiEnter correlationId osTid).HoldsOnlyUndelivered := by
  intro id hid
  -- the new entry is that of the call being entered
  have hkey : id = correlationId ∨ id ∈ s.corrToOstid.keys := by
    unfold apiEnter at hid
    split at hid
    · exact Dict.mem_keys_alter.mp hid
    · exact .inr hid
  show id ∈ s.entered ++ [correlationId] ∧ id ∉ s.delivered
  rw [List.mem_append, List.mem_singleton]
  obtain rfl | hold := hkey
  · exact ⟨.inr rfl, hnew⟩
  · exact ⟨.inl (h id hold).1, (h id hold).2⟩

/-- A command takes entries out of the map or leaves it as it is. -/
theorem command_frame (s : CorrState) (action : TracerAction × CuptiOutcomes) :
    ((s.command action).corrToOstid = s.corrToOstid ∨
        (s.command action).corrToOstid = .empty) ∧
      (s.command action).entered = s.entered ∧ (s.command action).delivered = s.delivered := by
  unfold command
  split
  · exact ⟨.inl rfl, rfl, rfl⟩
  · split
    · -- the command cleared the map
      exact ⟨.inr rfl, rfl, rfl⟩
    · exact ⟨.inl rfl, rfl, rfl⟩

/-- The store to the flag leaves the map and the calls as they are. -/
theorem commandDone_frame (s : CorrState) :
    s.commandDone.corrToOstid = s.corrToOstid ∧ s.commandDone.entered = s.entered ∧
      s.commandDone.delivered = s.delivered := by
  unfold commandDone
  split <;> exact ⟨rfl, rfl, rfl⟩

/-- A command makes no entry. -/
theorem holdsOnlyUndelivered_command {s : CorrState} (action : TracerAction × CuptiOutcomes)
    (h : s.HoldsOnlyUndelivered) : (s.command action).HoldsOnlyUndelivered := by
  obtain ⟨hmap, hentered, hdelivered⟩ := s.command_frame action
  intro id hid
  rw [hentered, hdelivered]
  -- the map is the old one or empty
  obtain hmap | hmap := hmap
  · rw [hmap] at hid
    exact h id hid
  · rw [hmap] at hid
    exact absurd hid List.not_mem_nil

/-- A delivery keeps the invariant exactly when it finds nothing. -/
theorem holdsOnlyUndelivered_bufferCompleted {s : CorrState} (zmqPush : Bool)
    (buffer : List Activity) (h : s.HoldsOnlyUndelivered) :
    (s.step callbackName (.bufferCompleted zmqPush buffer)).HoldsOnlyUndelivered ↔
      s.FindsNothing callbackName (.bufferCompleted zmqPush buffer) := by
  have hiff : (s.step callbackName (.bufferCompleted zmqPush buffer)).HoldsOnlyUndelivered ↔
      ∀ id ∈ s.corrToOstid.keys, id ∈ s.entered ∧
        id ∉ s.delivered ++ s.deliveredCalls callbackName zmqPush buffer := Iff.rfl
  rw [hiff]
  constructor
  · -- an entry that is left for a call just delivered breaks the invariant
    intro hafter id hid hkey
    exact (hafter id hkey).2 (List.mem_append_right _ hid)
  · intro hnothing id hkey
    refine ⟨(h id hkey).1, ?_⟩
    rw [List.mem_append, not_or]
    exact ⟨(h id hkey).2, fun hid => hnothing id hid hkey⟩

/-- Only a delivery that finds something breaks the invariant. -/
theorem holdsOnlyUndelivered_step {s : CorrState} {e : CorrEvent}
    (hnew : ∀ id ∈ e.enteredIds, id ∉ s.delivered) (h : s.HoldsOnlyUndelivered) :
    (s.step callbackName e).HoldsOnlyUndelivered ↔ s.FindsNothing callbackName e := by
  -- only a completed buffer delivers; the other steps keep what they find
  cases e with
  | apiEnter correlationId osTid =>
    have hid : correlationId ∉ s.delivered := hnew correlationId List.mem_cons_self
    exact iff_of_true (holdsOnlyUndelivered_apiEnter osTid hid h) trivial
  | bufferCompleted zmqPush buffer => exact holdsOnlyUndelivered_bufferCompleted zmqPush buffer h
  | command action outcomes =>
    exact iff_of_true (holdsOnlyUndelivered_command (action, outcomes) h) trivial
  | commandDone =>
    refine iff_of_true (fun id hid => ?_) trivial
    obtain ⟨hmap, hentered, hdelivered⟩ := s.commandDone_frame
    rw [step, hmap] at hid
    rw [step, hentered, hdelivered]
    exact h id hid

/-! ### Whole runs -/

variable {pid : ℕ} {controlSocketPath : String}

/-- The last event comes after the others. -/
theorem run_concat (events : List CorrEvent) (e : CorrEvent) :
    run callbackName pid controlSocketPath (events ++ [e]) =
      (run callbackName pid controlSocketPath events).step callbackName e := by
  rw [run, run, List.foldl_append]
  rfl

/-- What is newly delivered has its record in the event. -/
theorem mem_delivered_step {s : CorrState} {e : CorrEvent} {id : UInt32}
    (h : id ∈ (s.step callbackName e).delivered) : id ∈ s.delivered ∨ id ∈ e.recordIds := by
  -- what is delivered is delivered by a completed buffer
  cases e with
  | apiEnter correlationId osTid => exact .inl h
  | bufferCompleted zmqPush buffer =>
    obtain hold | hnew := List.mem_append.mp h
    · exact .inl hold
    · rw [deliveredCalls_eq] at hnew
      split at hnew
      · exact .inr hnew
      · exact absurd hnew List.not_mem_nil
  | command action outcomes =>
    rw [step, (s.command_frame (action, outcomes)).2.2] at h
    exact .inl h
  | commandDone =>
    rw [step, s.commandDone_frame.2.2] at h
    exact .inl h

/-- What has been delivered was in a buffer. -/
theorem exists_of_mem_delivered {events : List CorrEvent} {id : UInt32}
    (h : id ∈ (run callbackName pid controlSocketPath events).delivered) :
    ∃ e ∈ events, id ∈ e.recordIds := by
  obtain hnil | hborn : id ∈ ([] : List UInt32) ∨ ∃ e ∈ events, id ∈ e.recordIds :=
    List.exists_mem_of_foldl (P := fun s : CorrState => id ∈ s.delivered) h
      fun _ _ => mem_delivered_step
  · exact absurd hnil List.not_mem_nil
  · exact hborn

end CorrState

open CorrState

variable (callbackName : CallbackDomain → UInt32 → Option String)

/-- The map holds only undelivered calls at every point of a run if and only if no lookup of
    the run ever finds an entry. -/
theorem holdsOnlyUndelivered_iff (pid : ℕ) (controlSocketPath : String)
    {events : List CorrEvent} (hids : OneCallPerId events) :
    (∀ pre, pre <+: events →
        (run callbackName pid controlSocketPath pre).HoldsOnlyUndelivered) ↔
      ∀ pre e, pre ++ [e] <+: events →
        (run callbackName pid controlSocketPath pre).FindsNothing callbackName e := by
  apply List.forall_prefix_iff (fun id hid => absurd hid List.not_mem_nil)
  intro pre e hpre h
  rw [run_concat]
  -- a call that is entered anew has no record yet, since ids are used once
  refine holdsOnlyUndelivered_step ?_ h
  intro id hid hdelivered
  obtain ⟨earlier, hmem, hrecord⟩ := exists_of_mem_delivered hdelivered
  have hpair := (List.pairwise_append.mp (hids.sublist hpre.sublist)).2.2
  exact (hpair earlier hmem e (List.mem_singleton_self e) id hid).2 hrecord

/-- A record of a call with the correlation id 1. -/
def firstCall : ApiActivity where
  start := 10
  endNs := 20
  correlationId := 1
  processId := 4242
  cbid := 211

/-- A call is entered and its record is delivered. -/
def oneCall : List CorrEvent :=
  [.command (.controlCommand "on") allSucceed, .apiEnter 1 4243,
    .bufferCompleted true [.api .runtimeApi firstCall]]

/-- The entry of the only call is still there after its record has been delivered. -/
theorem not_holdsOnlyUndelivered_oneCall :
    OneCallPerId oneCall ∧
      ¬(run (fun _ _ => none) 4242 "" oneCall).HoldsOnlyUndelivered := by
  decide

/-- A call is entered, CUPTI is turned off and on again, and then its record is delivered. -/
def enteredBefore : List CorrEvent :=
  [.command (.controlCommand "on") allSucceed, .apiEnter 1 4243,
    .command (.controlCommand "off") allSucceed, .commandDone,
    .command (.controlCommand "on") allSucceed, .bufferCompleted true [.api .runtimeApi firstCall]]

/-- The entry of a call is cleared before its record is delivered. -/
theorem holdsOnlyUndelivered_enteredBefore :
    (∀ pre, pre <+: enteredBefore →
        (run (fun _ _ => none) 4242 "" pre).HoldsOnlyUndelivered) ↔
      ∀ pre e, pre ++ [e] <+: enteredBefore →
        (run (fun _ _ => none) 4242 "" pre).FindsNothing (fun _ _ => none) e :=
  holdsOnlyUndelivered_iff (fun _ _ => none) 4242 "" (by decide)

end DeLatency
