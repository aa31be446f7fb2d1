import DeLatency.Spec.Cupti
import Mathlib.Data.Finset.Basic
import Mathlib.Data.Finset.Insert

/-!
# What an acknowledged `off` says about CUPTI

CUPTI has a state of its own, which only the calls that succeed change.  A disable that
fails in part forgets the subscription and clears the flag all the same, and the next
`off` finds nothing to do and answers `ok`.  So the answer can be trusted as long as
every call that gives something back to CUPTI succeeds (`offMeansOff_iff`).
-/

namespace DeLatency

/-! ## CUPTI's own state -/

/-- The activity kinds and subscriptions that CUPTI holds for the tracer. -/
structure CuptiState where
  enabledKinds : Finset ActivityKind := ∅
  subscriptions : Finset SubscriberHandle := ∅
deriving DecidableEq

namespace CuptiState

/-- Only a call that succeeds changes anything. -/
def apply (s : CuptiState) : CuptiCall × Bool → CuptiState
  | (.activityEnable kind, true) => { s with enabledKinds := insert kind s.enabledKinds }
  | (.activityDisable kind, true) => { s with enabledKinds := s.enabledKinds.erase kind }
  | (.subscribe (some subscriber), true) =>
    { s with subscriptions := insert subscriber s.subscriptions }
  | (.unsubscribe subscriber, true) =>
    { s with subscriptions := s.subscriptions.erase subscriber }
  | _ => s

/-- CUPTI holds nothing for the tracer. -/
def Clean (s : CuptiState) : Prop := s.enabledKinds = ∅ ∧ s.subscriptions = ∅

instance (s : CuptiState) : Decidable s.Clean := inferInstanceAs (Decidable (_ ∧ _))

/-- A call does not fail to give back what CUPTI holds. -/
def Releases (s : CuptiState) : CuptiCall × Bool → Prop
  | (.activityDisable kind, ok) => kind ∈ s.enabledKinds → ok = true
  | (.unsubscribe subscriber, ok) => subscriber ∈ s.subscriptions → ok = true
  | _ => True

/-- No call in the sequence fails to give back what CUPTI holds at that time. -/
def AllRelease (s : CuptiState) : List (CuptiCall × Bool) → Prop
  | [] => True
  | c :: calls => s.Releases c ∧ (s.apply c).AllRelease calls

/-- A list of calls releases when its parts do, each in the state it starts from. -/
theorem allRelease_append {s : CuptiState} {calls calls' : List (CuptiCall × Bool)} :
    s.AllRelease (calls ++ calls') ↔
      s.AllRelease calls ∧ (calls.foldl apply s).AllRelease calls' := by
  induction calls generalizing s with
  | nil => simp [AllRelease]
  | cons c calls ih =>
    simp only [List.cons_append, AllRelease, List.foldl_cons, ih]
    exact and_assoc.symm

/-! ## Idle calls, enables and disables -/

/-- An idle call changes nothing and asks for no success. -/
theorem apply_of_idle {c : CuptiCall × Bool} (h : CuptiCall.Idle c) (s : CuptiState) :
    s.apply c = s ∧ s.Releases c := by
  obtain ⟨call, ok⟩ := c
  cases call with
  | activityRegisterCallbacks => exact ⟨rfl, trivial⟩
  | activityFlushAll => exact ⟨rfl, trivial⟩
  | subscribe subscriber =>
    -- a subscription that failed is idle
    have hnone : subscriber = none := h
    subst hnone
    exact ⟨rfl, trivial⟩
  | enableDomain => exact h.elim
  | activityEnable => exact h.elim
  | activityDisable => exact h.elim
  | unsubscribe => exact h.elim

/-- A list of idle calls changes nothing either. -/
theorem foldl_of_idle {calls : List (CuptiCall × Bool)} (h : ∀ c ∈ calls, CuptiCall.Idle c)
    (s : CuptiState) : calls.foldl apply s = s ∧ s.AllRelease calls := by
  induction calls with
  | nil => exact ⟨rfl, trivial⟩
  | cons c calls ih =>
    obtain ⟨hc, h⟩ := List.forall_mem_cons.mp h
    -- an idle call changes nothing in the device state
    obtain ⟨happly, hreleases⟩ := apply_of_idle hc s
    rw [List.foldl_cons, AllRelease, happly]
    exact ⟨(ih h).1, hreleases, (ih h).2⟩

/-- After the disable calls a kind is on exactly when it was and its call was not made or failed.
    -/
theorem mem_foldl_activityDisable (kinds : List ActivityKind) (ok : ActivityKind → Bool)
    (s : CuptiState) :
    let s' := (kinds.map fun kind => (CuptiCall.activityDisable kind, ok kind)).foldl apply s
    (∀ kind, kind ∈ s'.enabledKinds ↔ kind ∈ s.enabledKinds ∧ (kind ∈ kinds → ok kind = false)) ∧
      s'.subscriptions = s.subscriptions := by
  induction kinds generalizing s with
  | nil => simp
  | cons k kinds ih =>
    obtain ⟨hmem, hsub⟩ := ih (s.apply (.activityDisable k, ok k))
    simp only [List.map_cons, List.foldl_cons]
    refine ⟨fun kind => ?_, hsub.trans ?_⟩
    · rw [hmem kind, List.mem_cons]
      -- a call that fails leaves its kind enabled
      cases hok : ok k with
      | true =>
        simp only [apply, Finset.mem_erase]
        by_cases hk : kind = k <;> simp_all
      | false =>
        simp only [apply]
        by_cases hk : kind = k <;> simp_all
    · cases ok k <;> rfl

/-- The disable calls release when those of the enabled kinds succeed. -/
theorem allRelease_activityDisable (kinds : List ActivityKind) (ok : ActivityKind → Bool)
    (s : CuptiState) :
    s.AllRelease (kinds.map fun kind => (CuptiCall.activityDisable kind, ok kind)) ↔
      ∀ kind ∈ kinds, kind ∈ s.enabledKinds → ok kind = true := by
  induction kinds generalizing s with
  | nil => simp [AllRelease]
  | cons k kinds ih =>
    rw [List.map_cons, AllRelease, ih, List.forall_mem_cons]
    refine and_congr_right fun hk => forall₂_congr fun kind _ => ?_
    -- a call that fails must be for a kind that is off already
    cases hok : ok k with
    | true =>
      simp only [apply, Finset.mem_erase]
      by_cases hkind : kind = k <;> simp_all
    | false => rfl

/-- After the enable calls a kind is on when it was or its call succeeded. -/
theorem mem_foldl_activityEnable (kinds : List ActivityKind) (ok : ActivityKind → Bool)
    (s : CuptiState) :
    let calls := kinds.map fun kind => (CuptiCall.activityEnable kind, ok kind)
    (∀ kind, kind ∈ (calls.foldl apply s).enabledKinds ↔
        kind ∈ s.enabledKinds ∨ (kind ∈ kinds ∧ ok kind = true)) ∧
      (calls.foldl apply s).subscriptions = s.subscriptions ∧ s.AllRelease calls := by
  induction kinds generalizing s with
  | nil => simp [AllRelease]
  | cons k kinds ih =>
    obtain ⟨hmem, hsub, hall⟩ := ih (s.apply (.activityEnable k, ok k))
    simp only [List.map_cons, List.foldl_cons, AllRelease]
    refine ⟨fun kind => ?_, hsub.trans ?_, trivial, hall⟩
    · rw [hmem kind, List.mem_cons]
      -- a call that fails enables nothing
      cases hok : ok k with
      | true =>
        simp only [apply, Finset.mem_insert]
        by_cases hk : kind = k <;> simp_all
      | false =>
        simp only [apply]
        by_cases hk : kind = k <;> simp_all
    · cases ok k <;> rfl

/-- Calls that switch domains touch neither kinds nor subscriptions, and ask for no success. -/
theorem foldl_enableDomain (domains : List CallbackDomain) (enable : Bool)
    (subscriber : SubscriberHandle) (ok : CallbackDomain → Bool) (s : CuptiState) :
    let calls := domains.map fun domain =>
      (CuptiCall.enableDomain enable subscriber domain, ok domain)
    calls.foldl apply s = s ∧ s.AllRelease calls := by
  induction domains with
  | nil => exact ⟨rfl, trivial⟩
  | cons domain domains ih => exact ⟨ih.1, trivial, ih.2⟩

/-- After the calls of an enable the kinds are enabled whose call succeeded. -/
theorem foldl_enable (o : EnableOutcomes) (subscriber : SubscriberHandle) (s : CuptiState) :
    (∀ kind, kind ∈ ((o.calls subscriber).foldl apply s).enabledKinds ↔
        kind ∈ s.enabledKinds ∨ o.activityEnable kind = true) ∧
      ((o.calls subscriber).foldl apply s).subscriptions = s.subscriptions ∧
      s.AllRelease (o.calls subscriber) := by
  obtain ⟨hdomain, hdomainAll⟩ :=
    foldl_enableDomain [.runtimeApi, .driverApi] true subscriber o.enableDomain s
  obtain ⟨hmem, hsub, hall⟩ := mem_foldl_activityEnable
    [.kernel, .memcpy, .memset, .driver, .runtime] o.activityEnable s
  -- the domains first, then the kinds
  rw [EnableOutcomes.calls, List.foldl_append, allRelease_append, hdomain]
  refine ⟨fun kind => ?_, hsub, hdomainAll, hall⟩
  rw [hmem kind]
  cases kind <;> simp

/-- After the calls of a disable the kinds are enabled whose call failed.  The calls
    release everything when nothing is left. -/
theorem foldl_disable (o : DisableOutcomes) {subscriber : SubscriberHandle} {s : CuptiState}
    (hsub : s.subscriptions = {subscriber}) :
    (((o.calls subscriber).foldl apply s).Clean ↔
        (∀ kind ∈ s.enabledKinds, o.activityDisable kind = true) ∧ o.unsubscribe = true) ∧
      (s.AllRelease (o.calls subscriber) ↔
        (∀ kind ∈ s.enabledKinds, o.activityDisable kind = true) ∧ o.unsubscribe = true) := by
  have hkinds : ∀ kind : ActivityKind,
      kind ∈ [ActivityKind.runtime, .driver, .memset, .memcpy, .kernel] := by
    intro kind
    cases kind <;> simp
  obtain ⟨hmem, hsubs⟩ := mem_foldl_activityDisable
    [.runtime, .driver, .memset, .memcpy, .kernel] o.activityDisable s
  have hall := allRelease_activityDisable
    [.runtime, .driver, .memset, .memcpy, .kernel] o.activityDisable s
  rw [DisableOutcomes.calls, DisableOutcomes.activityCalls]
  generalize [ActivityKind.runtime, .driver, .memset, .memcpy, .kernel] = kinds at *
  -- the state between the activity calls and the unsubscription
  generalize hs' : (kinds.map fun kind =>
    (CuptiCall.activityDisable kind, o.activityDisable kind)).foldl apply s = s' at *
  obtain ⟨hdomain, hdomainAll⟩ :=
    foldl_enableDomain [.runtimeApi, .driverApi] false subscriber o.disableDomain s'
  rw [hsub] at hsubs
  constructor
  · have hfold : List.foldl apply s
        ((.activityFlushAll, o.flush) :: (kinds.map fun kind =>
            (CuptiCall.activityDisable kind, o.activityDisable kind)) ++
          [(.activityFlushAll, o.finalFlush)] ++ o.domainCalls subscriber ++
          [(.unsubscribe subscriber, o.unsubscribe)]) =
        s'.apply (.unsubscribe subscriber, o.unsubscribe) := by
      simp only [List.foldl_append, List.cons_append, List.foldl_cons, List.foldl_nil]
      rw [show s.apply (.activityFlushAll, o.flush) = s from rfl, hs',
        show s'.apply (.activityFlushAll, o.finalFlush) = s' from rfl, DisableOutcomes.domainCalls,
        hdomain]
    rw [hfold, Clean, Finset.eq_empty_iff_forall_notMem]
    have hleft : (∀ kind, kind ∉ s'.enabledKinds) ↔
        ∀ kind ∈ s.enabledKinds, o.activityDisable kind = true := by
      apply forall_congr'
      intro kind
      rw [hmem kind]
      simp [hkinds kind]
    cases hok : o.unsubscribe with
    | true => simp [apply, hsubs, hleft]
    | false => simp [apply, hsubs]
  · simp only [List.cons_append, allRelease_append, AllRelease, List.foldl_append]
    rw [show s.apply (.activityFlushAll, o.flush) = s from rfl, hall, hs']
    simp only [List.foldl_cons, List.foldl_nil]
    rw [show s'.apply (.activityFlushAll, o.finalFlush) = s' from rfl, DisableOutcomes.domainCalls,
      hdomain]
    simp [Releases, hsubs, hkinds]
    exact fun _ _ => hdomainAll

end CuptiState

namespace Tracer

variable {t t' : Tracer}

/-- What CUPTI holds for the tracer after the calls made so far. -/
def cuptiState (t : Tracer) : CuptiState := t.calls.foldl CuptiState.apply {}

/-! ## The tracer knows what CUPTI holds -/

/-- The tracer's two variables tell what CUPTI holds. -/
structure Knows (t : Tracer) : Prop where
  off : t.subscriber = none → t.cuptiState.Clean
  on : ∀ subscriber, t.subscriber = some subscriber → t.cuptiState.subscriptions = {subscriber}

/-- The tracer thinks that CUPTI is off, and is wrong. -/
structure Mistaken (t : Tracer) : Prop where
  enabled : t.cuptiEnabled = false
  subscriber : t.subscriber = none
  held : ¬t.cuptiState.Clean

/-- The calls of an enable hold nothing back, and leave the new subscription alone. -/
theorem Knows.enable (h : t.Knows) (hnone : t.subscriber = none) {calls : List (CuptiCall × Bool)}
    (hidle : ∀ c ∈ calls, CuptiCall.Idle c) (o : EnableOutcomes) (subscriber : SubscriberHandle) :
    t.cuptiState.AllRelease (calls ++ (.subscribe (some subscriber), true) :: o.calls subscriber) ∧
      ((t.calls ++ (calls ++ (.subscribe (some subscriber), true) :: o.calls subscriber)).foldl
        CuptiState.apply {}).subscriptions = {subscriber} := by
  -- the calls before the subscription are idle
  obtain ⟨hfold, hall⟩ := CuptiState.foldl_of_idle hidle t.cuptiState
  obtain ⟨-, hsubs, hallEnable⟩ := CuptiState.foldl_enable o subscriber
    (t.cuptiState.apply (.subscribe (some subscriber), true))
  constructor
  · rw [CuptiState.allRelease_append, hfold]
    exact ⟨hall, trivial, hallEnable⟩
  · rw [List.foldl_append, List.foldl_append, ← cuptiState, hfold, List.foldl_cons, hsubs]
    show insert subscriber t.cuptiState.subscriptions = _
    -- without a subscriber there was no subscription left, so the new one is alone
    rw [(h.off hnone).2]
    rfl

/-- The step lemma: the tracer goes on knowing what CUPTI holds exactly when the calls of
    the step release what they should. -/
theorem Transition.knows_or_mistaken (htrans : Transition t t') (h : t.Knows) :
    ∃ calls, t'.calls = t.calls ++ calls ∧
      ((t.cuptiState.AllRelease calls ∧ t'.Knows) ∨
        (¬t.cuptiState.AllRelease calls ∧ t'.Mistaken)) := by
  cases htrans with
  | idle calls registered hidle =>
    obtain ⟨hfold, hall⟩ := CuptiState.foldl_of_idle hidle t.cuptiState
    refine ⟨calls, rfl, .inl ⟨hall, ?_⟩⟩
    have hstate : ({ t with
        calls := t.calls ++ calls
        activityCallbacksRegistered := registered } : Tracer).cuptiState = t.cuptiState := by
      rw [cuptiState, List.foldl_append]
      exact hfold
    exact ⟨fun hsub => hstate ▸ h.off hsub, fun subscriber hsub => hstate ▸ h.on subscriber hsub⟩
  | turnOn o subscriber calls _ hnone hidle =>
    obtain ⟨hall, hheld⟩ := h.enable hnone hidle o subscriber
    refine ⟨calls ++ (.subscribe (some subscriber), true) :: o.calls subscriber,
      List.append_assoc .., .inl ⟨hall, by simp, fun subscriber' hsub => ?_⟩⟩
    cases hsub
    rw [cuptiState, List.append_assoc]
    exact hheld
  | rollBack o subscriber calls henabled hnone hidle =>
    -- what CUPTI holds when the rollback starts
    obtain ⟨hall, hheld⟩ := h.enable hnone hidle o subscriber
    obtain ⟨hclean, hrelease⟩ := CuptiState.foldl_disable o.rollback hheld
    rw [List.foldl_append, ← cuptiState] at hclean hrelease
    refine ⟨calls ++ (.subscribe (some subscriber), true) :: o.calls subscriber ++
      o.rollback.calls subscriber, by simp, ?_⟩
    have hiff : t.cuptiState.AllRelease
        (calls ++ (.subscribe (some subscriber), true) :: o.calls subscriber ++
          o.rollback.calls subscriber) ↔
        ({ t with
            calls := t.calls ++ calls ++
              (.subscribe (some subscriber), true) :: o.calls subscriber ++
              o.rollback.calls subscriber
            activityCallbacksRegistered := true } : Tracer).cuptiState.Clean := by
      rw [CuptiState.allRelease_append, hrelease, ← hclean, cuptiState, cuptiState,
        ← List.foldl_append, ← List.foldl_append, ← List.append_assoc, ← List.append_assoc]
      exact ⟨And.right, fun h => ⟨hall, h⟩⟩
    rw [hiff]
    refine (Classical.em _).imp (fun hc => ⟨hc, fun _ => hc, fun _ hsub => ?_⟩)
      fun hc => ⟨hc, henabled, hnone, hc⟩
    cases hnone.symm.trans hsub
  | turnOff o subscriber _ hsub =>
    obtain ⟨hclean, hrelease⟩ := CuptiState.foldl_disable o (h.on subscriber hsub)
    refine ⟨o.calls subscriber, rfl, ?_⟩
    have hstate : ({ t with
        calls := t.calls ++ o.calls subscriber
        subscriber := none
        cuptiEnabled := false } : Tracer).cuptiState =
        (o.calls subscriber).foldl CuptiState.apply t.cuptiState := List.foldl_append ..
    rw [hrelease, ← hclean, ← hstate]
    exact (Classical.em _).imp (fun hc => ⟨hc, fun _ => hc, by simp⟩)
      fun hc => ⟨hc, rfl, rfl, hc⟩

/-- One more action is one more step. -/
theorem run_concat (pid : ℕ) (path : String)
    (actions : List (TracerAction × CuptiOutcomes)) (a : TracerAction × CuptiOutcomes) :
    run pid path (actions ++ [a]) = (run pid path actions).step a := by
  rw [run, List.foldl_append]
  rfl

/-- The calls of a run extend those of its prefixes. -/
theorem exists_calls_run (pid : ℕ) (path : String)
    (pre post : List (TracerAction × CuptiOutcomes)) :
    ∃ calls, (run pid path (pre ++ post)).calls = (run pid path pre).calls ++ calls := by
  induction post using List.reverseRecOn with
  | nil => exact ⟨[], by simp⟩
  | append_singleton post a ih =>
    obtain ⟨calls, hcalls⟩ := ih
    -- a step only adds to the calls made
    obtain ⟨new, hnew⟩ := (transition_step (agrees_run pid path (pre ++ post)) a).exists_calls
    refine ⟨calls ++ new, ?_⟩
    rw [← List.append_assoc, run_concat, hnew, hcalls, List.append_assoc]

/-- The run lemma: a run whose calls release everything leaves a tracer that knows what
    CUPTI holds; otherwise the tracer is mistaken after some of its actions. -/
theorem knows_or_mistaken_run (pid : ℕ) (path : String)
    (actions : List (TracerAction × CuptiOutcomes)) :
    (CuptiState.AllRelease {} (run pid path actions).calls ∧ (run pid path actions).Knows) ∨
      (¬CuptiState.AllRelease {} (run pid path actions).calls ∧
        ∃ pre post, actions = pre ++ post ∧ (run pid path pre).Mistaken) := by
  induction actions using List.reverseRecOn with
  | nil => exact .inl ⟨trivial, fun _ => ⟨rfl, rfl⟩, by simp [run]⟩
  | append_singleton actions a ih =>
    rw [run_concat]
    have htrans := transition_step (agrees_run pid path actions) a
    obtain ⟨hall, hknows⟩ | ⟨hnot, pre, post, heq, hmistaken⟩ := ih
    · -- the tracer knew what CUPTI held until this action
      obtain ⟨calls, hcalls, hstep⟩ := htrans.knows_or_mistaken hknows
      rw [hcalls, CuptiState.allRelease_append]
      obtain ⟨hcallsAll, hknows'⟩ | ⟨hcallsNot, hmistaken⟩ := hstep
      · exact .inl ⟨⟨hall, hcallsAll⟩, hknows'⟩
      · refine .inr ⟨fun h => hcallsNot h.2, actions ++ [a], [], by simp, ?_⟩
        rwa [run_concat]
    · -- it was mistaken before, and a longer run has the same call that failed
      refine .inr ⟨fun h => hnot ?_, pre, post ++ [a], by simp [heq], hmistaken⟩
      obtain ⟨calls, hcalls⟩ := htrans.exists_calls
      rw [hcalls, CuptiState.allRelease_append] at h
      exact h.1

end Tracer

/-! ## The result -/

/-- The commands that turn CUPTI off. -/
def offCommands : List String :=
  ["off", "disable", "off graceful", "disable graceful", "off fast", "disable fast"]

/-- Both spellings of the off command answer for the same disable. -/
theorem handleControlCommand_off {command : String} (hcommand : command ∈ offCommands)
    (t : Tracer) (o : CuptiOutcomes) :
    t.handleControlCommand command o =
      Tracer.respond (t.cuptiDisableLocked o.disable) "error=disable_failed" := by
  simp only [offCommands, List.mem_cons, List.not_mem_nil, or_false] at hcommand
  obtain rfl | rfl | rfl | rfl | rfl | rfl := hcommand <;> simp [Tracer.handleControlCommand]

/-- Whenever a command that turns CUPTI off is sent in the course of the actions and is
    answered with `ok`, CUPTI holds nothing for the tracer. -/
def OffMeansOff (pid : ℕ) (path : String) (actions : List (TracerAction × CuptiOutcomes)) : Prop :=
  ∀ pre post, actions = pre ++ post → ∀ command ∈ offCommands, ∀ o,
    HasOkLead ((Tracer.run pid path pre).handleControlCommand command o).2 →
    ((Tracer.run pid path pre).handleControlCommand command o).1.cuptiState.Clean

/-- A tracer that knows what CUPTI holds gives everything back before it answers `ok`. -/
theorem clean_of_off_ok {t : Tracer} (hagrees : t.Agrees) (h : t.Knows) (o : DisableOutcomes)
    (hok : (t.cuptiDisableLocked o).2 = true) : (t.cuptiDisableLocked o).1.cuptiState.Clean := by
  obtain ⟨henabled, hsub⟩ | ⟨subscriber, -, hsub⟩ := hagrees.cases
  · rw [Tracer.cuptiDisableLocked_of_off o henabled hsub]
    exact h.off hsub
  · rw [Tracer.cuptiDisableLocked_of_subscriber o hsub] at hok ⊢
    obtain ⟨hunsubscribe, hcalls⟩ := Bool.and_eq_true_iff.mp hok
    obtain ⟨hclean, -⟩ := CuptiState.foldl_disable o (h.on subscriber hsub)
    rw [Tracer.cuptiState, List.foldl_append]
    refine hclean.mpr ⟨fun kind _ => ?_, hunsubscribe⟩
    -- every kind has its disable call, and all of them succeeded
    have hmem : (.activityDisable kind, o.activityDisable kind) ∈ o.activityCalls := by
      cases kind <;> simp [DisableOutcomes.activityCalls]
    exact List.all_eq_true.mp hcalls _ hmem

/-- All calls succeed. -/
def allSucceed : CuptiOutcomes where
  enable := {
    register := true
    subscribe := some 1
    enableDomain := fun _ => true
    activityEnable := fun _ => true
    rollback := ⟨true, fun _ => true, true, fun _ => true, true⟩ }
  disable := ⟨true, fun _ => true, true, fun _ => true, true⟩
  flush := true

/-- An acknowledged `off` means that CUPTI is off at every point of a run, if and only if no
    `cuptiUnsubscribe` of the run and no `cuptiActivityDisable` of an enabled kind fails. -/
theorem offMeansOff_iff (pid : ℕ) (path : String)
    (actions : List (TracerAction × CuptiOutcomes)) :
    OffMeansOff pid path actions ↔
      CuptiState.AllRelease {} (Tracer.run pid path actions).calls := by
  constructor
  · intro h
    obtain ⟨hall, -⟩ | ⟨-, pre, post, heq, hmistaken⟩ :=
      Tracer.knows_or_mistaken_run pid path actions
    · exact hall
    · -- the tracer has nothing to do and answers `ok`
      have hcommand : "off" ∈ offCommands := List.mem_cons_self
      have hclean := h pre post heq "off" hcommand allSucceed
      rw [handleControlCommand_off hcommand,
        Tracer.cuptiDisableLocked_of_off _ hmistaken.enabled hmistaken.subscriber,
        hasOkLead_respond_iff _ ⟨_, rfl⟩] at hclean
      exact absurd (hclean rfl) hmistaken.held
  · intro hall pre post heq command hcommand o hreply
    have hknows : (Tracer.run pid path pre).Knows := by
      obtain ⟨-, hknows⟩ | ⟨hnot, -⟩ := Tracer.knows_or_mistaken_run pid path pre
      · exact hknows
      · -- the calls of the whole run extend those of the first part
        obtain ⟨calls, hcalls⟩ := Tracer.exists_calls_run pid path pre post
        rw [heq, hcalls, CuptiState.allRelease_append] at hall
        exact absurd hall.1 hnot
    rw [handleControlCommand_off hcommand] at hreply ⊢
    rw [hasOkLead_respond_iff _ ⟨_, rfl⟩] at hreply
    exact clean_of_off_ok (Tracer.agrees_run pid path pre) hknows o.disable hreply

/-! ## A lost subscription -/

/-- All calls succeed, except `cuptiUnsubscribe`. -/
def unsubscribeFails : CuptiOutcomes :=
  { allSucceed with disable := { allSucceed.disable with unsubscribe := false } }

/-- After an `off` whose `cuptiUnsubscribe` failed, a second `off` answers `ok` while the
    subscription still exists. -/
theorem not_offMeansOff_unsubscribeFails :
    ¬OffMeansOff 100 "" [(.controlCommand "on", allSucceed),
      (.controlCommand "off", unsubscribeFails)] := by
  intro h
  have hclean := h _ [] (List.append_nil _).symm "off" (by decide) allSucceed (by decide)
  exact absurd hclean (by decide)

end DeLatency
