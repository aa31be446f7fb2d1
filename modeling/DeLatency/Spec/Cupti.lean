import DeLatency.Tracer.Cupti
import Mathlib.Data.Option.Basic
import Mathlib.Data.List.Induction

/-!
# The CUPTI toggle as a state machine

The tracer remembers two things about CUPTI: a flag and a subscription.  They always
agree (`ToggleInv`), so that every action is one of four transitions (`Transition`):
CUPTI stays as it is, it is turned on, it is turned off, or an attempt to turn it on is
rolled back.
-/

namespace DeLatency

/-- All calls of a disable with a subscription. -/
def DisableOutcomes.calls (o : DisableOutcomes) (subscriber : SubscriberHandle) :
    List (CuptiCall × Bool) :=
  o.activityCalls ++ o.domainCalls subscriber ++ [(.unsubscribe subscriber, o.unsubscribe)]

/-- The results that a disable looks at. -/
def DisableOutcomes.ok (o : DisableOutcomes) : Bool := o.unsubscribe && o.activityCalls.all Prod.snd

/-- A call that neither takes anything from CUPTI nor gives it back. -/
def CuptiCall.Idle : CuptiCall × Bool → Prop
  | (.activityRegisterCallbacks, _) => True
  | (.activityFlushAll, _) => True
  | (.subscribe subscriber, _) => subscriber = none
  | _ => False

namespace Tracer

variable {t : Tracer}

/-! ## The routines -/

/-- The flag and the subscription agree. -/
def Agrees (t : Tracer) : Prop := t.cuptiEnabled = true ↔ t.subscriber.isSome

/-- A tracer that is off and holds no subscriber agrees with itself. -/
theorem agrees_of_off (henabled : t.cuptiEnabled = false) (hsub : t.subscriber = none) :
    t.Agrees := by
  simp [Agrees, henabled, hsub]

/-- A tracer that agrees is off without a subscriber, or on with one. -/
theorem Agrees.cases (h : t.Agrees) :
    (t.cuptiEnabled = false ∧ t.subscriber = none) ∨
      ∃ subscriber, t.cuptiEnabled = true ∧ t.subscriber = some subscriber := by
  unfold Agrees at h
  cases hsub : t.subscriber with
  | none =>
    rw [hsub] at h
    exact .inl ⟨by simpa using h, rfl⟩
  | some subscriber =>
    rw [hsub] at h
    exact .inr ⟨subscriber, h.mpr rfl, rfl⟩

/-- Disabling a tracer that is off makes no call and answers true. -/
theorem cuptiDisableLocked_of_off (o : DisableOutcomes) (henabled : t.cuptiEnabled = false)
    (hsub : t.subscriber = none) : t.cuptiDisableLocked o = (t, true) := by
  unfold cuptiDisableLocked
  rw [if_pos (by simp [henabled, hsub])]

/-- Disabling with a subscriber makes the whole sequence of release calls, whatever they answer.
    -/
theorem cuptiDisableLocked_of_subscriber (o : DisableOutcomes) {subscriber : SubscriberHandle}
    (hsub : t.subscriber = some subscriber) :
    t.cuptiDisableLocked o =
      ({ t with
          calls := t.calls ++ o.calls subscriber
          subscriber := none
          cuptiEnabled := false },
        o.ok) := by
  unfold cuptiDisableLocked
  -- with a subscriber every release call is made, one after the other
  rw [if_neg (by simp [hsub])]
  simp only [callAll, hsub, DisableOutcomes.calls, DisableOutcomes.ok, List.append_assoc,
    List.all_cons, List.all_nil, Bool.and_true]

/-- The calls for the registration, when it is not done yet. -/
def registerCalls (t : Tracer) (outcome : Bool) : List (CuptiCall × Bool) :=
  if t.activityCallbacksRegistered then [] else [(.activityRegisterCallbacks, outcome)]

/-- Registration is asked for until it has succeeded, and this is remembered. -/
theorem registerActivityCallbacksLocked_eq (t : Tracer) (outcome : Bool) :
    t.registerActivityCallbacksLocked outcome =
      ({ t with
          calls := t.calls ++ t.registerCalls outcome
          activityCallbacksRegistered := t.activityCallbacksRegistered || outcome },
        t.activityCallbacksRegistered || outcome) := by
  obtain ⟨_, _, _, registered, _, _, _⟩ := t
  -- already registered, or asked for now with either outcome
  cases registered <;> cases outcome <;>
    simp [registerActivityCallbacksLocked, registerCalls, callAll]

/-- What turning CUPTI on does when it is off. -/
inductive EnableResult (t : Tracer) (o : EnableOutcomes) : Tracer × Bool → Prop
  | notRegistered : (t.activityCallbacksRegistered || o.register) = false →
      EnableResult t o ({ t with calls := t.calls ++ t.registerCalls o.register }, false)
  | notSubscribed : (t.activityCallbacksRegistered || o.register) = true → o.subscribe = none →
      EnableResult t o
        ({ t with
            calls := t.calls ++ t.registerCalls o.register ++ [(.subscribe none, false)]
            activityCallbacksRegistered := true }, false)
  | rolledBack (subscriber : SubscriberHandle) :
      (t.activityCallbacksRegistered || o.register) = true → o.subscribe = some subscriber →
      (o.calls subscriber).all Prod.snd = false →
      EnableResult t o
        ({ t with
            calls := t.calls ++ t.registerCalls o.register ++
              (.subscribe (some subscriber), true) :: o.calls subscriber ++
              o.rollback.calls subscriber
            activityCallbacksRegistered := true }, false)
  | turnedOn (subscriber : SubscriberHandle) :
      (t.activityCallbacksRegistered || o.register) = true → o.subscribe = some subscriber →
      (o.calls subscriber).all Prod.snd = true →
      EnableResult t o
        ({ t with
            calls := t.calls ++ t.registerCalls o.register ++
              (.subscribe (some subscriber), true) :: o.calls subscriber
            activityCallbacksRegistered := true
            subscriber := some subscriber
            cuptiGeneration := t.cuptiGeneration + 1
            cuptiEnabled := true }, true)

/-- Enabling a tracer that is off ends in one of the four ways of `EnableResult`. -/
theorem cuptiEnableLocked_of_off (o : EnableOutcomes) (henabled : t.cuptiEnabled = false)
    (hsub : t.subscriber = none) : EnableResult t o (t.cuptiEnableLocked o) := by
  obtain ⟨pid, path, sub, registered, enabled, generation, calls⟩ := t
  subst hsub henabled
  unfold cuptiEnableLocked
  rw [if_neg Bool.false_ne_true, registerActivityCallbacksLocked_eq]
  cases hreg : registered || o.register with
  | false =>
    -- the callbacks could not be registered, so nothing else is called
    obtain ⟨hold, -⟩ := Bool.or_eq_false_iff.mp hreg
    subst hold
    exact .notRegistered hreg
  | true =>
    cases hsubscribe : o.subscribe with
    | none => exact .notSubscribed hreg hsubscribe
    | some subscriber =>
      have happend : ∀ pre : List (CuptiCall × Bool),
          pre ++ [(.subscribe (some subscriber), true)] ++ o.calls subscriber =
            pre ++ (.subscribe (some subscriber), true) :: o.calls subscriber :=
        fun pre => List.append_assoc ..
      simp only [subscribeLocked, callAll, Option.isSome_some, happend]
      cases hall : (o.calls subscriber).all Prod.snd with
      | true => exact .turnedOn subscriber hreg hsubscribe hall
      | false =>
        simp only [Bool.false_eq_true, not_false_eq_true, if_true]
        -- one call failed, and all are taken back
        rw [cuptiDisableLocked_of_subscriber o.rollback rfl]
        exact .rolledBack subscriber hreg hsubscribe hall

/-! ## Every action is one of four transitions -/

/-- What an action makes of a tracer whose flag and subscription agree. -/
inductive Transition (t : Tracer) : Tracer → Prop
  | idle (calls : List (CuptiCall × Bool)) (registered : Bool) :
      (∀ c ∈ calls, CuptiCall.Idle c) →
      (registered = true →
        t.activityCallbacksRegistered = true ∨ (.activityRegisterCallbacks, true) ∈ calls) →
      (t.activityCallbacksRegistered = true → registered = true) →
      Transition t
        { t with calls := t.calls ++ calls, activityCallbacksRegistered := registered }
  | turnOn (o : EnableOutcomes) (subscriber : SubscriberHandle)
      (calls : List (CuptiCall × Bool)) :
      t.cuptiEnabled = false → t.subscriber = none →
      (∀ c ∈ calls, CuptiCall.Idle c) →
      (t.activityCallbacksRegistered = true ∨ (.activityRegisterCallbacks, true) ∈ calls) →
      (o.calls subscriber).all Prod.snd = true →
      Transition t
        { t with
          calls := t.calls ++ calls ++ (.subscribe (some subscriber), true) :: o.calls subscriber
          activityCallbacksRegistered := true
          subscriber := some subscriber
          cuptiGeneration := t.cuptiGeneration + 1
          cuptiEnabled := true }
  | rollBack (o : EnableOutcomes) (subscriber : SubscriberHandle)
      (calls : List (CuptiCall × Bool)) :
      t.cuptiEnabled = false → t.subscriber = none →
      (∀ c ∈ calls, CuptiCall.Idle c) →
      (t.activityCallbacksRegistered = true ∨ (.activityRegisterCallbacks, true) ∈ calls) →
      Transition t
        { t with
          calls := t.calls ++ calls ++
            (.subscribe (some subscriber), true) :: o.calls subscriber ++
            o.rollback.calls subscriber
          activityCallbacksRegistered := true }
  | turnOff (o : DisableOutcomes) (subscriber : SubscriberHandle) :
      t.cuptiEnabled = true → t.subscriber = some subscriber →
      Transition t
        { t with
          calls := t.calls ++ o.calls subscriber
          subscriber := none
          cuptiEnabled := false }

/-- Nothing happening is a transition. -/
theorem Transition.refl (t : Tracer) : Transition t t := by
  have h := Transition.idle (t := t) [] t.activityCallbacksRegistered (by simp)
    (fun h => .inl h) id
  rwa [List.append_nil] at h

/-- The call that registers the activity callbacks is idle. -/
theorem idle_of_mem_registerCalls {outcome : Bool} {c : CuptiCall × Bool}
    (h : c ∈ t.registerCalls outcome) : CuptiCall.Idle c := by
  unfold registerCalls at h
  split at h
  · cases h
  · rw [List.mem_singleton.mp h]
    trivial

/-- If the callbacks are registered afterwards, they were before or the call succeeded now. -/
theorem registered_or_mem {outcome : Bool}
    (h : (t.activityCallbacksRegistered || outcome) = true) :
    t.activityCallbacksRegistered = true ∨
      (.activityRegisterCallbacks, true) ∈ t.registerCalls outcome := by
  unfold registerCalls
  split
  · -- it was registered before, so no call is made
    next hreg => exact .inl hreg
  · next hreg =>
    rw [Bool.not_eq_true] at hreg
    rw [hreg, Bool.false_or] at h
    exact .inr (by rw [h]; exact List.mem_singleton_self _)

/-- Enabling makes one transition. -/
theorem transition_enable (h : t.Agrees) (o : EnableOutcomes) :
    Transition t (t.cuptiEnableLocked o).1 := by
  obtain ⟨henabled, hsub⟩ | ⟨subscriber, henabled, -⟩ := h.cases
  · have hresult := cuptiEnableLocked_of_off o henabled hsub
    generalize t.cuptiEnableLocked o = result at hresult
    -- one transition for each way in which enabling ends
    cases hresult with
    | notRegistered hreg =>
      exact .idle _ _ (fun _ => idle_of_mem_registerCalls) .inl id
    | notSubscribed hreg hsubscribe =>
      rw [List.append_assoc]
      refine .idle _ _ (fun c hc => ?_) (fun _ => ?_) fun _ => rfl
      · cases List.mem_append.mp hc with
        | inl hc => exact idle_of_mem_registerCalls hc
        | inr hc => exact List.mem_singleton.mp hc ▸ rfl
      · exact (registered_or_mem hreg).imp id (List.mem_append_left _)
    | rolledBack subscriber hreg _ _ =>
      exact .rollBack o subscriber _ henabled hsub (fun _ => idle_of_mem_registerCalls)
        (registered_or_mem hreg)
    | turnedOn subscriber hreg _ hall =>
      exact .turnOn o subscriber _ henabled hsub (fun _ => idle_of_mem_registerCalls)
        (registered_or_mem hreg) hall
  · unfold cuptiEnableLocked
    -- already on
    rw [if_pos henabled]
    exact .refl t

/-- Disabling makes one transition. -/
theorem transition_disable (h : t.Agrees) (o : DisableOutcomes) :
    Transition t (t.cuptiDisableLocked o).1 := by
  obtain ⟨henabled, hsub⟩ | ⟨subscriber, henabled, hsub⟩ := h.cases
  · rw [cuptiDisableLocked_of_off o henabled hsub]
    exact .refl t
  · rw [cuptiDisableLocked_of_subscriber o hsub]
    exact .turnOff o subscriber henabled hsub

/-- Every action makes one transition. -/
theorem transition_step (h : t.Agrees) (a : TracerAction × CuptiOutcomes) :
    Transition t (t.step a) := by
  obtain ⟨action, o⟩ := a
  cases action with
  | initCuptiTracer startEnabled =>
    cases startEnabled with
    | true => exact transition_enable h o.enable
    | false => exact .refl t
  | controlCommand command =>
    -- in order: `status`, `on`, the two kinds of `off`, `flush` and any other text
    rw [step]
    unfold handleControlCommand
    split
    · exact .refl t
    split
    · exact transition_enable h o.enable
    split
    · exact transition_disable h o.disable
    split
    · exact transition_disable h o.disable
    split
    · split
      · exact .refl t
      · refine .idle [(.activityFlushAll, o.flush)] t.activityCallbacksRegistered (fun c hc => ?_)
          .inl id
        exact List.mem_singleton.mp hc ▸ trivial
    · exact .refl t
  | deinitCuptiTracer => exact transition_disable h o.disable

/-- A transition keeps the enabled flag and the subscriber in agreement. -/
theorem Transition.agrees {t' : Tracer} (htrans : Transition t t') (h : t.Agrees) : t'.Agrees := by
  cases htrans with
  | idle => exact h
  | turnOn => exact ⟨fun _ => rfl, fun _ => rfl⟩
  | rollBack => exact h
  | turnOff => exact agrees_of_off rfl rfl

/-- A transition only appends to the calls made. -/
theorem Transition.exists_calls {t' : Tracer} (htrans : Transition t t') :
    ∃ calls, t'.calls = t.calls ++ calls := by
  cases htrans with
  | idle calls => exact ⟨calls, rfl⟩
  | turnOn => exact ⟨_, List.append_assoc ..⟩
  | rollBack => exact ⟨_, by rw [List.append_assoc, List.append_assoc]⟩
  | turnOff => exact ⟨_, rfl⟩

/-- The flag and the subscriber agree in every reachable state. -/
theorem agrees_run (pid : ℕ) (path : String) (actions : List (TracerAction × CuptiOutcomes)) :
    (run pid path actions).Agrees := by
  refine List.foldlRecOn actions step ?_ fun t ht a _ => (transition_step ht a).agrees ht
  exact agrees_of_off rfl rfl

end Tracer

/-! ## What is enabled since the last disable -/

/-- A call that disables something. -/
def CuptiCall.isDisable : CuptiCall → Bool
  | .enableDomain enable _ _ => !enable
  | .activityDisable _ => true
  | .unsubscribe _ => true
  | _ => false

/-- The calls end with a stretch that disables nothing, and in which both domains and all
    activity kinds were enabled. -/
def EnabledSinceDisable (calls : List (CuptiCall × Bool)) (subscriber : SubscriberHandle) : Prop :=
  ∃ before since, calls = before ++ since ∧ (∀ c ∈ since, c.1.isDisable = false) ∧
    (∀ domain, (.enableDomain true subscriber domain, true) ∈ since) ∧
    ∀ kind, (.activityEnable kind, true) ∈ since

/-- An idle call is no disable call. -/
theorem isDisable_of_idle {c : CuptiCall × Bool} (h : CuptiCall.Idle c) :
    c.1.isDisable = false := by
  obtain ⟨call, ok⟩ := c
  cases call <;> first | rfl | exact h.elim

/-- Idle calls leave the subscriber enabled since the last disable. -/
theorem EnabledSinceDisable.append_idle {calls idle : List (CuptiCall × Bool)}
    {subscriber : SubscriberHandle} (h : EnabledSinceDisable calls subscriber)
    (hidle : ∀ c ∈ idle, CuptiCall.Idle c) : EnabledSinceDisable (calls ++ idle) subscriber := by
  obtain ⟨before, since, rfl, hsince, hdomain, hkind⟩ := h
  refine ⟨before, since ++ idle, List.append_assoc .., fun c hc => ?_, fun domain => ?_,
    fun kind => ?_⟩
  · -- none of the new calls disables anything
    cases List.mem_append.mp hc with
    | inl hc => exact hsince c hc
    | inr hc => exact isDisable_of_idle (hidle c hc)
  · exact List.mem_append_left _ (hdomain domain)
  · exact List.mem_append_left _ (hkind kind)

/-- An enable in which all calls succeed. -/
theorem enabledSinceDisable_of_all {o : EnableOutcomes} {subscriber : SubscriberHandle}
    (hall : (o.calls subscriber).all Prod.snd = true) (before : List (CuptiCall × Bool)) :
    EnabledSinceDisable
      (before ++ (.subscribe (some subscriber), true) :: o.calls subscriber) subscriber := by
  have hok : ∀ c ∈ o.calls subscriber, c.2 = true := List.all_eq_true.mp hall
  refine ⟨before, _, rfl, fun c hc => ?_, fun domain => ?_, fun kind => ?_⟩
  · cases List.mem_cons.mp hc with
    | inl hc => exact hc ▸ rfl
    | inr hc =>
      simp only [EnableOutcomes.calls, List.map_cons, List.map_nil, List.cons_append,
        List.nil_append, List.mem_cons, List.not_mem_nil, or_false] at hc
      obtain rfl | rfl | rfl | rfl | rfl | rfl | rfl := hc <;> rfl
  · -- each domain is among the calls, and each call succeeded
    have hmem : (.enableDomain true subscriber domain, o.enableDomain domain) ∈
        o.calls subscriber := by
      cases domain <;> simp [EnableOutcomes.calls]
    have htrue : o.enableDomain domain = true := hok _ hmem
    rw [htrue] at hmem
    exact List.mem_cons_of_mem _ hmem
  · have hmem : (.activityEnable kind, o.activityEnable kind) ∈ o.calls subscriber := by
      cases kind <;> simp [EnableOutcomes.calls]
    have htrue : o.activityEnable kind = true := hok _ hmem
    rw [htrue] at hmem
    exact List.mem_cons_of_mem _ hmem

namespace Tracer

variable {t t' : Tracer}

/-- What holds between two commands. -/
structure ToggleInv (t : Tracer) : Prop where
  agrees : t.Agrees
  registered : t.cuptiEnabled = true → t.activityCallbacksRegistered = true
  registerCall : t.activityCallbacksRegistered = true →
    (.activityRegisterCallbacks, true) ∈ t.calls
  enabled : ∀ subscriber, t.subscriber = some subscriber → EnabledSinceDisable t.calls subscriber

/-- A transition preserves the toggle invariant. -/
theorem ToggleInv.transition (h : t.ToggleInv) (htrans : Transition t t') : t'.ToggleInv := by
  have hagrees := htrans.agrees h.agrees
  cases htrans with
  | idle calls registered hidle hreg hkeep =>
    refine ⟨hagrees, fun henabled => hkeep (h.registered henabled), fun hnow => ?_,
      fun subscriber hsub => (h.enabled subscriber hsub).append_idle hidle⟩
    obtain hold | hnew := hreg hnow
    · exact List.mem_append_left _ (h.registerCall hold)
    · exact List.mem_append_right _ hnew
  -- the registration is kept from before, or made by this enable
  | turnOn o subscriber calls _ _ _ hreg hall =>
    refine ⟨hagrees, fun _ => rfl, fun _ => ?_, fun subscriber' hsub => ?_⟩
    · apply List.mem_append_left
      exact hreg.elim (fun hold => List.mem_append_left _ (h.registerCall hold))
        (List.mem_append_right _)
    · cases hsub
      exact enabledSinceDisable_of_all hall _
  -- CUPTI was off before, and is off again
  | rollBack o subscriber calls henabled hsub _ hreg =>
    refine ⟨hagrees, fun hon => ?_, fun _ => ?_, fun subscriber' hsub' => ?_⟩
    · cases henabled.symm.trans hon
    · apply List.mem_append_left
      apply List.mem_append_left
      exact hreg.elim (fun hold => List.mem_append_left _ (h.registerCall hold))
        (List.mem_append_right _)
    · cases hsub.symm.trans hsub'
  | turnOff o subscriber _ _ =>
    refine ⟨hagrees, by simp, fun hnow => ?_, by simp⟩
    exact List.mem_append_left _ (h.registerCall hnow)

/-- The toggle invariant holds in every reachable state. -/
theorem toggleInv_run (pid : ℕ) (path : String) (actions : List (TracerAction × CuptiOutcomes)) :
    (run pid path actions).ToggleInv := by
  refine List.foldlRecOn actions step ?_ fun t ht a _ => ht.transition (transition_step ht.agrees a)
  exact ⟨agrees_run pid path [], by simp, by simp, by simp⟩

/-! ## The generation -/

/-- How often the actions turn CUPTI from off to on. -/
def offToOn (t : Tracer) : List (TracerAction × CuptiOutcomes) → ℕ
  | [] => 0
  | a :: actions =>
    (if t.cuptiEnabled = false ∧ (t.step a).cuptiEnabled = true then 1 else 0) +
      offToOn (t.step a) actions

/-- The generation counts the turns from off to on, modulo 2^64. -/
theorem Transition.generation_eq (htrans : Transition t t') :
    t'.cuptiGeneration = t.cuptiGeneration +
      UInt64.ofNat (if t.cuptiEnabled = false ∧ t'.cuptiEnabled = true then 1 else 0) := by
  cases htrans with
  | idle => cases t.cuptiEnabled <;> simp
  | turnOn o subscriber calls henabled => simp [henabled]
  | rollBack o subscriber calls henabled => simp [henabled]
  | turnOff => simp

/-- Over a run the generation grows by the number of turns from off to on. -/
theorem generation_foldl (actions : List (TracerAction × CuptiOutcomes)) (h : t.Agrees) :
    (actions.foldl step t).cuptiGeneration =
      t.cuptiGeneration + UInt64.ofNat (t.offToOn actions) := by
  induction actions generalizing t with
  | nil => simp [offToOn]
  | cons a actions ih =>
    -- each change from off to on adds one, modulo the word
    have htrans := transition_step h a
    rw [List.foldl_cons, ih (htrans.agrees h), htrans.generation_eq, offToOn, UInt64.add_assoc,
      UInt64.ofNat_add]

/-! ## The result -/

/-- An enable that fails leaves CUPTI off. -/
theorem off_of_enable_failed (h : t.Agrees) (o : EnableOutcomes)
    (hfail : (t.cuptiEnableLocked o).2 = false) :
    (t.cuptiEnableLocked o).1.cuptiEnabled = false ∧
      (t.cuptiEnableLocked o).1.subscriber = none ∧
      (t.cuptiEnableLocked o).1.cuptiGeneration = t.cuptiGeneration := by
  obtain ⟨henabled, hsub⟩ | ⟨subscriber, henabled, -⟩ := h.cases
  · have hresult := cuptiEnableLocked_of_off o henabled hsub
    generalize t.cuptiEnableLocked o = result at hresult hfail
    -- in the three ways that fail the tracer stays off, in the one that succeeds it answers true
    cases hresult with
    | notRegistered => exact ⟨henabled, hsub, rfl⟩
    | notSubscribed => exact ⟨henabled, hsub, rfl⟩
    | rolledBack => exact ⟨henabled, hsub, rfl⟩
    | turnedOn => cases hfail
  · rw [cuptiEnableLocked, if_pos henabled] at hfail
    cases hfail

end Tracer

/-- The reply to a command says that it worked. -/
def HasOkLead (reply : String) : Prop := "ok".toList <+: reply.toList

instance (reply : String) : Decidable (HasOkLead reply) := inferInstanceAs (Decidable (_ <+: _))

/-- The answer to a command starts with `ok` exactly when the action succeeded. -/
theorem hasOkLead_respond_iff (result : Tracer × Bool) {error : String}
    (herror : ∃ rest, error.toList = 'e' :: rest) :
    HasOkLead (Tracer.respond result error).2 ↔ result.2 = true := by
  obtain ⟨t, ok⟩ := result
  obtain ⟨rest, herror⟩ := herror
  cases ok with
  | true => simp [HasOkLead, Tracer.respond, Tracer.buildStatusResponseLocked]
  | false => simp [HasOkLead, Tracer.respond, Tracer.buildStatusResponseLocked, herror]

/-- Both spellings of the on command answer for the same enable. -/
theorem handleControlCommand_on {command : String} (hcommand : command = "on" ∨ command = "enable")
    (t : Tracer) (o : CuptiOutcomes) :
    t.handleControlCommand command o =
      Tracer.respond (t.cuptiEnableLocked o.enable) "error=enable_failed" := by
  unfold Tracer.handleControlCommand
  rw [if_neg (by rintro rfl; simp at hcommand), if_pos hcommand]

/-- After every sequence of commands, whatever the calls into CUPTI returned: the flag is
    set exactly when there is a subscription; while it is set everything is registered and
    enabled; the generation counts the times CUPTI was turned on; and a failed `on` leaves
    CUPTI off and the generation as it was. -/
theorem cupti_toggle (pid : ℕ) (path : String) (actions : List (TracerAction × CuptiOutcomes)) :
    let t := Tracer.run pid path actions
    (t.cuptiEnabled = true ↔ t.subscriber.isSome) ∧
      (t.cuptiEnabled = true →
        t.activityCallbacksRegistered = true ∧ (.activityRegisterCallbacks, true) ∈ t.calls ∧
          ∃ subscriber, t.subscriber = some subscriber ∧
            EnabledSinceDisable t.calls subscriber) ∧
      t.cuptiGeneration =
        UInt64.ofNat (Tracer.offToOn { pid, controlSocketPath := path } actions) ∧
      (∀ o, (t.cuptiEnableLocked o).2 = false →
        (t.cuptiEnableLocked o).1.cuptiEnabled = false ∧
          (t.cuptiEnableLocked o).1.subscriber = none ∧
          (t.cuptiEnableLocked o).1.cuptiGeneration = t.cuptiGeneration) ∧
      ∀ command o, command = "on" ∨ command = "enable" →
        ¬HasOkLead (t.handleControlCommand command o).2 →
        (t.handleControlCommand command o).1.cuptiEnabled = false ∧
          (t.handleControlCommand command o).1.subscriber = none ∧
          (t.handleControlCommand command o).1.cuptiGeneration = t.cuptiGeneration := by
  intro t
  -- the invariant gives all but the count of the generations
  have hinv : t.ToggleInv := Tracer.toggleInv_run pid path actions
  refine ⟨hinv.agrees, fun henabled => ?_, ?_, fun o hfail => ?_,
    fun command o hcommand hreply => ?_⟩
  · have hregistered := hinv.registered henabled
    obtain ⟨subscriber, hsub⟩ := Option.isSome_iff_exists.mp (hinv.agrees.mp henabled)
    exact ⟨hregistered, hinv.registerCall hregistered, subscriber, hsub,
      hinv.enabled subscriber hsub⟩
  · -- the generation counts from zero
    have hgeneration := Tracer.generation_foldl actions (Tracer.agrees_run pid path [])
    rw [show (Tracer.run pid path []).cuptiGeneration = 0 from rfl, UInt64.zero_add] at hgeneration
    exact hgeneration
  · exact Tracer.off_of_enable_failed hinv.agrees o hfail
  · rw [handleControlCommand_on hcommand] at hreply ⊢
    rw [hasOkLead_respond_iff _ ⟨_, rfl⟩, Bool.not_eq_true] at hreply
    exact Tracer.off_of_enable_failed hinv.agrees o.enable hreply

end DeLatency
