import DeLatency.Converter.Dispatch
import DeLatency.ForStd.ListExtra
import DeLatency.Spec.Intervals
import Mathlib.Data.List.Sigma

/-!
# The pairing loop

The loop over the scheduler events is a run of actions, one for each request an
event lists (`pairDispatches_eq`), so the state of a request depends on its own
actions only.  `closeDispatch_cases` says once what a step-ready action can do.

Whatever events are lost, every interval joins one out-rpc and one strictly later
step-ready occurrence, and no occurrence is used twice (`Tracks`).  The keys of the
two may still differ; when they do is the subject of `DeLatency.Spec.LossyPairing`.
-/

namespace DeLatency

/-! ## Actions -/

/-- One request of a scheduler event, with the converted time of the event. -/
structure Action where
  rid : String
  ev : SchedulerEvent
  tsNs : ℤ
  src : Occurrence

/-- What an action does to the state of its request. -/
def Action.apply (a : Action) : ReqDispatch → ReqDispatch :=
  pairOccurrence a.ev a.tsNs a.src a.rid

/-- The actions of one event. -/
def eventActions (item : SchedulerEvent × ℕ) : List Action :=
  match item.1.timestampNs.bind toNsInt with
  | none => []
  | some tsNs => (item.1.reqIds.zipIdx.filter fun r => r.1 ≠ "").map fun r =>
      ⟨r.1, item.1, tsNs, ⟨item.2, r.2⟩⟩

/-- The actions of the loop, in order. -/
def actions (events : List SchedulerEvent) : List Action :=
  (sortSchedulerEvents events).flatMap eventActions

/-- The actions on one request, in order. -/
def requestActions (events : List SchedulerEvent) (rid : String) : List Action :=
  (actions events).filter (·.rid = rid)

/-- A run of actions on the state of one request. -/
def runActions (acts : List Action) (st : ReqDispatch) : ReqDispatch :=
  acts.foldl (fun st a => a.apply st) st

/-- No actions change nothing. -/
@[simp] theorem runActions_nil (st : ReqDispatch) : runActions [] st = st := rfl

/-- The first action acts first. -/
@[simp] theorem runActions_cons (a : Action) (acts : List Action) (st : ReqDispatch) :
    runActions (a :: acts) st = runActions acts (a.apply st) := rfl

/-- Actions compose. -/
theorem runActions_append (acts acts' : List Action) (st : ReqDispatch) :
    runActions (acts ++ acts') st = runActions acts' (runActions acts st) :=
  List.foldl_append

/-- The state of a request before its first action. -/
def initialDispatch (hints : String → EngineHints) (rid : String) : ReqDispatch :=
  { hints := (hints rid).phases }

/-- An event acts on its request's state alone. -/
private theorem pairEvent_eq (st : String → ReqDispatch) (item : SchedulerEvent × ℕ) :
    pairEvent st item =
      (eventActions item).foldl (fun st a => Keyed.modify st a.rid a.apply) st := by
  unfold pairEvent eventActions
  cases item.1.timestampNs.bind toNsInt with
  | none => rfl
  | some tsNs =>
    simp only [List.foldl_map, List.foldl_filter]
    congr 1
    funext st r
    -- a blank request is filtered out of the actions and skipped by the loop
    by_cases h : r.1 = ""
    · simp [h]
    · simp only [ne_eq, h, not_false_eq_true, decide_true, if_true]
      rfl

/-- The loop, seen from one request, is the run of that request's actions. -/
theorem pairDispatches_eq (hints : String → EngineHints) (events : List SchedulerEvent)
    (rid : String) :
    pairDispatches hints events rid =
      runActions (requestActions events rid) (initialDispatch hints rid) := by
  -- one event is a list of actions, one for each of its requests
  have hfun : pairEvent = fun st item =>
      (eventActions item).foldl (fun st a => Keyed.modify st a.rid a.apply) st := by
    funext st item
    exact pairEvent_eq st item
  rw [pairDispatches, hfun, ← List.foldl_flatMap, Keyed.foldl_modify_apply]
  rfl

/-! ## Where actions come from -/

variable {events : List SchedulerEvent} {rid : String}

/-- Every action is an occurrence of its request in an event of the log. -/
theorem mem_actions {a : Action} (ha : a ∈ actions events) :
    events[a.src.event]? = some a.ev ∧ a.ev.reqIds[a.src.index]? = some a.rid ∧
      a.ev.timestampNs.bind toNsInt = some a.tsNs := by
  obtain ⟨item, hitem, ha⟩ := List.mem_flatMap.mp ha
  unfold eventActions at ha
  split at ha
  · simp at ha
  · -- an event without a time makes no action
    next tsNs hts =>
    obtain ⟨r, hr, rfl⟩ := List.mem_map.mp ha
    refine ⟨?_, ?_, hts⟩
    · exact List.mem_zipIdx_iff_getElem?.mp (List.mem_sortBy.mp hitem)
    · exact List.mem_zipIdx_iff_getElem?.mp (List.mem_filter.mp hr).1

/-- An action knows the place of its event. -/
private theorem event_of_mem_eventActions {item : SchedulerEvent × ℕ} {a : Action}
    (ha : a ∈ eventActions item) : a.src.event = item.2 := by
  unfold eventActions at ha
  split at ha
  · simp at ha
  · obtain ⟨r, -, rfl⟩ := List.mem_map.mp ha
    rfl

/-- No two actions are the same occurrence. -/
theorem pairwise_src_actions (events : List SchedulerEvent) :
    (actions events).Pairwise fun a b => a.src ≠ b.src := by
  have hitems : (sortSchedulerEvents events).Pairwise fun x y => x.2 ≠ y.2 := by
    have hperm : (sortSchedulerEvents events).Perm events.zipIdx := List.sortBy_perm _ _
    have h := List.nodup_zipIdx_map_snd events
    rw [← (hperm.map Prod.snd).nodup_iff] at h
    exact List.pairwise_map.mp h
  refine List.pairwise_flatMap.mpr ⟨fun item _ => ?_, hitems.imp fun {x y} hne a ha b hb => ?_⟩
  · -- two places of one list
    unfold eventActions
    split
    · exact List.Pairwise.nil
    · apply List.pairwise_map.mpr (List.Pairwise.filter _ ?_)
      have hplaces := List.pairwise_map.mp (List.nodup_zipIdx_map_snd item.1.reqIds)
      exact hplaces.imp fun h hsrc => h (congrArg Occurrence.index hsrc)
  · -- two events of the log
    intro hsrc
    apply hne
    rw [← event_of_mem_eventActions ha, ← event_of_mem_eventActions hb, hsrc]

/-- The actions are in order of time. -/
theorem pairwise_tsNs_actions (events : List SchedulerEvent) :
    (actions events).Pairwise fun a b => a.tsNs ≤ b.tsNs := by
  have hts : ∀ item : SchedulerEvent × ℕ, ∀ a ∈ eventActions item,
      a.tsNs = (item.1.timestampNs.bind toNsInt).getD 0 := by
    intro item a ha
    unfold eventActions at ha
    split at ha
    · simp at ha
    · next h =>
      obtain ⟨r, -, rfl⟩ := List.mem_map.mp ha
      rw [h]
      rfl
  refine List.pairwise_flatMap.mpr ⟨fun item _ => ?_, ?_⟩
  · -- the actions of one event share its time
    exact List.pairwise_of_forall_mem_list fun a ha b hb => by rw [hts item a ha, hts item b hb]
  · -- the events are sorted by it
    refine (List.pairwise_sortBy _ events.zipIdx).imp fun {x y} hle a ha b hb => ?_
    rw [hts x a ha, hts y b hb]
    exact hle

/-! ## What a step-ready action can do -/

/-- A pop takes one start out of a queue that is not empty. -/
theorem popDispatchStartForReady_cases (queue : List PendingStart) (key : Option String) :
    (queue = [] ∧ popDispatchStartForReady queue key = (none, [])) ∨
      ∃ item rest, popDispatchStartForReady queue key = (some item, rest) ∧
        queue.Perm (item :: rest) := by
  cases queue with
  | nil => exact .inl ⟨rfl, rfl⟩
  | cons oldest younger =>
    right
    simp only [popDispatchStartForReady]
    cases truthyKey key with
    | none => exact ⟨oldest, younger, rfl, List.Perm.refl _⟩
    | some k =>
      simp only
      -- the first start with the key, or the oldest start when there is none
      cases hfind : (oldest :: younger).find? fun item => item.dispatchKey = some k with
      | none => exact ⟨oldest, younger, rfl, List.Perm.refl _⟩
      | some item => exact ⟨item, _, rfl, List.perm_cons_eraseP_of_find? hfind⟩

/-- The start that a pop with a key takes: one with that key if there is one, else
    the oldest. -/
theorem popDispatchStartForReady_key {queue rest : List PendingStart} {key : Option String}
    {item : PendingStart} {k : String} (hk : truthyKey key = some k)
    (h : popDispatchStartForReady queue key = (some item, rest)) :
    item.dispatchKey = some k ∨
      (∀ p ∈ queue, p.dispatchKey ≠ some k) ∧ queue.head? = some item := by
  cases queue with
  | nil => cases h
  | cons oldest younger =>
    simp only [popDispatchStartForReady, hk] at h
    cases hfind : (oldest :: younger).find? fun item => item.dispatchKey = some k with
    -- an open start has the key
    | some found =>
      rw [hfind] at h
      cases h
      exact .inl (by simpa using List.find?_some hfind)
    | none =>
      rw [hfind] at h
      cases h
      -- none has it: the oldest is taken
      refine .inr ⟨fun p hp => ?_, rfl⟩
      simpa using List.find?_eq_none.mp hfind p hp

/-- A step-ready action finds the queue empty, drops a start that is not earlier,
    or appends the interval from the start it takes. -/
theorem closeDispatch_cases (tsNs : ℤ) (key : Option String) (explicit : Option Phase)
    (src : Occurrence) (st : ReqDispatch) :
    (st.pending = [] ∧ closeDispatch tsNs key explicit src st = st) ∨
      ∃ item rest, popDispatchStartForReady st.pending key = (some item, rest) ∧
        st.pending.Perm (item :: rest) ∧
        ((tsNs ≤ item.startNs ∧
            closeDispatch tsNs key explicit src st = { st with pending := rest }) ∨
          (item.startNs < tsNs ∧ ∃ phase hints,
            closeDispatch tsNs key explicit src st = {
              pending := rest
              hints := hints
              intervals := st.intervals ++ [{
                startNs := item.startNs
                endNs := tsNs
                phase := phase
                durationNs := tsNs - item.startNs
                dispatchKey := orKey key item.dispatchKey
                batchReqIds := item.batchReqIds
                outSrc := item.src
                readySrc := src }]
              phaseNs := Function.update st.phaseNs phase
                (st.phaseNs phase + (tsNs - item.startNs))
              phaseCount := Function.update st.phaseCount phase (st.phaseCount phase + 1) })) := by
  obtain ⟨hnil, hpop⟩ | ⟨item, rest, hpop, hperm⟩ := popDispatchStartForReady_cases st.pending key
  · exact .inl ⟨hnil, by simp only [closeDispatch, hpop]⟩
  · refine .inr ⟨item, rest, hpop, hperm, ?_⟩
    -- the start is gone from the queue either way
    by_cases hle : tsNs ≤ item.startNs
    · exact .inl ⟨hle, by simp only [closeDispatch, hpop, if_pos hle]⟩
    · refine .inr ⟨not_le.mp hle, (choosePhase explicit st.hints).1,
        (choosePhase explicit st.hints).2, ?_⟩
      simp only [closeDispatch, hpop, if_neg hle]

/-- What an action does, by the type of its event. -/
theorem Action.apply_cases (a : Action) (st : ReqDispatch) :
    (a.ev.type = .reqEnqueueScheduler ∧ a.apply st = st) ∨
      (a.ev.type = .reqSchedulerOutRpc ∧ a.apply st = { st with pending := st.pending ++ [{
        startNs := a.tsNs
        dispatchKey := a.ev.dispatchKey
        batchReqIds := a.ev.reqIds
        src := a.src }] }) ∨
      (a.ev.type = .reqStepReady ∧ a.apply st = closeDispatch a.tsNs a.ev.dispatchKey
        (explicitPhase (a.ev.phaseByReq.lookup a.rid)) a.src st) := by
  unfold Action.apply pairOccurrence
  -- an action is an enqueue, which does nothing here, an opening or a closing
  cases h : a.ev.type with
  | reqEnqueueScheduler => exact .inl ⟨rfl, rfl⟩
  | reqSchedulerOutRpc => exact .inr (.inl ⟨rfl, rfl⟩)
  | reqStepReady => exact .inr (.inr ⟨rfl, rfl⟩)

/-! ## What every run keeps -/

/-- A start was opened by an out-rpc action. -/
structure OpenedBy (out : Action) (p : PendingStart) : Prop where
  type : out.ev.type = .reqSchedulerOutRpc
  startNs : p.startNs = out.tsNs
  dispatchKey : p.dispatchKey = out.ev.dispatchKey
  src : p.src = out.src

/-- An interval joins an out-rpc action with a strictly later step-ready action. -/
structure JoinedBy (out ready : Action) (d : DispatchInterval) : Prop where
  outType : out.ev.type = .reqSchedulerOutRpc
  readyType : ready.ev.type = .reqStepReady
  startNs : d.startNs = out.tsNs
  endNs : d.endNs = ready.tsNs
  lt : d.startNs < d.endNs
  durationNs : d.durationNs = d.endNs - d.startNs
  outSrc : d.outSrc = out.src
  readySrc : d.readySrc = ready.src

/-- What the actions `seen` so far leave behind: open starts and intervals come
    from them, and each occurrence is in one place. -/
structure Tracks (seen : List Action) (st : ReqDispatch) : Prop where
  pending : ∀ p ∈ st.pending, ∃ out ∈ seen, OpenedBy out p
  intervals : ∀ d ∈ st.intervals, ∃ out ∈ seen, ∃ ready ∈ seen, JoinedBy out ready d
  nodupOut : (st.pending.map PendingStart.src ++ st.intervals.map DispatchInterval.outSrc).Nodup
  nodupReady : (st.intervals.map DispatchInterval.readySrc).Nodup

namespace Tracks

variable {seen : List Action} {st : ReqDispatch} {a : Action}

/-- Actions that change nothing keep the invariant. -/
theorem mono (h : Tracks seen st) : Tracks (seen ++ [a]) st where
  pending p hp := by
    obtain ⟨out, hout, hop⟩ := h.pending p hp
    exact ⟨out, List.mem_append_left _ hout, hop⟩
  intervals d hd := by
    obtain ⟨out, hout, ready, hready, hj⟩ := h.intervals d hd
    exact ⟨out, List.mem_append_left _ hout, ready, List.mem_append_left _ hready, hj⟩
  nodupOut := h.nodupOut
  nodupReady := h.nodupReady

/-- An occurrence used so far belongs to an action seen so far. -/
theorem mem_seen (h : Tracks seen st) {src : Occurrence}
    (hsrc : src ∈ st.pending.map PendingStart.src ++ st.intervals.map DispatchInterval.outSrc ∨
      src ∈ st.intervals.map DispatchInterval.readySrc) : ∃ b ∈ seen, b.src = src := by
  rw [List.mem_append] at hsrc
  -- an open start, the start of an interval, or its end
  obtain (hsrc | hsrc) | hsrc := hsrc
  · obtain ⟨p, hp, rfl⟩ := List.mem_map.mp hsrc
    obtain ⟨out, hout, hop⟩ := h.pending p hp
    exact ⟨out, hout, hop.src.symm⟩
  · obtain ⟨d, hd, rfl⟩ := List.mem_map.mp hsrc
    obtain ⟨out, hout, _, -, hj⟩ := h.intervals d hd
    exact ⟨out, hout, hj.outSrc.symm⟩
  · obtain ⟨d, hd, rfl⟩ := List.mem_map.mp hsrc
    obtain ⟨_, -, ready, hready, hj⟩ := h.intervals d hd
    exact ⟨ready, hready, hj.readySrc.symm⟩

/-- Dropping a start keeps the invariant. -/
theorem drop {item : PendingStart} {rest : List PendingStart} (h : Tracks seen st)
    (hperm : st.pending.Perm (item :: rest)) : Tracks seen { st with pending := rest } where
  pending p hp := h.pending p (hperm.mem_iff.mpr (List.mem_cons_of_mem _ hp))
  intervals := h.intervals
  nodupOut := by
    have hnd := h.nodupOut
    -- one pending start fewer, so the sources stay distinct
    rw [((hperm.map PendingStart.src).append_right _).nodup_iff] at hnd
    exact (List.nodup_cons.mp hnd).2
  nodupReady := h.nodupReady

/-- One action of a new occurrence keeps the invariant. -/
theorem step (h : Tracks seen st) (hnew : ∀ b ∈ seen, b.src ≠ a.src) :
    Tracks (seen ++ [a]) (a.apply st) := by
  have hmem : a ∈ seen ++ [a] := List.mem_append_right _ List.mem_cons_self
  obtain ⟨-, heq⟩ | ⟨htype, heq⟩ | ⟨htype, heq⟩ := a.apply_cases st
  · -- an enqueue event does not touch the dispatches
    rw [heq]
    exact h.mono
  · -- a new start goes to the end of the queue
    rw [heq]
    have hm := h.mono (a := a)
    refine ⟨fun p hp => ?_, hm.intervals, ?_, hm.nodupReady⟩
    · cases List.mem_append.mp hp with
      | inl hp => exact hm.pending p hp
      | inr hp =>
        rw [List.mem_singleton] at hp
        subst hp
        exact ⟨a, hmem, ⟨htype, rfl, rfl, rfl⟩⟩
    · rw [List.map_append, List.append_assoc]
      apply (List.perm_middle.nodup_iff).mpr
      -- an occurrence that was used before belongs to an action seen before
      refine List.nodup_cons.mpr ⟨fun hsrc => ?_, h.nodupOut⟩
      obtain ⟨b, hb, hsrc⟩ := h.mem_seen (.inl hsrc)
      exact hnew b hb hsrc
  · rw [heq]
    obtain ⟨-, hclose⟩ | ⟨item, rest, -, hperm, ⟨-, hclose⟩ | ⟨hlt, phase, hints, hclose⟩⟩ :=
      closeDispatch_cases a.tsNs a.ev.dispatchKey
        (explicitPhase (a.ev.phaseByReq.lookup a.rid)) a.src st
    · rw [hclose]
      exact h.mono
    · rw [hclose]
      exact (h.drop hperm).mono
    · -- the start moves from the queue into the new interval
      rw [hclose]
      have hm := (h.drop hperm).mono (a := a)
      obtain ⟨out, hout, hop⟩ := h.pending item (hperm.mem_iff.mpr List.mem_cons_self)
      refine ⟨hm.pending, fun d hd => ?_, ?_, ?_⟩
      · cases List.mem_append.mp hd with
        | inl hd => exact hm.intervals d hd
        | inr hd =>
          rw [List.mem_singleton] at hd
          subst hd
          exact ⟨out, List.mem_append_left _ hout, a, hmem,
            ⟨hop.type, htype, hop.startNs, rfl, hlt, rfl, hop.src, rfl⟩⟩
      · have hnd := h.nodupOut
        rw [((hperm.map PendingStart.src).append_right _).nodup_iff] at hnd
        rw [List.map_append, ← List.append_assoc]
        exact (List.perm_append_singleton _ _).nodup_iff.mpr hnd
      · rw [List.map_append]
        apply (List.perm_append_singleton _ _).nodup_iff.mpr
        refine List.nodup_cons.mpr ⟨fun hsrc => ?_, h.nodupReady⟩
        obtain ⟨b, hb, hsrc⟩ := h.mem_seen (.inr hsrc)
        exact hnew b hb hsrc

/-- A run of actions of distinct occurrences keeps the invariant. -/
theorem run {acts : List Action} (h : Tracks seen st)
    (hsrc : (seen ++ acts).Pairwise fun a b => a.src ≠ b.src) :
    Tracks (seen ++ acts) (runActions acts st) := by
  induction acts generalizing seen st with
  | nil => simpa using h
  | cons a rest ih =>
    have hnew : ∀ b ∈ seen, b.src ≠ a.src := fun b hb =>
      (List.pairwise_append.mp hsrc).2.2 b hb a List.mem_cons_self
    have hrest := ih (h.step hnew) (by simpa using hsrc)
    simpa using hrest

end Tracks

/-! ## Phase totals -/

/-- The sum of `req_dispatch_phase_ns[rid]` over the phases. -/
def ReqDispatch.phaseTotal (st : ReqDispatch) : ℤ :=
  st.phaseNs .prefill + st.phaseNs .decode + st.phaseNs .unknown

/-- An action adds the same time to the phases and to the intervals. -/
private theorem phaseTotal_apply (a : Action) (st : ReqDispatch)
    (h : st.phaseTotal = (st.intervals.map fun d => d.endNs - d.startNs).sum) :
    (a.apply st).phaseTotal = ((a.apply st).intervals.map fun d => d.endNs - d.startNs).sum := by
  obtain ⟨-, heq⟩ | ⟨-, heq⟩ | ⟨-, heq⟩ := a.apply_cases st
  · rw [heq]; exact h
  · rw [heq]; exact h
  · rw [heq]
    obtain ⟨-, hclose⟩ | ⟨item, rest, -, -, ⟨-, hclose⟩ | ⟨-, phase, hints, hclose⟩⟩ :=
      closeDispatch_cases a.tsNs a.ev.dispatchKey
        (explicitPhase (a.ev.phaseByReq.lookup a.rid)) a.src st
    · rw [hclose]; exact h
    · rw [hclose]; exact h
    · -- whichever phase it is charged to, the total grows by the new interval
      rw [hclose, List.map_append, List.sum_append, ← h]
      cases phase <;> simp [ReqDispatch.phaseTotal] <;> omega

/-- The phase totals of a request add up to the length of its intervals. -/
theorem phaseTotal_pairDispatches (hints : String → EngineHints) (events : List SchedulerEvent)
    (rid : String) :
    (pairDispatches hints events rid).phaseTotal =
      ((pairDispatches hints events rid).intervals.map fun d => d.endNs - d.startNs).sum := by
  -- each action keeps the total equal to the sum
  have hrun : ∀ (acts : List Action) (st : ReqDispatch),
      st.phaseTotal = (st.intervals.map fun d => d.endNs - d.startNs).sum →
      (runActions acts st).phaseTotal =
        ((runActions acts st).intervals.map fun d => d.endNs - d.startNs).sum := by
    intro acts
    induction acts with
    | nil => exact fun st h => h
    | cons a rest ih => exact fun st h => ih (a.apply st) (phaseTotal_apply a st h)
  rw [pairDispatches_eq]
  exact hrun _ _ rfl

/-- The actions on one request are distinct occurrences. -/
theorem pairwise_src_requestActions (events : List SchedulerEvent) (rid : String) :
    (requestActions events rid).Pairwise fun a b => a.src ≠ b.src :=
  (pairwise_src_actions events).filter _

/-- Before its first action a request has no start and no interval. -/
theorem tracks_initial (hints : String → EngineHints) (rid : String) :
    Tracks [] (initialDispatch hints rid) where
  pending := by simp [initialDispatch]
  intervals := by simp [initialDispatch]
  nodupOut := by simp [initialDispatch]
  nodupReady := by simp [initialDispatch]

/-- The pairing loop tracks its actions. -/
theorem tracks_pairDispatches (hints : String → EngineHints) (events : List SchedulerEvent)
    (rid : String) :
    Tracks (requestActions events rid) (pairDispatches hints events rid) := by
  rw [pairDispatches_eq]
  exact (tracks_initial hints rid).run (pairwise_src_requestActions events rid)

end DeLatency
