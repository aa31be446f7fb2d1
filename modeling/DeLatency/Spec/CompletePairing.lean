import DeLatency.Spec.Dispatch
import Mathlib.Data.Multiset.MapFold
import Mathlib.Algebra.Order.Group.Multiset

/-!
# Pairing of complete logs

On a log that has both events of every batch, the pairing loop recovers the batches
exactly, whatever their order and overlap.  The abstract model is a set of batches
that are unseen, open or closed (`Progress`): the open ones are the pending starts,
the closed ones the intervals.  An out-rpc event moves its batch from unseen to open
and a step-ready event from open to closed (`Progress.step`), since its dispatch key
finds its own start in the middle of the queue.
-/

namespace DeLatency

/-- One scheduled batch. -/
structure Batch where
  key : String
  reqIds : List String
  outNs : ℤ
  readyNs : ℤ
  phaseByReq : List (String × String) := []
  key_ne : key ≠ ""
  nodup : reqIds.Nodup
  nonblank : ∀ rid ∈ reqIds, rid ≠ ""
  nsTime : NsTime outNs
  lt : outNs < readyNs

namespace Batch

/-- The `req_scheduler_out_rpc` event of a batch. -/
def outEvent (b : Batch) : SchedulerEvent where
  type := .reqSchedulerOutRpc
  timestampNs := some b.outNs
  reqIds := b.reqIds
  dispatchKey := some b.key

/-- The `req_step_ready` event of a batch. -/
def readyEvent (b : Batch) : SchedulerEvent where
  type := .reqStepReady
  timestampNs := some b.readyNs
  reqIds := b.reqIds
  dispatchKey := some b.key
  phaseByReq := b.phaseByReq

/-- What the pairing loop reads of the out-rpc event. -/
def outPoint (b : Batch) : SchedulerEventType × ℤ × Option String :=
  (.reqSchedulerOutRpc, b.outNs, some b.key)

/-- What the pairing loop reads of the step-ready event. -/
def readyPoint (b : Batch) : SchedulerEventType × ℤ × Option String :=
  (.reqStepReady, b.readyNs, some b.key)

end Batch

/-- What the pairing loop reads of an action. -/
def Action.point (a : Action) : SchedulerEventType × ℤ × Option String :=
  (a.ev.type, a.tsNs, a.ev.dispatchKey)

/-! ## The actions of a complete log -/

/-- The actions of one event on a request, up to their place in the log. -/
def requestPoints (rid : String) (ev : SchedulerEvent) :
    List (SchedulerEventType × ℤ × Option String) :=
  match ev.timestampNs.bind toNsInt with
  | none => []
  | some tsNs => (ev.reqIds.filter fun r => r ≠ "" ∧ r = rid).map fun _ =>
      (ev.type, tsNs, ev.dispatchKey)

/-- The actions of an event for a request are its points. -/
private theorem eventActions_points (rid : String) (item : SchedulerEvent × ℕ) :
    ((eventActions item).filter (·.rid = rid)).map Action.point = requestPoints rid item.1 := by
  unfold eventActions requestPoints
  cases item.1.timestampNs.bind toNsInt with
  | none => rfl
  | some tsNs =>
    -- forget the places in the list of requests
    have hids : item.1.reqIds.zipIdx.map Prod.fst = item.1.reqIds := List.zipIdx_map_fst 0 _
    simp only
    nth_rewrite 2 [← hids]
    rw [List.filter_map, List.filter_map, List.map_map, List.map_map, List.filter_filter]
    congr 1
    apply List.filter_congr
    intro r _
    simp [and_comm]

/-- The actions on a request are, in some order, those of the events. -/
theorem requestActions_points (events : List SchedulerEvent) (rid : String) :
    ((requestActions events rid).map Action.point).Perm (events.flatMap (requestPoints rid)) := by
  have hsplit : (requestActions events rid).map Action.point =
      (sortSchedulerEvents events).flatMap fun item => requestPoints rid item.1 := by
    rw [requestActions, actions, List.filter_flatMap, List.map_flatMap]
    simp only [eventActions_points]
  -- the sort moves events around, and their places no longer matter
  have hperm : (sortSchedulerEvents events).Perm events.zipIdx := List.sortBy_perm _ _
  have hids : events.zipIdx.map Prod.fst = events := List.zipIdx_map_fst 0 _
  rw [hsplit]
  refine (hperm.flatMap_right _).trans (List.Perm.of_eq ?_)
  nth_rewrite 2 [← hids]
  rw [List.flatMap_map]

/-- Each batch acts on each request it lists once per event. -/
private theorem requestPoints_batch (rid : String) (b : Batch) :
    requestPoints rid b.outEvent ++ requestPoints rid b.readyEvent =
      if rid ∈ b.reqIds then [b.outPoint, b.readyPoint] else [] := by
  have hready : NsTime b.readyNs := b.nsTime.mono b.lt.le
  -- no request is listed twice, so the filter keeps at most one
  have hfilter : (b.reqIds.filter fun r => r ≠ "" ∧ r = rid) =
      if rid ∈ b.reqIds then [rid] else [] := by
    have hne : b.reqIds.filter (fun r => r ≠ "" ∧ r = rid) = b.reqIds.filter (· = rid) :=
      List.filter_congr fun r hr => by simp [b.nonblank r hr]
    rw [hne, List.filter_eq]
    split
    · next h => rw [List.count_eq_one_of_mem b.nodup h]; rfl
    · next h => rw [List.count_eq_zero_of_not_mem h]; rfl
  simp only [requestPoints, Batch.outEvent, Batch.readyEvent, Option.bind_some, b.nsTime.toNsInt,
    hready.toNsInt, hfilter]
  split
  · rfl
  · rfl

/-! ## The abstract model -/

/-- The batches of one request: those whose events are still to come (`unseen`),
    those that are open, and those that are closed. -/
structure Progress (todo : List Action) (st : ReqDispatch)
    (closed opened unseen : Multiset Batch) : Prop where
  todo : (todo.map Action.point : Multiset (SchedulerEventType × ℤ × Option String)) =
    opened.map Batch.readyPoint + (unseen.map Batch.outPoint + unseen.map Batch.readyPoint)
  pending : (st.pending.map fun p => (p.startNs, p.dispatchKey) : Multiset (ℤ × Option String)) =
    opened.map fun b => (b.outNs, some b.key)
  intervals : (st.intervals.map fun d => (d.startNs, d.endNs, d.dispatchKey) :
      Multiset (ℤ × ℤ × Option String)) =
    closed.map fun b => (b.outNs, b.readyNs, some b.key)
  keys : ((opened + unseen).map Batch.key).Nodup

namespace Progress

variable {a : Action} {todo : List Action} {st : ReqDispatch}
  {closed opened unseen : Multiset Batch}

/-- What the next action can be: the ready event of an open batch, or one of the two
    events of an unseen batch. -/
private theorem next_point (h : Progress (a :: todo) st closed opened unseen) :
    (∃ b ∈ opened, b.readyPoint = a.point) ∨ (∃ b ∈ unseen, b.outPoint = a.point) ∨
      ∃ b ∈ unseen, b.readyPoint = a.point := by
  have hmem : a.point ∈ opened.map Batch.readyPoint +
      (unseen.map Batch.outPoint + unseen.map Batch.readyPoint) := by
    rw [← h.todo]
    simp
  simpa only [Multiset.mem_add, Multiset.mem_map] using hmem

/-- The type of an action that does what the out-rpc event of a batch does. -/
private theorem type_of_outPoint {b : Batch} (hpt : b.outPoint = a.point) :
    a.ev.type = .reqSchedulerOutRpc :=
  (congrArg Prod.fst hpt).symm

/-- The type of an action that does what the ready event of a batch does. -/
private theorem type_of_readyPoint {b : Batch} (hpt : b.readyPoint = a.point) :
    a.ev.type = .reqStepReady :=
  (congrArg Prod.fst hpt).symm

/-- An out-rpc action opens an unseen batch. -/
private theorem step_out (h : Progress (a :: todo) st closed opened unseen)
    (htype : a.ev.type = .reqSchedulerOutRpc) :
    ∃ b unseen', unseen = b ::ₘ unseen' ∧
      Progress todo (a.apply st) closed (b ::ₘ opened) unseen' := by
  have hout : ∃ b ∈ unseen, b.outPoint = a.point := by
    obtain ⟨b, -, hb⟩ | hout | ⟨b, -, hb⟩ := h.next_point
    · exact absurd (htype.symm.trans (type_of_readyPoint hb)) nofun
    · exact hout
    · exact absurd (htype.symm.trans (type_of_readyPoint hb)) nofun
  obtain ⟨b, hb, hpt⟩ := hout
  obtain ⟨unseen', rfl⟩ := Multiset.exists_cons_of_mem hb
  have hts : b.outNs = a.tsNs := congrArg (fun p => p.2.1) hpt
  have hkey : some b.key = a.ev.dispatchKey := congrArg (fun p => p.2.2) hpt
  obtain ⟨h', -⟩ | ⟨-, heq⟩ | ⟨h', -⟩ := a.apply_cases st
  · rw [htype] at h'; cases h'
  · refine ⟨b, unseen', rfl, ?_, ?_, ?_, ?_⟩
    · -- the out-rpc event is done, the ready event stays to do
      have htodo := h.todo
      simp only [List.map_cons, ← Multiset.cons_coe, Multiset.map_cons, Multiset.cons_add,
        Multiset.add_cons, ← hpt] at htodo
      rw [Multiset.cons_swap] at htodo
      simp only [Multiset.map_cons, Multiset.cons_add]
      exact (Multiset.cons_inj_right _).mp htodo
    · -- the new start is the one of `b`
      rw [heq, List.map_append, ← Multiset.coe_add, h.pending, Multiset.map_cons, add_comm]
      simp [hts, hkey]
    · rw [heq]; exact h.intervals
    · rw [Multiset.cons_add, ← Multiset.add_cons]; exact h.keys
  · rw [htype] at h'; cases h'

/-- A step-ready action belongs to an open batch. -/
private theorem exists_opened (h : Progress (a :: todo) st closed opened unseen)
    (hsorted : ∀ b ∈ todo, a.tsNs ≤ b.tsNs) (htype : a.ev.type = .reqStepReady) :
    ∃ b ∈ opened, b.readyPoint = a.point := by
  obtain hready | ⟨b, -, hb⟩ | ⟨b, hb, hpt⟩ := h.next_point
  · exact hready
  · exact absurd (htype.symm.trans (type_of_outPoint hb)) nofun
  · -- the out-rpc event of an unseen batch would still be to come, yet it is earlier
    have hout : b.outPoint ∈ ((a :: todo).map Action.point : Multiset _) := by
      rw [h.todo]
      simp only [Multiset.mem_add, Multiset.mem_map]
      exact .inr (.inl ⟨b, hb, rfl⟩)
    obtain ⟨c, hc, hcpt⟩ := List.mem_map.mp (Multiset.mem_coe.mp hout)
    have hcts : c.tsNs = b.outNs := congrArg (fun p => p.2.1) hcpt
    have hats : b.readyNs = a.tsNs := congrArg (fun p => p.2.1) hpt
    have hlt := b.lt
    cases List.mem_cons.mp hc with
    | inl heq => subst heq; omega
    | inr hc =>
      have hle := hsorted c hc
      omega

/-- The start taken under the key of an open batch is the batch's own, and the
    starts of the other open batches stay. -/
private theorem start_taken {b : Batch} {opened' : Multiset Batch} {item : PendingStart}
    {rest : List PendingStart} (h : Progress (a :: todo) st closed (b ::ₘ opened') unseen)
    (hperm : st.pending.Perm (item :: rest)) (hitem : item.dispatchKey = some b.key) :
    item.startNs = b.outNs ∧
      (rest.map fun p => (p.startNs, p.dispatchKey) : Multiset (ℤ × Option String)) =
        opened'.map fun b => (b.outNs, some b.key) := by
  have hpending : ((item.startNs, item.dispatchKey) ::ₘ
      (rest.map fun p => (p.startNs, p.dispatchKey) : Multiset (ℤ × Option String))) =
        (b.outNs, some b.key) ::ₘ opened'.map fun b => (b.outNs, some b.key) := by
    rw [← Multiset.map_cons (fun b : Batch => (b.outNs, some b.key)), ← h.pending,
      Multiset.cons_coe, ← List.map_cons (f := fun p : PendingStart => (p.startNs, p.dispatchKey))]
    exact (Multiset.coe_eq_coe.mpr (hperm.map _)).symm
  have hstart : item.startNs = b.outNs := by
    have hin : (item.startNs, item.dispatchKey) ∈ (b.outNs, some b.key) ::ₘ
        opened'.map fun b => (b.outNs, some b.key) := by
      rw [← hpending]
      exact Multiset.mem_cons_self _ _
    cases Multiset.mem_cons.mp hin with
    | inl heq => exact congrArg Prod.fst heq
    | inr hin =>
      -- another open batch with the key of `b`, but open batches have distinct keys
      obtain ⟨c, hc, hceq⟩ := Multiset.mem_map.mp hin
      have hkeys := h.keys
      rw [Multiset.cons_add, Multiset.map_cons, Multiset.nodup_cons] at hkeys
      have hck : c.key = b.key := Option.some.inj ((congrArg Prod.snd hceq).trans hitem)
      exact absurd (Multiset.mem_map.mpr ⟨c, Multiset.mem_add.mpr (.inl hc), hck⟩) hkeys.1
  refine ⟨hstart, ?_⟩
  rw [hstart, hitem] at hpending
  exact (Multiset.cons_inj_right _).mp hpending

/-- A step-ready action closes the open batch of its key. -/
private theorem step_ready (h : Progress (a :: todo) st closed opened unseen)
    (hsorted : ∀ b ∈ todo, a.tsNs ≤ b.tsNs) (htype : a.ev.type = .reqStepReady) :
    ∃ b opened', opened = b ::ₘ opened' ∧
      Progress todo (a.apply st) (b ::ₘ closed) opened' unseen := by
  obtain ⟨b, hb, hpt⟩ := h.exists_opened hsorted htype
  obtain ⟨opened', rfl⟩ := Multiset.exists_cons_of_mem hb
  have hts : b.readyNs = a.tsNs := congrArg (fun p => p.2.1) hpt
  have hkey : some b.key = a.ev.dispatchKey := congrArg (fun p => p.2.2) hpt
  have htruthy : truthyKey a.ev.dispatchKey = some b.key := by
    rw [← hkey, truthyKey, Option.filter_some, if_pos (by simpa using b.key_ne)]
  -- `b`'s own start is in the queue
  have hstart : (b.outNs, some b.key) ∈ st.pending.map fun p => (p.startNs, p.dispatchKey) := by
    rw [← Multiset.mem_coe, h.pending]; simp
  obtain ⟨p, hp, hpstart⟩ := List.mem_map.mp hstart
  obtain ⟨h', -⟩ | ⟨h', -⟩ | ⟨-, heq⟩ := a.apply_cases st
  · rw [htype] at h'; cases h'
  · rw [htype] at h'; cases h'
  obtain ⟨hnil, -⟩ | ⟨item, rest, hpop, hperm, hcases⟩ :=
    closeDispatch_cases a.tsNs a.ev.dispatchKey
      (explicitPhase (a.ev.phaseByReq.lookup a.rid)) a.src st
  · rw [hnil] at hp; exact absurd hp List.not_mem_nil
  have hitem : item.dispatchKey = some b.key := by
    obtain hfound | ⟨hnone, -⟩ := popDispatchStartForReady_key htruthy hpop
    · exact hfound
    · exact absurd (congrArg Prod.snd hpstart) (hnone p hp)
  obtain ⟨hstartEq, hrest⟩ := h.start_taken hperm hitem
  have hlt := b.lt
  obtain ⟨hle, -⟩ | ⟨-, phase, hints, hclose⟩ := hcases
  · omega
  refine ⟨b, opened', rfl, ?_, ?_, ?_, ?_⟩
  · -- the ready event of `b` is done
    have htodo := h.todo
    simp only [List.map_cons, ← Multiset.cons_coe, Multiset.map_cons, Multiset.cons_add,
      ← hpt] at htodo
    exact (Multiset.cons_inj_right _).mp htodo
  · rw [heq, hclose]; exact hrest
  · -- the new interval is the stretch of `b` under its key
    have hor : orKey a.ev.dispatchKey item.dispatchKey = some b.key := by
      rw [orKey, htruthy, ← hkey]; rfl
    rw [heq, hclose, List.map_append, ← Multiset.coe_add, h.intervals, Multiset.map_cons, add_comm]
    simp [hstartEq, hts, hor]
  · have hkeys := h.keys
    rw [Multiset.cons_add, Multiset.map_cons, Multiset.nodup_cons] at hkeys
    exact hkeys.2

/-- Each action moves one batch forward. -/
theorem step (h : Progress (a :: todo) st closed opened unseen)
    (hsorted : ∀ b ∈ todo, a.tsNs ≤ b.tsNs) :
    ∃ closed' opened' unseen', closed' + opened' + unseen' = closed + opened + unseen ∧
      Progress todo (a.apply st) closed' opened' unseen' := by
  cases htype : a.ev.type with
  | reqEnqueueScheduler =>
    -- no event of a batch is an enqueue event
    obtain ⟨b, -, hb⟩ | ⟨b, -, hb⟩ | ⟨b, -, hb⟩ := h.next_point
    · exact absurd (htype.symm.trans (type_of_readyPoint hb)) nofun
    · exact absurd (htype.symm.trans (type_of_outPoint hb)) nofun
    · exact absurd (htype.symm.trans (type_of_readyPoint hb)) nofun
  | reqSchedulerOutRpc =>
    obtain ⟨b, unseen', rfl, hstep⟩ := h.step_out htype
    refine ⟨closed, b ::ₘ opened, unseen', ?_, hstep⟩
    simp only [Multiset.add_cons, Multiset.cons_add]
  | reqStepReady =>
    obtain ⟨b, opened', rfl, hstep⟩ := h.step_ready hsorted htype
    refine ⟨b ::ₘ closed, opened', unseen, ?_, hstep⟩
    simp only [Multiset.add_cons, Multiset.cons_add]

/-- When no action is left, every batch is closed. -/
theorem finished (h : Progress [] st closed opened unseen) : opened = 0 ∧ unseen = 0 := by
  have htodo := h.todo.symm
  simp only [List.map_nil, Multiset.coe_nil, add_eq_zero, Multiset.map_eq_zero] at htodo
  exact ⟨htodo.1, htodo.2.1⟩

/-- A run to the end closes all batches. -/
theorem run (h : Progress todo st closed opened unseen)
    (hsorted : todo.Pairwise fun a b => a.tsNs ≤ b.tsNs) :
    Progress [] (runActions todo st) (closed + opened + unseen) 0 0 := by
  induction todo generalizing st closed opened unseen with
  | nil =>
    obtain ⟨rfl, rfl⟩ := h.finished
    simpa using h
  | cons a rest ih =>
    rw [List.pairwise_cons] at hsorted
    -- the next action is the earliest, and moves one batch from one pile to the next
    obtain ⟨closed', opened', unseen', hsum, hstep⟩ := h.step hsorted.1
    rw [← hsum]
    exact ih hstep hsorted.2

end Progress

/-! ## The result -/

/-- The dispatch actions of a request on a complete log are the events of the
    batches that list it. -/
theorem dispatchActions_points {events : List SchedulerEvent} {batches : List Batch}
    (hlog : (events.filter (·.type ≠ .reqEnqueueScheduler)).Perm
      (batches.flatMap fun b => [b.outEvent, b.readyEvent])) (rid : String) :
    (((requestActions events rid).filter (·.ev.type ≠ .reqEnqueueScheduler)).map Action.point).Perm
      ((batches.filter (rid ∈ ·.reqIds)).flatMap fun b => [b.outPoint, b.readyPoint]) := by
  -- dropping the enqueue actions drops the enqueue events
  have hdrop : ∀ ev : SchedulerEvent,
      (requestPoints rid ev).filter (fun p => p.1 ≠ .reqEnqueueScheduler) =
        if ev.type ≠ .reqEnqueueScheduler then requestPoints rid ev else [] := by
    intro ev
    unfold requestPoints
    cases ev.timestampNs.bind toNsInt with
    | none => simp
    | some tsNs =>
      by_cases htype : ev.type = .reqEnqueueScheduler
      · simp [htype]
      · simp [htype]
  have hpoints : ((requestActions events rid).filter
      (·.ev.type ≠ .reqEnqueueScheduler)).map Action.point =
        ((requestActions events rid).map Action.point).filter
          fun p => p.1 ≠ .reqEnqueueScheduler := by
    rw [List.filter_map]
    rfl
  have hevents : (events.flatMap (requestPoints rid)).filter
      (fun p => p.1 ≠ .reqEnqueueScheduler) =
        (events.filter (·.type ≠ .reqEnqueueScheduler)).flatMap (requestPoints rid) := by
    rw [List.filter_flatMap]
    simp only [hdrop]
    -- what is left is a fact about the list of events alone
    clear hlog hpoints
    induction events with
    | nil => rfl
    | cons ev rest ih =>
      by_cases htype : ev.type = .reqEnqueueScheduler
      · simpa [htype] using ih
      · simpa [htype] using ih
  have hbatches : (batches.flatMap fun b => [b.outEvent, b.readyEvent]).flatMap
      (requestPoints rid) =
        (batches.filter (rid ∈ ·.reqIds)).flatMap fun b => [b.outPoint, b.readyPoint] := by
    clear hlog
    induction batches with
    | nil => rfl
    | cons b rest ih =>
      have hb := requestPoints_batch rid b
      rw [List.flatMap_cons, List.flatMap_append, ih]
      simp only [List.flatMap_cons, List.flatMap_nil, List.append_nil]
      rw [hb]
      by_cases hmem : rid ∈ b.reqIds
      · simp [hmem]
      · simp [hmem]
  rw [hpoints]
  apply ((requestActions_points events rid).filter _).trans
  rw [hevents]
  exact (hlog.flatMap_right _).trans (List.Perm.of_eq hbatches)

/-- Enqueue actions change nothing. -/
theorem runActions_filter (acts : List Action) (st : ReqDispatch) :
    runActions (acts.filter (·.ev.type ≠ .reqEnqueueScheduler)) st = runActions acts st := by
  induction acts generalizing st with
  | nil => rfl
  | cons a rest ih =>
    by_cases htype : a.ev.type = .reqEnqueueScheduler
    · -- an enqueueing neither opens nor closes
      have hnoop : a.apply st = st := by
        obtain ⟨-, heq⟩ | ⟨h, -⟩ | ⟨h, -⟩ := a.apply_cases st
        · exact heq
        · rw [htype] at h; cases h
        · rw [htype] at h; cases h
      rw [List.filter_cons_of_neg (by simpa using htype), ih, runActions_cons, hnoop]
    · rw [List.filter_cons_of_pos (by simpa using htype), runActions_cons, ih, runActions_cons]

/-- The points of batches are their starts and their ends. -/
theorem coe_flatMap_pair (batches : List Batch) :
    ((batches.flatMap fun b => [b.outPoint, b.readyPoint] : List _) :
      Multiset (SchedulerEventType × ℤ × Option String)) =
      (batches : Multiset Batch).map Batch.outPoint +
        (batches : Multiset Batch).map Batch.readyPoint := by
  induction batches with
  | nil => rfl
  | cons b rest ih =>
    have hcons : ((b :: rest : List Batch) : Multiset Batch) = b ::ₘ (rest : Multiset Batch) := rfl
    -- the two ends of a batch, as a multiset
    have hpair : (([b.outPoint, b.readyPoint] : List _) :
        Multiset (SchedulerEventType × ℤ × Option String)) = {b.outPoint} + {b.readyPoint} := rfl
    rw [List.flatMap_cons, ← Multiset.coe_add, ih, hcons, Multiset.map_cons, Multiset.map_cons,
      hpair, add_add_add_comm, Multiset.singleton_add, Multiset.singleton_add]

/-- On a complete log the intervals of a request are exactly its batches, nothing
    stays pending, and the phase totals add up to the dispatched time. -/
theorem pairing_exact (log : Log) (batches : List Batch)
    (hkeys : (batches.map Batch.key).Nodup)
    (hlog : (log.schedulerEvents.filter (·.type ≠ .reqEnqueueScheduler)).Perm
      (batches.flatMap fun b => [b.outEvent, b.readyEvent])) (rid : String) :
    ((reqDispatchIntervals log rid).map fun d => (d.startNs, d.endNs, d.dispatchKey)).Perm
        ((batches.filter (rid ∈ ·.reqIds)).map fun b => (b.outNs, b.readyNs, some b.key)) ∧
      (reqDispatch log rid).pending = [] ∧
      (reqDispatch log rid).phaseTotal =
        ((reqDispatchIntervals log rid).map fun d => d.endNs - d.startNs).sum := by
  set hints := extractEngineHints log.reqMetricEvents with hhints
  -- before the loop every batch that lists the request is unseen
  have hinit : Progress
      ((requestActions log.schedulerEvents rid).filter (·.ev.type ≠ .reqEnqueueScheduler))
      (initialDispatch hints rid) 0 0 (batches.filter (rid ∈ ·.reqIds) : List Batch) := by
    refine ⟨?_, by simp [initialDispatch], by simp [initialDispatch], ?_⟩
    · rw [Multiset.coe_eq_coe.mpr (dispatchActions_points hlog rid), coe_flatMap_pair,
        Multiset.map_zero, zero_add]
    · rw [zero_add, Multiset.map_coe, Multiset.coe_nodup]
      exact hkeys.sublist (List.filter_sublist.map _)
  -- after it every one of them is closed
  have hrun := hinit.run (((pairwise_tsNs_actions log.schedulerEvents).filter _).filter _)
  rw [runActions_filter, ← pairDispatches_eq, zero_add, zero_add] at hrun
  refine ⟨?_, ?_, phaseTotal_pairDispatches hints log.schedulerEvents rid⟩
  · exact Multiset.coe_eq_coe.mp (hrun.intervals.trans (Multiset.map_coe _ _))
  · have hpending := hrun.pending
    show (pairDispatches hints log.schedulerEvents rid).pending = []
    simpa using hpending

/-- Two batches of one request in flight together, the later one ready first. -/
def overlappingBatches : List Batch := [
  { key := "step-1"
    reqIds := ["r", "s"]
    outNs := 1700000000000000000
    readyNs := 1700000000030000000
    key_ne := by decide
    nodup := by decide
    nonblank := by decide
    nsTime := by decide
    lt := by decide },
  -- the second step is out and ready while the first one runs
  { key := "step-2"
    reqIds := ["r"]
    outNs := 1700000000010000000
    readyNs := 1700000000020000000
    key_ne := by decide
    nodup := by decide
    nonblank := by decide
    nsTime := by decide
    lt := by decide }]

/-- Their events, out of order. -/
def overlappingLog : Log :=
  (overlappingBatches.reverse.flatMap fun b => [b.readyEvent, b.outEvent]).map fun ev =>
    { timestampNs := ev.timestampNs, event := .scheduler ev }

/-- Two batches in flight at once. -/
theorem pairing_exact_overlapping :
    ((reqDispatchIntervals overlappingLog "r").map fun d =>
        (d.startNs, d.endNs, d.dispatchKey)).Perm
      ((overlappingBatches.filter ("r" ∈ ·.reqIds)).map fun b =>
        (b.outNs, b.readyNs, some b.key)) ∧
    (reqDispatch overlappingLog "r").pending = [] ∧
    (reqDispatch overlappingLog "r").phaseTotal =
      ((reqDispatchIntervals overlappingLog "r").map fun d => d.endNs - d.startNs).sum :=
  pairing_exact overlappingLog overlappingBatches (by decide) (by decide) "r"

end DeLatency
