import DeLatency.Converter.PpComm
import Mathlib.Data.List.Induction

/-!
# Pipeline arrows and transfers

A transfer is one dispatch between two stages, on one data-parallel and one
tensor-parallel rank.  The converter keeps the ends of an arrow under the
dispatch and the two stages alone, so ranks that differ only in `dp` or `tp`
overwrite each other.

## Key results

- `getD_ppCommFlowPoints`: an entry holds the last send and the last receive of its key
- `arrowsJoin_iff`: the arrows join the ends of one transfer exactly when the last ends
  of every key belong to one transfer, and no other transfer of the key is complete
-/

namespace DeLatency

/-- What identifies a transfer. -/
structure TransferId where
  dispatchKey : Option String
  dp : Rank
  tp : Rank
  src : Rank
  dst : Rank
deriving DecidableEq

def TransferId.flowKey (t : TransferId) : FlowKey := ⟨t.dispatchKey, t.src, t.dst⟩

namespace PpCommEvent

/-- The transfer that an event sends. -/
def sendOf (ev : PpCommEvent) : Option TransferId :=
  if ev.op = "send_tensor_dict" then
    some ⟨ev.dispatchKey, ev.ranks.dp.getD .null, ev.ranks.tp.getD .null, ev.ppRank, ev.peer⟩
  else none

/-- The transfer that an event receives. -/
def recvOf (ev : PpCommEvent) : Option TransferId :=
  if ev.op = "recv_tensor_dict" then
    some ⟨ev.dispatchKey, ev.ranks.dp.getD .null, ev.ranks.tp.getD .null, ev.peer, ev.ppRank⟩
  else none

/-- The point an arrow ends at when it is drawn to the start of an event. -/
def point (ev : PpCommEvent) : FlowPoint where
  tsNs := (ev.startNs.bind fun n => toNsInt n).getD 0
  pid := ev.pid
  tid := ev.tid
  source := ev

end PpCommEvent

/-- Events of positive duration under a dispatch key. -/
def KeyedSpans (events : List PpCommEvent) : Prop :=
  ∀ ev ∈ events, (validSpan ev.startNs ev.endNs).isSome ∧ (truthyKey ev.dispatchKey).isSome

/-- Both ends of a transfer are among the events. -/
def Complete (events : List PpCommEvent) (t : TransferId) : Prop :=
  (∃ s ∈ events, s.sendOf = some t) ∧ ∃ r ∈ events, r.recvOf = some t

/-- The arrow runs from the send to the receive of a transfer. -/
def FlowArrow.Joins (t : TransferId) (arrow : FlowArrow) : Prop :=
  arrow.send.source.sendOf = some t ∧ arrow.recv.source.recvOf = some t

instance (t : TransferId) : DecidablePred (FlowArrow.Joins t) := fun _ =>
  inferInstanceAs (Decidable (_ ∧ _))

/-- Every arrow joins two events of one transfer, and every complete transfer has exactly
    one arrow. -/
structure ArrowsJoin (slices : List DispatchSlice) (events : List PpCommEvent) : Prop where
  joins : ∀ arrow ∈ ppCommArrows slices events, ∃ s ∈ events, ∃ r ∈ events,
    arrow.send = s.point ∧ arrow.recv = r.point ∧ ∃ t, s.sendOf = some t ∧ r.recvOf = some t
  once : ∀ t, Complete events t → (ppCommArrows slices events).countP (FlowArrow.Joins t) = 1

/-! ## The last ends of a key -/

/-- The last of the events, in the order of the loop, that has the key. -/
def lastOf (key : PpCommEvent → Option FlowKey) (events : List PpCommEvent) (k : FlowKey) :
    Option PpCommEvent :=
  (events.filter fun ev => key ev = some k).getLast?

/-- The last event of a key is one of the events and has the key. -/
theorem mem_of_lastOf {key : PpCommEvent → Option FlowKey} {events : List PpCommEvent}
    {k : FlowKey} {ev : PpCommEvent} (h : lastOf key events k = some ev) :
    ev ∈ events ∧ key ev = some k := by
  have hmem := List.mem_filter.mp (List.mem_of_getLast? h)
  exact ⟨hmem.1, by simpa using hmem.2⟩

/-- A key that occurs has a last event. -/
theorem exists_lastOf {key : PpCommEvent → Option FlowKey} {events : List PpCommEvent}
    {k : FlowKey} {ev : PpCommEvent} (hmem : ev ∈ events) (hkey : key ev = some k) :
    ∃ last, lastOf key events k = some last := by
  have hfilter : ev ∈ events.filter fun ev => key ev = some k :=
    List.mem_filter.mpr ⟨hmem, by simpa using hkey⟩
  exact ⟨_, List.getLast?_eq_some_getLast (List.ne_nil_of_mem hfilter)⟩

/-- A further event of the key becomes its last. -/
theorem lastOf_concat (key : PpCommEvent → Option FlowKey) (events : List PpCommEvent)
    (ev : PpCommEvent) (k : FlowKey) :
    lastOf key (events ++ [ev]) k = if key ev = some k then some ev else lastOf key events k := by
  unfold lastOf
  rw [List.filter_append]
  split
  · next h => simp [h]
  · next h => simp [h]

def PpCommEvent.sendKey (ev : PpCommEvent) : Option FlowKey := ev.sendOf.map TransferId.flowKey

def PpCommEvent.recvKey (ev : PpCommEvent) : Option FlowKey := ev.recvOf.map TransferId.flowKey

/-- The events in the order of the loop. -/
def inTsOrder (events : List PpCommEvent) : List PpCommEvent :=
  events.sortBy fun ev => ev.ts.getD 0

/-- Sorting by time adds and drops none. -/
theorem mem_inTsOrder {events : List PpCommEvent} {ev : PpCommEvent} :
    ev ∈ inTsOrder events ↔ ev ∈ events := List.mem_sortBy

/-- For every key, the last send and the last receive belong to one transfer, and no other
    transfer of the key is complete. -/
def EndsAgree (events : List PpCommEvent) : Prop :=
  ∀ k s r, lastOf PpCommEvent.sendKey (inTsOrder events) k = some s →
    lastOf PpCommEvent.recvKey (inTsOrder events) k = some r →
    s.sendOf = r.recvOf ∧ ∀ t, t.flowKey = k → Complete events t → s.sendOf = some t

/-- Ranks that never share a key, such as those of a pipeline without tensor or data
    parallelism, always agree. -/
theorem endsAgree_of_flowKey_injective {events : List PpCommEvent}
    (hinj : ∀ t t', (∃ ev ∈ events, t ∈ ev.sendOf.or ev.recvOf) →
      (∃ ev ∈ events, t' ∈ ev.sendOf.or ev.recvOf) → t.flowKey = t'.flowKey → t = t') :
    EndsAgree events := by
  -- an event is a send or a receive, never both
  have hor : ∀ {ev : PpCommEvent} {t : TransferId}, ev.recvOf = some t →
      t ∈ ev.sendOf.or ev.recvOf := by
    intro ev t hrecv
    have hop : ev.op = "recv_tensor_dict" := by
      by_contra hne
      rw [PpCommEvent.recvOf, if_neg hne] at hrecv
      cases hrecv
    have hsend : ev.sendOf = none := by simp [PpCommEvent.sendOf, hop]
    rw [hsend, Option.none_or]
    exact hrecv
  intro k s r hs hr
  obtain ⟨hsmem, hskey⟩ := mem_of_lastOf hs
  obtain ⟨hrmem, hrkey⟩ := mem_of_lastOf hr
  obtain ⟨t, hst, htk⟩ := Option.map_eq_some_iff.mp hskey
  obtain ⟨t', hrt', htk'⟩ := Option.map_eq_some_iff.mp hrkey
  have hsent : ∃ ev ∈ events, t ∈ ev.sendOf.or ev.recvOf :=
    ⟨s, mem_inTsOrder.mp hsmem, by simp [hst]⟩
  constructor
  · rw [hst, hrt', hinj t t' hsent ⟨r, mem_inTsOrder.mp hrmem, hor hrt'⟩ (htk.trans htk'.symm)]
  · intro u huk hcomplete
    obtain ⟨⟨s', hs', hsu⟩, -⟩ := hcomplete
    rw [hst, hinj t u hsent ⟨s', hs', by simp [hsu]⟩ (htk.trans huk.symm)]

/-! ## The loop -/

/-- An event with a key keeps it. -/
theorem ppCommSpan_of_keyed (slices : List DispatchSlice) {ev : PpCommEvent}
    (hspan : (validSpan ev.startNs ev.endNs).isSome) (hkey : (truthyKey ev.dispatchKey).isSome) :
    ∃ span, ppCommSpan slices ev = some span ∧ span.source = ev ∧
      span.dispatchKey = ev.dispatchKey ∧ span.point = ev.point := by
  obtain ⟨⟨startNs, endNs⟩, hvalid⟩ := Option.isSome_iff_exists.mp hspan
  have hne : truthyKey ev.dispatchKey ≠ none := Option.isSome_iff_ne_none.mp hkey
  -- the span starts where the event does
  have hstart : (ev.startNs.bind fun n => toNsInt n) = some startNs := by
    unfold validSpan at hvalid
    split at hvalid
    · next hs _ =>
      split at hvalid
      · cases hvalid
      · cases hvalid; exact hs
    · cases hvalid
  refine ⟨_, by rw [ppCommSpan, hvalid, Option.map_some], ?_⟩
  dsimp only
  -- inference may add requests, and nothing else
  split
  · rw [if_neg (fun h => hne h.1)]
    split <;> exact ⟨rfl, rfl, by simp [PpCommSpan.point, PpCommEvent.point, hstart]⟩
  · exact ⟨rfl, rfl, by simp [PpCommSpan.point, PpCommEvent.point, hstart]⟩

/-- What one turn does to one entry. -/
theorem getD_ppCommFlowStep (points : Dict FlowKey FlowPoints) {span : PpCommSpan}
    {ev : PpCommEvent} (hsource : span.source = ev) (hkey : span.dispatchKey = ev.dispatchKey)
    (hpoint : span.point = ev.point) (k : FlowKey) :
    (ppCommFlowStep points span).getD k {} =
      { send := if ev.sendKey = some k then some ev.point else (points.getD k {}).send
        recv := if ev.recvKey = some k then some ev.point else (points.getD k {}).recv } := by
  unfold ppCommFlowStep
  dsimp only
  rw [hsource, hkey, hpoint]
  by_cases hs : ev.op = "send_tensor_dict"
  · -- a send knows its own stage and its peer
    have hsend : ev.sendKey = some ⟨ev.dispatchKey, ev.ppRank, ev.peer⟩ := by
      simp [PpCommEvent.sendKey, PpCommEvent.sendOf, hs, TransferId.flowKey]
    have hrecv : ev.recvKey = none := by
      simp [PpCommEvent.recvKey, PpCommEvent.recvOf, hs]
    rw [if_pos hs, Dict.getD_alter, hsend, hrecv]
    by_cases hk : k = ⟨ev.dispatchKey, ev.ppRank, ev.peer⟩
    · subst hk; simp
    · simp [hk, Ne.symm hk]
  · have hsend : ev.sendKey = none := by simp [PpCommEvent.sendKey, PpCommEvent.sendOf, hs]
    rw [if_neg hs, hsend]
    split
    · next hr =>
      -- a receive has the two stages the other way round
      have hrecv : ev.recvKey = some ⟨ev.dispatchKey, ev.peer, ev.ppRank⟩ := by
        simp [PpCommEvent.recvKey, PpCommEvent.recvOf, hr, TransferId.flowKey]
      rw [Dict.getD_alter, hrecv]
      by_cases hk : k = ⟨ev.dispatchKey, ev.peer, ev.ppRank⟩
      · subst hk; simp
      · simp [hk, Ne.symm hk]
    · next hr =>
      have hrecv : ev.recvKey = none := by simp [PpCommEvent.recvKey, PpCommEvent.recvOf, hr]
      simp [hrecv]

/-- An entry holds the last send and the last receive of its key. -/
theorem getD_ppCommFlowPoints (slices : List DispatchSlice) {events : List PpCommEvent}
    (hkeyed : KeyedSpans events) (k : FlowKey) :
    (ppCommFlowPoints (events.filterMap (ppCommSpan slices))).getD k {} =
      { send := (lastOf PpCommEvent.sendKey events k).map PpCommEvent.point
        recv := (lastOf PpCommEvent.recvKey events k).map PpCommEvent.point } := by
  induction events using List.reverseRecOn with
  | nil => rfl
  | append_singleton rest ev ih =>
    have hrest : KeyedSpans rest := fun e he => hkeyed e (List.mem_append_left _ he)
    obtain ⟨hspan, hkey⟩ := hkeyed ev (by simp)
    -- the last event has a span, and its point replaces that of its key
    obtain ⟨span, hsome, hsource, hdispatch, hpoint⟩ :=
      ppCommSpan_of_keyed slices hspan hkey
    unfold ppCommFlowPoints at ih ⊢
    rw [List.filterMap_append, List.foldl_append, List.filterMap_cons_some hsome,
      List.filterMap_nil, List.foldl_cons, List.foldl_nil,
      getD_ppCommFlowStep _ hsource hdispatch hpoint, ih hrest, lastOf_concat, lastOf_concat]
    congr 1 <;> split <;> rfl

/-- Sorting by time touches neither the spans nor the keys. -/
theorem keyedSpans_inTsOrder {events : List PpCommEvent} (h : KeyedSpans events) :
    KeyedSpans (inTsOrder events) := fun ev hev => h ev (mem_inTsOrder.mp hev)

/-! ## The arrows -/

/-- The transfer ends of an entry, without the id of its arrow. -/
def FlowPoints.ends (points : FlowPoints) : Option (FlowPoint × FlowPoint) :=
  match points.send, points.recv with
  | some send, some recv => some (send, recv)
  | _, _ => none

/-- The arrows are the entries with two ends. -/
theorem map_ends_ppFlowArrows (points : Dict FlowKey FlowPoints) :
    (ppFlowArrows points).map (fun arrow => (arrow.send, arrow.recv)) =
      points.entries.filterMap fun e => e.2.ends := by
  -- an arrow is drawn just when both ends of the key are known
  have hentry : ∀ e : (FlowKey × FlowPoints) × ℕ,
      (ppFlowArrow e).map (fun arrow => (arrow.send, arrow.recv)) = e.1.2.ends := by
    intro e
    obtain ⟨⟨k, send, recv⟩, idx⟩ := e
    cases send <;> cases recv <;> rfl
  have hindex : (fun e : (FlowKey × FlowPoints) × ℕ => e.1.2.ends) =
      (fun e : FlowKey × FlowPoints => e.2.ends) ∘ Prod.fst := rfl
  rw [ppFlowArrows, List.map_filterMap]
  simp only [hentry]
  rw [hindex, ← List.filterMap_map, List.zipIdx_map_fst]

section Arrows

variable {slices : List DispatchSlice} {events : List PpCommEvent}

/-- The entries of the loop. -/
theorem mem_entries_iff (hkeyed : KeyedSpans events) {k : FlowKey} {s r : FlowPoint} :
    (k, { send := some s, recv := some r }) ∈
        (ppCommFlowPoints (ppCommSpans slices events)).entries ↔
      (lastOf PpCommEvent.sendKey (inTsOrder events) k).map PpCommEvent.point = some s ∧
        (lastOf PpCommEvent.recvKey (inTsOrder events) k).map PpCommEvent.point = some r := by
  have hget : (ppCommFlowPoints (ppCommSpans slices events)).getD k {} = _ :=
    getD_ppCommFlowPoints slices (keyedSpans_inTsOrder hkeyed) k
  constructor
  · intro hmem
    rw [Dict.getD_of_mem hmem, FlowPoints.mk.injEq] at hget
    exact ⟨hget.1.symm, hget.2.symm⟩
  · intro h
    rw [h.1, h.2] at hget
    rw [← hget]
    -- a value other than the default stands in an entry
    apply Dict.mem_entries_of_getD_ne
    rw [hget]
    simp

/-- An arrow runs between the last ends of a key. -/
theorem mem_ppCommArrows (hkeyed : KeyedSpans events) {arrow : FlowArrow}
    (h : arrow ∈ ppCommArrows slices events) :
    ∃ k s r, lastOf PpCommEvent.sendKey (inTsOrder events) k = some s ∧
      lastOf PpCommEvent.recvKey (inTsOrder events) k = some r ∧
      arrow.send = s.point ∧ arrow.recv = r.point := by
  have hends : (arrow.send, arrow.recv) ∈ (ppCommArrows slices events).map fun arrow =>
      (arrow.send, arrow.recv) := List.mem_map_of_mem h
  -- the ids of the arrows play no part
  rw [ppCommArrows, map_ends_ppFlowArrows] at hends
  obtain ⟨⟨k, points⟩, hentry, hpoints⟩ := List.mem_filterMap.mp hends
  unfold FlowPoints.ends at hpoints
  split at hpoints
  · next send recv hsend hrecv =>
    obtain ⟨rfl, rfl⟩ : send = arrow.send ∧ recv = arrow.recv := by simpa using hpoints
    have hfull : points = { send := some arrow.send, recv := some arrow.recv } := by
      rw [← hsend, ← hrecv]
    obtain ⟨hs, hr⟩ := (mem_entries_iff hkeyed).mp (hfull ▸ hentry)
    obtain ⟨s, hlast, hspoint⟩ := Option.map_eq_some_iff.mp hs
    obtain ⟨r, hlast', hrpoint⟩ := Option.map_eq_some_iff.mp hr
    exact ⟨k, s, r, hlast, hlast', hspoint.symm, hrpoint.symm⟩
  · cases hpoints

/-- The last ends of a key have an arrow. -/
theorem exists_arrow (slices : List DispatchSlice) (hkeyed : KeyedSpans events) {k : FlowKey}
    {s r : PpCommEvent}
    (hs : lastOf PpCommEvent.sendKey (inTsOrder events) k = some s)
    (hr : lastOf PpCommEvent.recvKey (inTsOrder events) k = some r) :
    ∃ arrow ∈ ppCommArrows slices events, arrow.send = s.point ∧ arrow.recv = r.point := by
  -- both ends of the key are there, so its entry is drawn
  have hentry : (k, { send := some s.point, recv := some r.point }) ∈
      (ppCommFlowPoints (ppCommSpans slices events)).entries := (mem_entries_iff hkeyed).mpr
    ⟨congrArg (Option.map PpCommEvent.point) hs, congrArg (Option.map PpCommEvent.point) hr⟩
  have hends : (s.point, r.point) ∈ (ppCommArrows slices events).map fun arrow =>
      (arrow.send, arrow.recv) := by
    rw [ppCommArrows, map_ends_ppFlowArrows]
    exact List.mem_filterMap.mpr ⟨_, hentry, rfl⟩
  obtain ⟨arrow, harrow, heq⟩ := List.mem_map.mp hends
  rw [Prod.mk.injEq] at heq
  exact ⟨arrow, harrow, heq⟩

/-- A complete transfer that has the last ends of its key has one arrow. -/
theorem countP_joins (hkeyed : KeyedSpans events) {t : TransferId} {s r : PpCommEvent}
    (hs : lastOf PpCommEvent.sendKey (inTsOrder events) t.flowKey = some s)
    (hr : lastOf PpCommEvent.recvKey (inTsOrder events) t.flowKey = some r)
    (hsend : s.sendOf = some t) (hrecv : r.recvOf = some t) :
    (ppCommArrows slices events).countP (FlowArrow.Joins t) = 1 := by
  let full : FlowKey × FlowPoints := (t.flowKey, { send := some s.point, recv := some r.point })
  let entries := (ppCommFlowPoints (ppCommSpans slices events)).entries
  have hfull : full ∈ entries := (mem_entries_iff hkeyed).mpr
    ⟨congrArg (Option.map PpCommEvent.point) hs, congrArg (Option.map PpCommEvent.point) hr⟩
  let joins : FlowPoint × FlowPoint → Bool := fun ends =>
    ends.1.source.sendOf = some t ∧ ends.2.source.recvOf = some t
  -- an entry gives the transfer's arrow only under the transfer's own key
  have hentry : ∀ e ∈ entries, ((e.2.ends.map joins).getD false = true ↔ (e == full) = true) := by
    intro e he
    obtain ⟨k, send, recv⟩ := e
    rw [beq_iff_eq]
    constructor
    · intro h
      cases send with
      | none => simp [FlowPoints.ends] at h
      | some send =>
        cases recv with
        | none => simp [FlowPoints.ends] at h
        | some recv =>
          obtain ⟨hsend', -⟩ : send.source.sendOf = some t ∧ recv.source.recvOf = some t := by
            simpa [FlowPoints.ends, joins] using h
          obtain ⟨hs', -⟩ := (mem_entries_iff hkeyed).mp he
          obtain ⟨s', hlast, rfl⟩ := Option.map_eq_some_iff.mp hs'
          have hk : k = t.flowKey := by
            have hkey := (mem_of_lastOf hlast).2
            rw [PpCommEvent.sendKey, show s'.sendOf = some t from hsend'] at hkey
            exact (Option.some.inj hkey).symm
          subst hk
          have h₁ := Dict.getD_of_mem he {}
          have h₂ := Dict.getD_of_mem hfull {}
          rw [Prod.mk.injEq]
          exact ⟨rfl, h₁.symm.trans h₂⟩
    · intro h
      rw [h]
      simp [FlowPoints.ends, full, joins, PpCommEvent.point, hsend, hrecv]
  have hnodup : entries.Nodup := List.Nodup.of_map _ (ppCommFlowPoints _).nodup
  calc (ppCommArrows slices events).countP (FlowArrow.Joins t)
      = ((ppCommArrows slices events).map fun arrow => (arrow.send, arrow.recv)).countP joins := by
        rw [List.countP_map]; rfl
    _ = (entries.filterMap fun e => e.2.ends).countP joins := by
        rw [ppCommArrows, map_ends_ppFlowArrows]
    _ = entries.countP fun e => (e.2.ends.map joins).getD false := by rw [List.countP_filterMap]
    _ = entries.countP (· == full) := List.countP_congr hentry
    _ = 1 := List.count_eq_one_of_mem hnodup hfull

/-- The arrows of a log join transfers exactly when, for every dispatch and pair of stages, the
    last ends belong to one transfer and no other transfer is complete. -/
theorem arrowsJoin_iff (slices : List DispatchSlice) {events : List PpCommEvent}
    (hkeyed : KeyedSpans events) : ArrowsJoin slices events ↔ EndsAgree events := by
  constructor
  · intro h k s r hs hr
    obtain ⟨arrow, harrow, hsend, hrecv⟩ := exists_arrow slices hkeyed hs hr
    obtain ⟨s', -, r', -, hsend', hrecv', t, hst, hrt⟩ := h.joins arrow harrow
    -- a point knows its event
    obtain rfl : s = s' := congrArg FlowPoint.source (hsend.symm.trans hsend')
    obtain rfl : r = r' := congrArg FlowPoint.source (hrecv.symm.trans hrecv')
    refine ⟨hst.trans hrt.symm, ?_⟩
    intro t' hkey hcomplete
    have hone : 0 < (ppCommArrows slices events).countP (FlowArrow.Joins t') := by
      rw [h.once t' hcomplete]
      exact one_pos
    obtain ⟨arrow', harrow', hjoins⟩ := List.countP_pos_iff.mp hone
    obtain ⟨hst', -⟩ := of_decide_eq_true hjoins
    obtain ⟨k', s', r', hs', -, hpoint, -⟩ := mem_ppCommArrows hkeyed harrow'
    rw [hpoint, show s'.point.source = s' from rfl] at hst'
    -- the arrow of `t'` has its key, so it starts at the same send
    have hk' : t'.flowKey = k' := by
      have hsendKey := (mem_of_lastOf hs').2
      rw [PpCommEvent.sendKey, hst'] at hsendKey
      exact Option.some.inj hsendKey
    rw [← hk', hkey, hs, Option.some.injEq] at hs'
    rw [hs', hst']
  · intro h
    constructor
    · intro arrow harrow
      obtain ⟨k, s, r, hs, hr, hsend, hrecv⟩ := mem_ppCommArrows hkeyed harrow
      obtain ⟨hmem, hkey⟩ := mem_of_lastOf hs
      obtain ⟨t, hst, -⟩ := Option.map_eq_some_iff.mp hkey
      exact ⟨s, mem_inTsOrder.mp hmem, r, mem_inTsOrder.mp (mem_of_lastOf hr).1, hsend,
        hrecv, t, hst, (h k s r hs hr).1 ▸ hst⟩
    · intro t hcomplete
      obtain ⟨⟨s, hs, hst⟩, r, hr, hrt⟩ := hcomplete
      have hsk : s.sendKey = some t.flowKey := by rw [PpCommEvent.sendKey, hst, Option.map_some]
      have hrk : r.recvKey = some t.flowKey := by rw [PpCommEvent.recvKey, hrt, Option.map_some]
      obtain ⟨s', hs'⟩ := exists_lastOf (mem_inTsOrder.mpr hs) hsk
      obtain ⟨r', hr'⟩ := exists_lastOf (mem_inTsOrder.mpr hr) hrk
      obtain ⟨hends, hlast⟩ := h _ s' r' hs' hr'
      have hst' : s'.sendOf = some t := hlast t rfl ⟨⟨s, hs, hst⟩, r, hr, hrt⟩
      exact countP_joins hkeyed hs' hr' hst' (hends ▸ hst')

end Arrows

/-! ## Two tensor-parallel ranks -/

/-- At most one send and one receive of each transfer. -/
def SingleEnds (events : List PpCommEvent) : Prop :=
  (events.filterMap PpCommEvent.sendOf).Nodup ∧ (events.filterMap PpCommEvent.recvOf).Nodup

/-- One end of the micro-batch that stage 0 sends to stage 1. -/
def tpTransfer (op : String) (tid tp pp peer startNs : ℤ) : PpCommEvent where
  op := op
  pid := some tid
  tid := some tid
  dispatchKey := some "dp0-step7"
  reqIds := ["req-a"]
  ranks := { dp := some (.int 0), pp := some (.int pp), tp := some (.int tp) }
  peerRank := some peer
  startNs := some startNs
  endNs := some (startNs + 50000)
  timestampNs := some (startNs + 50000)

def oneTpRank : List PpCommEvent :=
  [tpTransfer "send_tensor_dict" 100 0 0 1 1700000000000000000,
    tpTransfer "recv_tensor_dict" 200 0 1 0 1700000000000030000]

def twoTpRanks : List PpCommEvent :=
  [tpTransfer "send_tensor_dict" 100 0 0 1 1700000000000000000,
    tpTransfer "send_tensor_dict" 101 1 0 1 1700000000000010000,
    tpTransfer "recv_tensor_dict" 201 1 1 0 1700000000000020000,
    tpTransfer "recv_tensor_dict" 200 0 1 0 1700000000000030000]

/-- One rank gets its arrow. -/
theorem arrowsJoin_oneTpRank : ArrowsJoin [] oneTpRank := by
  apply (arrowsJoin_iff [] (by unfold KeyedSpans; decide)).mpr
  apply endsAgree_of_flowKey_injective
  have huniq : ∀ ev ∈ oneTpRank, ∀ t ∈ ev.sendOf.or ev.recvOf,
      t = ⟨some "dp0-step7", .int 0, .int 0, .int 0, .int 1⟩ := by decide
  intro t t' ht ht' _
  obtain ⟨ev, hev, hmem⟩ := ht
  obtain ⟨ev', hev', hmem'⟩ := ht'
  rw [huniq ev hev t hmem, huniq ev' hev' t' hmem']

/-- The one arrow runs from the send of one rank to the receive of the other. -/
theorem not_arrowsJoin_twoTpRanks :
    KeyedSpans twoTpRanks ∧ SingleEnds twoTpRanks ∧ ¬ArrowsJoin [] twoTpRanks := by
  refine ⟨by unfold KeyedSpans; decide, by unfold SingleEnds; decide, ?_⟩
  intro h
  let tp0 : TransferId := ⟨some "dp0-step7", .int 0, .int 0, .int 0, .int 1⟩
  have hcomplete : Complete twoTpRanks tp0 := by unfold Complete; decide
  -- the entry's send is that of rank 1, its receive that of rank 0
  have hnone : (ppCommArrows [] twoTpRanks).countP (FlowArrow.Joins tp0) = 0 := by decide
  rw [h.once tp0 hcomplete] at hnone
  cases hnone

end DeLatency
