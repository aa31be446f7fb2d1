import DeLatency.Spec.Dispatch

/-!
# Pairing under loss

The emitters discard events on a full queue, so the converter may see any
sub-sequence of the scheduler events.  Every interval still joins an out-rpc with a
strictly later step-ready event that lists the same request, and uses each
occurrence once.  What loss can break is the agreement of the dispatch keys: a
step-ready event whose own start is missing takes the oldest one, whatever its key
(`pairing_sound_iff`).
-/

namespace DeLatency

/-- `src` is a place where an event of the given type lists `rid`. -/
structure ListedAt (events : List SchedulerEvent) (type : SchedulerEventType) (src : Occurrence)
    (rid : String) (ev : SchedulerEvent) : Prop where
  event : events[src.event]? = some ev
  type : ev.type = type
  request : ev.reqIds[src.index]? = some rid

/-- Two dispatch keys agree unless both are present and differ. -/
def KeysAgree (out ready : SchedulerEvent) : Prop :=
  ∀ k k', truthyKey out.dispatchKey = some k → truthyKey ready.dispatchKey = some k' → k = k'

/-- `d` joins an out-rpc with a strictly later step-ready event listing `rid`. -/
structure Joins (events : List SchedulerEvent) (rid : String) (d : DispatchInterval)
    (out ready : SchedulerEvent) : Prop where
  outListed : ListedAt events .reqSchedulerOutRpc d.outSrc rid out
  readyListed : ListedAt events .reqStepReady d.readySrc rid ready
  startNs : out.timestampNs.bind toNsInt = some d.startNs
  endNs : ready.timestampNs.bind toNsInt = some d.endNs
  later : d.startNs < d.endNs

/-- The intervals of a request are sound: they join events whose keys agree, and
    use each occurrence of the request once. -/
structure PairingSound (hints : String → EngineHints) (events : List SchedulerEvent)
    (rid : String) : Prop where
  joins : ∀ d ∈ (pairDispatches hints events rid).intervals,
    ∃ out ready, Joins events rid d out ready ∧ KeysAgree out ready
  outOnce : ((pairDispatches hints events rid).intervals.map DispatchInterval.outSrc).Nodup
  readyOnce : ((pairDispatches hints events rid).intervals.map DispatchInterval.readySrc).Nodup

/-- A step-ready action falls back to a start of another key: it has a key that no
    open start has, and the oldest start is earlier and has a key too. -/
def FallbackMismatch (st : ReqDispatch) (ready : Action) : Prop :=
  ready.ev.type = .reqStepReady ∧ ∃ k oldest, truthyKey ready.ev.dispatchKey = some k ∧
    (∀ p ∈ st.pending, p.dispatchKey ≠ some k) ∧ st.pending.head? = some oldest ∧
    (truthyKey oldest.dispatchKey).isSome ∧ oldest.startNs < ready.tsNs

variable {events : List SchedulerEvent} {rid : String}

/-! ## What holds under any loss -/

/-- Every interval joins an out-rpc with a strictly later step-ready event. -/
theorem exists_joins (hints : String → EngineHints) {d : DispatchInterval}
    (hd : d ∈ (pairDispatches hints events rid).intervals) :
    ∃ out ready, Joins events rid d out ready := by
  obtain ⟨out, hout, ready, hready, hj⟩ := (tracks_pairDispatches hints events rid).intervals d hd
  -- both actions belong to `rid` and come from events of the log
  obtain ⟨hout, houtRid⟩ := List.mem_filter.mp hout
  obtain ⟨hready, hreadyRid⟩ := List.mem_filter.mp hready
  rw [decide_eq_true_eq] at houtRid hreadyRid
  obtain ⟨h1, h2, h3⟩ := mem_actions hout
  obtain ⟨h4, h5, h6⟩ := mem_actions hready
  refine ⟨out.ev, ready.ev, ⟨?_, hj.outType, ?_⟩, ⟨?_, hj.readyType, ?_⟩, ?_, ?_, hj.lt⟩
  · rw [hj.outSrc]; exact h1
  · rw [hj.outSrc, h2, houtRid]
  · rw [hj.readySrc]; exact h4
  · rw [hj.readySrc, h5, hreadyRid]
  · rw [h3, hj.startNs]
  · rw [h6, hj.endNs]

/-- The events that an interval joins are determined by its occurrences. -/
theorem Joins.eq_of_joinedBy {d : DispatchInterval} {out ready : SchedulerEvent} {a b : Action}
    (h : Joins events rid d out ready) (ha : a ∈ actions events) (hb : b ∈ actions events)
    (hj : JoinedBy a b d) : out = a.ev ∧ ready = b.ev := by
  have hout := h.outListed.event
  have hready := h.readyListed.event
  rw [hj.outSrc, (mem_actions ha).1] at hout
  rw [hj.readySrc, (mem_actions hb).1] at hready
  exact ⟨(Option.some.inj hout).symm, (Option.some.inj hready).symm⟩

/-! ## The keys -/

/-- A key that counts as given is the key itself. -/
theorem truthyKey_some {k k' : String} (h : truthyKey (some k) = some k') : k = k' := by
  unfold truthyKey at h
  rw [Option.filter_some] at h
  split at h
  · exact Option.some.inj h
  · cases h

/-- The keys of every interval agree, as far as the actions `seen` tell. -/
private def KeysKept (seen : List Action) (st : ReqDispatch) : Prop :=
  ∀ d ∈ st.intervals, ∃ out ∈ seen, ∃ ready ∈ seen, JoinedBy out ready d ∧ KeysAgree out.ev ready.ev

/-- More actions keep the keys that were kept. -/
private theorem KeysKept.mono {seen : List Action} {st : ReqDispatch} {a : Action}
    (h : KeysKept seen st) : KeysKept (seen ++ [a]) st := by
  intro d hd
  obtain ⟨out, hout, ready, hready, hj⟩ := h d hd
  exact ⟨out, List.mem_append_left _ hout, ready, List.mem_append_left _ hready, hj⟩

/-- Without a mismatch an action adds no interval with different keys. -/
private theorem KeysKept.step {seen : List Action} {st : ReqDispatch} {a : Action}
    (ht : Tracks seen st) (h : KeysKept seen st) (hno : ¬FallbackMismatch st a) :
    KeysKept (seen ++ [a]) (a.apply st) := by
  obtain ⟨-, heq⟩ | ⟨-, heq⟩ | ⟨htype, heq⟩ := a.apply_cases st
  · rw [heq]; exact h.mono
  · rw [heq]; exact h.mono
  · rw [heq]
    obtain ⟨-, hclose⟩ | ⟨item, rest, hpop, hperm, ⟨-, hclose⟩ | ⟨hlt, phase, hints, hclose⟩⟩ :=
      closeDispatch_cases a.tsNs a.ev.dispatchKey
        (explicitPhase (a.ev.phaseByReq.lookup a.rid)) a.src st
    · rw [hclose]; exact h.mono
    · rw [hclose]; exact h.mono
    · rw [hclose]
      intro d hd
      cases List.mem_append.mp hd with
      | inl hd => exact h.mono d hd
      | inr hd =>
        -- the new interval: who opened the start that the pop took
        rw [List.mem_singleton] at hd
        subst hd
        obtain ⟨out, hout, hop⟩ := ht.pending item (hperm.mem_iff.mpr List.mem_cons_self)
        refine ⟨out, List.mem_append_left _ hout, a, List.mem_append_right _ List.mem_cons_self,
          ⟨hop.type, htype, hop.startNs, rfl, hlt, rfl, hop.src, rfl⟩, ?_⟩
        intro k k' hk hk'
        obtain hkey | ⟨hnone, hhead⟩ := popDispatchStartForReady_key hk' hpop
        · -- the start was found by its key
          rw [← hop.dispatchKey, hkey] at hk
          exact (truthyKey_some hk).symm
        · -- the oldest start was taken, so it has no key
          rw [← hop.dispatchKey] at hk
          exact absurd ⟨htype, k', item, hk', hnone, hhead, by rw [hk]; rfl, hlt⟩ hno

/-- A mismatch adds an interval with different keys. -/
private theorem exists_disagree_of_mismatch {seen : List Action} {st : ReqDispatch} {a : Action}
    (ht : Tracks seen st) (h : FallbackMismatch st a) :
    ∃ d ∈ (a.apply st).intervals, ∃ out ∈ seen, JoinedBy out a d ∧ ¬KeysAgree out.ev a.ev := by
  obtain ⟨htype, k, oldest, hk, hnone, hhead, hkey, hlt⟩ := h
  obtain ⟨h, -⟩ | ⟨h, -⟩ | ⟨-, heq⟩ := a.apply_cases st
  · rw [htype] at h; cases h
  · rw [htype] at h; cases h
  rw [heq]
  -- the pop finds no start with the key and takes the oldest
  obtain ⟨hnil, -⟩ | ⟨item, rest, hpop, hperm, hcases⟩ :=
    closeDispatch_cases a.tsNs a.ev.dispatchKey
      (explicitPhase (a.ev.phaseByReq.lookup a.rid)) a.src st
  · rw [hnil] at hhead; cases hhead
  have hitem : item ∈ st.pending := hperm.mem_iff.mpr List.mem_cons_self
  have hold : oldest = item := by
    obtain hfound | ⟨-, hhead'⟩ := popDispatchStartForReady_key hk hpop
    · exact absurd hfound (hnone item hitem)
    · exact Option.some.inj (hhead.symm.trans hhead')
  subst hold
  obtain ⟨hle, -⟩ | ⟨-, phase, hints, hclose⟩ := hcases
  · omega
  obtain ⟨out, hout, hop⟩ := ht.pending oldest hitem
  rw [hclose]
  refine ⟨_, List.mem_append_right _ List.mem_cons_self, out, hout,
    ⟨hop.type, htype, hop.startNs, rfl, hlt, rfl, hop.src, rfl⟩, fun hagree => ?_⟩
  obtain ⟨k', hk'⟩ := Option.isSome_iff_exists.mp hkey
  have heq' : k' = k := hagree k' k (by rw [← hop.dispatchKey]; exact hk') hk
  -- so the oldest start has the key after all
  subst heq'
  apply hnone oldest hitem
  cases hd : oldest.dispatchKey with
  | none => rw [hd] at hk'; cases hk'
  | some key => rw [hd] at hk'; rw [truthyKey_some hk']

/-- Intervals are never taken back. -/
theorem intervals_subset_apply (a : Action) (st : ReqDispatch) :
    st.intervals ⊆ (a.apply st).intervals := by
  obtain ⟨-, heq⟩ | ⟨-, heq⟩ | ⟨-, heq⟩ := a.apply_cases st
  · rw [heq]; exact List.Subset.refl _
  · rw [heq]; exact List.Subset.refl _
  · rw [heq]
    -- a ready event closes an open start, finds none, or finds one that is not before it
    obtain ⟨-, hclose⟩ | ⟨item, rest, -, -, ⟨-, hclose⟩ | ⟨-, phase, hints, hclose⟩⟩ :=
      closeDispatch_cases a.tsNs a.ev.dispatchKey
        (explicitPhase (a.ev.phaseByReq.lookup a.rid)) a.src st
    · rw [hclose]; exact List.Subset.refl _
    · rw [hclose]; exact List.Subset.refl _
    · rw [hclose]; exact List.subset_append_left _ _

/-- No action takes an interval back. -/
theorem intervals_subset_run (acts : List Action) (st : ReqDispatch) :
    st.intervals ⊆ (runActions acts st).intervals := by
  induction acts generalizing st with
  | nil => exact List.Subset.refl _
  | cons a rest ih => exact List.Subset.trans (intervals_subset_apply a st) (ih (a.apply st))

/-- Without a mismatch on the way, a run keeps the keys in agreement. -/
private theorem KeysKept.run {seen acts : List Action} {st : ReqDispatch} (ht : Tracks seen st)
    (h : KeysKept seen st) (hsrc : (seen ++ acts).Pairwise fun a b => a.src ≠ b.src)
    (hno : ∀ before a after, acts = before ++ a :: after →
      ¬FallbackMismatch (runActions before st) a) :
    KeysKept (seen ++ acts) (runActions acts st) := by
  induction acts generalizing seen st with
  | nil => simpa using h
  | cons a rest ih =>
    have hnew : ∀ b ∈ seen, b.src ≠ a.src := fun b hb =>
      (List.pairwise_append.mp hsrc).2.2 b hb a List.mem_cons_self
    have hstep := KeysKept.step ht h (hno [] a rest rfl)
    -- a step of the rest is a step of the whole run, one action later
    have hno' : ∀ before b after, rest = before ++ b :: after →
        ¬FallbackMismatch (runActions before (a.apply st)) b := by
      intro before b after heq
      have hlater := hno (a :: before) b after (by rw [heq]; rfl)
      simpa using hlater
    have hrest := ih (ht.step hnew) hstep (by simpa using hsrc) hno'
    simpa using hrest

/-- The pairing is sound exactly when no step-ready event falls back to an earlier
    start of another key. -/
theorem pairing_sound_iff (hints : String → EngineHints) (events : List SchedulerEvent) :
    (∀ rid, PairingSound hints events rid) ↔
      ∀ rid before ready after, requestActions events rid = before ++ ready :: after →
        ¬FallbackMismatch (runActions before (initialDispatch hints rid)) ready := by
  constructor
  · -- a mismatch leaves an interval behind that no later action takes back
    intro hsound rid before ready after hacts hmis
    have hsrc := pairwise_src_requestActions events rid
    rw [hacts] at hsrc
    have ht : Tracks before (runActions before (initialDispatch hints rid)) :=
      (tracks_initial hints rid).run (List.pairwise_append.mp hsrc).1
    obtain ⟨d, hd, out, hout, hj, hdis⟩ := exists_disagree_of_mismatch ht hmis
    have hfinal : d ∈ (pairDispatches hints events rid).intervals := by
      rw [pairDispatches_eq, hacts, runActions_append, runActions_cons]
      exact intervals_subset_run after _ hd
    obtain ⟨out', ready', hjoins, hagree⟩ := (hsound rid).joins d hfinal
    have hmem : ∀ a ∈ before ++ ready :: after, a ∈ actions events := fun a ha => by
      rw [← hacts] at ha
      exact List.mem_of_mem_filter ha
    obtain ⟨rfl, rfl⟩ := hjoins.eq_of_joinedBy (hmem out (List.mem_append_left _ hout))
      (hmem ready (by simp)) hj
    exact hdis hagree
  · -- without a mismatch the run keeps every interval's keys in agreement
    intro hno rid
    have ht := tracks_pairDispatches hints events rid
    refine ⟨fun d hd => ?_, (List.nodup_append.mp ht.nodupOut).2.1, ht.nodupReady⟩
    have hkept : KeysKept (requestActions events rid) (pairDispatches hints events rid) := by
      rw [pairDispatches_eq]
      exact KeysKept.run (tracks_initial hints rid) (by simp [KeysKept, initialDispatch])
        (pairwise_src_requestActions events rid) (hno rid)
    obtain ⟨a, ha, b, hb, hj, hagree⟩ := hkept d hd
    obtain ⟨out, ready, hjoins⟩ := exists_joins hints hd
    obtain ⟨rfl, rfl⟩ := hjoins.eq_of_joinedBy (List.mem_of_mem_filter ha)
      (List.mem_of_mem_filter hb) hj
    exact ⟨_, _, hjoins, hagree⟩

/-- Two batches of one request of which the first step-ready and the second out-rpc
    were lost. -/
def lossyEvents : List SchedulerEvent := [
  { type := .reqSchedulerOutRpc
    timestampNs := some 1700000000000000000
    reqIds := ["r"]
    dispatchKey := some "step-1" },
  { type := .reqStepReady
    timestampNs := some 1700000000020000000
    reqIds := ["r"]
    dispatchKey := some "step-2" }]

/-- On these events an interval joins different keys. -/
theorem lossyEvents_not_sound : ¬PairingSound (fun _ => {}) lossyEvents "r" := by
  intro h
  obtain ⟨out, ready, hj, hagree⟩ := h.joins {
    startNs := 1700000000000000000
    endNs := 1700000000020000000
    phase := .unknown
    durationNs := 20000000
    dispatchKey := some "step-2"
    batchReqIds := ["r"]
    outSrc := ⟨0, 0⟩
    readySrc := ⟨1, 0⟩ } (by decide)
  have hout := hj.outListed.event
  have hready := hj.readyListed.event
  simp only [lossyEvents, List.getElem?_cons_zero, List.getElem?_cons_succ] at hout hready
  cases hout
  cases hready
  -- the keys of the only two events differ
  exact absurd (hagree "step-1" "step-2" (by decide) (by decide)) (by decide)

end DeLatency
