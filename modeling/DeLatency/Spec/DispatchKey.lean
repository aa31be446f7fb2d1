import DeLatency.Patch.SchedulerOutput
import DeLatency.Spec.PyText

/-!
# Dispatch keys

The scheduler, the executor, the workers and the model runner make the key of a step each
on their own, from copies of the scheduler output.  The text that is hashed says what the
step is and nothing else (`dispatchText_eq_iff`): the order in which a copy lists the
requests of a map does not matter, and every difference in what the step does shows.  Two
keys are equal if and only if the steps are the same or the digests collide
(`makeDispatchKey_eq_iff`).
-/

namespace DeLatency

/-! ## Request ids -/

/-- An id that comes out of the normalization is its own normal form. -/
theorem normalizeRequestId_of_mem_normalizeReqIds {items : List (Option ReqItem)} {rid : String}
    (h : rid ∈ normalizeReqIds items) : normalizeRequestId rid = some rid := by
  obtain ⟨item, -, hitem⟩ := List.mem_filterMap.mp h
  obtain ⟨item, -, hrid⟩ := Option.bind_eq_some_iff.mp hitem
  exact normalizeRequestId_of_eq_some hrid

/-- An id that is read off a step is its own normal form. -/
theorem normalizeRequestId_of_mem_extractReqIds {so : SchedulerOutput} {rid : String}
    (h : rid ∈ so.extractReqIds) : normalizeRequestId rid = some rid := by
  simp only [SchedulerOutput.extractReqIds] at h
  split at h
  · cases h
  · rcases List.mem_append.mp h with h | h
    · -- a new request's id is normalized when it is read
      obtain ⟨req, -, hrid⟩ := List.mem_filterMap.mp h
      exact normalizeRequestId_of_eq_some hrid
    · -- the cached ones are normalized together
      simp only [SchedulerOutput.cachedReqIds] at h
      split at h
      · exact normalizeRequestId_of_mem_normalizeReqIds h
      · cases h

/-! ## Steps -/

namespace SchedulerOutput

/-- Two outputs describe the same step: the same requests in the same order, each as far as in
    the other output, with as many tokens for each and in all. -/
structure SameStep (so so' : SchedulerOutput) : Prop where
  reqIds : so.extractReqIds = so'.extractReqIds
  numComputed : ∀ rid, so.extractStepMaps.1.get? rid = so'.extractStepMaps.1.get? rid
  scheduledTokens : ∀ rid, so.extractStepMaps.2.get? rid = so'.extractStepMaps.2.get? rid
  totalScheduled : so.totalScheduled = so'.totalScheduled

/-- A new request with how far it has come. -/
def newProgress (so : SchedulerOutput) : List (String × Option ℤ) :=
  so.newReqs.filterMap fun req => req.item.rid.map fun rid => (rid, req.numComputedTokens)

/-- A new request with the length of its prompt. -/
def newPrompts (so : SchedulerOutput) : List (String × ℤ) :=
  so.newReqs.filterMap fun req => req.item.rid.bind fun rid =>
    req.promptTokens.map fun length : ℕ => (rid, (length : ℤ))

/-- The numbers of tokens that the step gives: by request, or in the order of the requests. -/
def givenTokens (so : SchedulerOutput) : List (String × Option ℤ) :=
  match so.numScheduledTokens with
  | .value (.dict items) =>
    items.filterMap fun p => (normalizeRequestId p.1).map fun rid => (rid, p.2)
  | .value (.list items) => so.extractReqIds.zip items
  | _ => []

/-- The maps that the new requests leave behind. -/
theorem foldl_noteNewReq (reqs : List NewRequest)
    (maps : Dict String (Option ℤ) × Dict String ℤ) :
    reqs.foldl noteNewReq maps =
      ((reqs.filterMap fun req => req.item.rid.map fun rid => (rid, req.numComputedTokens)).foldl
          (fun map p => map.alter p.1 none fun _ => p.2) maps.1,
        (reqs.filterMap fun req => req.item.rid.bind fun rid =>
            req.promptTokens.map fun length : ℕ => (rid, (length : ℤ))).foldl
          (fun map p => map.alter p.1 p.2 id) maps.2) := by
  induction reqs generalizing maps with
  | nil => rfl
  | cons req reqs ih =>
    rw [List.foldl_cons, ih, noteNewReq]
    -- a request without an id is passed over in both maps
    cases hrid : req.item.rid with
    | none => simp [hrid]
    | some rid => cases hprompt : req.promptTokens <;> simp [hrid, hprompt]

/-- `setdefault` keeps the first value of a key. -/
theorem get?_foldl_setdefault (es : List (String × ℤ)) (d : Dict String ℤ) (rid : String) :
    (es.foldl (fun map p => map.alter p.1 p.2 id) d).get? rid = (d.get? rid).or (es.lookup rid) := by
  induction es generalizing d with
  | nil => exact Option.or_none.symm
  | cons e es ih =>
    obtain ⟨rid', length⟩ := e
    rw [List.foldl_cons, ih, Dict.get?_alter, List.lookup_cons]
    by_cases hrid : rid = rid'
    · subst hrid
      -- the first length of a request stays
      cases hget : d.get? rid <;> simp [Dict.getD, hget]
    · have hbeq : (rid == rid') = false := by simp [hrid]
      rw [if_neg hrid, hbeq]

/-- How far a request has come is the last that the step says of it, about the cached requests
    after the new ones. -/
theorem get?_fst_extractStepMaps (so : SchedulerOutput) (rid : String) :
    so.extractStepMaps.1.get? rid =
      (so.newProgress ++ so.cachedReqIds.zip so.cachedComputedTokens).reverse.lookup rid := by
  have hset := Dict.get?_foldl_alter (id : Option ℤ → Option ℤ) none
    (so.newProgress ++ so.cachedReqIds.zip so.cachedComputedTokens) Dict.empty rid
  rw [Option.map_id, List.foldl_append] at hset
  rw [extractStepMaps, foldl_noteNewReq]
  refine hset.trans ?_
  have hempty : (Dict.empty : Dict String (Option ℤ)).get? rid = none := rfl
  rw [hempty, Option.or_none, id]

/-- The tokens of a request are the last that the step gives it, and the length of its prompt
    where it gives none. -/
theorem get?_snd_extractStepMaps (so : SchedulerOutput) (rid : String) :
    so.extractStepMaps.2.get? rid =
      ((so.givenTokens.reverse.lookup rid).map (·.getD 0)).or (so.newPrompts.lookup rid) := by
  rw [extractStepMaps, foldl_noteNewReq]
  refine (Dict.get?_foldl_alter (·.getD 0) 0 so.givenTokens _ rid).trans ?_
  rw [get?_foldl_setdefault]
  rfl

/-- The requests of a step are the new ones and then the cached ones.  A step whose new requests
    are `None` has none at all. -/
theorem mem_extractReqIds {so : SchedulerOutput} {rid : String} :
    rid ∈ so.extractReqIds ↔ so.scheduledNewReqs ≠ .null ∧
      ((∃ req ∈ so.newReqs, req.item.rid = some rid) ∨ rid ∈ so.cachedReqIds) := by
  rw [extractReqIds]
  split
  · next hnull => simp [hnull]
  · next hnull =>
    have hne : so.scheduledNewReqs ≠ .null := hnull
    simp [hne]

/-- What it means for two outputs to describe the same step, in terms of the lists they have. -/
theorem sameStep_iff {so so' : SchedulerOutput} :
    so.SameStep so' ↔ so.extractReqIds = so'.extractReqIds ∧
      (∀ rid, (so.newProgress ++ so.cachedReqIds.zip so.cachedComputedTokens).reverse.lookup rid =
        (so'.newProgress ++ so'.cachedReqIds.zip so'.cachedComputedTokens).reverse.lookup rid) ∧
      (∀ rid, ((so.givenTokens.reverse.lookup rid).map (·.getD 0)).or (so.newPrompts.lookup rid) =
        ((so'.givenTokens.reverse.lookup rid).map (·.getD 0)).or (so'.newPrompts.lookup rid)) ∧
      so.totalScheduled = so'.totalScheduled := by
  simp only [← get?_fst_extractStepMaps, ← get?_snd_extractStepMaps]
  exact ⟨fun h => ⟨h.reqIds, h.numComputed, h.scheduledTokens, h.totalScheduled⟩,
    fun h => ⟨h.1, h.2.1, h.2.2.1, h.2.2.2⟩⟩

/-- Two texts with the same digits in the key. -/
def Collide (hexdigest : List Char → List Char) (text text' : List Char) : Prop :=
  text ≠ text' ∧ (hexdigest text).take 16 = (hexdigest text').take 16

/-- Two numbers are written alike only when they are equal. -/
theorem jsonOfInt_injective : Function.Injective jsonOfInt := by
  intro a b h
  cases a <;> cases b <;> cases h <;> rfl

/-- The text of a dictionary says what it holds. -/
theorem jsonOfDict_eq_iff {ν : Type} {value : ν → AsciiJson} (hvalue : Function.Injective value)
    {d d' : Dict String ν} :
    jsonOfDict value d = jsonOfDict value d' ↔ ∀ rid, d.get? rid = d'.get? rid := by
  have hentry : Function.Injective fun p : String × ν => (p.1, value p.2) := by
    rintro ⟨rid, v⟩ ⟨rid', v'⟩ h
    rw [Prod.mk.injEq] at h ⊢
    exact ⟨h.1, hvalue h.2⟩
  rw [jsonOfDict, jsonOfDict, AsciiJson.obj.injEq, (List.map_injective_iff.mpr hentry).eq_iff,
    Dict.sortBy_entries_eq_iff]

/-- The rendered text is the same exactly for the same step. -/
theorem dispatchText_eq_iff {so so' : SchedulerOutput} :
    so.dispatchText = so'.dispatchText ↔ so.SameStep so' := by
  have hstr : Function.Injective AsciiJson.str := fun _ _ h => AsciiJson.str.inj h
  have hint : Function.Injective AsciiJson.int := fun _ _ h => AsciiJson.int.inj h
  -- the rendering is injective, so the four parts agree one by one
  rw [dispatchText, dispatchText, AsciiJson.render_injective.eq_iff]
  simp only [dispatchParts, AsciiJson.obj.injEq, List.cons.injEq, Prod.mk.injEq, true_and,
    and_true, AsciiJson.arr.injEq, (List.map_injective_iff.mpr hstr).eq_iff,
    jsonOfInt_injective.eq_iff, jsonOfDict_eq_iff jsonOfInt_injective, jsonOfDict_eq_iff hint]
  constructor
  · intro h
    exact ⟨h.2.1, h.1, h.2.2.1, h.2.2.2⟩
  · intro h
    exact ⟨h.numComputed, h.reqIds, h.scheduledTokens, h.totalScheduled⟩

/-- Steps with one key are the same, or their digests collide. -/
theorem sameStep_or_collide {hexdigest : List Char → List Char} {so so' : SchedulerOutput}
    (h : makeDispatchKey hexdigest so = makeDispatchKey hexdigest so') :
    so.SameStep so' ∨ Collide hexdigest so.dispatchText so'.dispatchText := by
  rw [makeDispatchKey, makeDispatchKey, String.append_right_inj, String.ofList_inj] at h
  rw [← dispatchText_eq_iff]
  by_cases htext : so.dispatchText = so'.dispatchText
  · exact .inl htext
  · exact .inr ⟨htext, h⟩

/-- The same step gets the same key; so do two texts that collide. -/
theorem makeDispatchKey_congr {hexdigest : List Char → List Char} {so so' : SchedulerOutput}
    (h : so.SameStep so' ∨ Collide hexdigest so.dispatchText so'.dispatchText) :
    makeDispatchKey hexdigest so = makeDispatchKey hexdigest so' := by
  rcases h with hsame | hcollide
  · rw [makeDispatchKey, dispatchText_eq_iff.mpr hsame, makeDispatchKey]
  · rw [makeDispatchKey, hcollide.2, makeDispatchKey]

/-- Whoever makes the keys, and from whichever copies. -/
theorem makeDispatchKey_eq_iff (hexdigest : List Char → List Char) (so so' : SchedulerOutput) :
    makeDispatchKey hexdigest so = makeDispatchKey hexdigest so' ↔
      so.SameStep so' ∨ Collide hexdigest so.dispatchText so'.dispatchText :=
  ⟨sameStep_or_collide, makeDispatchKey_congr⟩

end SchedulerOutput

end DeLatency
