import DeLatency.Monitor.Discovery
import DeLatency.Spec.BadMessage
import DeLatency.Spec.TargetFile

/-!
# What a message announces

The workers tell the collector their processes, and the thread of the event loop tells itself.
What a message announces is said here in terms of the message alone.  A collector that is
running learns exactly that from it (`learns_handleFrames`), even from a message that ends it
(`learns_afterRaise`).
-/

namespace DeLatency

/-! ## Statements -/

section Announcements

variable (lib : JsonLib) (frames : List ByteArray)

/-- A message of one or two frames, with the metadata and the payload that it has. -/
def MessageIs (fields : List (PyStr × PyValue)) (payload : FramePayload) : Prop :=
  match frames with
  | [first] => (decodeUtf8 first).bind lib.loads = some (.dict fields) ∧
      payload = .value ((fields.lookup ("payload" : PyStr)).getD .null)
  | [first, second] => (decodeUtf8 first).bind lib.loads = some (.dict fields) ∧
      payload = secondFrame lib second
  | _ => False

/-- A patch announces a process: an event of a worker has its `pid`. -/
def AnnouncesPid (pid : ℤ) : Prop :=
  ∃ fields payload p value, MessageIs lib frames fields payload ∧
    sourceOf fields = "monkey_patch" ∧
    (∃ name ∈ workerPidEvents, eventTypeOf fields = .str name) ∧
    payloadOf fields payload = some p ∧ p.lookup ("pid" : PyStr) = some value ∧
    pyInt value = some pid ∧ 0 < pid

/-- A patch announces a thread: the thread of the event loop tells its role and its `tid`. -/
def AnnouncesTid (tid : ℤ) : Prop :=
  ∃ fields payload p value, MessageIs lib frames fields payload ∧
    sourceOf fields = "monkey_patch" ∧ eventTypeOf fields = .str "thread_role" ∧
    payloadOf fields payload = some p ∧
    p.lookup ("role" : PyStr) = some (.str "asyncio_eventloop") ∧
    p.lookup ("tid" : PyStr) = some value ∧ pyInt value = some tid ∧ 0 < tid

/-- The ids of the processes and threads that the messages among some steps announce. -/
def Announced (steps : List DiscoveryStep) (id : ℤ) : Prop :=
  ∃ frames, .message frames ∈ steps ∧ (AnnouncesPid lib frames id ∨ AnnouncesTid lib frames id)

variable {lib} in
/-- Only positive ids are announced. -/
theorem pos_of_announced {steps : List DiscoveryStep} {id : ℤ} (h : Announced lib steps id) :
    0 < id := by
  obtain ⟨frames, -, hpid | htid⟩ := h
  · obtain ⟨-, -, -, -, -, -, -, -, -, -, hpos⟩ := hpid
    exact hpos
  · obtain ⟨-, -, -, -, -, -, -, -, -, -, -, hpos⟩ := htid
    exact hpos

end Announcements

/-! ## What the collector learns -/

section Learning

variable {lib : JsonLib} {frames : List ByteArray} {fields : List (PyStr × PyValue)}
  {payload : FramePayload}

/-- Metadata that has a source to read is a dictionary. -/
theorem exists_fields_of_getSrc {metadata : PyValue} {src : PyStr}
    (h : getSrc metadata = .ok src) : ∃ fields, metadata = .dict fields ∧ src = sourceOf fields := by
  cases metadata with
  | dict fields =>
    rw [getSrc_dict] at h
    exact ⟨fields, rfl, (Except.ok.inj h).symm⟩
  | _ => cases h

/-- A value is found in a set of names when it is one of them. -/
theorem memSet_eq_true_iff {names : List String} {value : PyValue} :
    value.memSet names = .ok true ↔ ∃ name ∈ names, value = .str name := by
  cases value with
  | str s =>
    simp only [PyValue.memSet, Except.ok.injEq, decide_eq_true_eq, List.mem_map,
      PyValue.str.injEq]
    exact exists_congr fun name => and_congr_right fun _ => eq_comm
  | _ => simp [PyValue.memSet]

/-- An id is what `int` reads, if that is positive. -/
theorem coercePid_eq_some_iff {value : PyValue} {id : ℤ} :
    coercePid value = some id ↔ pyInt value = some id ∧ 0 < id := by
  rw [coercePid, Option.filter_eq_some_iff, decide_eq_true_eq]

/-- The id under a key, as the collector reads it: a missing one is none. -/
theorem coercePid_lookup_iff {p : List (PyStr × PyValue)} {key : PyStr} {id : ℤ} :
    coercePid ((p.lookup key).getD .null) = some id ↔
      ∃ value, p.lookup key = some value ∧ pyInt value = some id ∧ 0 < id := by
  rw [coercePid_eq_some_iff]
  cases p.lookup key with
  | none => simp [pyInt]
  | some value => simp

/-- The process that the collector takes from a dictionary of metadata. -/
theorem extractWorkerPid_eq_some_iff {pid : ℤ} :
    extractWorkerPid (sourceOf fields) (.dict fields) payload = .ok (some pid) ↔
      sourceOf fields = "monkey_patch" ∧
        (∃ name ∈ workerPidEvents, eventTypeOf fields = .str name) ∧
        ∃ p value, payloadOf fields payload = some p ∧ p.lookup ("pid" : PyStr) = some value ∧
          pyInt value = some pid ∧ 0 < pid := by
  have hget : (PyValue.dict fields).get "event_type" = .ok (eventTypeOf fields) := rfl
  unfold extractWorkerPid
  rw [extractDictPayload_dict, hget, ← memSet_eq_true_iff]
  simp only [bind, Except.bind, pure, Except.pure]
  -- only the patch's events name workers
  by_cases hsrc : sourceOf fields = "monkey_patch"
  · rw [if_neg (not_not.mpr hsrc)]
    -- an event type that cannot be looked up raises, so nothing is taken from it
    cases hset : (eventTypeOf fields).memSet workerPidEvents with
    | error e => simp
    | ok found =>
      cases found with
      | false => simp
      | true =>
        cases hpayload : payloadOf fields payload with
        | none => simp
        | some p =>
          -- an empty payload counts as none
          cases p with
          | nil => simp
          | cons field rest => simpa [hsrc] using coercePid_lookup_iff
  · simp [hsrc]

/-- The role under its key, as the collector looks it up. -/
theorem memSet_lookup_role_iff {p : List (PyStr × PyValue)} :
    ((p.lookup ("role" : PyStr)).getD .null).memSet threadTargetRoles = .ok true ↔
      p.lookup ("role" : PyStr) = some (.str "asyncio_eventloop") := by
  rw [memSet_eq_true_iff]
  cases p.lookup ("role" : PyStr) with
  | none => simp
  | some value => simp [threadTargetRoles]

/-- The thread that the collector takes from one. -/
theorem extractExactTid_eq_some_iff {tid : ℤ} :
    extractExactTid (sourceOf fields) (.dict fields) payload = .ok (some tid) ↔
      sourceOf fields = "monkey_patch" ∧ eventTypeOf fields = .str "thread_role" ∧
        ∃ p value, payloadOf fields payload = some p ∧
          p.lookup ("role" : PyStr) = some (.str "asyncio_eventloop") ∧
          p.lookup ("tid" : PyStr) = some value ∧ pyInt value = some tid ∧ 0 < tid := by
  have hget : (PyValue.dict fields).get "event_type" = .ok (eventTypeOf fields) := rfl
  have hevent : (eventTypeOf fields).memSet threadTargetEvents = .ok true ↔
      eventTypeOf fields = .str "thread_role" := by
    rw [memSet_eq_true_iff]
    simp [threadTargetEvents]
  unfold extractExactTid
  rw [extractDictPayload_dict, hget, ← hevent]
  simp only [bind, Except.bind, pure, Except.pure, ← memSet_lookup_role_iff]
  by_cases hsrc : sourceOf fields = "monkey_patch"
  · rw [if_neg (not_not.mpr hsrc)]
    cases hset : (eventTypeOf fields).memSet threadTargetEvents with
    | error e => simp
    | ok found =>
      cases found with
      | false => simp
      | true =>
        cases hpayload : payloadOf fields payload with
        | none => simp
        | some p =>
          cases p with
          | nil => simp
          | cons field rest =>
            -- the role decides, and then the id
            cases hrole : (((field :: rest).lookup ("role" : PyStr)).getD .null).memSet
                threadTargetRoles with
            | error e => simp [hrole]
            | ok found =>
              cases found with
              | false => simp [hrole]
              | true => simpa [hsrc, hrole] using coercePid_lookup_iff
  · simp [hsrc]

/-- The metadata and the payload of a message. -/
theorem MessageIs.unique {fields' : List (PyStr × PyValue)} {payload' : FramePayload}
    (h : MessageIs lib frames fields payload) (h' : MessageIs lib frames fields' payload') :
    fields = fields' ∧ payload = payload' := by
  unfold MessageIs at h h'
  split at h
  all_goals
    first
    | exact h.elim
    -- the same frame is read as the same metadata
    | (obtain ⟨hload, rfl⟩ := h
       obtain ⟨hload', rfl⟩ := h'
       obtain rfl := PyValue.dict.inj (Option.some.inj (hload.symm.trans hload'))
       exact ⟨rfl, rfl⟩)

/-- A message announces the process that the collector takes from it. -/
theorem announcesPid_iff (h : MessageIs lib frames fields payload) {pid : ℤ} :
    AnnouncesPid lib frames pid ↔
      extractWorkerPid (sourceOf fields) (.dict fields) payload = .ok (some pid) := by
  rw [extractWorkerPid_eq_some_iff]
  constructor
  · rintro ⟨fields', payload', p, value, hmessage, hsource, hevent, hvalue⟩
    -- the frames determine the message
    obtain ⟨rfl, rfl⟩ := h.unique hmessage
    exact ⟨hsource, hevent, p, value, hvalue⟩
  · rintro ⟨hsource, hevent, p, value, hvalue⟩
    exact ⟨fields, payload, p, value, h, hsource, hevent, hvalue⟩

/-- A message announces the thread that the collector takes from it. -/
theorem announcesTid_iff (h : MessageIs lib frames fields payload) {tid : ℤ} :
    AnnouncesTid lib frames tid ↔
      extractExactTid (sourceOf fields) (.dict fields) payload = .ok (some tid) := by
  rw [extractExactTid_eq_some_iff]
  constructor
  · rintro ⟨fields', payload', p, value, hmessage, hsource, hevent, hvalue⟩
    -- the frames determine the message
    obtain ⟨rfl, rfl⟩ := h.unique hmessage
    exact ⟨hsource, hevent, p, value, hvalue⟩
  · rintro ⟨hsource, hevent, p, value, hvalue⟩
    exact ⟨fields, payload, p, value, h, hsource, hevent, hvalue⟩

/-- A message has one or two frames, of which the first is a dictionary. -/
theorem MessageIs.first {first : ByteArray} {rest : List ByteArray}
    (h : MessageIs lib (first :: rest) fields payload) :
    (decodeUtf8 first).bind lib.loads = some (.dict fields) ∧
      (rest = [] ∨ ∃ second, rest = [second]) := by
  cases rest with
  | nil => exact ⟨h.1, .inl rfl⟩
  | cons second rest =>
    cases rest with
    | nil => exact ⟨h.1, .inr ⟨second, rfl⟩⟩
    -- three frames are no message
    | cons third rest => exact h.elim

/-- What a collector knows after a message: what it knew, and what the message announces. -/
structure Learns (lib : JsonLib) (frames : List ByteArray) (c c' : Collector) : Prop where
  pids : ∀ pid, pid ∈ c'.knownWorkerPids ↔
    pid ∈ c.knownWorkerPids ∨ AnnouncesPid lib frames pid
  tids : ∀ tid, tid ∈ c'.knownExactTids ↔ tid ∈ c.knownExactTids ∨ AnnouncesTid lib frames tid

/-- From a message that has no metadata nothing is learnt. -/
theorem learns_self (c : Collector) (h : ∀ fields payload, ¬MessageIs lib frames fields payload) :
    Learns lib frames c c where
  pids pid := by
    refine ⟨.inl, fun hx => hx.elim id ?_⟩
    -- an announcement would need a message
    rintro ⟨fields, payload, -, -, hmessage, -⟩
    exact absurd hmessage (h fields payload)
  tids tid := by
    refine ⟨.inl, fun hx => hx.elim id ?_⟩
    rintro ⟨fields, payload, -, -, hmessage, -⟩
    exact absurd hmessage (h fields payload)

/-- The process that is persisted is known from then on. -/
theorem mem_persistWorkerPid {c : Collector} {writeOk : Bool} {pid : Option ℤ} {x : ℤ} :
    x ∈ (c.persistWorkerPid writeOk pid).knownWorkerPids ↔
      x ∈ c.knownWorkerPids ∨ pid = some x := by
  unfold Collector.persistWorkerPid
  cases pid with
  | none => simp
  | some pid =>
    dsimp only
    split
    · -- a worker that is known already is not written again
      next hmem =>
      refine ⟨.inl, fun hx => hx.elim id fun heq => ?_⟩
      exact Option.some.inj heq ▸ hmem
    · unfold Collector.persistTargetFile
      dsimp only
      split <;> simp [eq_comm]

/-- Persisting a process changes no thread. -/
theorem knownExactTids_persistWorkerPid (c : Collector) (writeOk : Bool) (pid : Option ℤ) :
    (c.persistWorkerPid writeOk pid).knownExactTids = c.knownExactTids := by
  unfold Collector.persistWorkerPid Collector.persistTargetFile
  split
  · rfl
  · dsimp only
    split_ifs <;> rfl

/-- The thread that is persisted is known from then on. -/
theorem mem_persistExactTid {c : Collector} {writeOk : Bool} {tid : Option ℤ} {x : ℤ} :
    x ∈ (c.persistExactTid writeOk tid).knownExactTids ↔
      x ∈ c.knownExactTids ∨ tid = some x := by
  unfold Collector.persistExactTid
  cases tid with
  | none => simp
  | some tid =>
    dsimp only
    split
    · -- nor is a thread that is known already
      next hmem =>
      refine ⟨.inl, fun hx => hx.elim id fun heq => ?_⟩
      exact Option.some.inj heq ▸ hmem
    · unfold Collector.persistTargetFile
      dsimp only
      split <;> simp [eq_comm]

/-- Persisting a thread changes no process. -/
theorem knownWorkerPids_persistExactTid (c : Collector) (writeOk : Bool) (tid : Option ℤ) :
    (c.persistExactTid writeOk tid).knownWorkerPids = c.knownWorkerPids := by
  unfold Collector.persistExactTid Collector.persistTargetFile
  split
  · rfl
  · dsimp only
    split_ifs <;> rfl

/-- A message whose metadata is a dictionary, whatever becomes of it in the log. -/
theorem learns_remember (h : MessageIs lib frames fields payload) (c : Collector) :
    Learns lib frames c (c.remember (.dict fields) payload) := by
  unfold Collector.remember
  rw [getSrc_dict]
  dsimp only
  cases hpid : extractWorkerPid (sourceOf fields) (.dict fields) payload with
  | error e =>
    -- the event type cannot be hashed, so it is none of those that announce
    have hpids : ∀ pid, ¬AnnouncesPid lib frames pid := fun pid hx => by
      rw [announcesPid_iff h, hpid] at hx
      cases hx
    have htids : ∀ tid, ¬AnnouncesTid lib frames tid := fun tid hx => by
      obtain ⟨-, hevent, -⟩ := extractExactTid_eq_some_iff.mp ((announcesTid_iff h).mp hx)
      obtain ⟨-, hun, -⟩ | ⟨-, pid, hok, -⟩ :=
        extractWorkerPid_dict fields payload (sourceOf fields)
      · rw [hevent] at hun
        exact hun
      · rw [hpid] at hok
        cases hok
    exact ⟨fun pid => by simp [hpids pid], fun tid => by simp [htids tid]⟩
  | ok pid =>
    have hpids : ∀ x, AnnouncesPid lib frames x ↔ pid = some x := fun x => by
      rw [announcesPid_iff h, hpid, Except.ok.injEq]
    dsimp only
    cases htid : extractExactTid (sourceOf fields) (.dict fields) payload with
    | error e =>
      have htids : ∀ tid, ¬AnnouncesTid lib frames tid := fun tid hx => by
        rw [announcesTid_iff h, htid] at hx
        cases hx
      refine ⟨fun x => ?_, fun x => ?_⟩
      · rw [mem_persistWorkerPid, hpids]
      · simp [knownExactTids_persistWorkerPid, htids x]
    | ok tid =>
      have htids : ∀ x, AnnouncesTid lib frames x ↔ tid = some x := fun x => by
        rw [announcesTid_iff h, htid, Except.ok.injEq]
      refine ⟨fun x => ?_, fun x => ?_⟩
      · rw [knownWorkerPids_persistExactTid, mem_persistWorkerPid, hpids]
      · rw [mem_persistExactTid, knownExactTids_persistWorkerPid, htids]

/-- Handling a message keeps of it what is remembered of one that raises. -/
theorem known_handleMessage {lib : JsonLib} {c c' : Collector} {kept : Bool} {metadata : PyValue}
    {payload : FramePayload} {rawLine : Option (List Char)}
    (h : c.handleMessage lib true metadata payload rawLine = .ok (c', kept)) :
    (∃ fields, metadata = .dict fields) ∧
      c'.knownWorkerPids = (c.remember metadata payload).knownWorkerPids ∧
      c'.knownExactTids = (c.remember metadata payload).knownExactTids := by
  unfold Collector.handleMessage at h
  -- the three readers come before anything is logged, so their results are those remembered
  obtain ⟨src, hsrc, h⟩ := Except.bind_eq_ok_iff.mp h
  obtain ⟨pid, hpid, h⟩ := Except.bind_eq_ok_iff.mp h
  obtain ⟨tid, htid, h⟩ := Except.bind_eq_ok_iff.mp h
  obtain ⟨fields, rfl, -⟩ := exists_fields_of_getSrc hsrc
  refine ⟨⟨fields, rfl⟩, ?_⟩
  unfold Collector.remember
  simp only [hsrc, hpid, htid]
  -- whether the message is logged as well makes no difference to the ids
  split at h
  · split at h
    · cases h
      exact ⟨rfl, rfl⟩
    · cases h
  · cases h
    exact ⟨rfl, rfl⟩

/-- A collector that returns has learned what the message announces. -/
theorem learns_handleFrames {c c' : Collector} {kept : Bool}
    (h : c.handleFrames lib true frames = .ok (c', kept)) : Learns lib frames c c' := by
  -- a message that is kept or dropped after it has been parsed
  have hparsed : ∀ {metadata payload rawLine}, (∀ fields, metadata = .dict fields →
      MessageIs lib frames fields payload) →
      c.handleMessage lib true metadata payload rawLine = .ok (c', kept) →
      Learns lib frames c c' := by
    intro metadata payload rawLine hmessage hok
    obtain ⟨⟨fields, rfl⟩, hpids, htids⟩ := known_handleMessage hok
    have hlearns := learns_remember (hmessage fields rfl) c
    exact ⟨fun pid => hpids ▸ hlearns.pids pid, fun tid => htids ▸ hlearns.tids tid⟩
  unfold Collector.handleFrames at h
  split at h
  · cases h
    exact learns_self c fun _ _ hmessage => hmessage
  · next first rest =>
    split at h
    · next hdecode =>
      cases h
      refine learns_self c fun _ _ hmessage => ?_
      have hfirst := hmessage.first.1
      rw [hdecode] at hfirst
      cases hfirst
    · next line hdecode =>
      split at h
      · next hloads =>
        cases h
        refine learns_self c fun _ _ hmessage => ?_
        have hfirst := hmessage.first.1
        rw [hdecode, Option.bind_some, hloads] at hfirst
        cases hfirst
      · next metadata hloads =>
        have hfirst : (decodeUtf8 first).bind lib.loads = some metadata := by
          rw [hdecode, Option.bind_some, hloads]
        split at h
        · obtain ⟨payload, hpayload, h⟩ := Except.bind_eq_ok_iff.mp h
          refine hparsed ?_ h
          rintro fields rfl
          cases hpayload
          exact ⟨hfirst, rfl⟩
        · refine hparsed ?_ h
          rintro fields rfl
          exact ⟨hfirst, rfl⟩
        · next hone htwo =>
          cases h
          refine learns_self c fun _ _ hmessage => ?_
          rcases hmessage.first.2 with hrest | ⟨second, hrest⟩
          · exact hone hrest
          · exact htwo second hrest

/-- The collector learns from a message that ends it, too. -/
theorem learns_afterRaise (c : Collector) : Learns lib frames c (c.afterRaise lib frames) := by
  unfold Collector.afterRaise
  cases frames with
  | nil => exact learns_self c fun _ _ hmessage => hmessage
  | cons first rest =>
    rw [List.head?_cons, Option.bind_some, List.tail_cons]
    cases hfirst : (decodeUtf8 first).bind lib.loads with
    | none =>
      refine learns_self c fun _ _ hmessage => ?_
      rw [hmessage.first.1] at hfirst
      cases hfirst
    | some metadata =>
      dsimp only
      by_cases hdict : ∃ fields, metadata = .dict fields
      · obtain ⟨fields, rfl⟩ := hdict
        split
        · have hmessage : MessageIs lib [first] fields
              (.value ((fields.lookup ("payload" : PyStr)).getD .null)) := ⟨hfirst, rfl⟩
          exact learns_remember hmessage c
        · next second =>
          have hmessage : MessageIs lib [first, second] fields (secondFrame lib second) :=
            ⟨hfirst, rfl⟩
          exact learns_remember hmessage c
        · next hone htwo =>
          refine learns_self c fun _ _ hmessage => ?_
          rcases hmessage.first.2 with hrest | ⟨second, hrest⟩
          · exact hone hrest
          · exact htwo second hrest
      · -- there is nothing to look up in
        have hget := get_of_not_dict hdict
        have hnone : ∀ fields payload, ¬MessageIs lib (first :: rest) fields payload :=
          fun fields _ hmessage =>
            hdict ⟨fields, Option.some.inj (hfirst.symm.trans hmessage.first.1)⟩
        split
        · rw [hget]
          exact learns_self c hnone
        · unfold Collector.remember getSrc
          rw [hget]
          exact learns_self c hnone
        · exact learns_self c hnone

end Learning

end DeLatency
