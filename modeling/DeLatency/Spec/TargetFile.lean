import DeLatency.Collector.Frames
import DeLatency.Control.WorkerPids
import DeLatency.ForStd.ExceptLoop
import DeLatency.ForStd.ListExtra
import DeLatency.Monitor.TargetFile
import DeLatency.Spec.Framing
import DeLatency.Spec.PyText

/-!
# What is written to the target file and what is read from it

The collector writes one line for each process and thread it has learned of.  The file it
leaves is a function of the two sets (`Persisted`), whatever the messages were.

For the scan of the monitor each line is an insertion into its map, which `scan_targets`
says for a list of ids.  `read_worker_pids` takes the same lines one by one.
-/

namespace DeLatency

open CText

/-! ## The writer -/

/-- What a set of ids keeps. -/
structure KnownIds (ids : List ℤ) : Prop where
  nodup : ids.Nodup
  pos : ∀ id ∈ ids, 0 < id

/-- A new positive id may be added. -/
theorem KnownIds.concat {ids : List ℤ} (h : KnownIds ids) {id : ℤ} (hpos : 0 < id)
    (hnew : id ∉ ids) : KnownIds (ids ++ [id]) where
  nodup := by
    refine List.nodup_append.mpr ⟨h.nodup, List.nodup_singleton id, fun a ha b hb heq => ?_⟩
    rw [List.mem_singleton] at hb
    exact hnew (hb ▸ heq ▸ ha)
  pos := fun x hx => by
    cases List.mem_append.mp hx with
    | inl hx => exact h.pos x hx
    | inr hx => exact List.mem_singleton.mp hx ▸ hpos

namespace Collector

/-- The lines with the processes. -/
def pidLines (c : Collector) : List (List Char) := (c.knownWorkerPids.sortBy id).map decimal

/-- The lines with the threads. -/
def tidLines (c : Collector) : List (List Char) :=
  (c.knownExactTids.sortBy id).map fun tid => "tid:".toList ++ decimal tid

/-- The file holds what is known, and only positive ids are known. -/
structure Persisted (c : Collector) : Prop where
  pids : KnownIds c.knownWorkerPids
  tids : KnownIds c.knownExactTids
  targetFile : c.targetFile = (c.pidLines ++ c.tidLines).flatMap fun line => line ++ ['\n']

/-- Before any message there is nothing to write. -/
theorem persisted_empty : Persisted {} where
  pids := ⟨List.nodup_nil, fun _ hid => absurd hid List.not_mem_nil⟩
  tids := ⟨List.nodup_nil, fun _ hid => absurd hid List.not_mem_nil⟩
  targetFile := rfl

/-- `_persist_target_file` writes the lines of both sets. -/
theorem targetFile_persistTargetFile (c : Collector) :
    (c.persistTargetFile true).targetFile =
      (c.pidLines ++ c.tidLines).flatMap fun line => line ++ ['\n'] := by
  unfold persistTargetFile pidLines tidLines
  rw [if_pos rfl, List.flatMap_append, List.flatMap_append, List.flatMap_map, List.flatMap_map,
    List.flatMap_map, List.flatMap_map]
  simp only [String.toList_append, toList_toString]

/-- Noting a worker's process writes it to the file. -/
theorem Persisted.persistWorkerPid {c : Collector} (h : c.Persisted) {pid : Option ℤ}
    (hpid : ∀ p ∈ pid, 0 < p) : (c.persistWorkerPid true pid).Persisted := by
  unfold Collector.persistWorkerPid
  cases pid with
  | none => exact h
  | some pid =>
    dsimp only
    split
    · exact h
    · next hnew =>
      exact ⟨h.pids.concat (hpid pid rfl) hnew, h.tids, targetFile_persistTargetFile _⟩

/-- Noting a thread writes it to the file. -/
theorem Persisted.persistExactTid {c : Collector} (h : c.Persisted) {tid : Option ℤ}
    (htid : ∀ t ∈ tid, 0 < t) : (c.persistExactTid true tid).Persisted := by
  unfold Collector.persistExactTid
  cases tid with
  | none => exact h
  | some tid =>
    dsimp only
    split
    · exact h
    · next hnew =>
      exact ⟨h.pids, h.tids.concat (htid tid rfl) hnew, targetFile_persistTargetFile _⟩

end Collector

/-- `_coerce_pid` returns positive numbers. -/
theorem pos_of_coercePid {value : PyValue} {pid : ℤ} (h : coercePid value = some pid) :
    0 < pid :=
  of_decide_eq_true (Option.filter_eq_some_iff.mp h).2

/-- A pid taken from a message is positive. -/
theorem pos_of_extractWorkerPid {src : PyStr} {metadata : PyValue} {payload : FramePayload}
    {pid : Option ℤ} (h : extractWorkerPid src metadata payload = .ok pid) : ∀ p ∈ pid, 0 < p := by
  intro p hp
  cases hp
  unfold extractWorkerPid at h
  split at h
  · cases h
  · obtain ⟨eventType, -, h⟩ := Except.bind_eq_ok_iff.mp h
    obtain ⟨found, -, h⟩ := Except.bind_eq_ok_iff.mp h
    split at h
    · cases h
    · obtain ⟨fields, -, h⟩ := Except.bind_eq_ok_iff.mp h
      split at h
      · cases h
      · cases h
      · -- the conversion itself refuses what is not positive
        exact pos_of_coercePid (Except.ok.inj h)

/-- A thread id taken from a message is positive. -/
theorem pos_of_extractExactTid {src : PyStr} {metadata : PyValue} {payload : FramePayload}
    {tid : Option ℤ} (h : extractExactTid src metadata payload = .ok tid) : ∀ t ∈ tid, 0 < t := by
  intro t ht
  cases ht
  unfold extractExactTid at h
  split at h
  · cases h
  · obtain ⟨eventType, -, h⟩ := Except.bind_eq_ok_iff.mp h
    obtain ⟨found, -, h⟩ := Except.bind_eq_ok_iff.mp h
    split at h
    · cases h
    · obtain ⟨fields, -, h⟩ := Except.bind_eq_ok_iff.mp h
      split at h
      · cases h
      · cases h
      · -- only a known role gives a thread, whose id is coerced like a pid
        obtain ⟨known, -, h⟩ := Except.bind_eq_ok_iff.mp h
        split at h
        · cases h
        · exact pos_of_coercePid (Except.ok.inj h)

namespace Collector

variable {lib : JsonLib} {c c' : Collector} {written : Bool}

/-- A message leaves the file up to date. -/
theorem Persisted.handleMessage (h : c.Persisted) {metadata : PyValue} {payload : FramePayload}
    {rawLine : Option (List Char)}
    (hok : c.handleMessage lib true metadata payload rawLine = .ok (c', written)) :
    c'.Persisted := by
  unfold Collector.handleMessage at hok
  obtain ⟨src, -, hok⟩ := Except.bind_eq_ok_iff.mp hok
  obtain ⟨pid, hpid, hok⟩ := Except.bind_eq_ok_iff.mp hok
  obtain ⟨tid, htid, hok⟩ := Except.bind_eq_ok_iff.mp hok
  have hboth := (h.persistWorkerPid (pos_of_extractWorkerPid hpid)).persistExactTid
    (pos_of_extractExactTid htid)
  -- the log is no part of the agreement
  split at hok
  · split at hok
    · cases hok
      exact ⟨hboth.pids, hboth.tids, hboth.targetFile⟩
    · cases hok
  · cases hok
    exact hboth

/-- A message keeps the file and the sets in agreement. -/
theorem Persisted.handleFrames (h : c.Persisted) {frames : List ByteArray}
    (hok : c.handleFrames lib true frames = .ok (c', written)) : c'.Persisted := by
  unfold Collector.handleFrames at hok
  split at hok
  · -- the message is dropped: nothing has changed
    cases hok
    exact h
  · split at hok
    · cases hok
      exact h
    · split at hok
      · cases hok
        exact h
      · split at hok
        · obtain ⟨payload, -, hok⟩ := Except.bind_eq_ok_iff.mp hok
          exact h.handleMessage hok
        · exact h.handleMessage hok
        · cases hok
          exact h

variable (lib) in
/-- The collector after a sequence of messages, with file writes that succeed. -/
def handleAll (messages : List (List ByteArray)) : Except PyError Collector :=
  messages.foldlM (fun c frames => (c.handleFrames lib true frames).map Prod.fst) {}

/-- Any messages leave the file up to date. -/
theorem persisted_of_handleAll {messages : List (List ByteArray)}
    (hrun : handleAll lib messages = .ok c) : c.Persisted := by
  refine List.foldlM_induction persisted_empty (fun s frames _ t hstep hs => ?_) hrun
  cases hresult : s.handleFrames lib true frames with
  | error e =>
    rw [hresult] at hstep
    cases hstep
  | ok result =>
    rw [hresult] at hstep
    cases hstep
    exact hs.handleFrames hresult

end Collector

/-! ## The lines -/

/-- The ids that a `pid_t` can hold. -/
def IsPid (id : ℤ) : Prop := 0 < id ∧ id ≤ 2 ^ 31 - 1

/-- A pid fits into 32 bits. -/
theorem toNat_ofInt {id : ℤ} (h : IsPid id) : (UInt32.ofInt id).toNat = id.toNat := by
  obtain ⟨hpos, hhi⟩ := h
  rw [UInt32.ofInt, UInt32.toNat_ofNat']
  omega

/-- A pid comes back out of its 32 bits. -/
theorem pidOf_ofInt {id : ℤ} (h : IsPid id) : pidOf (UInt32.ofInt id) = id := by
  have hnat : ((UInt32.ofInt id).toNat : ℤ) = id := by
    rw [toNat_ofInt h, Int.toNat_of_nonneg h.1.le]
  unfold pidOf
  rw [hnat]
  obtain ⟨hpos, hhi⟩ := h
  exact Int.bmod_eq_of_le (by omega) (by omega)

/-- A pid is written in digits. -/
theorem isDigit_of_mem_decimal {id : ℤ} (h : IsPid id) {c : Char} (hc : c ∈ decimal id) :
    c.isDigit = true :=
  isDigit_of_mem_decimal_nonneg h.1.le hc

/-- The monitor reads the number that the collector writes. -/
theorem parseU32Str_decimal {id : ℤ} (h : IsPid id) :
    parseU32Str (decimal id) = some (UInt32.ofInt id) := by
  obtain ⟨hpos, hhi⟩ := h
  have hvalue : UInt32.ofNat id.toNat = UInt32.ofInt id := by
    rw [← UInt32.toNat_inj, toNat_ofInt ⟨hpos, hhi⟩, UInt32.toNat_ofNat']
    omega
  rw [decimal_of_nonneg hpos.le, parseU32Str, if_neg Nat.toDigits_ne_nil,
    strtoul_toDigits (by omega)]
  dsimp only
  rw [if_neg (by simp; omega), hvalue]

/-- A line with a number names a process. -/
theorem parseTargetSpec_decimal {id : ℤ} (h : IsPid id) :
    parseTargetSpec (decimal id) = some { id := UInt32.ofInt id, exactTid := false } := by
  obtain ⟨c, digits, hdigits, hc⟩ := exists_toDigits_eq_cons id.toNat
  have hcons : decimal id = c :: digits := by rw [decimal_of_nonneg h.1.le, hdigits]
  -- a digit starts none of the four prefixes
  have hno : ∀ name, (name.head?.any fun d => !d.isDigit) = true →
      ¬startsWithNoCase name (c :: digits) = true := fun name hname => by
    rw [startsWithNoCase_of_isDigit hc hname]
    exact Bool.false_ne_true
  rw [hcons, parseTargetSpec, if_neg (List.cons_ne_nil c digits), if_neg (hno _ (by decide)),
    if_neg (hno _ (by decide)), if_neg (hno _ (by decide)), if_neg (hno _ (by decide)), ← hcons,
    parseU32Str_decimal h]
  rfl

/-- A line with the prefix names a thread. -/
theorem parseTargetSpec_tid {id : ℤ} (h : IsPid id) :
    parseTargetSpec ("tid:".toList ++ decimal id) =
      some { id := UInt32.ofInt id, exactTid := true } := by
  have hname : startsWithNoCase "tid:".toList ("tid:".toList ++ decimal id) = true := by
    unfold startsWithNoCase
    rw [List.take_left]
    rfl
  rw [parseTargetSpec, if_neg (by simp), if_pos hname,
    show ("tid:".toList ++ decimal id).drop 4 = decimal id from rfl,
    parseU32Str_decimal h]
  rfl

/-- The end of a line is all that is cut off. -/
theorem cutLine_append {line : List Char} (h : ∀ c ∈ line, c.isDigit ∨ c ∈ "tid:".toList) :
    cutLine (line ++ ['\n']) = line := by
  -- nothing before the newline stops the cut
  have hkeep : ∀ c ∈ line, decide (c ≠ '\r' ∧ c ≠ '\n' ∧ c ≠ '\x00') = true := by
    intro c hc
    rw [decide_eq_true_eq]
    have hc' := h c hc
    refine ⟨?_, ?_, ?_⟩
    all_goals
      intro hx
      subst hx
      revert hc'
      decide
  rw [cutLine, List.takeWhile_append_of_pos hkeep]
  simp

namespace TargetScan

/-- A line that names `id`. -/
def target (scan : TargetScan) (id : ℤ) : TargetScan :=
  { scan with workers := scan.workers + 1 }.addTid (UInt32.ofInt id)

/-- A line with a process makes it a target. -/
theorem scanLine_pid (isDescendantOrSelf : ℤ → Bool) (scan : TargetScan) {id : ℤ} (h : IsPid id) :
    scan.scanLine 0 isDescendantOrSelf (decimal id ++ ['\n']) = scan.target id := by
  obtain ⟨hpos, hhi⟩ := h
  rw [scanLine, cutLine_append fun c hc => .inl (isDigit_of_mem_decimal ⟨hpos, hhi⟩ hc),
    parseTargetSpec_decimal ⟨hpos, hhi⟩]
  dsimp only
  rw [if_neg Bool.false_ne_true, if_neg (by simp), pidOf_ofInt ⟨hpos, hhi⟩, trackMainTidOfPid,
    if_neg (by omega)]
  rfl

/-- A line with a thread makes it a target. -/
theorem scanLine_tid (isDescendantOrSelf : ℤ → Bool) (scan : TargetScan) {id : ℤ} (h : IsPid id) :
    scan.scanLine 0 isDescendantOrSelf ("tid:".toList ++ decimal id ++ ['\n']) =
      scan.target id := by
  -- the line is the key and digits
  have hchars : ∀ c ∈ "tid:".toList ++ decimal id, c.isDigit ∨ c ∈ "tid:".toList := by
    intro c hc
    cases List.mem_append.mp hc with
    | inl hc => exact .inr hc
    | inr hc => exact .inl (isDigit_of_mem_decimal h hc)
  rw [scanLine, cutLine_append hchars, parseTargetSpec_tid h]
  dsimp only
  rw [if_pos rfl]
  rfl

/-- Lines that name their ids are scanned like the ids. -/
theorem foldl_scanLine {isDescendantOrSelf : ℤ → Bool} {line : ℤ → List Char}
    (hline : ∀ scan : TargetScan, ∀ {id}, IsPid id →
      scan.scanLine 0 isDescendantOrSelf (line id ++ ['\n']) = scan.target id)
    {ids : List ℤ} (hids : ∀ id ∈ ids, IsPid id) (scan : TargetScan) :
    ((ids.map line).map fun l => l ++ ['\n']).foldl (scanLine 0 isDescendantOrSelf) scan =
      ids.foldl target scan := by
  induction ids generalizing scan with
  | nil => rfl
  | cons id rest ih =>
    rw [List.forall_mem_cons] at hids
    -- line by line, each one adds its id
    rw [List.map_cons, List.map_cons, List.foldl_cons, hline scan hids.1, ih hids.2,
      List.foldl_cons]

/-! ## The scan -/

/-- A thread that is in the map is not added again. -/
theorem addTid_of_mem {scan : TargetScan} {tid : UInt32}
    (h : tid ∈ scan.monitor.targetTidMap.keys) : scan.addTid tid = scan := by
  have htracked : scan.monitor.isTrackedTid tid = true := BoundedMap.isSome_lookup_iff.mpr h
  unfold addTid Monitor.addTidToBpfMap
  rw [if_pos htracked]
  rfl

/-- A thread is added when there is room for it. -/
theorem mem_keys_addTid {scan : TargetScan} {tid : UInt32}
    (hroom : (insert tid scan.monitor.targetTidMap.keys.toFinset).card ≤ maxEntries) {x : UInt32} :
    x ∈ (scan.addTid tid).monitor.targetTidMap.keys ↔
      x = tid ∨ x ∈ scan.monitor.targetTidMap.keys := by
  by_cases hmem : tid ∈ scan.monitor.targetTidMap.keys
  · rw [addTid_of_mem hmem]
    constructor
    · exact .inr
    · intro hall
      obtain rfl | hx := hall
      · exact hmem
      · exact hx
  · -- the map has room for one more key
    obtain ⟨stored, hstored⟩ := Option.isSome_iff_exists.mp
      (BoundedMap.isSome_update_of_card_le hroom (1 : UInt8))
    have hnew : ¬scan.monitor.isTrackedTid tid = true := fun h =>
      hmem (BoundedMap.isSome_lookup_iff.mp h)
    unfold addTid Monitor.addTidToBpfMap
    rw [if_neg hnew, hstored]
    exact BoundedMap.mem_keys_update hstored

/-- A scan adds the ids of the lines and counts the lines. -/
theorem scan_targets (ids : List ℤ) (scan : TargetScan)
    (hroom : (scan.monitor.targetTidMap.keys.toFinset ∪ (ids.map UInt32.ofInt).toFinset).card ≤
      maxEntries) :
    (∀ x, x ∈ (ids.foldl target scan).monitor.targetTidMap.keys ↔
      x ∈ scan.monitor.targetTidMap.keys ∨ x ∈ ids.map UInt32.ofInt) ∧
    (ids.foldl target scan).workers = scan.workers + ids.length := by
  induction ids generalizing scan with
  | nil => exact ⟨fun x => by simp, rfl⟩
  | cons id rest ih =>
    rw [List.map_cons, List.toFinset_cons, Finset.union_insert] at hroom
    have hkeys : ∀ x, x ∈ (scan.target id).monitor.targetTidMap.keys ↔
        x = UInt32.ofInt id ∨ x ∈ scan.monitor.targetTidMap.keys := fun x =>
      @mem_keys_addTid { scan with workers := scan.workers + 1 } (UInt32.ofInt id)
        ((Finset.card_le_card (Finset.insert_subset_insert _ Finset.subset_union_left)).trans
          hroom) x
    -- the room that is left is the same after the first id
    have hset : (scan.target id).monitor.targetTidMap.keys.toFinset =
        insert (UInt32.ofInt id) scan.monitor.targetTidMap.keys.toFinset := by
      ext x
      rw [List.mem_toFinset, hkeys, Finset.mem_insert, List.mem_toFinset]
    obtain ⟨hmem, hworkers⟩ := ih (scan.target id) (by rwa [hset, Finset.insert_union])
    rw [List.foldl_cons]
    constructor
    · intro x
      rw [hmem, hkeys, List.map_cons, List.mem_cons, or_assoc, or_left_comm]
    · rw [hworkers, List.length_cons]
      show scan.workers + 1 + rest.length = _
      omega

/-- A scan whose ids are all tracked only counts the lines. -/
theorem scan_targets_of_mem (ids : List ℤ) (scan : TargetScan)
    (h : ∀ id ∈ ids, UInt32.ofInt id ∈ scan.monitor.targetTidMap.keys) :
    ids.foldl target scan = { scan with workers := scan.workers + ids.length } := by
  induction ids generalizing scan with
  | nil => rfl
  | cons id rest ih =>
    rw [List.forall_mem_cons] at h
    have hstep : scan.target id = { scan with workers := scan.workers + 1 } := addTid_of_mem h.1
    rw [List.foldl_cons, hstep, ih { scan with workers := scan.workers + 1 } h.2,
      List.length_cons]
    simp only [Nat.add_assoc, Nat.add_comm 1]

end TargetScan

/-! ## The text -/

/-- The characters of a line. -/
theorem mem_line {c : Collector}
    (hids : ∀ id ∈ c.knownWorkerPids ++ c.knownExactTids, IsPid id) {line : List Char}
    (hline : line ∈ c.pidLines ++ c.tidLines) :
    line.length < 127 ∧ ∀ ch ∈ line, ch.isDigit ∨ ch ∈ "tid:".toList := by
  have hlen : ∀ {id}, IsPid id → (decimal id).length ≤ 11 := fun h =>
    length_decimal_le (by have := h.1; omega) (by have := h.2; omega)
  cases List.mem_append.mp hline with
  | inl hpid =>
    obtain ⟨id, hid, rfl⟩ := List.mem_map.mp hpid
    have hid' := hids id (List.mem_append_left _ (List.mem_sortBy.mp hid))
    refine ⟨?_, fun ch hch => .inl (isDigit_of_mem_decimal hid' hch)⟩
    have := hlen hid'
    omega
  | inr htid =>
    obtain ⟨id, hid, rfl⟩ := List.mem_map.mp htid
    have hid' := hids id (List.mem_append_right _ (List.mem_sortBy.mp hid))
    constructor
    · -- a thread has four characters more
      have := hlen hid'
      rw [List.length_append, show "tid:".toList.length = 4 from rfl]
      omega
    · intro ch hch
      cases List.mem_append.mp hch with
      | inl hch => exact .inr hch
      | inr hch => exact .inl (isDigit_of_mem_decimal hid' hch)

/-- No line of the file breaks. -/
theorem notNewline_of_mem_line {line : List Char}
    (hline : ∀ ch ∈ line, ch.isDigit ∨ ch ∈ "tid:".toList) :
    ∀ ch ∈ line, isNewline ch = false := by
  intro ch hch
  have hch' := hline ch hch
  unfold isNewline
  rw [decide_eq_false_iff_not]
  rintro (rfl | rfl) <;> revert hch' <;> decide

/-- The scan of a target file, line by line. -/
theorem Collector.Persisted.scan_eq {c : Collector} (h : c.Persisted)
    (hids : ∀ id ∈ c.knownWorkerPids ++ c.knownExactTids, IsPid id)
    (isDescendantOrSelf : ℤ → Bool) (m : Monitor) :
    m.autoScanWorkerPidFile 0 isDescendantOrSelf (some c.targetFile) =
      (c.knownWorkerPids.sortBy id ++ c.knownExactTids.sortBy id).foldl TargetScan.target
        { monitor := m } := by
  -- every line fits into the buffer, so the pieces are the lines
  have hlines : fgetsLines 127 c.targetFile =
      (c.pidLines ++ c.tidLines).map fun line => line ++ ['\n'] := by
    rw [h.targetFile]
    refine fgetsLines_flatMap (fun line hline hnew => ?_) fun line hline => (mem_line hids hline).1
    exact absurd (notNewline_of_mem_line (mem_line hids hline).2 _ hnew) (by decide)
  have hpids : ∀ pid ∈ c.knownWorkerPids.sortBy id, IsPid pid := fun pid hid =>
    hids pid (List.mem_append_left _ (List.mem_sortBy.mp hid))
  have htids : ∀ tid ∈ c.knownExactTids.sortBy id, IsPid tid := fun tid hid =>
    hids tid (List.mem_append_right _ (List.mem_sortBy.mp hid))
  rw [Monitor.autoScanWorkerPidFile, hlines, List.map_append, List.foldl_append,
    List.foldl_append, pidLines, tidLines,
    TargetScan.foldl_scanLine (TargetScan.scanLine_pid isDescendantOrSelf) hpids,
    TargetScan.foldl_scanLine (TargetScan.scanLine_tid isDescendantOrSelf) htids]

/-- The file has as many lines as there are ids. -/
theorem Collector.Persisted.count_newline {c : Collector} (h : c.Persisted)
    (hids : ∀ id ∈ c.knownWorkerPids ++ c.knownExactTids, IsPid id) :
    c.targetFile.count '\n' =
      (c.knownWorkerPids.sortBy id ++ c.knownExactTids.sortBy id).length := by
  -- the lines hold digits and a prefix only, so each has its own newline and no other
  have hone : ∀ line ∈ c.pidLines ++ c.tidLines, (line ++ ['\n']).count '\n' = 1 := by
    intro line hline
    have hnot : '\n' ∉ line := fun hnew =>
      absurd (notNewline_of_mem_line (mem_line hids hline).2 _ hnew) (by decide)
    rw [List.count_append, List.count_eq_zero_of_not_mem hnot, List.count_singleton_self]
  have hsum : ((c.pidLines ++ c.tidLines).map fun line => (line ++ ['\n']).count '\n').sum =
      (c.pidLines ++ c.tidLines).length := by
    rw [List.map_congr_left hone]
    simp
  rw [h.targetFile, List.count_flatMap]
  apply hsum.trans
  rw [pidLines, tidLines, List.length_append, List.length_append, List.length_map, List.length_map]

/-! ## The second reader -/

/-- No character of a line is a blank. -/
theorem not_isSpace_of_mem_line {ch : Char} (h : ch.isDigit ∨ ch ∈ "tid:".toList) :
    DeLatency.isSpace ch = false := by
  cases h with
  | inl h => exact DeLatency.not_isSpace_of_isDigit h
  | inr h =>
    have hletter : ch ∈ ['t', 'i', 'd', ':'] := h
    simp only [List.mem_cons, List.not_mem_nil, or_false] at hletter
    obtain rfl | rfl | rfl | rfl := hletter <;> rfl

/-- A line has nothing to strip. -/
theorem strip_line {line : List Char} (h : ∀ ch ∈ line, ch.isDigit ∨ ch ∈ "tid:".toList) :
    strip (String.ofList line) = String.ofList line :=
  strip_of_trimmed (.of_forall fun ch hch => not_isSpace_of_mem_line (h ch hch))

/-- A line with a process names the worker. -/
theorem workerPidOfLine_pid {id : ℤ} (h : IsPid id) : workerPidOfLine (decimal id) = some id := by
  have hdigits : ∀ ch ∈ decimal id, ch.isDigit = true := fun _ hch => isDigit_of_mem_decimal h hch
  obtain ⟨c, digits, hcons, hc⟩ := exists_toDigits_eq_cons id.toNat
  rw [← decimal_of_nonneg h.1.le] at hcons
  -- a number is neither empty nor starts with the prefix of a thread
  have hskip : ¬(String.ofList (decimal id) = "" ∨
      "tid:".toList.isPrefixOf (String.ofList (decimal id)).toList = true) := by
    have htext : (String.ofList (decimal id)).toList = decimal id := String.toList_ofList
    rw [htext, hcons, List.isPrefixOf_iff_prefix]
    intro hx
    obtain hempty | hprefix := hx
    · rw [← String.toList_inj, String.toList_ofList] at hempty
      exact List.cons_ne_nil c digits hempty
    · have hhead := (List.cons_prefix_cons.mp hprefix).1
      rw [← hhead] at hc
      exact absurd hc (by decide)
  rw [workerPidOfLine, strip_line fun _ hch => .inl (hdigits _ hch)]
  rw [if_neg hskip, parseInt_decimal h.1.le, Option.filter_some, if_pos (by simpa using h.1)]

/-- A line with a thread names none. -/
theorem workerPidOfLine_tid {id : ℤ} (h : IsPid id) :
    workerPidOfLine ("tid:".toList ++ decimal id) = none := by
  have hchars : ∀ ch ∈ "tid:".toList ++ decimal id, ch.isDigit ∨ ch ∈ "tid:".toList := by
    intro ch hch
    cases List.mem_append.mp hch with
    | inl hch => exact .inr hch
    | inr hch => exact .inl (isDigit_of_mem_decimal h hch)
  -- the prefix makes the controller pass the line over
  have hprefix : "tid:".toList.isPrefixOf
      (String.ofList ("tid:".toList ++ decimal id)).toList = true := by
    have htext : (String.ofList ("tid:".toList ++ decimal id)).toList =
        "tid:".toList ++ decimal id := String.toList_ofList
    rw [htext, List.isPrefixOf_iff_prefix]
    exact List.prefix_append _ _
  rw [workerPidOfLine, strip_line hchars]
  rw [if_pos (.inr hprefix)]

/-- An empty line names none. -/
theorem workerPidOfLine_nil : workerPidOfLine [] = none := by
  have hstrip : strip (String.ofList []) = "" := strip_line fun _ hch => absurd hch List.not_mem_nil
  rw [workerPidOfLine, hstrip]
  rfl

/-- `read_worker_pids` reads the lines with the processes. -/
theorem Collector.Persisted.readWorkerPids_eq {c : Collector} (h : c.Persisted)
    (hids : ∀ id ∈ c.knownWorkerPids ++ c.knownExactTids, IsPid id) :
    readWorkerPids (some c.targetFile) = c.knownWorkerPids.sortBy id := by
  have hsplit : c.targetFile.splitOnP isNewline = c.pidLines ++ c.tidLines ++ [[]] := by
    rw [h.targetFile]
    exact List.splitOnP_flatMap (by decide) fun line hline =>
      notNewline_of_mem_line (mem_line hids hline).2
  have hsome : ∀ pid ∈ c.knownWorkerPids.sortBy id, (workerPidOfLine ∘ decimal) pid = some pid :=
    fun pid hpid => by
      rw [Function.comp_apply]
      exact workerPidOfLine_pid (hids pid (List.mem_append_left _ (List.mem_sortBy.mp hpid)))
  have hpids : c.pidLines.filterMap workerPidOfLine = c.knownWorkerPids.sortBy id := by
    rw [pidLines, List.filterMap_map, List.filterMap_congr hsome, List.filterMap_some]
  have htids : c.tidLines.filterMap workerPidOfLine = [] := by
    rw [List.filterMap_eq_nil_iff]
    intro line hline
    obtain ⟨tid, htid, rfl⟩ := List.mem_map.mp hline
    exact workerPidOfLine_tid (hids tid (List.mem_append_right _ (List.mem_sortBy.mp htid)))
  -- the set of pids has no duplicates, and they are sorted already
  have hnodup : (c.knownWorkerPids.sortBy id).Nodup :=
    (List.sortBy_perm id _).nodup_iff.mpr h.pids.nodup
  rw [readWorkerPids, hsplit, List.filterMap_append, List.filterMap_append, hpids, htids,
    List.filterMap_cons_none workerPidOfLine_nil, List.filterMap_nil, List.append_nil,
    List.append_nil, hnodup.dedup, List.sortBy_sortBy]

/-! ## The agreement -/

/-- The monitor and `trace_ctl` read from the target file what the collector knows: a scan leaves
    the tracked threads and the known ids in the map, with one worker for each line, a second scan
    finds nothing new, and the processes come back in order. -/
theorem targetFile_readBack (lib : JsonLib) {messages : List (List ByteArray)} {c : Collector}
    (hrun : Collector.handleAll lib messages = .ok c)
    (hids : ∀ id ∈ c.knownWorkerPids ++ c.knownExactTids, 1 ≤ id ∧ id ≤ 2 ^ 31 - 1)
    (m : Monitor)
    (hroom : (m.targetTidMap.keys.toFinset ∪
      ((c.knownWorkerPids ++ c.knownExactTids).map UInt32.ofInt).toFinset).card ≤ maxEntries)
    (isDescendantOrSelf : ℤ → Bool) :
    let scan := m.autoScanWorkerPidFile 0 isDescendantOrSelf (some c.targetFile)
    (∀ tid, tid ∈ scan.monitor.targetTidMap.keys ↔ tid ∈ m.targetTidMap.keys ∨
      tid ∈ (c.knownWorkerPids ++ c.knownExactTids).map UInt32.ofInt) ∧
    scan.workers = c.targetFile.count '\n' ∧
    (scan.monitor.autoScanWorkerPidFile 0 isDescendantOrSelf (some c.targetFile)).addedTids = 0 ∧
    readWorkerPids (some c.targetFile) = c.knownWorkerPids.sortBy id := by
  have hpersisted := Collector.persisted_of_handleAll hrun
  have hids' : ∀ id ∈ c.knownWorkerPids ++ c.knownExactTids, IsPid id := fun id hid =>
    ⟨by have := (hids id hid).1; omega, (hids id hid).2⟩
  -- sorting the ids changes neither the set of keys nor the number of lines
  have hperm : (c.knownWorkerPids.sortBy id ++ c.knownExactTids.sortBy id).Perm
      (c.knownWorkerPids ++ c.knownExactTids) :=
    (List.sortBy_perm id _).append (List.sortBy_perm id _)
  have hmap := hperm.map UInt32.ofInt
  obtain ⟨hkeys, hworkers⟩ := TargetScan.scan_targets
    (c.knownWorkerPids.sortBy id ++ c.knownExactTids.sortBy id) { monitor := m }
    (by rwa [List.toFinset_eq_of_perm _ _ hmap])
  intro scan
  have hscan : scan = _ := hpersisted.scan_eq hids' isDescendantOrSelf m
  have hmem : ∀ tid, tid ∈ scan.monitor.targetTidMap.keys ↔ tid ∈ m.targetTidMap.keys ∨
      tid ∈ (c.knownWorkerPids ++ c.knownExactTids).map UInt32.ofInt := by
    intro tid
    rw [hscan, hkeys, hmap.mem_iff]
  refine ⟨hmem, ?_, ?_, hpersisted.readWorkerPids_eq hids'⟩
  · rw [hscan, hworkers, hpersisted.count_newline hids', Nat.zero_add]
  · have hall : ∀ target ∈ c.knownWorkerPids.sortBy id ++ c.knownExactTids.sortBy id,
        UInt32.ofInt target ∈ scan.monitor.targetTidMap.keys := fun target hid =>
      (hmem _).mpr (.inr (List.mem_map_of_mem (hperm.mem_iff.mp hid)))
    rw [hpersisted.scan_eq hids',
      TargetScan.scan_targets_of_mem _ { monitor := scan.monitor } hall]

/-! ## A process and its main thread -/

/-- The message that a worker with the pid 100 is ready. -/
def workerReady : List (PyStr × PyValue) :=
  [("source", .str "monkey_patch"), ("event_type", .str "worker_process_ready"),
    ("payload", .dict [("pid", .int 100)])]

/-- The message that its main thread, with the same number, runs the event loop. -/
def mainThread : List (PyStr × PyValue) :=
  [("source", .str "monkey_patch"), ("event_type", .str "thread_role"),
    ("payload", .dict [("role", .str "asyncio_eventloop"), ("tid", .int 100)])]

def workerReadyFrame : ByteArray := encodeUtf8 (plainText [','] [':'] (.dict workerReady))

def mainThreadFrame : ByteArray := encodeUtf8 (plainText [','] [':'] (.dict mainThread))

/-- Both are learned of. -/
theorem exists_handleAll_twoMessages : ∃ c, Collector.handleAll
    (plainJson [workerReady, mainThread]) [[workerReadyFrame], [mainThreadFrame]] = .ok c ∧
      c.knownWorkerPids = [100] ∧ c.knownExactTids = [100] := by
  have hready (c : Collector) : c.handleFrames (plainJson [workerReady, mainThread]) true
      [workerReadyFrame] = c.handleMessage (plainJson [workerReady, mainThread]) true
        (.dict workerReady) (.value (.dict [("pid", .int 100)]))
        (some (plainText [','] [':'] (.dict workerReady))) := handleFrames_one rfl
  have hthread (c : Collector) : c.handleFrames (plainJson [workerReady, mainThread]) true
      [mainThreadFrame] = c.handleMessage (plainJson [workerReady, mainThread]) true
        (.dict mainThread) (.value (.dict [("role", .str "asyncio_eventloop"), ("tid", .int 100)]))
        (some (plainText [','] [':'] (.dict mainThread))) := handleFrames_one rfl
  -- the two messages, one after the other
  have hknown : (Collector.handleAll (plainJson [workerReady, mainThread])
      [[workerReadyFrame], [mainThreadFrame]]).map
        (fun c => (c.knownWorkerPids, c.knownExactTids)) = .ok ([100], [100]) := by
    unfold Collector.handleAll
    simp only [List.foldlM_cons, hready, hthread]
    rfl
  cases hrun : Collector.handleAll (plainJson [workerReady, mainThread])
      [[workerReadyFrame], [mainThreadFrame]] with
  | error e =>
    rw [hrun] at hknown
    cases hknown
  | ok c =>
    rw [hrun] at hknown
    obtain ⟨hpids, htids⟩ := Prod.ext_iff.mp (Except.ok.inj hknown)
    exact ⟨c, rfl, hpids, htids⟩

/-- A process and a thread that share a number give two lines and one tracked thread. -/
theorem targetFile_readBack_twoMessages : ∃ c, Collector.handleAll
    (plainJson [workerReady, mainThread]) [[workerReadyFrame], [mainThreadFrame]] = .ok c ∧
      (∀ tid, tid ∈ (Monitor.autoScanWorkerPidFile {} 0 (fun _ => true)
        (some c.targetFile)).monitor.targetTidMap.keys ↔ tid = 100) ∧
      readWorkerPids (some c.targetFile) = [100] := by
  obtain ⟨c, hrun, hpids, htids⟩ := exists_handleAll_twoMessages
  have hids : ∀ id ∈ c.knownWorkerPids ++ c.knownExactTids, 1 ≤ id ∧ id ≤ 2 ^ 31 - 1 := by
    rw [hpids, htids]
    decide
  -- one id in a map for 1024
  have hroom : (({} : Monitor).targetTidMap.keys.toFinset ∪
      ((c.knownWorkerPids ++ c.knownExactTids).map UInt32.ofInt).toFinset).card ≤ maxEntries := by
    rw [hpids, htids]
    decide
  obtain ⟨hkeys, -, -, hread⟩ := targetFile_readBack _ hrun hids {} hroom fun _ => true
  refine ⟨c, hrun, fun tid => ?_, ?_⟩
  · rw [hkeys, hpids, htids]
    have hid : UInt32.ofInt 100 = 100 := rfl
    simp [hid]
  · rw [hread, hpids]
    rfl

end DeLatency
