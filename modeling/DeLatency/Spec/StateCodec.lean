import DeLatency.Control.StateCodec
import DeLatency.ForStd.ListExtra
import DeLatency.Spec.PyText
import DeLatency.Spec.StateFile

/-!
# Two writers and two readers of the state file

`load_state` reads back what either writer has written, as long as no value has a carriage
return (`loadState_entries`, `oneLine_of_loadState`).  The controller finds the monitor's
pid in either file unless a path hides another one (`hiddenPid`).  The four ways through the
file agree exactly when neither happens (`codecAgrees_iff`).
-/

namespace DeLatency

open CText

/-! ## Lines in `load_state` -/

/-- No character ends a line. -/
def OneLine (text : List Char) : Prop := ∀ c ∈ text, isNewline c = false

/-- A key of the file: it has no equals sign, and like a value it is one line without whitespace
    at its ends. -/
structure CleanEntry (e : List Char × List Char) : Prop where
  noEquals : '=' ∉ e.1
  key : Trimmed e.1
  value : Trimmed e.2
  keyLine : OneLine e.1
  valueLine : OneLine e.2

/-- A text is one line when it has neither newline nor carriage return. -/
theorem oneLine_iff {text : List Char} : OneLine text ↔ '\n' ∉ text ∧ '\r' ∉ text := by
  unfold OneLine isNewline
  constructor
  · intro h
    exact ⟨fun hc => absurd (h _ hc) (by decide), fun hc => absurd (h _ hc) (by decide)⟩
  · intro h c hc
    have hnewline : c ≠ '\n' := ne_of_mem_of_not_mem hc h.1
    have hreturn : c ≠ '\r' := ne_of_mem_of_not_mem hc h.2
    simp [hnewline, hreturn]

/-- A text without whitespace is clean. -/
theorem oneLine_of_not_isSpace {text : List Char} (h : ∀ c ∈ text, isSpace c = false) :
    OneLine text := by
  rw [oneLine_iff]
  exact ⟨fun hc => absurd (h _ hc) (by decide), fun hc => absurd (h _ hc) (by decide)⟩

/-- A plain key with a trimmed value on one line is a clean entry. -/
theorem cleanEntry_of {key value : List Char} (hkey : ∀ c ∈ key, c ≠ '=' ∧ isSpace c = false)
    (hvalue : Trimmed value) (hline : OneLine value) : CleanEntry (key, value) where
  noEquals := fun hc => (hkey '=' hc).1 rfl
  key := .of_forall fun c hc => (hkey c hc).2
  value := hvalue
  keyLine := oneLine_of_not_isSpace fun c hc => (hkey c hc).2
  valueLine := hline

/-- A plain key with a number is a clean entry. -/
theorem cleanEntry_decimal {key : List Char} (hkey : ∀ c ∈ key, c ≠ '=' ∧ isSpace c = false)
    (n : ℤ) : CleanEntry (key, decimal n) := by
  have hchars : ∀ c ∈ decimal n, isSpace c = false := by
    intro c hc
    obtain rfl | hdigit := eq_minus_or_isDigit_of_mem_decimal hc
    · rfl
    · exact not_isSpace_of_isDigit hdigit
  exact cleanEntry_of hkey (.of_forall hchars) (oneLine_of_not_isSpace hchars)

/-- Stripping leaves a trimmed text alone. -/
theorem stripText_of_trimmed {text : List Char} (h : Trimmed text) : stripText text = text := by
  rw [stripText, strip_of_trimmed h, String.toList_ofList]

/-- Stripping adds no character. -/
theorem mem_of_mem_stripText {text : List Char} {c : Char} (h : c ∈ stripText text) :
    c ∈ text := by
  unfold stripText strip at h
  rw [String.toList_ofList, String.toList_ofList, List.mem_reverse] at h
  exact (List.dropWhile_sublist _).mem (List.mem_reverse.mp ((List.dropWhile_sublist _).mem h))

/-- A line of trimmed parts is trimmed. -/
theorem trimmed_line {key value : List Char} (hkey : Trimmed key) (hvalue : Trimmed value) :
    Trimmed (key ++ '=' :: value) := by
  constructor
  · intro c hc
    -- without a key the line starts with the equals sign
    cases key with
    | nil =>
      cases hc
      rfl
    | cons k key =>
      cases hc
      exact hkey.1 _ rfl
  · intro c hc
    rw [List.getLast?_append_cons, List.getLast?_cons] at hc
    -- without a value it ends with it
    cases hlast : value.getLast? with
    | none =>
      rw [hlast] at hc
      cases hc
      rfl
    | some d =>
      rw [hlast] at hc
      cases hc
      exact hvalue.2 d hlast

/-- A line that was written for an entry is read as this entry. -/
theorem loadStateLine_entry (state : CtlState) {e : List Char × List Char} (h : CleanEntry e) :
    loadStateLine state (e.1 ++ '=' :: e.2) = state.set e.1 e.2 := by
  -- the key holds no `=`, so the first one is the one that was written
  have hstop : ∀ c ∈ e.1, decide (c ≠ '=') = true := by
    intro c hc
    rw [decide_eq_true_eq]
    intro hx
    subst hx
    exact h.noEquals hc
  have htake : (e.1 ++ '=' :: e.2).takeWhile (· ≠ '=') = e.1 := by
    rw [List.takeWhile_append_of_pos hstop, List.takeWhile_cons_of_neg (by simp), List.append_nil]
  have hdrop : (e.1 ++ '=' :: e.2).dropWhile (· ≠ '=') = '=' :: e.2 := by
    rw [List.dropWhile_append_of_pos hstop, List.dropWhile_cons_of_neg (by simp)]
  unfold loadStateLine
  rw [stripText_of_trimmed (trimmed_line h.key h.value)]
  dsimp only
  rw [if_neg (by simp), htake, hdrop, List.drop_one, List.tail_cons, stripText_of_trimmed h.key,
    stripText_of_trimmed h.value]

/-- `load_state` reads back the entries of a file, in their order. -/
theorem loadState_entries (path : String) {es : List (List Char × List Char)}
    (hclean : ∀ e ∈ es, CleanEntry e) (hnodup : (es.map Prod.fst).Nodup) :
    loadState path (some (es.flatMap fun e => controlStateEntry e.1 e.2)) =
      .ok ⟨es, hnodup⟩ := by
  -- the file is the entries' lines, each with its end
  have htext : (es.flatMap fun e => controlStateEntry e.1 e.2) =
      (es.map fun e => e.1 ++ '=' :: e.2).flatMap fun line => line ++ ['\n'] := by
    rw [List.flatMap_map]
    rfl
  have hlines : ∀ line ∈ es.map fun e => e.1 ++ '=' :: e.2, ∀ c ∈ line, isNewline c = false := by
    intro line hline c hc
    obtain ⟨e, he, rfl⟩ := List.mem_map.mp hline
    obtain hc | hc := List.mem_append.mp hc
    · exact (hclean e he).keyLine c hc
    · obtain rfl | hc := List.mem_cons.mp hc
      · rfl
      · exact (hclean e he).valueLine c hc
  have hfold : (es.map fun e => e.1 ++ '=' :: e.2).foldl loadStateLine .empty =
      es.foldl (fun state e => state.set e.1 e.2) .empty := by
    rw [List.foldl_map]
    exact List.foldl_ext _ _ _ fun state e he => loadStateLine_entry state (hclean e he)
  -- the text ends with a newline, so one empty line is read last
  have hlast : ∀ state : CtlState, [[]].foldl loadStateLine state = state := fun state => rfl
  rw [loadState, htext, List.splitOnP_flatMap (by decide) hlines, List.foldl_append, hfold, hlast]
  exact congrArg Except.ok (Dict.ext (Dict.entries_foldl_alter (d := .empty) hnodup))

/-! ## Saving and loading -/

namespace CtlState

/-- The entries in the order in which `save_state` writes them. -/
def sortedEntries (state : CtlState) : List (List Char × List Char) :=
  (state.keys.sortBy id).map fun key => (key, state.getD key [])

/-- Sorting adds and drops no entry. -/
theorem mem_sortedEntries {state : CtlState} {e : List Char × List Char} :
    e ∈ state.sortedEntries ↔ e ∈ state.entries := by
  unfold sortedEntries
  rw [List.mem_map]
  constructor
  · intro h
    obtain ⟨key, hkey, rfl⟩ := h
    obtain ⟨⟨key, value⟩, he, rfl⟩ := List.mem_map.mp (List.mem_sortBy.mp hkey)
    -- keys are distinct, so the key's value is the entry's
    rw [Dict.getD_of_mem he]
    exact he
  · intro h
    refine ⟨e.1, List.mem_sortBy.mpr (List.mem_map_of_mem h), ?_⟩
    rw [Dict.getD_of_mem (k := e.1) (v := e.2) h]

/-- The keys stay distinct. -/
theorem nodup_sortedEntries (state : CtlState) : (state.sortedEntries.map Prod.fst).Nodup := by
  have hkeys : state.sortedEntries.map Prod.fst = state.keys.sortBy id := by
    unfold sortedEntries
    rw [List.map_map]
    exact List.map_id _
  rw [hkeys]
  exact (List.sortBy_perm id state.keys).nodup_iff.mpr state.nodup

end CtlState

/-- The saved text, entry by entry. -/
theorem saveState_eq (state : CtlState) :
    saveState state = state.sortedEntries.flatMap fun e => controlStateEntry e.1 e.2 := by
  rw [CtlState.sortedEntries, List.flatMap_map]
  rfl

/-- What `save_state` writes, `load_state` reads back. -/
theorem loadState_saveState (path : String) {state : CtlState}
    (hclean : ∀ e ∈ state.entries, CleanEntry e) :
    ∃ loaded, loadState path (some (saveState state)) = .ok loaded ∧
      ∀ key, loaded.get? key = state.get? key := by
  have hload := loadState_entries path
    (fun e he => hclean e (CtlState.mem_sortedEntries.mp he)) state.nodup_sortedEntries
  rw [← saveState_eq] at hload
  refine ⟨_, hload, fun key => ?_⟩
  -- the sorted entries are the same entries
  cases hget : state.get? key with
  | none =>
    have hkey : key ∉ state.keys := by
      rw [← Dict.isSome_get?_iff, hget]
      exact Bool.false_ne_true
    rw [← Option.not_isSome_iff_eq_none, Dict.isSome_get?_iff]
    intro hmem
    obtain ⟨e, he, rfl⟩ := List.mem_map.mp hmem
    exact hkey (List.mem_map_of_mem (CtlState.mem_sortedEntries.mp he))
  | some value =>
    exact Dict.get?_of_mem (CtlState.mem_sortedEntries.mpr (Dict.mem_of_get? hget))

/-! ## Carriage returns -/

/-- A line gives a key a value on one line, or leaves it. -/
theorem loadStateLine_value {state : CtlState} {raw : List Char} (hraw : OneLine raw)
    {key value : List Char} (h : (loadStateLine state raw).get? key = some value) :
    state.get? key = some value ∨ OneLine value := by
  unfold loadStateLine at h
  dsimp only at h
  split at h
  · exact .inl h
  · rw [CtlState.set, Dict.get?_alter] at h
    split at h
    · -- the value is a stripped piece of the line
      refine .inr fun c hc => hraw c ?_
      rw [← Option.some.inj h] at hc
      have hline := (List.dropWhile_sublist _).mem (List.mem_of_mem_drop (mem_of_mem_stripText hc))
      exact mem_of_mem_stripText hline
    · exact .inl h

/-- No value that is loaded has a character that ends a line. -/
theorem oneLine_of_loadState {path : String} {text : List Char} {loaded : CtlState}
    (h : loadState path (some text) = .ok loaded) {key value : List Char}
    (hvalue : loaded.get? key = some value) : OneLine value := by
  have hloaded : (text.splitOnP isNewline).foldl loadStateLine .empty = loaded := Except.ok.inj h
  subst hloaded
  -- a split line has no newline in it
  have hlines : ∀ raw ∈ text.splitOnP isNewline, OneLine raw :=
    fun _ hraw => List.forall_of_mem_splitOnP hraw
  generalize text.splitOnP isNewline = lines at hvalue hlines
  induction lines using List.reverseRecOn with
  | nil => cases hvalue
  | append_singleton lines raw ih =>
    rw [List.foldl_append, List.foldl_cons, List.foldl_nil] at hvalue
    have hraw := hlines raw (List.mem_append_right _ (List.mem_singleton_self raw))
    obtain hold | hline := loadStateLine_value hraw hvalue
    · exact ih hold fun line hline => hlines line (List.mem_append_left _ hline)
    · exact hline

/-! ## The fields as bytes -/

/-- A number is written in ASCII. -/
theorem utf8_decimal (n : ℤ) : utf8 (decimal n) = decimal n := by
  apply utf8_ascii
  intro c hc
  obtain rfl | hdigit := eq_minus_or_isDigit_of_mem_decimal hc
  · decide
  · have hrange : 48 ≤ c.toNat ∧ c.toNat ≤ 57 := by
      simpa [Char.isDigit, UInt32.le_iff_toNat_le] using hdigit
    omega

/-- Only the value of an entry needs encoding. -/
theorem utf8_entry {key value : List Char} (hkey : ∀ c ∈ key, c.toNat < 128) :
    utf8 (controlStateEntry key value) = controlStateEntry key (utf8 value) := by
  have hequals : utf8 ['='] = ['='] := utf8_ascii (by decide)
  have hnewline : utf8 ['\n'] = ['\n'] := utf8_ascii (by decide)
  have hentry : ∀ v, controlStateEntry key v = key ++ (['='] ++ (v ++ ['\n'])) := fun v => by
    simp [controlStateEntry]
  rw [hentry, hentry, utf8_append, utf8_append, utf8_append, utf8_ascii hkey, hequals, hnewline]

namespace ControlStateFields

/-- The paths as the controller has them. -/
def bytes (f : ControlStateFields) : ControlStateFields :=
  { f with
    zmqAddr := utf8 f.zmqAddr
    workerPidFile := utf8 f.workerPidFile
    ebpfMonitorBin := utf8 f.ebpfMonitorBin }

/-- The file written by the controller, as bytes. -/
theorem utf8_writeControlStateFile (f : ControlStateFields) :
    utf8 f.writeControlStateFile = f.bytes.writeControlStateFile := by
  have hone : utf8 ['1'] = ['1'] := utf8_ascii (by decide)
  unfold writeControlStateFile pidEntries pathEntries
  simp only [utf8_append]
  rw [utf8_entry (by decide), utf8_entry (by decide), utf8_entry (by decide),
    utf8_entry (by decide), utf8_entry (by decide), utf8_entry (by decide),
    utf8_entry (by decide), utf8_entry (by decide), hone, utf8_decimal, utf8_decimal, utf8_decimal,
    utf8_decimal]
  rfl

/-- The keys in the order in which `save_state` writes them. -/
theorem saveState_state (f : ControlStateFields) :
    saveState f.state =
      controlStateEntry "collector_pid".toList (decimal f.collectorPid) ++
        (controlStateEntry "controller_pid".toList (decimal f.controllerPid) ++
        (controlStateEntry "ebpf_monitor_bin".toList f.ebpfMonitorBin ++
        (controlStateEntry "ebpf_pid".toList (decimal f.ebpfPid) ++
        (controlStateEntry "state_version".toList ['1'] ++
        (controlStateEntry "target_pid".toList (decimal f.targetPid) ++
        (controlStateEntry "worker_pid_file".toList f.workerPidFile ++
        (controlStateEntry "zmq_addr".toList f.zmqAddr ++ []))))))) := by
  -- the keys in the order in which they are saved
  have hkeys : f.state.keys.sortBy id = ["collector_pid", "controller_pid", "ebpf_monitor_bin",
      "ebpf_pid", "state_version", "target_pid", "worker_pid_file", "zmq_addr"].map
        String.toList := by rfl
  rw [saveState, hkeys]
  rfl

/-- The file written by the tool, as bytes. -/
theorem utf8_saveState (f : ControlStateFields) :
    utf8 (saveState f.state) = saveState f.bytes.state := by
  have hone : utf8 ['1'] = ['1'] := utf8_ascii (by decide)
  rw [saveState_state, saveState_state]
  simp only [utf8_append]
  rw [utf8_entry (by decide), utf8_entry (by decide), utf8_entry (by decide),
    utf8_entry (by decide), utf8_entry (by decide), utf8_entry (by decide),
    utf8_entry (by decide), utf8_entry (by decide), hone, utf8_decimal, utf8_decimal, utf8_decimal,
    utf8_decimal]
  rfl

/-- The values that are not numbers. -/
def paths (f : ControlStateFields) : List (List Char) :=
  [f.zmqAddr, f.workerPidFile, f.ebpfMonitorBin]

/-- The pids are values of an `int`. -/
structure IntPids (f : ControlStateFields) : Prop where
  controllerPid : IsInt f.controllerPid
  targetPid : IsInt f.targetPid
  collectorPid : IsInt f.collectorPid
  ebpfPid : IsInt f.ebpfPid

/-- What the controller should read back. -/
def expectedPid (f : ControlStateFields) : ℤ := if 0 < f.ebpfPid then f.ebpfPid else 0

/-- What the monitor's scan finds in the controller's file. -/
theorem scanText_writeControlStateFile {f : ControlStateFields} (hpids : f.IntPids)
    (hpaths : ∀ value ∈ f.paths, '\n' ∉ value) :
    scanText f.writeControlStateFile =
      (if 0 < f.ebpfPid then some f.ebpfPid else none).or
        ((hiddenPid "zmq_addr".toList f.zmqAddr).or
          ((hiddenPid "worker_pid_file".toList f.workerPidFile).or
            (hiddenPid "ebpf_monitor_bin".toList f.ebpfMonitorBin))) := by
  simp only [paths, List.forall_mem_cons] at hpaths
  obtain ⟨hzmq, hworker, hbin, -⟩ := hpaths
  have hnil : scanText [] = none := rfl
  have htext : f.writeControlStateFile = f.writeControlStateFile ++ [] :=
    (List.append_nil _).symm
  rw [htext, writeControlStateFile, pidEntries, pathEntries]
  simp only [List.append_assoc]
  -- the controller writes the pids before the paths
  rw [scanText_version,
    scanText_otherPid (by decide) (by decide) (by decide) hpids.controllerPid,
    scanText_otherPid (by decide) (by decide) (by decide) hpids.targetPid,
    scanText_otherPid (by decide) (by decide) (by decide) hpids.collectorPid,
    scanText_ebpfPid hpids.ebpfPid, scanText_other (by decide) (by decide) hzmq,
    scanText_other (by decide) (by decide) hworker, scanText_other (by decide) (by decide) hbin,
    hnil, Option.or_none]

/-- What it finds in the tool's file. -/
theorem scanText_saveState {f : ControlStateFields} (hpids : f.IntPids)
    (hpaths : ∀ value ∈ f.paths, '\n' ∉ value) :
    scanText (saveState f.state) =
      (hiddenPid "ebpf_monitor_bin".toList f.ebpfMonitorBin).or
        ((if 0 < f.ebpfPid then some f.ebpfPid else none).or
          ((hiddenPid "worker_pid_file".toList f.workerPidFile).or
            (hiddenPid "zmq_addr".toList f.zmqAddr))) := by
  simp only [paths, List.forall_mem_cons] at hpaths
  obtain ⟨hzmq, hworker, hbin, -⟩ := hpaths
  have hnil : scanText [] = none := rfl
  -- sorted by key, the monitor's path comes before its pid
  rw [saveState_state,
    scanText_otherPid (by decide) (by decide) (by decide) hpids.collectorPid,
    scanText_otherPid (by decide) (by decide) (by decide) hpids.controllerPid,
    scanText_other (by decide) (by decide) hbin, scanText_ebpfPid hpids.ebpfPid,
    scanText_version,
    scanText_otherPid (by decide) (by decide) (by decide) hpids.targetPid,
    scanText_other (by decide) (by decide) hworker, scanText_other (by decide) (by decide) hzmq,
    hnil, Option.or_none]

end ControlStateFields

/-! ## Agreement -/

namespace ControlStateFields

variable {f : ControlStateFields}

/-- No path has a newline, or whitespace at its ends. -/
structure Clean (f : ControlStateFields) : Prop extends f.IntPids where
  newline : ∀ value ∈ f.paths, '\n' ∉ value
  trimmed : ∀ value ∈ f.paths, Trimmed value

/-- No path has a carriage return. -/
def NoReturn (f : ControlStateFields) : Prop := ∀ value ∈ f.paths, '\r' ∉ value

/-- Where the controller looks for the monitor's pid before it comes to its line, no path hides
    another one: that of the monitor program in the file of `trace_ctl`, and without a monitor
    any path. -/
def PidInSight (f : ControlStateFields) : Prop :=
  (∀ pid ∈ hiddenPid "ebpf_monitor_bin".toList (utf8 f.ebpfMonitorBin), pid = f.ebpfPid) ∧
    (f.ebpfPid ≤ 0 →
      hiddenPid "worker_pid_file".toList (utf8 f.workerPidFile) = none ∧
        hiddenPid "zmq_addr".toList (utf8 f.zmqAddr) = none)

/-- The four ways through the file: each writer with each reader. -/
structure CodecAgrees (path : String) (f : ControlStateFields) : Prop where
  loadWritten : loadState path (some f.writeControlStateFile) = .ok f.state
  loadSaved : ∃ loaded, loadState path (some (saveState f.state)) = .ok loaded ∧
    ∀ key, loaded.get? key = f.state.get? key
  readWritten : readEbpfPidFromControlState (some (utf8 f.writeControlStateFile)) = f.expectedPid
  readSaved : readEbpfPidFromControlState (some (utf8 (saveState f.state))) = f.expectedPid

/-- Clean fields without carriage returns make clean entries. -/
theorem Clean.cleanEntry (h : f.Clean) (hreturn : f.NoReturn) :
    ∀ e ∈ f.state.entries, CleanEntry e := by
  have hline : ∀ value ∈ f.paths, OneLine value := fun value hvalue =>
    oneLine_iff.mpr ⟨h.newline value hvalue, hreturn value hvalue⟩
  have htrimmed := h.trimmed
  simp only [paths, List.forall_mem_cons] at hline htrimmed
  simp only [state, List.forall_mem_cons]
  -- numbers are clean by themselves, paths by assumption
  exact ⟨cleanEntry_decimal (by decide) 1, cleanEntry_decimal (by decide) _,
    cleanEntry_decimal (by decide) _, cleanEntry_decimal (by decide) _,
    cleanEntry_decimal (by decide) _, cleanEntry_of (by decide) htrimmed.1 hline.1,
    cleanEntry_of (by decide) htrimmed.2.1 hline.2.1,
    cleanEntry_of (by decide) htrimmed.2.2.1 hline.2.2.1, fun _ he => absurd he List.not_mem_nil⟩

/-- The controller's file is that of the same entries. -/
theorem writeControlStateFile_eq (f : ControlStateFields) :
    f.writeControlStateFile =
      f.state.entries.flatMap fun e => controlStateEntry e.1 e.2 := by
  simp [writeControlStateFile, pidEntries, pathEntries, state]

/-- `load_state` gives back all values exactly when none has a carriage return. -/
theorem loadWritten_iff (path : String) (h : f.Clean) :
    loadState path (some f.writeControlStateFile) = .ok f.state ↔ f.NoReturn := by
  constructor
  · intro hload
    -- a value that was read back was one line, so it held no return
    have hvalue : ∀ key value, f.state.get? key = some value → '\r' ∉ value :=
      fun key value hget => (oneLine_iff.mp (oneLine_of_loadState hload hget)).2
    unfold NoReturn paths
    simp only [List.forall_mem_cons]
    exact ⟨hvalue "zmq_addr".toList _ rfl, hvalue "worker_pid_file".toList _ rfl,
      hvalue "ebpf_monitor_bin".toList _ rfl, fun _ he => absurd he List.not_mem_nil⟩
  · intro hreturn
    rw [writeControlStateFile_eq]
    exact loadState_entries path (h.cleanEntry hreturn) f.state.nodup

/-- Nothing is found exactly when nothing is hidden. -/
theorem getD_or_eq_zero {a b : Option ℤ} (ha : ∀ pid ∈ a, 0 < pid) :
    (a.or b).getD 0 = 0 ↔ a = none ∧ b.getD 0 = 0 := by
  cases a with
  | none => simp
  | some pid =>
    have hpos := ha pid rfl
    simp
    omega

/-- A positive pid or none: zero stands for none. -/
theorem getD_eq_zero {a : Option ℤ} (ha : ∀ pid ∈ a, 0 < pid) : a.getD 0 = 0 ↔ a = none := by
  have h := getD_or_eq_zero (b := none) ha
  rw [Option.or_none] at h
  simpa using h

/-- Clean fields are on one line each as bytes as well, with pids that fit into an int. -/
theorem Clean.bytes (h : f.Clean) :
    f.bytes.IntPids ∧ ∀ value ∈ f.bytes.paths, '\n' ∉ value := by
  refine ⟨⟨h.controllerPid, h.targetPid, h.collectorPid, h.ebpfPid⟩, ?_⟩
  have hnewline := h.newline
  simp only [paths, List.forall_mem_cons] at hnewline ⊢
  exact ⟨newline_notMem_utf8 hnewline.1, newline_notMem_utf8 hnewline.2.1,
    newline_notMem_utf8 hnewline.2.2.1, fun _ he => absurd he List.not_mem_nil⟩

/-- The controller finds the pid in its own file unless there is no monitor and a path hides
    a pid. -/
theorem readWritten_iff (h : f.Clean) :
    readEbpfPidFromControlState (some (utf8 f.writeControlStateFile)) = f.expectedPid ↔
      (f.ebpfPid ≤ 0 → hiddenPid "zmq_addr".toList (utf8 f.zmqAddr) = none ∧
        hiddenPid "worker_pid_file".toList (utf8 f.workerPidFile) = none ∧
        hiddenPid "ebpf_monitor_bin".toList (utf8 f.ebpfMonitorBin) = none) := by
  show (scanText (utf8 f.writeControlStateFile)).getD 0 = _ ↔ _
  rw [utf8_writeControlStateFile, scanText_writeControlStateFile h.bytes.1 h.bytes.2, expectedPid]
  show ((if 0 < f.ebpfPid then some f.ebpfPid else none).or _).getD 0 = _ ↔ _
  -- a positive pid is met first; otherwise the scan goes on into the paths
  by_cases hpos : 0 < f.ebpfPid
  · rw [if_pos hpos, if_pos hpos]
    exact iff_of_true rfl fun hle => absurd hpos (not_lt.mpr hle)
  · rw [if_neg hpos, if_neg hpos, Option.none_or, getD_or_eq_zero fun _ => pos_of_hiddenPid,
      getD_or_eq_zero fun _ => pos_of_hiddenPid, getD_eq_zero fun _ => pos_of_hiddenPid]
    exact ⟨fun hnone _ => hnone, fun hnone => hnone (not_lt.mp hpos)⟩

/-- The controller finds the pid in the file of `trace_ctl`. -/
theorem readSaved_iff (h : f.Clean) :
    readEbpfPidFromControlState (some (utf8 (saveState f.state))) = f.expectedPid ↔
      f.PidInSight := by
  show (scanText (utf8 (saveState f.state))).getD 0 = _ ↔ _
  rw [utf8_saveState, scanText_saveState h.bytes.1 h.bytes.2, expectedPid, PidInSight]
  show ((hiddenPid "ebpf_monitor_bin".toList (utf8 f.ebpfMonitorBin)).or
    ((if 0 < f.ebpfPid then some f.ebpfPid else none).or _)).getD 0 = _ ↔ _
  by_cases hpos : 0 < f.ebpfPid
  · rw [if_pos hpos, if_pos hpos]
    have hlate : f.ebpfPid ≤ 0 → hiddenPid "worker_pid_file".toList (utf8 f.workerPidFile) = none ∧
        hiddenPid "zmq_addr".toList (utf8 f.zmqAddr) = none :=
      fun hle => absurd hpos (not_lt.mpr hle)
    cases hiddenPid "ebpf_monitor_bin".toList (utf8 f.ebpfMonitorBin) with
    | none => exact iff_of_true rfl ⟨fun _ hpid => absurd hpid (by simp), hlate⟩
    | some pid =>
      constructor
      · intro heq
        refine ⟨fun pid' hpid => ?_, hlate⟩
        cases hpid
        exact heq
      · intro hsight
        exact hsight.1 pid rfl
  · rw [if_neg hpos, if_neg hpos, Option.none_or, getD_or_eq_zero fun _ => pos_of_hiddenPid,
      getD_or_eq_zero fun _ => pos_of_hiddenPid, getD_eq_zero fun _ => pos_of_hiddenPid]
    constructor
    · intro hnone
      refine ⟨fun pid hpid => ?_, fun _ => hnone.2⟩
      rw [hnone.1] at hpid
      cases hpid
    · intro hsight
      refine ⟨?_, hsight.2 (not_lt.mp hpos)⟩
      -- a hidden pid would be positive
      rw [Option.eq_none_iff_forall_not_mem]
      intro pid hpid
      have hpidPos := pos_of_hiddenPid hpid
      rw [hsight.1 pid hpid] at hpidPos
      exact hpos hpidPos

end ControlStateFields

open ControlStateFields

/-- All readers get back what all writers have written if and only if no path has a carriage
    return and none hides a pid from the controller. -/
theorem codecAgrees_iff (path : String) {f : ControlStateFields} (h : f.Clean) :
    f.CodecAgrees path ↔ f.NoReturn ∧ f.PidInSight := by
  constructor
  · intro hagrees
    exact ⟨(loadWritten_iff path h).mp hagrees.loadWritten, (readSaved_iff h).mp hagrees.readSaved⟩
  · intro hcond
    obtain ⟨hreturn, hsight⟩ := hcond
    refine ⟨(loadWritten_iff path h).mpr hreturn,
      loadState_saveState path (h.cleanEntry hreturn), ?_, (readSaved_iff h).mpr hsight⟩
    rw [readWritten_iff h]
    -- without a monitor the file must hide no pid at all
    intro hle
    obtain ⟨hworker, hzmq⟩ := hsight.2 hle
    refine ⟨hzmq, hworker, ?_⟩
    rw [Option.eq_none_iff_forall_not_mem]
    intro pid hpid
    have hpidPos := pos_of_hiddenPid hpid
    rw [hsight.1 pid hpid] at hpidPos
    omega

/-! ## A hidden pid -/

/-- A controller without a monitor, whose worker pid file has a name that goes on with
    `ebpf_pid=77` where the first piece of its line ends. -/
def longWorkerPidFile : ControlStateFields where
  controllerPid := 100
  targetPid := 200
  collectorPid := 300
  ebpfPid := 0
  zmqAddr := "ipc:///tmp/gpu.sock".toList
  workerPidFile := '/' :: List.replicate 237 'a' ++ "/ebpf_pid=77".toList
  ebpfMonitorBin := "/opt/ebpf_monitor".toList

/-- The controller would stop process 77. -/
theorem not_codecAgrees_longWorkerPidFile :
    longWorkerPidFile.Clean ∧ ¬longWorkerPidFile.CodecAgrees "/tmp/de_latency_control_state" := by
  refine ⟨⟨⟨by decide, by decide, by decide, by decide⟩, by decide +kernel, by decide +kernel⟩, ?_⟩
  intro h
  have hread : readEbpfPidFromControlState
      (some (utf8 longWorkerPidFile.writeControlStateFile)) = 77 := by decide +kernel
  have hexpected : longWorkerPidFile.expectedPid = 0 := rfl
  have hagrees := h.readWritten
  rw [hread, hexpected] at hagrees
  exact absurd hagrees (by decide)

/-- The fields of a usual run. -/
def usualFields : ControlStateFields where
  controllerPid := 100
  targetPid := 200
  collectorPid := 300
  ebpfPid := 400
  zmqAddr := "ipc:///tmp/gpu.sock".toList
  workerPidFile := "/tmp/workers=1".toList
  ebpfMonitorBin := "/opt/ebpf_monitor".toList

/-- With the usual paths the two readers agree exactly under the two conditions. -/
theorem codecAgrees_iff_usual :
    usualFields.CodecAgrees "/tmp/de_latency_control_state" ↔
      usualFields.NoReturn ∧ usualFields.PidInSight :=
  codecAgrees_iff _ ⟨⟨by decide, by decide, by decide, by decide⟩, by decide, by decide⟩

end DeLatency
