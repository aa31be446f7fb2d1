import DeLatency.Control.Main
import DeLatency.Spec.StateFile

/-!
# Whom the controller stops

The cleanup section trusts the state file on every way out of `main`, also on those that
have not written it, and it reads the file in pieces, so that the middle of a long path can
pass for a line.  `safeCleanup_iff` says when it stays with what this run has started and
with the monitors that a line of the file has named since; a file of short lines that
others have written over the run's own is harmless (`safeCleanup_of_plainLines`).
-/

namespace DeLatency

open CText

/-! ## The variables of a run -/

/-- The processes in the variables were started by this run. -/
structure ControllerVars.Good (v : ControllerVars) : Prop where
  collector : 0 < v.collectorPid → v.collectorPid ∈ v.started
  child : 0 < v.childPid → v.childPid ∈ v.started
  ebpf : 0 < v.ebpfPid → v.ebpfPid ∈ v.started
  isInt_collector : IsInt v.collectorPid
  isInt_child : IsInt v.childPid
  isInt_ebpf : IsInt v.ebpfPid

/-- A process id fits into an int. -/
theorem Pid.isInt (pid : Pid) : IsInt pid.val := by
  have hpos := pid.pos
  have hlt := pid.lt
  constructor <;> omega

/-- Zero fits into an int. -/
theorem isInt_zero : IsInt 0 := by
  constructor <;> omega

/-- The mark for no process fits into an int. -/
theorem isInt_neg_one : IsInt (-1) := by
  constructor <;> omega

/-- A variable that names no process has nothing to show. -/
private theorem mem_of_zero_pos {l : List ℤ} (hpos : (0 : ℤ) < 0) : (0 : ℤ) ∈ l :=
  absurd hpos (lt_irrefl 0)

namespace ControllerVars

variable {v : ControllerVars}

/-- Starting the collector leaves the variables in order, whatever comes of it. -/
theorem good_startCollectorProcess (o : CollectorOutcome) :
    (startCollectorProcess {} o).Good := by
  cases o with
  | forkFails =>
    exact ⟨mem_of_zero_pos, mem_of_zero_pos,
      mem_of_zero_pos, isInt_zero, isInt_zero, isInt_zero⟩
  -- a collector whose socket does not appear is killed and forgotten
  | socketTimeout pid =>
    exact ⟨mem_of_zero_pos, mem_of_zero_pos,
      mem_of_zero_pos, isInt_zero, isInt_zero, isInt_zero⟩
  | started pid =>
    exact ⟨fun _ => List.mem_singleton_self _, mem_of_zero_pos,
      mem_of_zero_pos, pid.isInt, isInt_zero, isInt_zero⟩

/-- Starting the monitor leaves the variables in order, whatever comes of it. -/
theorem Good.startEbpfMonitorProcess (h : v.Good) (o : EbpfOutcome) :
    (v.startEbpfMonitorProcess o).Good := by
  cases o with
  | forkFails =>
    exact ⟨h.collector, h.child, mem_of_zero_pos, h.isInt_collector,
      h.isInt_child, isInt_zero⟩
  -- a monitor that dies during the startup is forgotten; it was started all the same
  | exitsDuringStartup pid =>
    exact ⟨fun hpos => List.mem_append_left _ (h.collector hpos),
      fun hpos => List.mem_append_left _ (h.child hpos), mem_of_zero_pos,
      h.isInt_collector, h.isInt_child, isInt_zero⟩
  | started pid =>
    exact ⟨fun hpos => List.mem_append_left _ (h.collector hpos),
      fun hpos => List.mem_append_left _ (h.child hpos),
      fun _ => List.mem_append_right _ (List.mem_singleton_self _),
      h.isInt_collector, h.isInt_child, pid.isInt⟩

/-- Writing the state file leaves the variables in order. -/
theorem Good.write (h : v.Good) (text : Option (List Char)) :
    ({ v with written := text } : ControllerVars).Good :=
  ⟨h.collector, h.child, h.ebpf, h.isInt_collector, h.isInt_child, h.isInt_ebpf⟩

end ControllerVars

namespace ControllerRun

variable {r : ControllerRun}

/-- Without a resolved target nothing is started. -/
theorem main_of_not_resolved (h : r.resolved = false) : r.main = ({}, {}) := by
  unfold main
  rw [if_pos (by simp [h])]

/-- With one the run is the startup and then the cleanup. -/
theorem main_of_resolved (h : r.resolved = true) : r.main = (r.startup, r.cleanup r.startup) := by
  unfold main
  rw [if_neg (by simp [h])]

/-- The rest of the startup leaves the variables in order. -/
theorem good_startRest (r : ControllerRun) {v : ControllerVars} (h : v.Good) (target : Pid) :
    (r.startRest v target).Good := by
  -- the target is started in any case
  have hchild : ({ v with
      childPid := target.val
      started := v.started ++ [target.val] } : ControllerVars).Good :=
    ⟨fun hpos => List.mem_append_left _ (h.collector hpos),
      fun _ => List.mem_append_right _ (List.mem_singleton_self _),
      fun hpos => List.mem_append_left _ (h.ebpf hpos),
      h.isInt_collector, target.isInt, h.isInt_ebpf⟩
  unfold startRest
  dsimp only
  cases r.ebpfStartEnabled with
  | true =>
    have hebpf := hchild.startEbpfMonitorProcess r.ebpf
    rw [if_pos rfl]
    split
    · exact hebpf.write _
    · exact hebpf
  | false =>
    -- without a monitor its pid is zero, and nothing is claimed of it
    have hebpf : ({ v with
        childPid := target.val
        ebpfPid := 0
        started := v.started ++ [target.val] } : ControllerVars).Good :=
      ⟨hchild.collector, hchild.child, mem_of_zero_pos,
        hchild.isInt_collector, hchild.isInt_child, isInt_zero⟩
    rw [if_neg Bool.false_ne_true]
    split
    · exact hebpf.write _
    · exact hebpf

/-- The whole startup leaves the variables in order. -/
theorem good_startup (r : ControllerRun) : r.startup.Good := by
  have hcollector := ControllerVars.good_startCollectorProcess r.collector
  unfold startup
  dsimp only
  split
  · -- the run ends early: without a collector, a context or a socket
    exact hcollector
  split
  · exact hcollector
  split
  · exact hcollector
  split
  · -- the fork of the target failed and left its negative answer in the variable
    have hchild : ¬(0 : ℤ) < -1 := by decide
    exact ⟨hcollector.collector, fun hpos => absurd hpos hchild, hcollector.ebpf,
      hcollector.isInt_collector, isInt_neg_one, hcollector.isInt_ebpf⟩
  · exact good_startRest r hcollector _

/-- The run gets as far as the state file, and writes it. -/
def Writes (r : ControllerRun) : Prop :=
  (∃ pid, r.collector = .started pid) ∧ r.zmqCtxNew = true ∧ r.zmqSocket = true ∧
    r.target.isSome ∧ r.writeSucceeds = true

/-- A run whose collector did not start writes no state file. -/
theorem not_writes (h : ∀ pid, r.collector ≠ .started pid) : ¬r.Writes := by
  intro hwrites
  obtain ⟨pid, hcollector⟩ := hwrites.1
  exact h pid hcollector

/-- What the startup leaves in the state file. -/
theorem written_startRest {v : ControllerVars} (hv : v.written = none) (target : Pid) :
    (r.startRest v target).written =
      if r.writeSucceeds = true then
        some (r.fields (r.startRest v target)).writeControlStateFile
      else none := by
  unfold startRest
  cases r.ebpfStartEnabled with
  | true => cases r.ebpf <;> cases r.writeSucceeds <;> first | rfl | exact hv
  | false => cases r.writeSucceeds <;> first | rfl | exact hv

/-- What the run has written is made from its variables. -/
theorem written_startup (r : ControllerRun) :
    (r.Writes → r.startup.written = some (r.fields r.startup).writeControlStateFile) ∧
      (¬r.Writes → r.startup.written = none) := by
  cases hcollector : r.collector with
  | forkFails =>
    have hnot : ¬r.Writes := not_writes fun pid h => by cases hcollector.symm.trans h
    refine ⟨fun h => absurd h hnot, fun _ => ?_⟩
    unfold startup
    dsimp only
    rw [hcollector]
    rfl
  | socketTimeout pid =>
    have hnot : ¬r.Writes := not_writes fun pid h => by cases hcollector.symm.trans h
    refine ⟨fun h => absurd h hnot, fun _ => ?_⟩
    unfold startup
    dsimp only
    rw [hcollector]
    rfl
  | started pid =>
    have hpid : (ControllerVars.startCollectorProcess {} r.collector).collectorPid ≠ 0 := by
      rw [hcollector]
      exact pid.pos.ne'
    have hwritten : (ControllerVars.startCollectorProcess {} r.collector).written = none := by
      rw [hcollector]
      rfl
    unfold startup Writes
    dsimp only
    rw [if_neg hpid]
    -- only the last of the calls leads to the file
    generalize ControllerVars.startCollectorProcess {} r.collector = v at hwritten
    cases r.zmqCtxNew with
    | false => simp [hwritten]
    | true =>
      cases r.zmqSocket with
      | false => simp [hwritten]
      | true =>
        cases r.target with
        | none => simp [hwritten]
        | some target => simp [written_startRest hwritten target, hcollector]

/-! ## The result -/

/-- A process this run has started, or the process group of its target. -/
def Own (r : ControllerRun) (pid : ℤ) : Prop :=
  pid ∈ r.main.1.started ∨ (0 < r.main.1.childPid ∧ pid = -r.main.1.childPid)

/-- A whole line of the file says that the monitor is `pid`. -/
def NamesMonitor (file : Option (List Char)) (pid : ℤ) : Prop :=
  ∃ text ∈ file, "ebpf_pid=".toList ++ decimal pid ∈ text.splitOnP (· = '\n')

/-- The cleanup stops only processes of this run, and monitors which a line of the state file
    has named after this run had written it, and it removes only a file that this run has
    written. -/
def SafeCleanup (r : ControllerRun) : Prop :=
  (∀ pid ∈ r.main.2.kills, r.Own pid ∨
    (r.main.1.written.isSome ∧ ∃ file ∈ r.afterWrite, NamesMonitor file pid)) ∧
  (r.main.2.unlinked = true → r.main.1.written.isSome)

/-- The state file as others have left it, when this run does not write it. -/
def othersFile (r : ControllerRun) : Option (List Char) :=
  latest (latest r.prior r.beforeWrite) r.afterWrite

/-- The pid read from a file is missing or belongs to this run. -/
def NamesOwn (r : ControllerRun) (file : Option (List Char)) : Prop :=
  readEbpfPidFromControlState file = 0 ∨ readEbpfPidFromControlState file ∈ r.startup.started

/-- All that the cleanup stops is stopped by name of a variable, except what it reads. -/
theorem forall_mem_kills_iff (r : ControllerRun) (hresolved : r.resolved = true)
    (P : ℤ → Prop) (hown : ∀ pid, r.Own pid → P pid) :
    (∀ pid ∈ r.main.2.kills, P pid) ↔
      (0 < readEbpfPidFromControlState (r.fileAtRead r.startup) →
        P (readEbpfPidFromControlState (r.fileAtRead r.startup))) := by
  have hgood := good_startup r
  unfold Own at hown
  rw [main_of_resolved hresolved] at hown ⊢
  constructor
  · intro h hpos
    -- the pid that is read is passed over when it is that of the variable
    by_cases heq : readEbpfPidFromControlState (r.fileAtRead r.startup) = r.startup.ebpfPid
    · rw [heq] at hpos ⊢
      exact hown _ (.inl (hgood.ebpf hpos))
    · apply h
      apply List.mem_append_right
      rw [if_pos (And.intro hpos heq)]
      exact List.mem_singleton_self _
  · intro h pid hpid
    unfold cleanup at hpid
    simp only [List.mem_append, or_assoc] at hpid
    -- the target and its group, the collector, the monitor, and the pid that is read
    obtain hpid | hpid | hpid | hpid := hpid
    · split at hpid
      · next hpos =>
        simp only [List.mem_cons, List.not_mem_nil, or_false] at hpid
        obtain rfl | rfl := hpid
        · exact hown _ (.inr ⟨hpos, rfl⟩)
        · exact hown _ (.inl (hgood.child hpos))
      · cases hpid
    · split at hpid
      · next hpos =>
        rw [List.mem_singleton.mp hpid]
        exact hown _ (.inl (hgood.collector hpos))
      · cases hpid
    · split at hpid
      · next hpos =>
        rw [List.mem_singleton.mp hpid]
        exact hown _ (.inl (hgood.ebpf hpos))
      · cases hpid
    · split at hpid
      · next hpos =>
        rw [List.mem_singleton.mp hpid]
        exact h hpos.1
      · cases hpid

/-- A positive pid that belongs to the run is one of the processes it has started. -/
theorem own_iff_of_pos {pid : ℤ} (hresolved : r.resolved = true) (hpos : 0 < pid) :
    r.Own pid ↔ pid ∈ r.startup.started := by
  unfold Own
  rw [main_of_resolved hresolved]
  refine ⟨fun h => h.elim id fun hgroup => ?_, .inl⟩
  omega

/-- What a file names belongs to the run when it names a process at all. -/
theorem own_of_pos_iff (hresolved : r.resolved = true) (file : Option (List Char)) :
    (0 < readEbpfPidFromControlState file → r.Own (readEbpfPidFromControlState file)) ↔
      r.NamesOwn file := by
  have hnonneg := readEbpfPid_nonneg file
  unfold NamesOwn
  constructor
  · intro h
    -- a reading of zero names no process
    by_cases hpos : 0 < readEbpfPidFromControlState file
    · exact .inr ((own_iff_of_pos hresolved hpos).mp (h hpos))
    · exact .inl (by omega)
  · intro h hpos
    rw [own_iff_of_pos hresolved hpos]
    exact h.resolve_left hpos.ne'

/-- When nobody has touched the file, the run reads what it wrote. -/
theorem own_read_of_untouched_iff (hresolved : r.resolved = true) :
    (0 < readEbpfPidFromControlState (some (r.fields r.startup).writeControlStateFile) →
      r.Own (readEbpfPidFromControlState (some (r.fields r.startup).writeControlStateFile))) ↔
      (¬0 < r.startup.ebpfPid → r.NamesOwn (some (r.fields r.startup).pathEntries)) := by
  have hgood := good_startup r
  have hpid : (r.fields r.startup).ebpfPid = r.startup.ebpfPid := rfl
  have hread := readEbpfPid_write (r.fields r.startup) r.controllerPid.isInt
    hgood.isInt_child hgood.isInt_collector hgood.isInt_ebpf
  rw [hread, hpid]
  -- with a monitor the file names it; without one only the paths can
  by_cases hebpf : 0 < r.startup.ebpfPid
  · have hown := (own_iff_of_pos hresolved hebpf).mpr (hgood.ebpf hebpf)
    rw [if_pos hebpf]
    exact ⟨fun _ hnot => absurd hebpf hnot, fun _ _ => hown⟩
  · rw [if_neg hebpf, own_of_pos_iff hresolved]
    exact ⟨fun h _ => h, fun h => h hebpf⟩

/-- What is found in a file that others have written belongs to the run, or a line of one of
    their files names it. -/
theorem own_or_named_iff (hresolved : r.resolved = true) (file : Option (List Char))
    (files : List (Option (List Char))) :
    (0 < readEbpfPidFromControlState file → r.Own (readEbpfPidFromControlState file) ∨
        ∃ file' ∈ files, NamesMonitor file' (readEbpfPidFromControlState file)) ↔
      r.NamesOwn file ∨ ∃ file' ∈ files, NamesMonitor file' (readEbpfPidFromControlState file) := by
  rw [← own_of_pos_iff hresolved]
  constructor
  · intro h
    -- the pid may have been put into a later file
    by_cases hnamed : ∃ file' ∈ files, NamesMonitor file' (readEbpfPidFromControlState file)
    · exact .inr hnamed
    · exact .inl fun hpos => (h hpos).resolve_right hnamed
  · intro h hpos
    exact h.imp_left fun hown => hown hpos

/-- The cleanup is safe exactly for a run that ends before it starts anything; for one that
    has written the state file and does not find a foreign pid in a piece of a line, neither of
    its own (which matters when it has no monitor) nor of the last file that others have
    written over it; and for one that finds no file to remove and none that named a foreign
    process. -/
theorem safeCleanup_iff (r : ControllerRun) :
    r.SafeCleanup ↔
      r.resolved = false ∨
      (r.Writes ∧
        (r.afterWrite = [] → ¬0 < r.startup.ebpfPid →
          r.NamesOwn (some (r.fields r.startup).pathEntries)) ∧
        ∀ file ∈ r.afterWrite.getLast?, r.NamesOwn file ∨
          ∃ file' ∈ r.afterWrite, NamesMonitor file' (readEbpfPidFromControlState file)) ∨
      (¬r.Writes ∧ r.NamesOwn r.othersFile ∧ latest r.othersFile r.afterRead = none) := by
  cases hresolved : r.resolved with
  | false =>
    unfold SafeCleanup
    rw [main_of_not_resolved hresolved]
    simp
  | true =>
    unfold SafeCleanup
    rw [forall_mem_kills_iff r hresolved _ fun pid hpid => .inl hpid, main_of_resolved hresolved]
    by_cases hwrites : r.Writes
    · -- what is read back is this run's own file, unless another has been written over it
      have hwritten := (written_startup r).1 hwrites
      have hfile : r.fileAtRead r.startup =
          latest (some (r.fields r.startup).writeControlStateFile) r.afterWrite := by
        unfold fileAtRead
        rw [hwritten]
      simp only [hwritten, Option.isSome_some, implies_true, and_true, true_and,
        Bool.true_eq_false, false_or, hwrites, not_true_eq_false, false_and, or_false, hfile]
      cases hafter : r.afterWrite.getLast? with
      | none =>
        rw [List.getLast?_eq_none_iff] at hafter
        rw [hafter]
        simp only [List.not_mem_nil, false_and, exists_false, or_false, true_imp_iff,
          Option.mem_def, reduceCtorEq, IsEmpty.forall_iff, implies_true, and_true]
        exact own_read_of_untouched_iff hresolved
      | some file =>
        have hne : r.afterWrite ≠ [] := by
          intro hnil
          rw [hnil] at hafter
          cases hafter
        have hlatest : latest (some (r.fields r.startup).writeControlStateFile) r.afterWrite =
            file := by
          unfold latest
          rw [hafter]
          rfl
        rw [hlatest, own_or_named_iff hresolved]
        simp only [hne, false_imp_iff, true_and, Option.mem_def, Option.some.injEq, forall_eq']
    · -- the reader finds what was there before, and the cleanup removes whatever there is
      have hwritten := (written_startup r).2 hwrites
      have hfile : r.fileAtRead r.startup = r.othersFile := by
        unfold fileAtRead
        rw [hwritten]
        rfl
      have hunlinked :
          (r.cleanup r.startup).unlinked = (latest r.othersFile r.afterRead).isSome := by
        unfold cleanup fileAtUnlink
        rw [hfile]
      rw [hunlinked, hwritten, hfile]
      simp only [Option.isSome_none, Bool.false_eq_true, false_and, or_false,
        own_of_pos_iff hresolved, hwrites, not_false_eq_true, true_and, false_or,
        Bool.true_eq_false, imp_false, Option.not_isSome_iff_eq_none]

/-- A line that fits into the reader's buffer, and starts like that of the monitor's pid only if
    it is one. -/
structure PlainLine (line : List Char) : Prop where
  newline : '\n' ∉ line
  fits : line.length < 255
  pid : "ebpf_pid=".toList <+: line → ∃ n, IsInt n ∧ line = "ebpf_pid=".toList ++ decimal n

/-- What is read from a plain line stands on it. -/
theorem PlainLine.eq_of_scan {line : List Char} (h : PlainLine line) {pid : ℤ}
    (hscan : scanEbpfPid (line ++ ['\n']) = some pid) :
    line = "ebpf_pid=".toList ++ decimal pid := by
  have hprefix : "ebpf_pid=".toList <+: line := by
    unfold scanEbpfPid at hscan
    dsimp only at hscan
    split at hscan
    · next hlead =>
      have hconcat := (List.isPrefixOf_iff_prefix.mp hlead).trans (List.takeWhile_prefix _)
      -- the key has no newline, so it is not the whole of the line and its end
      refine (List.prefix_concat_iff.mp hconcat).resolve_left fun heq => ?_
      have hnewline : '\n' ∈ "ebpf_pid=".toList := heq ▸ List.mem_concat_self
      exact absurd hnewline (by decide)
    · cases hscan
  obtain ⟨n, hn, rfl⟩ := h.pid hprefix
  have hentry : scanEbpfPid ("ebpf_pid=".toList ++ decimal n ++ ['\n']) =
      if 0 < n then some n else none := scanEbpfPid_entry hn.1 hn.2
  rw [hentry] at hscan
  split at hscan
  · rw [Option.some.inj hscan]
  · cases hscan

/-- A run that has written the state file is safe when the last file that others have put in its
    place has only plain lines. -/
theorem safeCleanup_of_plainLines (r : ControllerRun) (hwrites : r.Writes)
    {lines : List (List Char)} (hplain : ∀ line ∈ lines, PlainLine line)
    (hlast : r.afterWrite.getLast? = some (some (lines.flatMap fun line => line ++ ['\n']))) :
    r.SafeCleanup := by
  have hne : r.afterWrite ≠ [] := by
    intro hnil
    rw [hnil] at hlast
    cases hlast
  rw [safeCleanup_iff]
  refine .inr (.inl ⟨hwrites, fun hnil => absurd hnil hne, fun file hfile => ?_⟩)
  obtain rfl := Option.some.inj (hlast.symm.trans hfile)
  have hpieces := @fgetsLines_flatMap 255 lines (fun line hline => (hplain line hline).newline)
    fun line hline => (hplain line hline).fits
  -- a pid that is found stands on a line of its own
  cases hfound : (lines.map fun line => line ++ ['\n']).findSome? scanEbpfPid with
  | none =>
    refine .inl (.inl ?_)
    rw [readEbpfPidFromControlState, hpieces, hfound, Option.getD_none]
  | some pid =>
    refine .inr ⟨_, List.mem_of_getLast? hlast, _, rfl, ?_⟩
    obtain ⟨piece, hpiece, hscan⟩ := List.exists_of_findSome?_eq_some hfound
    obtain ⟨line, hline, rfl⟩ := List.mem_map.mp hpiece
    have hsplit := @List.splitOnP_flatMap Char (· = '\n') '\n' (by decide) lines
      fun line hline c hc => by
        have hc : c ≠ '\n' := ne_of_mem_of_not_mem hc (hplain line hline).newline
        simpa using hc
    rw [readEbpfPidFromControlState, hpieces, hfound, Option.getD_some, hsplit,
      ← (hplain line hline).eq_of_scan hscan]
    exact List.mem_append_left _ hline

/-- The collector does not come up, and a state file from before names process 4242. -/
def collectorTimeout : ControllerRun where
  resolved := true
  collector := .socketTimeout ⟨100, by decide, by decide⟩
  zmqCtxNew := true
  zmqSocket := true
  target := none
  ebpfStartEnabled := true
  ebpf := .forkFails
  controllerPid := ⟨99, by decide, by decide⟩
  zmqAddr := "ipc:///tmp/tracer.sock".toList
  workerPidFile := "/tmp/tracer_worker_pids".toList
  ebpfMonitorBin := "ebpf_monitor".toList
  writeSucceeds := true
  -- a file of an earlier run is still there
  prior := some "ebpf_pid=4242\n".toList
  beforeWrite := []
  afterWrite := []
  afterRead := []

/-- The foreign process is stopped, and the foreign file removed. -/
theorem not_safeCleanup_collectorTimeout :
    collectorTimeout.main.2.kills = [4242] ∧ ¬collectorTimeout.SafeCleanup := by
  refine ⟨by decide, ?_⟩
  intro h
  obtain ⟨-, hunlinked⟩ := h
  exact absurd (hunlinked (by decide)) (by decide)

end ControllerRun

end DeLatency
