import DeLatency.Control.StateFile

/-!
# Reading back the control state file

The controller reads lines of any length in pieces, and takes a piece in the middle of a
path for a line: `hiddenPid` is the pid it finds there.  The line with the monitor's pid is
the first one that can match in its own file, so a positive pid is read back whatever the
paths are.
-/

namespace DeLatency

open CText

/-! ## Pieces of lines -/

/-- The pid that the controller reads from a file that is there. -/
def scanText (text : List Char) : Option ℤ := (fgetsLines 255 text).findSome? scanEbpfPid

/-- The pid that the controller finds in the line of an entry after its first piece. -/
def hiddenPid (key value : List Char) : Option ℤ :=
  ((controlStateEntry key value).chunks 255).tail.findSome? scanEbpfPid

/-- A pid that the scan finds is positive. -/
theorem pos_of_scanEbpfPid {line : List Char} {pid : ℤ} (h : scanEbpfPid line = some pid) :
    0 < pid := by
  unfold scanEbpfPid at h
  dsimp only at h
  split at h
  · simpa using (Option.filter_eq_some_iff.mp h).2
  · cases h

/-- A pid that a value hides is positive. -/
theorem pos_of_hiddenPid {key value : List Char} {pid : ℤ} (h : hiddenPid key value = some pid) :
    0 < pid := by
  obtain ⟨line, -, hline⟩ := List.exists_of_findSome?_eq_some h
  exact pos_of_scanEbpfPid hline

/-- No pid is read as 0, and a pid that is read is positive. -/
theorem readEbpfPid_nonneg (file : Option (List Char)) : 0 ≤ readEbpfPidFromControlState file := by
  cases file with
  | none => exact le_refl 0
  | some text =>
    show 0 ≤ (scanText text).getD 0
    cases hscan : scanText text with
    | none => exact le_refl 0
    | some pid =>
      obtain ⟨line, -, hline⟩ := List.exists_of_findSome?_eq_some hscan
      exact (pos_of_scanEbpfPid hline).le

/-- The line with the monitor's pid. -/
theorem scanEbpfPid_entry {n : ℤ} (hlo : -2 ^ 31 ≤ n) (hhi : n < 2 ^ 31) :
    scanEbpfPid (controlStateEntry "ebpf_pid".toList (decimal n)) =
      if 0 < n then some n else none := by
  -- no character of a number ends the string
  have hzero : ∀ c ∈ decimal n, decide (c ≠ '\x00') = true := by
    intro c hc
    rw [decide_eq_true_eq]
    intro h
    subst h
    have hchar := eq_minus_or_isDigit_of_mem_decimal hc
    revert hchar
    decide
  have hline : (controlStateEntry "ebpf_pid".toList (decimal n)).takeWhile (· ≠ '\x00') =
      "ebpf_pid=".toList ++ (decimal n ++ ['\n']) := by
    show ("ebpf_pid=".toList ++ (decimal n ++ ['\n'])).takeWhile (· ≠ '\x00') = _
    rw [List.takeWhile_append_of_pos (List.all_eq_true.mp rfl),
      List.takeWhile_append_of_pos hzero]
    rfl
  have hnext : NoDigitNext ['\n'] := by
    intro c hc
    cases hc
    decide
  unfold scanEbpfPid
  rw [hline]
  simp only [List.isPrefixOf_iff_prefix, List.prefix_append, if_true, List.drop_left]
  rw [scanInt_decimal hlo hhi hnext, Option.filter_some]
  simp

/-- A key that no first piece of a line can be taken for. -/
def OtherKey (key : List Char) : Prop :=
  8 ≤ key.length ∧ (key ++ ['=']).take 9 ≠ "ebpf_pid=".toList

instance (key : List Char) : Decidable (OtherKey key) := inferInstanceAs (Decidable (_ ∧ _))

/-- A line of another key shows no pid. -/
theorem scanEbpfPid_other {key : List Char} (hkey : OtherKey key) (value : List Char) :
    scanEbpfPid ((controlStateEntry key value).take 255) = none := by
  unfold scanEbpfPid
  dsimp only
  rw [if_neg]
  rw [List.isPrefixOf_iff_prefix]
  intro hlead
  have hline := (hlead.trans (List.takeWhile_prefix _)).trans (List.take_prefix _ _)
  have hnine : "ebpf_pid=".toList.length = 9 := rfl
  -- the first nine characters are the key's, and they are not `ebpf_pid=`
  have htake := List.prefix_iff_eq_take.mp hline
  have hentry : controlStateEntry key value = (key ++ ['=']) ++ (value ++ ['\n']) := by
    simp [controlStateEntry]
  rw [hnine, hentry, List.take_append_of_le_length (by simp [hkey.1])] at htake
  exact hkey.2 htake.symm

/-- The line of an entry: its first piece, the others, and the lines after it. -/
theorem scanText_entry_append {key value : List Char} (hkey : '\n' ∉ key) (hvalue : '\n' ∉ value)
    (rest : List Char) :
    scanText (controlStateEntry key value ++ rest) =
      (scanEbpfPid ((controlStateEntry key value).take 255)).or
        ((hiddenPid key value).or (scanText rest)) := by
  have hline : '\n' ∉ key ++ '=' :: value := by
    rw [List.mem_append, List.mem_cons, not_or, not_or]
    exact ⟨hkey, by decide, hvalue⟩
  have hne : controlStateEntry key value ≠ [] := by simp [controlStateEntry]
  -- the entry is read in pieces of at most 255 characters
  have hpieces : fgetsLines 255 (controlStateEntry key value ++ rest) =
      (controlStateEntry key value).chunks 255 ++ fgetsLines 255 rest := by
    have happend := fgetsLines_append_chunks (by decide : 0 < 255) _ rest hline
    rwa [show key ++ '=' :: value ++ '\n' :: rest = controlStateEntry key value ++ rest by
      simp [controlStateEntry]] at happend
  -- the pieces after the first are those in which a value can hide a pid
  have htail : hiddenPid key value =
      (((controlStateEntry key value).drop 255).chunks 255).findSome? scanEbpfPid := by
    rw [hiddenPid, List.chunks_of_ne_nil (by decide) hne, List.tail_cons]
  rw [scanText, hpieces, List.findSome?_append, List.chunks_of_ne_nil (by decide) hne, ← scanText,
    List.findSome?_cons, htail]
  cases scanEbpfPid ((controlStateEntry key value).take 255) with
  | none => rfl
  | some pid => rfl

/-- A line that is no longer than the buffer hides nothing. -/
theorem hiddenPid_of_length_le {key value : List Char}
    (hlen : (controlStateEntry key value).length ≤ 255) : hiddenPid key value = none := by
  have hne : controlStateEntry key value ≠ [] := by simp [controlStateEntry]
  rw [hiddenPid, List.chunks_of_length_le hne hlen]
  rfl

/-- The line of a path. -/
theorem scanText_other {key value : List Char} (hother : OtherKey key) (hkey : '\n' ∉ key)
    (hvalue : '\n' ∉ value) (rest : List Char) :
    scanText (controlStateEntry key value ++ rest) =
      (hiddenPid key value).or (scanText rest) := by
  rw [scanText_entry_append hkey hvalue, scanEbpfPid_other hother, Option.none_or]

/-! ## Lines of the file -/

/-- A value that `int` can hold. -/
def IsInt (n : ℤ) : Prop := -2 ^ 31 ≤ n ∧ n < 2 ^ 31

instance (n : ℤ) : Decidable (IsInt n) := inferInstanceAs (Decidable (_ ∧ _))

/-- The line of another pid. -/
theorem scanText_otherPid {key : List Char} (hother : OtherKey key) (hkey : '\n' ∉ key)
    (hlen : key.length ≤ 20) {n : ℤ} (hn : IsInt n) (rest : List Char) :
    scanText (controlStateEntry key (decimal n) ++ rest) = scanText rest := by
  have hdecimal := length_decimal_le hn.1 hn.2
  have hshort : (controlStateEntry key (decimal n)).length ≤ 255 := by
    simp only [controlStateEntry, List.length_append, List.length_cons, List.length_nil]
    omega
  rw [scanText_other hother hkey (newline_notMem_decimal n), hiddenPid_of_length_le hshort,
    Option.none_or]

/-- The version line shows no pid. -/
theorem scanText_version (rest : List Char) :
    scanText (controlStateEntry "state_version".toList ['1'] ++ rest) = scanText rest :=
  scanText_otherPid (n := 1) (by decide) (by decide) (by decide) (by decide) rest

/-- The line of the monitor's pid. -/
theorem scanText_ebpfPid {n : ℤ} (hn : IsInt n) (rest : List Char) :
    scanText (controlStateEntry "ebpf_pid".toList (decimal n) ++ rest) =
      (if 0 < n then some n else none).or (scanText rest) := by
  have hdecimal := length_decimal_le hn.1 hn.2
  have hshort : (controlStateEntry "ebpf_pid".toList (decimal n)).length ≤ 255 := by
    have hkey : "ebpf_pid".toList.length = 8 := rfl
    simp only [controlStateEntry, List.length_append, List.length_cons, List.length_nil]
    omega
  rw [scanText_entry_append (by decide) (newline_notMem_decimal n), List.take_of_length_le hshort,
    scanEbpfPid_entry hn.1 hn.2, hiddenPid_of_length_le hshort, Option.none_or]

/-- What the controller reads from its own file. -/
theorem readEbpfPid_write (f : ControlStateFields) (hcontroller : IsInt f.controllerPid)
    (htarget : IsInt f.targetPid) (hcollector : IsInt f.collectorPid) (hebpf : IsInt f.ebpfPid) :
    readEbpfPidFromControlState (some f.writeControlStateFile) =
      if 0 < f.ebpfPid then f.ebpfPid
      else readEbpfPidFromControlState (some f.pathEntries) := by
  show (scanText f.writeControlStateFile).getD 0 = _
  rw [ControlStateFields.writeControlStateFile, ControlStateFields.pidEntries]
  simp only [List.append_assoc]
  -- the lines before `ebpf_pid` are skipped one by one
  rw [scanText_version, scanText_otherPid (by decide) (by decide) (by decide) hcontroller,
    scanText_otherPid (by decide) (by decide) (by decide) htarget,
    scanText_otherPid (by decide) (by decide) (by decide) hcollector, scanText_ebpfPid hebpf]
  split
  · rfl
  · rfl

end DeLatency
