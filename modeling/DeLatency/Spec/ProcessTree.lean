import DeLatency.Control.Descendants
import DeLatency.ForStd.ListExtra
import DeLatency.Spec.PyText
import Mathlib.Order.WellFoundedSet

/-!
# One process tree, seen twice

The monitor reads the parents of all processes (`readPpid_eq`).  `trace_ctl` does, too, unless
the name of a process leads it astray: it reads nothing in a status that is not UTF-8, and a
carriage return can begin a line that it takes for the one with the parent
(`TraceCtl.readPpid_eq`, `ProcStatus.seenPpid`).

Climbing comes to an end in a table without cycles and collecting in every table.  If the names
on the way are harmless then they find the same processes except at the top: the monitor never
looks at process 1, so it does not find the root there and does not climb through it
(`sameTree_iff`).
-/

namespace DeLatency

open CText Relation

/-! ## Reading a status -/

/-- The parent line is one line. -/
theorem newline_notMem_ppidLine (status : ProcStatus) : '\n' ∉ status.ppidLine := by
  unfold ProcStatus.ppidLine
  rw [List.mem_append, not_or]
  exact ⟨by decide, newline_notMem_decimal status.ppid⟩

/-- It fits into the monitor's buffer. -/
theorem length_ppidLine_lt (status : ProcStatus) : status.ppidLine.length < 255 := by
  have hlen := length_decimal_le (n := status.ppid) (by have := status.ppid_nonneg; omega)
    status.ppid_lt
  have hkey : "PPid:\t".toList.length = 6 := rfl
  unfold ProcStatus.ppidLine
  rw [List.length_append]
  omega

/-- The monitor reads the parent off it. -/
theorem scanPpid_ppidLine (status : ProcStatus) :
    scanPpid (status.ppidLine ++ ['\n']) = some status.ppid := by
  have hprefix : "PPid:".toList.isPrefixOf (status.ppidLine ++ ['\n']) = true := rfl
  have hnext : NoDigitNext ['\n'] := fun c hc => by cases hc; rfl
  have hscan : scanInt ('\t' :: (decimal status.ppid ++ ['\n'])) =
      scanInt (decimal status.ppid ++ ['\n']) := rfl
  unfold scanPpid
  rw [if_pos hprefix]
  show scanInt ('\t' :: (decimal status.ppid ++ ['\n'])) = _
  rw [hscan]
  exact scanInt_decimal (by have := status.ppid_nonneg; omega) status.ppid_lt hnext

/-- The monitor reads no parent off the lines above. -/
theorem scanPpid_above {status : ProcStatus} {line : List Char} (h : line ∈ status.above) :
    scanPpid (line ++ ['\n']) = none := by
  unfold scanPpid
  rw [if_neg]
  rw [List.isPrefixOf_iff_prefix, List.prefix_concat_iff]
  intro hx
  obtain heq | hprefix := hx
  · have hnew : '\n' ∈ "PPid:".toList := heq ▸ List.mem_append_right _ (List.mem_singleton_self _)
    exact absurd hnew (by decide)
  · exact (status.above_clean line h).2.2 hprefix

/-- The monitor reads the parent of a process. -/
theorem ProcTable.readPpid_eq {table : ProcTable} (pid : ℤ) :
    table.readPpid pid = (table.procs.get? pid).map ProcStatus.ppid := by
  unfold ProcTable.readPpid
  -- a pid that is not positive is in no table
  by_cases hpid : pid ≤ 0
  · have hnone : table.procs.get? pid = none := by
      rw [← Option.not_isSome_iff_eq_none, Dict.isSome_get?_iff]
      exact fun hmem => absurd (table.pos pid hmem) (not_lt.mpr hpid)
    rw [if_pos hpid, hnone, Option.map_none]
  · rw [if_neg hpid]
    cases table.procs.get? pid with
    | none => rfl
    | some status =>
      -- the lines above are read one at a time, and none of them shows a parent
      have hlines := fgetsLines_flatMap_append 255
        (status.ppidLine ++ '\n' :: status.below)
        (fun line hline => (status.above_clean line hline).1)
        fun line hline => (status.above_clean line hline).2.1
      have habove : (status.above.map fun line => line ++ ['\n']).findSome? scanPpid = none := by
        rw [List.findSome?_map, List.findSome?_eq_none_iff]
        exact fun line hline => scanPpid_above hline
      rw [Option.bind_some, Option.map_some, ProcStatus.text, List.append_assoc,
        ProcStatus.aboveText, hlines,
        fgetsLines_append _ (newline_notMem_ppidLine status) (length_ppidLine_lt status),
        List.findSome?_append, habove, Option.none_or, List.findSome?_cons, scanPpid_ppidLine]

/-- The controller sees two fields in it. -/
theorem splitFields_ppidLine (status : ProcStatus) :
    splitFields status.ppidLine = ["PPid:".toList, decimal status.ppid] := by
  have hdecimal : ∀ c ∈ decimal status.ppid, isSpace c = false := fun c hc =>
    not_isSpace_of_isDigit (isDigit_of_mem_decimal_nonneg status.ppid_nonneg hc)
  -- neither the key nor the digits hold a blank, so the tab is the only place to split
  have hkey : ∀ c ∈ "PPid:".toList, isSpace c = false := by decide
  have hne : decimal status.ppid ≠ [] := by
    rw [decimal_of_nonneg status.ppid_nonneg]
    exact Nat.toDigits_ne_nil
  have hline : status.ppidLine = "PPid:".toList ++ '\t' :: decimal status.ppid := rfl
  unfold splitFields
  rw [hline, List.splitOnP_append_cons_of_forall_mem hkey '\t' (by decide),
    List.splitOnP_eq_singleton hdecimal]
  simp [hne]

/-- There is nothing but ASCII from the line with the parent on. -/
theorem ascii_ppidLine_below (status : ProcStatus) :
    ∀ c ∈ status.ppidLine ++ '\n' :: status.below, c.toNat < 128 := by
  have hkey : ∀ c ∈ "PPid:\t".toList, c.toNat < 128 := by decide
  intro c hc
  obtain hc | hc := List.mem_append.mp hc
  · obtain hc | hc := List.mem_append.mp hc
    · exact hkey c hc
    · -- a digit of the pid
      have hdigit := isDigit_of_mem_decimal_nonneg status.ppid_nonneg hc
      have hrange : 48 ≤ c.toNat ∧ c.toNat ≤ 57 := by
        simpa [Char.isDigit, UInt32.le_iff_toNat_le] using hdigit
      omega
  · obtain rfl | hc := List.mem_cons.mp hc
    · decide
    · -- the lines below hold numbers and names the kernel chose
      exact status.below_ascii c hc

/-- The characters above stand for bytes. -/
theorem toNat_lt_of_mem_aboveText {status : ProcStatus} :
    ∀ c ∈ status.aboveText, c.toNat < 256 := by
  intro c hc
  obtain ⟨line, hline, hc⟩ := List.mem_flatMap.mp hc
  obtain hc | hc := List.mem_append.mp hc
  · exact status.above_bytes line hline c hc
  · rw [List.mem_singleton.mp hc]
    decide

/-- The line with the parent begins on a line of its own, whatever is above. -/
theorem aboveText_eq_nil_or_concat (status : ProcStatus) :
    status.aboveText = [] ∨ ∃ start, status.aboveText = start ++ ['\n'] := by
  unfold ProcStatus.aboveText
  cases status.above using List.reverseRec with
  | nil => exact .inl rfl
  | append_singleton lines line =>
    refine .inr ⟨(lines.flatMap fun line => line ++ ['\n']) ++ line, ?_⟩
    rw [List.flatMap_append, List.flatMap_singleton, List.append_assoc]

/-- What `trace_ctl` takes for the parent, which is nothing when the lines above are not UTF-8.
    A carriage return in them ends a line, too, and the first line that starts like the one with
    the parent stands for it. -/
def ProcStatus.seenPpid (status : ProcStatus) : Option ℤ :=
  (decodeUtf8 (toBytes status.aboveText)).bind fun above =>
    match (above.splitOnP isNewline).find? startsPpid with
    | none => some status.ppid
    | some line => ppidField line

/-- The lines of a decoded status are those above, the one with the parent and those below. -/
theorem splitOnP_text {status : ProcStatus} {above : List Char}
    (h : decodeUtf8 (toBytes status.aboveText) = some above) :
    ∃ lines, above.splitOnP isNewline = lines ++ [[]] ∧
      (above ++ (status.ppidLine ++ '\n' :: status.below)).splitOnP isNewline =
        lines ++ status.ppidLine :: status.below.splitOnP isNewline := by
  have hkey : ∀ c ∈ "PPid:\t".toList, isNewline c = false := by decide
  have hppid : ∀ c ∈ status.ppidLine, isNewline c = false := by
    intro c hc
    obtain hc | hc := List.mem_append.mp hc
    · exact hkey c hc
    · have hdigit := isDigit_of_mem_decimal_nonneg status.ppid_nonneg hc
      have hnew : c ≠ '\n' := by rintro rfl; revert hdigit; decide
      have hret : c ≠ '\r' := by rintro rfl; revert hdigit; decide
      simp [isNewline, hnew, hret]
  have hrest : (status.ppidLine ++ '\n' :: status.below).splitOnP isNewline =
      status.ppidLine :: status.below.splitOnP isNewline :=
    List.splitOnP_append_cons_of_forall_mem hppid '\n' (by decide) status.below
  have hbytes := (decodeUtf8_toBytes toNat_lt_of_mem_aboveText).mp h
  obtain hnil | ⟨start, hstart⟩ := aboveText_eq_nil_or_concat status
  · rw [hnil] at hbytes
    obtain rfl := utf8_eq_nil.mp hbytes
    exact ⟨[], rfl, hrest⟩
  · -- the last line above is at an end
    rw [hstart] at hbytes
    obtain ⟨text, rfl, -⟩ := utf8_eq_concat (by decide) hbytes
    refine ⟨text.splitOnP isNewline, ?_, ?_⟩
    · rw [List.splitOnP_append_cons text [] (by decide)]
      rfl
    · rw [List.append_assoc, List.singleton_append, List.splitOnP_append_cons text _ (by decide),
        hrest]

/-- `trace_ctl` reads the parent that it sees in the status. -/
theorem TraceCtl.readPpid_eq {table : ProcTable} (pid : ℤ) :
    TraceCtl.readPpid table pid = (table.procs.get? pid).bind ProcStatus.seenPpid := by
  unfold TraceCtl.readPpid
  congr 1
  funext status
  -- only the lines above can fail to decode; the rest is ASCII
  have hdecode := decodeUtf8_toBytes_append (@toNat_lt_of_mem_aboveText status)
    (ascii_ppidLine_below status)
  rw [ppidOfStatus, ProcStatus.text, List.append_assoc, hdecode, ProcStatus.seenPpid]
  cases h : decodeUtf8 (toBytes status.aboveText) with
  | none => rfl
  | some above =>
    obtain ⟨lines, habove, htext⟩ := splitOnP_text h
    have hprefix : startsPpid status.ppidLine = true := rfl
    have hfield : ppidField status.ppidLine = some status.ppid := by
      rw [ppidField, splitFields_ppidLine, List.getElem?_cons_succ, List.getElem?_cons_zero,
        Option.bind_some]
      exact parseInt_decimal status.ppid_nonneg
    rw [Option.map_some, Option.bind_some, Option.bind_some, habove, htext, List.find?_append,
      List.find?_append]
    cases lines.find? startsPpid with
    | none =>
      rw [Option.none_or, List.find?_cons_of_pos hprefix, Option.bind_some, hfield]
      rfl
    -- a line above is taken for the parent's
    | some line => rfl

/-- The lines above are texts, and no carriage return is in them. -/
def ProcStatus.PlainName (status : ProcStatus) : Prop :=
  ∃ names : List (List Char), status.above = names.map utf8 ∧ ∀ name ∈ names, '\r' ∉ name

/-- `trace_ctl` sees the parent below a plain name. -/
theorem ProcStatus.PlainName.seenPpid_eq {status : ProcStatus} (h : status.PlainName) :
    status.seenPpid = some status.ppid := by
  obtain ⟨names, habove, hplain⟩ := h
  -- none of the lines above starts like the parent's
  have hclean : ∀ name ∈ names, '\n' ∉ name ∧ startsPpid name = false := by
    intro name hname
    have hline := status.above_clean (utf8 name) (habove ▸ List.mem_map_of_mem hname)
    refine ⟨fun hmem => hline.1 (newline_mem_utf8 hmem), ?_⟩
    rw [← Bool.not_eq_true]
    intro hstarts
    obtain ⟨rest, rfl⟩ := List.isPrefixOf_iff_prefix.mp hstarts
    have hkey : utf8 "PPid:".toList = "PPid:".toList := utf8_ascii (by decide)
    rw [utf8_append, hkey] at hline
    exact hline.2.2 (List.prefix_append _ _)
  -- they decode to the names that they were written from
  have htext : utf8 (names.flatMap fun name => name ++ ['\n']) = status.aboveText := by
    have hnewline : utf8 ['\n'] = ['\n'] := utf8_ascii (by decide)
    rw [aboveText, habove]
    clear habove hplain hclean
    induction names with
    | nil => rfl
    | cons name names ih =>
      rw [List.flatMap_cons, List.map_cons, List.flatMap_cons, utf8_append, utf8_append, hnewline,
        ih]
  -- without carriage returns they split where they were joined
  have hlines : (names.flatMap fun name => name ++ ['\n']).splitOnP isNewline = names ++ [[]] := by
    apply List.splitOnP_flatMap (by decide)
    intro name hname c hc
    have hnew : c ≠ '\n' := ne_of_mem_of_not_mem hc (hclean name hname).1
    have hret : c ≠ '\r' := ne_of_mem_of_not_mem hc (hplain name hname)
    simp [isNewline, hnew, hret]
  have hfind : (names ++ [[]]).find? startsPpid = none := by
    rw [List.find?_eq_none]
    intro line hline
    obtain hline | hline := List.mem_append.mp hline
    · rw [(hclean line hline).2]
      exact Bool.false_ne_true
    · rw [List.mem_singleton.mp hline]
      decide
  rw [seenPpid, (decodeUtf8_toBytes toNat_lt_of_mem_aboveText).mpr htext, Option.bind_some, hlines,
    hfind]

/-! ## Parents -/

namespace ProcTable

variable {table : ProcTable}

def ppid? (table : ProcTable) (pid : ℤ) : Option ℤ := (table.procs.get? pid).map ProcStatus.ppid

/-- `ppid` is the parent of `pid`. -/
def Parent (table : ProcTable) (pid ppid : ℤ) : Prop := table.ppid? pid = some ppid

/-- `pid` is `root` or a descendant of it. -/
def Within (table : ProcTable) (root pid : ℤ) : Prop := ReflTransGen table.Parent pid root

/-- `trace_ctl` takes `ppid` for the parent of `pid`. -/
def SeenParent (table : ProcTable) (pid ppid : ℤ) : Prop :=
  (table.procs.get? pid).bind ProcStatus.seenPpid = some ppid

/-- `trace_ctl` takes `pid` for `root` or a descendant of it. -/
def SeenWithin (table : ProcTable) (root pid : ℤ) : Prop := ReflTransGen table.SeenParent pid root

/-- No process is its own ancestor. -/
def Acyclic (table : ProcTable) : Prop := ∀ pid, ¬TransGen table.Parent pid pid

/-- A process with a parent is in the table. -/
theorem Parent.mem_keys {pid ppid : ℤ} (h : table.Parent pid ppid) : pid ∈ table.procs.keys := by
  rw [← Dict.isSome_get?_iff, ← Option.isSome_map]
  exact Option.isSome_of_eq_some h

/-- Its pid is positive. -/
theorem Parent.pos {pid ppid : ℤ} (h : table.Parent pid ppid) : 0 < pid :=
  table.pos pid h.mem_keys

/-- A process whose parent the controller sees is in the table. -/
theorem SeenParent.mem_keys {pid ppid : ℤ} (h : table.SeenParent pid ppid) :
    pid ∈ table.procs.keys := by
  obtain ⟨status, hget, -⟩ := Option.bind_eq_some_iff.mp h
  exact Dict.isSome_get?_iff.mp (Option.isSome_of_eq_some hget)

/-- In a table without cycles one can argue from the parents to the children. -/
theorem Acyclic.induction (h : table.Acyclic) {motive : ℤ → Prop}
    (hstep : ∀ pid, (∀ ppid, table.Parent pid ppid → motive ppid) → motive pid) (pid : ℤ) :
    motive pid := by
  have horder : IsStrictOrder ℤ (TransGen (Function.swap table.Parent)) := {
    irrefl := fun pid hcycle => h pid (transGen_swap.mp hcycle)
    trans := fun _ _ _ => TransGen.trans }
  -- the table is finite and has no cycle, so going up the parents ends
  have hwf : (table.procs.keys.toFinset : Set ℤ).WellFoundedOn
      (TransGen (Function.swap table.Parent)) := Set.Finite.wellFoundedOn (Finset.finite_toSet _)
  -- a pid that is not in the table has no parent there
  have houtside : ∀ pid, pid ∉ table.procs.keys → motive pid := fun pid hpid =>
    hstep pid fun ppid hparent => absurd hparent.mem_keys hpid
  by_cases hpid : pid ∈ table.procs.keys
  · apply hwf.induction (P := motive) (by simpa using hpid)
    intro pid _ ih
    apply hstep pid
    intro ppid hparent
    by_cases hppid : ppid ∈ table.procs.keys
    · exact ih ppid (by simpa using hppid) (.single hparent)
    · exact houtside ppid hppid
  · exact houtside pid hpid

/-! ## Climbing -/

/-- The climb ends with enough fuel, however much more there is. -/
theorem exists_climb (h : table.Acyclic) (rootPid cur : ℤ) :
    ∃ n b, ∀ fuel, n ≤ fuel → table.climb rootPid fuel cur = some b := by
  induction cur using h.induction with
  | hstep cur ih =>
    -- what one turn answers without climbing further
    by_cases hcur : 1 < cur
    · by_cases hroot : cur = rootPid
      · refine ⟨1, true, fun fuel hfuel => ?_⟩
        obtain ⟨fuel, rfl⟩ := Nat.exists_eq_add_of_le' hfuel
        rw [climb, if_pos hcur, if_pos hroot]
      · cases hread : table.readPpid cur with
        | none =>
          refine ⟨1, false, fun fuel hfuel => ?_⟩
          obtain ⟨fuel, rfl⟩ := Nat.exists_eq_add_of_le' hfuel
          rw [climb, if_pos hcur, if_neg hroot, hread]
        | some ppid =>
          obtain ⟨n, b, hn⟩ := ih ppid ((readPpid_eq cur).symm.trans hread)
          refine ⟨n + 1, b, fun fuel hfuel => ?_⟩
          obtain ⟨fuel, rfl⟩ := Nat.exists_eq_add_of_le' (Nat.one_le_of_lt hfuel)
          rw [climb, if_pos hcur, if_neg hroot, hread]
          exact hn fuel (by omega)
    · refine ⟨1, false, fun fuel hfuel => ?_⟩
      obtain ⟨fuel, rfl⟩ := Nat.exists_eq_add_of_le' hfuel
      rw [climb, if_neg hcur]

/-- A step to the parent that the climb takes. -/
def Climbs (table : ProcTable) (pid ppid : ℤ) : Prop := 1 < pid ∧ table.Parent pid ppid

/-- The climb answers whether it gets to the root process. -/
theorem climb_eq_some {rootPid cur : ℤ} {fuel : ℕ} {b : Bool}
    (h : table.climb rootPid fuel cur = some b) :
    b = true ↔ 1 < rootPid ∧ ReflTransGen table.Climbs cur rootPid := by
  induction fuel generalizing cur with
  | zero => cases h
  | succ fuel ih =>
    rw [climb] at h
    by_cases hcur : 1 < cur
    · rw [if_pos hcur] at h
      by_cases hroot : cur = rootPid
      · rw [if_pos hroot] at h
        cases h
        subst hroot
        exact iff_of_true rfl ⟨hcur, .refl⟩
      · rw [if_neg hroot, readPpid_eq] at h
        -- the root process is not here, so the first step of a chain leads to the parent
        have hhead : ReflTransGen table.Climbs cur rootPid ↔
            ∃ ppid, table.Parent cur ppid ∧ ReflTransGen table.Climbs ppid rootPid := by
          constructor
          · intro hchain
            obtain heq | ⟨ppid, hstep, hchain⟩ := hchain.cases_head
            · exact absurd heq hroot
            · exact ⟨ppid, hstep.2, hchain⟩
          · intro hchain
            obtain ⟨ppid, hparent, hchain⟩ := hchain
            exact hchain.head ⟨hcur, hparent⟩
        rw [hhead]
        unfold Parent ppid?
        cases hppid : (table.procs.get? cur).map ProcStatus.ppid with
        | none =>
          rw [hppid] at h
          cases h
          simp
        | some ppid =>
          rw [hppid] at h
          rw [ih h]
          simp
    · rw [if_neg hcur] at h
      cases h
      apply iff_of_false Bool.false_ne_true
      intro hchain
      obtain ⟨hroot, hchain⟩ := hchain
      obtain rfl | ⟨ppid, hstep, -⟩ := hchain.cases_head
      · exact hcur hroot
      · exact hcur hstep.1

/-- The climb gets to a root process above it unless process 1 is in between. -/
theorem reflTransGen_climbs_iff {rootPid pid : ℤ} (hroot : 0 < rootPid)
    (hacyclic : table.Acyclic) :
    1 < rootPid ∧ ReflTransGen table.Climbs pid rootPid ↔
      table.Within rootPid pid ∧ ¬(table.Within 1 pid ∧ table.Within rootPid 1) := by
  constructor
  · intro h
    obtain ⟨hlt, hchain⟩ := h
    refine ⟨hchain.lift id fun _ _ hstep => hstep.2, fun hinit => ?_⟩
    obtain ⟨hpid, hup⟩ := hinit
    revert hpid
    induction hchain using ReflTransGen.head_induction_on with
    | refl =>
      -- process 1 would be above the root and below it
      intro hdown
      obtain heq | hcycle := reflTransGen_iff_eq_or_transGen.mp hdown
      · omega
      · exact hacyclic rootPid (hcycle.trans_left hup)
    | head hstep _ ih =>
      intro hpid
      obtain rfl | ⟨ppid, hparent, hrest⟩ := hpid.cases_head
      · exact absurd hstep.1 (lt_irrefl 1)
      · rw [Option.some.inj (hstep.2.symm.trans hparent)] at ih
        exact ih hrest
  · intro h
    obtain ⟨hchain, hinit⟩ := h
    revert hinit
    induction hchain using ReflTransGen.head_induction_on with
    | refl =>
      intro hinit
      have hne : rootPid ≠ 1 := by
        intro hx
        subst hx
        exact hinit ⟨.refl, .refl⟩
      exact ⟨by omega, .refl⟩
    | head hparent hrest ih =>
      intro hinit
      have hpos := hparent.pos
      obtain ⟨hlt, hclimbs⟩ := ih fun h => hinit ⟨h.1.head hparent, h.2⟩
      refine ⟨hlt, hclimbs.head ⟨?_, hparent⟩⟩
      apply lt_of_le_of_ne (by omega)
      intro hx
      subst hx
      exact hinit ⟨.refl, hrest.head hparent⟩

end ProcTable

/-! ## Collecting -/

namespace TraceCtl

variable {table : ProcTable}

/-- The children of a pid are those the controller sees under it. -/
theorem mem_children {pid ppid : ℤ} : pid ∈ children table ppid ↔ table.SeenParent pid ppid := by
  unfold children ppidMap
  rw [Dict.getD_pushAll, Dict.getD_empty, List.nil_append]
  simp only [List.mem_map, List.mem_filter, List.mem_filterMap, decide_eq_true_eq]
  constructor
  · intro h
    obtain ⟨_, ⟨⟨pid', -, hentry⟩, rfl⟩, rfl⟩ := h
    obtain ⟨ppid', hread, rfl⟩ := Option.map_eq_some_iff.mp hentry
    exact (readPpid_eq pid').symm.trans hread
  · intro h
    -- the map is built from the same reads, so an edge of it is an edge of the table
    have hread : readPpid table pid = some ppid := (readPpid_eq pid).trans h
    exact ⟨(ppid, pid), ⟨⟨pid, h.mem_keys, by rw [hread]; rfl⟩, rfl⟩, rfl⟩

/-- The walk through the children leads to the processes that are seen below. -/
theorem reaches_iff {root pid : ℤ} :
    Worklist.Reaches (children table) root pid ↔ table.SeenWithin root pid := by
  have hrel : (fun x y => y ∈ children table x) = Function.swap table.SeenParent := by
    funext ppid pid
    exact propext mem_children
  unfold Worklist.Reaches ProcTable.SeenWithin
  rw [hrel, reflTransGen_swap]

/-- The collection ends with enough fuel, however much more there is. -/
theorem exists_descendantPids (table : ProcTable) (rootPid : ℤ) :
    ∃ n l, ∀ fuel, n ≤ fuel → descendantPids table fuel rootPid = some l := by
  unfold descendantPids
  by_cases hroot : rootPid ≤ 0
  · exact ⟨0, [], fun fuel _ => if_pos hroot⟩
  · have hchild : ∀ ppid, ∀ pid ∈ children table ppid, pid ∈ table.procs.keys.toFinset :=
      fun ppid pid hpid => List.mem_toFinset.mpr (mem_children.mp hpid).mem_keys
    -- every pid on the stack is a key of the table, so the walk runs out of new ones
    obtain ⟨n, l, h⟩ := Worklist.exists_closure (fun ppid _ => hchild ppid)
      (children table rootPid).reverse [] fun pid hpid =>
        hchild rootPid pid (List.mem_reverse.mp hpid)
    refine ⟨n, l.sortBy id, fun fuel hfuel => ?_⟩
    rw [if_neg hroot, h fuel hfuel, Option.map_some]

/-- What is collected are the processes that are seen below the root process. -/
theorem mem_descendantPids {rootPid : ℤ} {fuel : ℕ} {l : List ℤ} (hroot : 0 < rootPid)
    (h : descendantPids table fuel rootPid = some l) {pid : ℤ} :
    pid ∈ l ↔ TransGen table.SeenParent pid rootPid := by
  rw [descendantPids, if_neg (not_le.mpr hroot), Option.map_eq_some_iff] at h
  obtain ⟨collected, h, rfl⟩ := h
  have hclosed : Worklist.Closed (children table) (children table rootPid).reverse [] :=
    fun x hx => absurd hx List.not_mem_nil
  rw [List.mem_sortBy, Worklist.mem_closure_iff hclosed h, TransGen.tail'_iff]
  simp [mem_children, reaches_iff, and_comm, ProcTable.SeenWithin]

/-- Only positive numbers are read from the worker pid file. -/
theorem pos_of_mem_readWorkerPids {file : Option (List Char)} {pid : ℤ}
    (h : pid ∈ readWorkerPids file) : 0 < pid := by
  cases file with
  | none => exact absurd h List.not_mem_nil
  | some text =>
    obtain ⟨raw, -, hraw⟩ := List.mem_filterMap.mp (List.mem_dedup.mp (List.mem_sortBy.mp h))
    unfold workerPidOfLine at hraw
    dsimp only at hraw
    split at hraw
    · cases hraw
    · simpa using (Option.filter_eq_some_iff.mp hraw).2

/-- The targets of a command are the processes of the tree and the worker pids. -/
theorem mem_monkeypatchTargets {rootPid : ℤ} {fuel : ℕ} {l : List ℤ} (hroot : 0 < rootPid)
    {workerPidFile : Option (List Char)}
    (h : monkeypatchTargets table fuel rootPid workerPidFile = some l) {pid : ℤ} :
    pid ∈ l ↔ table.SeenWithin rootPid pid ∨ pid ∈ readWorkerPids workerPidFile := by
  rw [monkeypatchTargets, Option.map_eq_some_iff] at h
  obtain ⟨descendants, h, rfl⟩ := h
  have hmem : pid ∈ uniquePids [[rootPid], descendants, readWorkerPids workerPidFile] ↔
      (pid = rootPid ∨ pid ∈ descendants ∨ pid ∈ readWorkerPids workerPidFile) ∧ 0 < pid := by
    -- removing repetitions keeps the members
    have hfirst : pid ∈ (List.firstSeen id
          ([[rootPid], descendants, readWorkerPids workerPidFile].flatten.filter (0 < ·))).map id ↔
        pid ∈ ([[rootPid], descendants, readWorkerPids workerPidFile].flatten.filter
          (0 < ·)).map id := List.mem_map_firstSeen
    rw [List.map_id, List.map_id] at hfirst
    rw [uniquePids, List.foldl_pushNew_nil, hfirst, List.mem_filter]
    simp
  have hwithin : pid = rootPid ∨ pid ∈ descendants ↔ table.SeenWithin rootPid pid := by
    rw [mem_descendantPids hroot h, ProcTable.SeenWithin, reflTransGen_iff_eq_or_transGen,
      eq_comm]
  rw [hmem, ← or_assoc, hwithin, and_iff_left_iff_imp]
  -- every target is positive: the root, a pid of the table or one of the file
  intro hpid
  obtain hpid | hpid := hpid
  · obtain rfl | ⟨ppid, hparent, -⟩ := hpid.cases_head
    · exact hroot
    · exact table.pos pid hparent.mem_keys
  · exact pos_of_mem_readWorkerPids hpid

end TraceCtl

/-! ## Misread names -/

namespace ProcTable

variable {table : ProcTable}

/-- `trace_ctl` does not read the parent of `pid`. -/
def Misread (table : ProcTable) (pid : ℤ) : Prop :=
  (table.procs.get? pid).bind ProcStatus.seenPpid ≠ table.ppid? pid

/-- A step on the way to the root process at which `trace_ctl` reads the parent. -/
def ReadsRight (table : ProcTable) (root pid ppid : ℤ) : Prop :=
  pid ≠ root ∧ table.Parent pid ppid ∧ ¬table.Misread pid

/-- On the way from `pid` up to the root process, `trace_ctl` misreads `m` first. -/
def FirstMisread (table : ProcTable) (root pid m : ℤ) : Prop :=
  ReflTransGen (table.ReadsRight root) pid m ∧ m ≠ root ∧ table.Misread m

/-- The parent of a process with a plain name is not misread. -/
theorem not_misread_of_plainName {pid : ℤ}
    (h : ∀ status ∈ table.procs.get? pid, status.PlainName) : ¬table.Misread pid := by
  unfold Misread ppid?
  rw [not_not]
  cases hget : table.procs.get? pid with
  | none => rfl
  | some status => exact (h status hget).seenPpid_eq

/-- Nothing is misread above a process when all names there are plain. -/
theorem not_firstMisread_of_plainName {root pid m : ℤ}
    (h : ∀ q, table.Within q pid → ∀ status ∈ table.procs.get? q, status.PlainName) :
    ¬table.FirstMisread root pid m := by
  intro hfirst
  obtain ⟨hway, -, hmisread⟩ := hfirst
  exact not_misread_of_plainName (h m (hway.lift id fun _ _ hstep => hstep.2.1)) hmisread

/-- A process below the root process is seen there through what is seen as its parent. -/
theorem seenWithin_iff {root pid : ℤ} (h : pid ≠ root) :
    table.SeenWithin root pid ↔
      ∃ ppid, table.SeenParent pid ppid ∧ table.SeenWithin root ppid := by
  unfold SeenWithin
  rw [ReflTransGen.cases_head_iff, or_iff_right h]

/-- A process that is read right is seen where its parent is seen. -/
theorem ReadsRight.seenWithin_iff {root pid ppid : ℤ} (h : table.ReadsRight root pid ppid) :
    table.SeenWithin root pid ↔ table.SeenWithin root ppid := by
  obtain ⟨hne, hparent, hread⟩ := h
  have hseen : table.SeenParent pid ppid := (not_not.mp hread).trans hparent
  rw [ProcTable.seenWithin_iff hne]
  constructor
  · intro h
    obtain ⟨ppid', hseen', hwithin⟩ := h
    rwa [Option.some.inj (hseen.symm.trans hseen')]
  · exact fun hwithin => ⟨ppid, hseen, hwithin⟩

/-- What is seen of a process is what is seen of the first one that is misread. -/
theorem FirstMisread.seenWithin_iff {root pid m : ℤ} (h : table.FirstMisread root pid m) :
    table.SeenWithin root pid ↔
      ∃ ppid, table.SeenParent m ppid ∧ table.SeenWithin root ppid := by
  obtain ⟨hway, hne, -⟩ := h
  rw [← ProcTable.seenWithin_iff hne]
  induction hway using ReflTransGen.head_induction_on with
  | refl => rfl
  | head hstep _ ih => exact hstep.seenWithin_iff.trans ih

/-- Where nothing is misread, `trace_ctl` sees what there is. -/
theorem seenWithin_iff_within (hacyclic : table.Acyclic) {root pid : ℤ}
    (h : ∀ m, ¬table.FirstMisread root pid m) :
    table.SeenWithin root pid ↔ table.Within root pid := by
  induction pid using hacyclic.induction with
  | hstep pid ih =>
    by_cases hroot : pid = root
    · subst hroot
      exact iff_of_true .refl .refl
    · -- the first pid that would be misread lies higher up, so this one is read right
      have hread : ¬table.Misread pid := fun hmisread => h pid ⟨.refl, hroot, hmisread⟩
      unfold Within
      rw [ProcTable.seenWithin_iff hroot, ReflTransGen.cases_head_iff, or_iff_right hroot]
      have hparents : ∀ ppid, table.SeenParent pid ppid ↔ table.Parent pid ppid := by
        intro ppid
        unfold SeenParent Parent
        rw [not_not.mp hread]
      apply exists_congr
      intro ppid
      rw [hparents ppid]
      apply and_congr_right
      intro hparent
      apply ih ppid hparent
      intro m hfirst
      exact h m ⟨hfirst.1.head ⟨hroot, hparent, hread⟩, hfirst.2⟩

/-! ## Agreement -/

/-- Both programs have come to an end with `n` turns, the monitor with `b` and `trace_ctl`
    with `l`. -/
def Answer (table : ProcTable) (pid rootPid : ℤ) (n : ℕ) (b : Bool) (l : List ℤ) : Prop :=
  ∀ fuel, n ≤ fuel → table.isDescendantOrSelf fuel pid rootPid = some b ∧
    TraceCtl.descendantPids table fuel rootPid = some l

/-- Both programs come to an end, and they take `pid` to be in the tree or both do not. -/
def SameTree (table : ProcTable) (pid rootPid : ℤ) : Prop :=
  ∃ n b l, table.Answer pid rootPid n b l ∧ (b = true ↔ pid = rootPid ∨ pid ∈ l)

/-- In a table without cycles the monitor always answers. -/
theorem exists_answer (h : table.Acyclic) {rootPid : ℤ} (hroot : 0 < rootPid) (pid : ℤ) :
    ∃ n b l, table.Answer pid rootPid n b l := by
  obtain ⟨n, b, hclimb⟩ := exists_climb h rootPid pid
  obtain ⟨m, l, hcollect⟩ := TraceCtl.exists_descendantPids table rootPid
  refine ⟨max n m, b, l, fun fuel hfuel => ⟨?_, hcollect fuel (by omega)⟩⟩
  rw [isDescendantOrSelf, if_neg (not_le.mpr hroot)]
  exact hclimb fuel (by omega)

/-- The monitor finds a process below the root process unless process 1 is in between, and
    `trace_ctl` finds it where it sees it. -/
theorem Answer.agree_iff (hacyclic : table.Acyclic) {pid rootPid : ℤ} (hroot : 0 < rootPid)
    {n : ℕ} {b : Bool} {l : List ℤ} (h : table.Answer pid rootPid n b l) :
    (b = true ↔ pid = rootPid ∨ pid ∈ l) ↔
      (table.Within rootPid pid ∧ ¬(table.Within 1 pid ∧ table.Within rootPid 1) ↔
        table.SeenWithin rootPid pid) := by
  obtain ⟨hclimb, hcollect⟩ := h n le_rfl
  rw [isDescendantOrSelf, if_neg (not_le.mpr hroot)] at hclimb
  have hseen : pid = rootPid ∨ pid ∈ l ↔ table.SeenWithin rootPid pid := by
    rw [TraceCtl.mem_descendantPids hroot hcollect, SeenWithin, reflTransGen_iff_eq_or_transGen,
      eq_comm]
  rw [climb_eq_some hclimb, reflTransGen_climbs_iff hroot hacyclic, hseen]

/-- The two programs agree where both find the process or both do not. -/
theorem sameTree_iff_seenWithin (hacyclic : table.Acyclic) {rootPid : ℤ} (hroot : 0 < rootPid)
    (pid : ℤ) :
    table.SameTree pid rootPid ↔
      (table.Within rootPid pid ∧ ¬(table.Within 1 pid ∧ table.Within rootPid 1) ↔
        table.SeenWithin rootPid pid) := by
  constructor
  · intro hsame
    obtain ⟨n, b, l, h, hagree⟩ := hsame
    exact (h.agree_iff hacyclic hroot).mp hagree
  · -- both sides always have an answer, so agreement gives one
    intro hboth
    obtain ⟨n, b, l, h⟩ := exists_answer hacyclic hroot pid
    exact ⟨n, b, l, h, (h.agree_iff hacyclic hroot).mpr hboth⟩

/-- Both walks end.  When nothing is misread on the way from a process up to the root, they agree
    about it if and only if process 1 is not the root and not between the process and the root.
    When something is, they agree if and only if `trace_ctl`, which goes on from what it reads in
    the first such status, gets to the root in the same cases as the monitor. -/
theorem sameTree_iff (hacyclic : table.Acyclic) {rootPid : ℤ} (hroot : 0 < rootPid) (pid : ℤ) :
    (∃ n b l, table.Answer pid rootPid n b l) ∧
      ((∀ m, ¬table.FirstMisread rootPid pid m) →
        (table.SameTree pid rootPid ↔ ¬(table.Within 1 pid ∧ table.Within rootPid 1))) ∧
      ∀ m, table.FirstMisread rootPid pid m →
        (table.SameTree pid rootPid ↔
          (table.Within rootPid pid ∧ ¬(table.Within 1 pid ∧ table.Within rootPid 1) ↔
            ∃ ppid, table.SeenParent m ppid ∧ table.SeenWithin rootPid ppid)) := by
  refine ⟨exists_answer hacyclic hroot pid, fun hread => ?_, fun m hfirst => ?_⟩
  · -- nothing is misread: the two differ only in what the monitor does at pid 1
    rw [sameTree_iff_seenWithin hacyclic hroot, seenWithin_iff_within hacyclic hread]
    constructor
    · intro hiff hinit
      exact (hiff.mpr (hinit.1.trans hinit.2)).2 hinit
    · intro hinit
      exact ⟨And.left, fun hpid => ⟨hpid, hinit⟩⟩
  · -- from the first misread pid on the controller follows another parent
    rw [sameTree_iff_seenWithin hacyclic hroot, hfirst.seenWithin_iff]

/-! ## The server as process 1 -/

/-- A status with one line above the parent. -/
def shortStatus (line : String) (ppid : ℤ) (hline : ∀ c ∈ line.toList, c.toNat < 256)
    (hclean : '\n' ∉ line.toList ∧ line.toList.length < 255 ∧ ¬"PPid:".toList <+: line.toList)
    (hppid : 0 ≤ ppid ∧ ppid < 2 ^ 31) : ProcStatus where
  above := [line.toList]
  ppid := ppid
  below := "TracerPid:\t0\n".toList
  above_bytes := by simpa using hline
  above_clean := by simpa using hclean
  below_ascii := by decide
  ppid_nonneg := hppid.1
  ppid_lt := hppid.2

/-- A container whose process 1 is the server, with one worker.  The worker has a child that
    has taken a name with a carriage return, as if process 9 were its parent. -/
def containerTable : ProcTable where
  procs := ⟨[
    (1, shortStatus "Name:\tpython3" 0 (by decide) (by decide) (by decide)),
    (7, shortStatus "Name:\tpython3" 1 (by decide) (by decide) (by decide)),
    (8, shortStatus "Name:\ta\rPPid:\t9" 7 (by decide) (by decide) (by decide))], by decide⟩
  pos := by decide

/-- `trace_ctl` finds the worker, and the monitor does not find the server above it. -/
theorem not_sameTree_container : ¬containerTable.SameTree 7 1 := by
  intro h
  obtain ⟨n, b, l, h, hagree⟩ := h
  obtain ⟨hclimb, hcollect⟩ := h (n + 3) (by omega)
  have hb : containerTable.isDescendantOrSelf (n + 3) 7 1 = some false := rfl
  have hl : TraceCtl.descendantPids containerTable (n + 3) 1 = some [7] := rfl
  rw [hb] at hclimb
  rw [hl] at hcollect
  cases hclimb
  cases hcollect
  exact Bool.false_ne_true (hagree.mpr (.inr List.mem_cons_self))

/-- Parents have been there before their children. -/
theorem parent_lt_container (pid ppid : ℤ) (h : containerTable.Parent pid ppid) : pid > ppid := by
  have hentries : pid ∈ [1, 7, 8] := h.mem_keys
  have hcases : pid = 1 ∨ pid = 7 ∨ pid = 8 := by simpa using hentries
  obtain rfl | rfl | rfl := hcases
  · cases h
    decide
  · cases h
    decide
  · cases h
    decide

/-- The table of the container has no cycle. -/
theorem acyclic_container : containerTable.Acyclic := by
  intro pid hcycle
  have hless : TransGen (· > ·) pid pid := hcycle.lift id parent_lt_container
  rw [transGen_eq_self] at hless
  omega

/-- The child is the only one with an odd name. -/
theorem plainName_container {q : ℤ} (hq : q ≠ 8) :
    ∀ status ∈ containerTable.procs.get? q, status.PlainName := by
  have hname : (["Name:\tpython3".toList].map utf8) = ["Name:\tpython3".toList] :=
    congrArg (· :: []) (utf8_ascii (by decide))
  intro status hstatus
  -- the table has three processes, and 8 is the one excluded
  have hentries : q ∈ [1, 7, 8] := Dict.isSome_get?_iff.mp (Option.isSome_of_eq_some hstatus)
  have hcases : q = 1 ∨ q = 7 ∨ q = 8 := by simpa using hentries
  obtain rfl | rfl | rfl := hcases
  · cases hstatus
    exact ⟨_, hname.symm, by decide⟩
  · cases hstatus
    exact ⟨_, hname.symm, by decide⟩
  · exact absurd rfl hq

/-- Process 1 is not below the worker. -/
theorem not_within_container : ¬containerTable.Within 7 1 := by
  intro h
  obtain h | ⟨ppid, hparent, hrest⟩ := h.cases_head
  · exact absurd h (by decide)
  · cases hparent
    obtain h | ⟨ppid, hparent, -⟩ := hrest.cases_head
    · exact absurd h (by decide)
    · cases hparent

/-- The programs agree that the worker is in its own tree, and they disagree about its child. -/
theorem sameTree_iff_container :
    (∃ n b l, containerTable.Answer 7 7 n b l) ∧ containerTable.SameTree 7 7 ∧
      ¬containerTable.SameTree 8 7 := by
  refine ⟨(sameTree_iff acyclic_container (by decide) 7).1, ?_, ?_⟩
  · rw [(sameTree_iff acyclic_container (by decide) 7).2.1]
    · exact fun hinit => not_within_container hinit.2
    · intro m
      apply not_firstMisread_of_plainName
      intro q hq
      apply plainName_container
      rintro rfl
      obtain h | hup := reflTransGen_iff_eq_or_transGen.mp hq
      · exact absurd h (by decide)
      · have hless : TransGen (· > ·) (7 : ℤ) 8 := hup.lift id parent_lt_container
        rw [transGen_eq_self] at hless
        omega
  · have hseen : containerTable.SeenParent 8 9 := by
      show (containerTable.procs.get? 8).bind ProcStatus.seenPpid = some 9
      decide +kernel
    have hparent : containerTable.Parent 8 7 := rfl
    rw [(sameTree_iff acyclic_container (by decide) 8).2.2 8 ⟨.refl, by decide, ?_⟩]
    · intro hiff
      obtain ⟨ppid, hppid, hwithin⟩ := hiff.mp ⟨.single hparent, fun hinit =>
        not_within_container hinit.2⟩
      -- there is no process 9
      cases hseen.symm.trans hppid
      obtain h | ⟨ppid, hparent, -⟩ := hwithin.cases_head
      · exact absurd h (by decide)
      · cases hparent
    · unfold Misread
      rw [hseen]
      decide

end ProcTable

end DeLatency
