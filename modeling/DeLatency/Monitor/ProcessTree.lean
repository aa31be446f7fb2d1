import DeLatency.ForStd.CText
import DeLatency.ForStd.Dict

/-!
# The process tree as the monitor sees it

The monitor and `trace_ctl` both learn from `/proc/<pid>/status` who the parent of a process
is.  The monitor climbs from a process towards the root process.

A process table does not change while it is read.  The kernel is not part of the
repository: a status is some lines, the line with the parent, and more text.  Each character
stands for a byte.  The name of a process is above the parent.  A process can give itself any
name, and the kernel escapes nothing but newlines and backslashes in it: a name can have
carriage returns, and it need not be UTF-8.
-/

namespace DeLatency

open CText

/-- The status of a process.  The lines above the one with the parent fit into the monitor's
    buffer and do not start like it.  Below it there are only numbers and flags. -/
structure ProcStatus where
  above : List (List Char)
  ppid : ℤ
  below : List Char
  above_bytes : ∀ line ∈ above, ∀ c ∈ line, c.toNat < 256
  above_clean : ∀ line ∈ above, '\n' ∉ line ∧ line.length < 255 ∧ ¬"PPid:".toList <+: line
  below_ascii : ∀ c ∈ below, c.toNat < 128
  ppid_nonneg : 0 ≤ ppid
  ppid_lt : ppid < 2 ^ 31

namespace ProcStatus

/-- The text above the line with the parent. -/
def aboveText (status : ProcStatus) : List Char :=
  status.above.flatMap fun line => line ++ ['\n']

def ppidLine (status : ProcStatus) : List Char := "PPid:\t".toList ++ decimal status.ppid

/-- The text of the file. -/
def text (status : ProcStatus) : List Char :=
  status.aboveText ++ status.ppidLine ++ '\n' :: status.below

end ProcStatus

/-- The processes under `/proc`, in the order in which the directory lists them. -/
structure ProcTable where
  procs : Dict ℤ ProcStatus
  pos : ∀ pid ∈ procs.keys, 0 < pid

/-- `sscanf(line, "PPid:\t%d", &ppid)`. -/
def scanPpid (line : List Char) : Option ℤ :=
  if "PPid:".toList.isPrefixOf line then scanInt (line.drop "PPid:".toList.length) else none

namespace ProcTable

/-- `read_ppid` of the monitor, which reads into a buffer of 256 bytes. -/
def readPpid (table : ProcTable) (pid : ℤ) : Option ℤ :=
  if pid ≤ 0 then none
  else (table.procs.get? pid).bind fun status =>
    (fgetsLines 255 status.text).findSome? scanPpid

/-- The loop of `is_descendant_or_self`.  Without fuel there is no answer. -/
def climb (table : ProcTable) (rootPid : ℤ) : ℕ → ℤ → Option Bool
  | 0, _ => none
  | fuel + 1, cur =>
    if 1 < cur then
      if cur = rootPid then some true
      else
        -- a process whose status cannot be read ends the climb
        match table.readPpid cur with
        | none => some false
        | some ppid => table.climb rootPid fuel ppid
    else some false

/-- `is_descendant_or_self`. -/
def isDescendantOrSelf (table : ProcTable) (fuel : ℕ) (pid rootPid : ℤ) : Option Bool :=
  if rootPid ≤ 0 then some true else table.climb rootPid fuel pid

end ProcTable

end DeLatency
