import DeLatency.ForStd.ListExtra
import DeLatency.Patch.Runtime

/-!
# The lock of the gate after a fork

A thread holds the lock exactly while it is inside a `with _lock` (`LockInv`).  The hook
after a fork leaves the lock as it was, and the thread that would release it is not in the
child: the child can use the gate if and only if no thread was inside at the fork
(`usable_iff`, `gateUsable_iff`).  Otherwise its first `is_enabled` waits for ever
(`isEnabled_blocked`).
-/

namespace DeLatency

/-! ## Locked sections -/

/-- Operations that stand under the lock. -/
def PatchOp.locked : PatchOp → Bool
  | .refreshProcessIdentity => false
  | .startIfNeeded => false
  | .readSocketPath => false
  | _ => true

/-- The code of a thread that is inside a locked section or outside, with its locks and releases
    in turn and every operation on its side. -/
def balanced : Bool → List PatchOp → Bool
  | inside, [] => !inside
  | inside, .acquire :: rest => !inside && balanced true rest
  | inside, .release :: rest => inside && balanced false rest
  | inside, op :: rest => (op.locked == inside) && balanced inside rest

/-- An operation that has nothing to do with the lock stays on its side. -/
theorem balanced_cons {inside : Bool} {op : PatchOp} {rest : List PatchOp}
    (hacquire : op ≠ .acquire) (hrelease : op ≠ .release)
    (h : balanced inside (op :: rest) = true) :
    op.locked = inside ∧ balanced inside rest = true := by
  have hcons : balanced inside (op :: rest) = ((op.locked == inside) && balanced inside rest) := by
    cases op <;> first | rfl | contradiction
  rw [hcons, Bool.and_eq_true, beq_iff_eq] at h
  exact h

/-- The next thing that a thread does with the lock is to release it. -/
def InsideLock (code : List PatchOp) : Prop :=
  (code.find? fun op => op = .acquire ∨ op = .release) = some .release

instance (code : List PatchOp) : Decidable (InsideLock code) :=
  inferInstanceAs (Decidable (_ = _))

/-- Balanced code is inside the lock exactly when it started there. -/
theorem insideLock_iff {inside : Bool} {code : List PatchOp} (h : balanced inside code = true) :
    InsideLock code ↔ inside = true := by
  unfold InsideLock
  induction code with
  | nil => cases inside <;> simp_all [balanced]
  | cons op rest ih =>
    cases op <;> cases inside <;> simp_all [balanced, PatchOp.locked]

/-- Balanced parts make balanced code. -/
theorem balanced_append {inside : Bool} {code code' : List PatchOp}
    (h : balanced inside code = true) (h' : balanced false code' = true) :
    balanced inside (code ++ code') = true := by
  induction code generalizing inside with
  | nil => cases inside <;> simp_all [balanced]
  | cons op rest ih =>
    cases op <;> cases inside <;> simp_all [balanced, PatchOp.locked]

/-- The code of every call is balanced. -/
theorem balanced_code (c : PatchCall) : balanced false c.code = true := by
  cases c with
  | isEnabled => rfl
  | getSocketPath => rfl
  | getStatus => rfl
  | setEnabled enabled => rfl
  | handleCommand command =>
    show balanced false (handleCommand command) = true
    -- each command of the socket runs one of the balanced pieces
    unfold handleCommand
    dsimp only
    split
    · rfl
    split
    · rfl
    split
    · rfl
    · rfl
  | startControlServer => rfl
  | stopControlServer => rfl

namespace PatchRuntime

variable {ι : Type} [DecidableEq ι] {s : PatchRuntime ι} {t : ι}

/-! ## What a thread can do in a step -/

/-- A thread that is given code has it. -/
theorem code_setCode (s : PatchRuntime ι) (t : ι) (code : List PatchOp) :
    (s.setCode t code).code t = code := by
  unfold setCode
  exact Function.update_self ..

/-- The other threads keep theirs. -/
theorem code_setCode_of_ne (s : PatchRuntime ι) {t u : ι} (h : u ≠ t) (code : List PatchOp) :
    (s.setCode t code).code u = s.code u := by
  unfold setCode
  exact Function.update_of_ne h ..

/-- The variables that the operations work on do not include the lock. -/
theorem lock_perform (s : PatchRuntime ι) (t : ι) (bindOk : Bool) (op : PatchOp) :
    (s.perform t bindOk op).lock = s.lock := by
  cases op <;> simp only [perform] <;> repeat' split
  all_goals rfl

/-- An operation changes no thread's code. -/
theorem code_perform (s : PatchRuntime ι) (t : ι) (bindOk : Bool) (op : PatchOp) :
    (s.perform t bindOk op).code = s.code := by
  cases op <;> simp only [perform] <;> repeat' split
  all_goals rfl

/-- A step of a thread with balanced code: it waits for the lock, takes it, releases it, or does
    something else on its side. -/
inductive RunResult (s : PatchRuntime ι) (t : ι) (inside : Bool) (s' : PatchRuntime ι) : Prop
  | idle : s' = s → RunResult s t inside s'
  | acquires : inside = false → s.lock = none → s'.lock = some t →
      balanced true (s'.code t) = true → RunResult s t inside s'
  | releases : inside = true → s'.lock = none → balanced false (s'.code t) = true →
      RunResult s t inside s'
  | moves : s'.lock = s.lock → balanced inside (s'.code t) = true →
      (.acquire ∈ s.code t → .acquire ∈ s'.code t) → RunResult s t inside s'

/-- An operation that has nothing to do with the lock. -/
theorem runResult_moves {inside : Bool} {s' : PatchRuntime ι} {code : List PatchOp}
    (hlock : s'.lock = s.lock) (hcode : s'.code = s.code) (hbalanced : balanced inside code = true)
    (hacquire : .acquire ∈ s.code t → .acquire ∈ code) :
    RunResult s t inside (s'.setCode t code) ∧
      ∀ u, u ≠ t → (s'.setCode t code).code u = s.code u := by
  constructor
  · refine .moves hlock ?_ ?_
    · rw [code_setCode]
      exact hbalanced
    · rw [code_setCode]
      exact hacquire
  · intro u hu
    rw [code_setCode_of_ne s' hu, hcode]

/-- One operation of a thread: what becomes of its code, the lock and the others. -/
theorem runThread_result {inside : Bool} (h : balanced inside (s.code t) = true)
    (bindOk : Bool) :
    RunResult s t inside (s.runThread t bindOk) ∧
      ∀ u, u ≠ t → (s.runThread t bindOk).code u = s.code u := by
  -- an operation whose calls have to be made first
  have hcalls : ∀ op rest (calls : List PatchOp), s.code t = op :: rest → op ≠ .acquire →
      op ≠ .release → op.locked = false → balanced false calls = true →
      RunResult s t inside (s.setCode t (calls ++ rest)) ∧
        ∀ u, u ≠ t → (s.setCode t (calls ++ rest)).code u = s.code u := by
    intro op rest calls hcode hacquire hrelease hop hcalls
    rw [hcode] at h
    obtain ⟨hside, hrest⟩ := balanced_cons hacquire hrelease h
    obtain rfl : inside = false := hside.symm.trans hop
    apply runResult_moves rfl rfl (balanced_append hcalls hrest)
    intro hmem
    rw [hcode] at hmem
    exact List.mem_append_right _ (List.mem_of_ne_of_mem hacquire.symm hmem)
  unfold runThread
  split
  · exact ⟨.idle rfl, fun _ _ => rfl⟩
  · -- the lock
    next rest hcode =>
    rw [hcode, balanced, Bool.and_eq_true, Bool.not_eq_true'] at h
    split
    · next hfree =>
      refine ⟨.acquires h.1 hfree rfl ?_, fun u hu => code_setCode_of_ne _ hu rest⟩
      rw [code_setCode]
      exact h.2
    · exact ⟨.idle rfl, fun _ _ => rfl⟩
  · next rest hcode =>
    rw [hcode, balanced, Bool.and_eq_true] at h
    refine ⟨.releases h.1 rfl ?_, fun u hu => code_setCode_of_ne _ hu rest⟩
    rw [code_setCode]
    exact h.2
  · -- a call for the identity, and one for the server
    next rest hcode =>
    split
    · exact hcalls _ rest [] hcode (by decide) (by decide) rfl rfl
    · exact hcalls _ rest _ hcode (by decide) (by decide) rfl rfl
  · next rest hcode =>
    split
    · exact hcalls _ rest _ hcode (by decide) (by decide) rfl rfl
    · exact hcalls _ rest [] hcode (by decide) (by decide) rfl rfl
  · next op rest hacquire hrelease _ _ hcode =>
    rw [hcode] at h
    have hrest := (balanced_cons hacquire hrelease h).2
    apply runResult_moves (lock_perform ..) (code_perform ..) hrest
    intro hmem
    rw [hcode] at hmem
    exact List.mem_of_ne_of_mem (Ne.symm hacquire) hmem

/-! ## Who holds the lock -/

/-- The threads inside a locked section are those that hold the lock. -/
def LockInv (s : PatchRuntime ι) : Prop := ∀ t, balanced (s.lock = some t) (s.code t) = true

/-- Under the invariant the thread inside is the holder of the lock. -/
theorem LockInv.insideLock_iff (h : s.LockInv) (t : ι) :
    InsideLock (s.code t) ↔ s.lock = some t := by
  rw [DeLatency.insideLock_iff (h t), decide_eq_true_eq]

/-- A call keeps the invariant. -/
theorem LockInv.call (h : s.LockInv) (t : ι) (c : PatchCall) : (s.call t c).LockInv := by
  intro u
  have hu := h u
  unfold PatchRuntime.call
  split
  · next hidle =>
    by_cases hut : u = t
    · subst hut
      rw [code_setCode]
      -- a thread that is outside does not hold the lock
      rw [hidle, balanced, Bool.not_eq_true', decide_eq_false_iff_not] at hu
      have hfree : decide ((s.setCode u c.code).lock = some u) = false := decide_eq_false hu
      rw [hfree]
      exact balanced_code c
    · rw [code_setCode_of_ne s hut]
      exact hu
  · exact hu

/-- An operation of a thread keeps the invariant. -/
theorem LockInv.runThread (h : s.LockInv) (t : ι) (bindOk : Bool) :
    (s.runThread t bindOk).LockInv := by
  obtain ⟨hresult, hframe⟩ := runThread_result (h t) bindOk
  intro u
  have hu := h u
  -- only the thread itself takes or gives back its lock
  by_cases hut : u = t
  · subst hut
    cases hresult with
    | idle heq =>
      rw [heq]
      exact hu
    | acquires _ _ hlock hcode =>
      rw [hlock, decide_eq_true rfl]
      exact hcode
    | releases _ hlock hcode =>
      rw [hlock, decide_eq_false (by simp)]
      exact hcode
    | moves hlock hcode _ =>
      rw [hlock]
      exact hcode
  · rw [hframe u hut]
    cases hresult with
    | idle heq =>
      rw [heq]
      exact hu
    | acquires _ hfree hlock _ =>
      rw [hfree, decide_eq_false (by simp)] at hu
      rw [hlock, decide_eq_false (by simpa using Ne.symm hut)]
      exact hu
    | releases hinside hlock _ =>
      rw [decide_eq_true_eq] at hinside
      rw [hinside, decide_eq_false (by simpa using Ne.symm hut)] at hu
      rw [hlock, decide_eq_false (by simp)]
      exact hu
    | moves hlock _ _ =>
      rw [hlock]
      exact hu

/-! ## Forks -/

/-- The child inherits the lock as it is. -/
theorem lock_forkChild (s : PatchRuntime ι) (t : ι) (childPid : ℕ) :
    (s.forkChild t childPid).lock = s.lock := rfl

/-- The child runs none of the other threads' code. -/
theorem code_forkChild (hidle : s.code t = []) (childPid : ℕ) (u : ι) :
    (s.forkChild t childPid).code u = [] := by
  show (if u = t then s.code u else []) = []
  split
  · next hut => rw [hut, hidle]
  · rfl

/-- All threads of a child are outside, so nobody holds its lock but a thread that is gone. -/
theorem lockInv_forkChild_iff (hidle : s.code t = []) (childPid : ℕ) :
    (s.forkChild t childPid).LockInv ↔ (s.forkChild t childPid).lock = none := by
  unfold LockInv
  constructor
  · intro h
    rw [Option.eq_none_iff_forall_ne_some]
    intro u hu
    have hfree := h u
    -- the child's threads run no patch code, so a lock that is taken belongs to nobody there
    rw [code_forkChild hidle, balanced, Bool.not_eq_true', decide_eq_false_iff_not] at hfree
    exact hfree hu
  · -- a free lock is right for threads that are outside the patch code
    intro hlock u
    rw [code_forkChild hidle, hlock, balanced]
    simp

/-- The lock is free after a fork exactly when no thread was inside. -/
theorem LockInv.lock_forkChild_iff (h : s.LockInv) (t : ι) (childPid : ℕ) :
    (s.forkChild t childPid).lock = none ↔ ∀ u, ¬InsideLock (s.code u) := by
  rw [lock_forkChild, Option.eq_none_iff_forall_ne_some]
  exact forall_congr' fun u => not_congr (h.insideLock_iff u).symm

/-! ## The first `is_enabled` of a child -/

/-- Steps of one thread. -/
def runAlone (s : PatchRuntime ι) (t : ι) (bindOk : Bool) (n : ℕ) : PatchRuntime ι :=
  (fun s => s.runThread t bindOk)^[n] s

/-- The lock is free, and a call of `is_enabled` returns whether the patches are enabled. -/
def Usable (s : PatchRuntime ι) (t : ι) : Prop :=
  s.lock = none ∧ ∀ bindOk, ∃ n, ((s.call t .isEnabled).runAlone t bindOk n).code t = [] ∧
    ((s.call t .isEnabled).runAlone t bindOk n).result t = some (.enabled s.enabled)

/-- With the lock free, asking whether tracing is on returns. -/
theorem isEnabled_returns (hidle : s.code t = []) (hpid : s.pid = s.processPid)
    (hlock : s.lock = none) (bindOk : Bool) :
    ∃ n, ((s.call t .isEnabled).runAlone t bindOk n).code t = [] ∧
      ((s.call t .isEnabled).runAlone t bindOk n).result t = some (.enabled s.enabled) := by
  obtain ⟨pid, controlDir, processPid, socketPath, lock, hasServerSocket, hasServerThread,
    serverStarted, serverStartFailedPid, stopEvent, enabled, generation, code, result⟩ := s
  dsimp only at hidle hpid hlock
  subst hpid hlock
  by_cases hstart : serverStarted = false ∧ serverStartFailedPid ≠ pid
  · -- the call starts a server, or tries to, and then reads
    refine ⟨9, ?_⟩
    obtain ⟨rfl, hfailed⟩ := hstart
    cases bindOk <;>
      simp [runAlone, call, hidle, setCode, PatchCall.code, isEnabled, withLock,
        Function.iterate_succ_apply, runThread, hfailed, startControlServer, perform, setResult]
  · refine ⟨5, ?_⟩
    simp [runAlone, call, hidle, setCode, PatchCall.code, isEnabled, withLock,
      Function.iterate_succ_apply, runThread, hstart, perform, setResult]

/-- A child can use the gate exactly when it finds the lock free. -/
theorem usable_iff (hidle : s.code t = []) (childPid : ℕ) :
    (s.forkChild t childPid).Usable t ↔ (s.forkChild t childPid).lock = none := by
  constructor
  · exact And.left
  · intro hlock
    exact ⟨hlock, isEnabled_returns (code_forkChild hidle childPid t) rfl hlock⟩

/-- The lock is held, by no thread of the process. -/
structure Orphaned (s : PatchRuntime ι) : Prop where
  held : s.lock ≠ none
  outside : ∀ u, balanced false (s.code u) = true

/-- A lock without a holder stays so over a call. -/
theorem Orphaned.call (h : s.Orphaned) (t : ι) (c : PatchCall) : (s.call t c).Orphaned := by
  unfold PatchRuntime.call
  split
  · refine ⟨h.held, fun u => ?_⟩
    by_cases hut : u = t
    · subst hut
      rw [code_setCode]
      exact balanced_code c
    · rw [code_setCode_of_ne s hut]
      exact h.outside u
  · exact h

/-- No thread gets past an `acquire`. -/
theorem Orphaned.runThread (h : s.Orphaned) (t : ι) (bindOk : Bool) :
    (s.runThread t bindOk).Orphaned ∧
      ∀ u, .acquire ∈ s.code u → .acquire ∈ (s.runThread t bindOk).code u := by
  obtain ⟨hresult, hframe⟩ := runThread_result (h.outside t) bindOk
  have hother : ∀ u, u ≠ t → balanced false ((s.runThread t bindOk).code u) = true :=
    fun u hu => by rw [hframe u hu]; exact h.outside u
  cases hresult with
  | idle heq =>
    rw [heq]
    exact ⟨h, fun _ => id⟩
  -- the lock is held by a thread that does not exist, so no thread takes or releases it
  | acquires _ hfree => exact absurd hfree h.held
  | releases hinside => exact absurd hinside Bool.false_ne_true
  | moves hlock hcode hacquire =>
    refine ⟨⟨by rw [hlock]; exact h.held, fun u => ?_⟩, fun u => ?_⟩
    · -- only the thread that ran has other code
      by_cases hut : u = t
      · rw [hut]
        exact hcode
      · exact hother u hut
    · by_cases hut : u = t
      · rw [hut]
        exact hacquire
      · rw [hframe u hut]
        exact id

/-- Steps within one process. -/
def IsLocal : PatchEvent ι → Prop
  | .fork _ _ => False
  | _ => True

/-- In a child that finds the lock held the first `is_enabled` never returns, whatever its threads
    do. -/
theorem isEnabled_blocked (hidle : s.code t = []) (childPid : ℕ)
    (hheld : (s.forkChild t childPid).lock ≠ none) {events : List (PatchEvent ι)}
    (hlocal : ∀ e ∈ events, IsLocal e) :
    (events.foldl step ((s.forkChild t childPid).call t .isEnabled)).code t ≠ [] := by
  have horphaned : (s.forkChild t childPid).Orphaned :=
    ⟨hheld, fun u => by rw [code_forkChild hidle]; rfl⟩
  have hwaits : .acquire ∈ ((s.forkChild t childPid).call t .isEnabled).code t := by
    rw [PatchRuntime.call, if_pos (code_forkChild hidle childPid t), code_setCode]
    decide
  have hstart := horphaned.call t .isEnabled
  generalize (s.forkChild t childPid).call t .isEnabled = s' at hstart hwaits
  induction events generalizing s' with
  | nil =>
    rw [List.foldl_nil]
    exact List.ne_nil_of_mem hwaits
  | cons e events ih =>
    obtain ⟨he, hrest⟩ := List.forall_mem_cons.mp hlocal
    rw [List.foldl_cons]
    cases e with
    | call u c =>
      apply ih hrest _ (hstart.call u c)
      -- the thread is in a call already
      show .acquire ∈ (s'.call u c).code t
      unfold PatchRuntime.call
      split
      · next hidle' =>
        have hut : t ≠ u := by
          intro h
          subst h
          rw [hidle'] at hwaits
          cases hwaits
        rw [code_setCode_of_ne s' hut]
        exact hwaits
      · exact hwaits
    | run u bindOk =>
      obtain ⟨hstays, hbefore⟩ := hstart.runThread u bindOk
      exact ih hrest _ hstays (hbefore t hwaits)
    | fork u childPid => exact he.elim

/-! ## Lines of processes -/

variable {pid : ℕ} {controlDir : String} {startEnabled : Bool}

/-- One more event. -/
theorem run_concat (events : List (PatchEvent ι)) (e : PatchEvent ι) :
    run pid controlDir startEnabled (events ++ [e]) =
      (run pid controlDir startEnabled events).step e := by
  rw [run, run, List.foldl_append]
  rfl

/-- At a fork no thread is inside a locked section. -/
def ForksOutside (s : PatchRuntime ι) : PatchEvent ι → Prop
  | .fork t _ => s.code t = [] → ∀ u, ¬InsideLock (s.code u)
  | _ => True

/-- After a fork the child finds the lock free. -/
def ForksFree (s : PatchRuntime ι) : PatchEvent ι → Prop
  | .fork t childPid => s.code t = [] → (s.forkChild t childPid).lock = none
  | _ => True

/-- An event keeps the invariant exactly when it forks with the lock free. -/
theorem LockInv.step_iff (h : s.LockInv) (e : PatchEvent ι) :
    (s.step e).LockInv ↔ s.ForksFree e := by
  cases e with
  | call t c => exact iff_of_true (h.call t c) trivial
  | run t bindOk => exact iff_of_true (h.runThread t bindOk) trivial
  -- the only event that can break the invariant, and only from a thread that is idle
  | fork t childPid =>
    show (if s.code t = [] then s.forkChild t childPid else s).LockInv ↔ (s.code t = [] → _)
    by_cases hidle : s.code t = []
    · rw [if_pos hidle, lockInv_forkChild_iff hidle]
      exact ⟨fun hlock _ => hlock, fun hlock => hlock hidle⟩
    · rw [if_neg hidle]
      exact iff_of_true h fun hidle' => absurd hidle' hidle

/-- Under the invariant the lock is free at a fork exactly when no other thread is inside. -/
theorem LockInv.forksFree_iff (h : s.LockInv) (e : PatchEvent ι) :
    s.ForksFree e ↔ s.ForksOutside e := by
  cases e with
  | call => exact Iff.rfl
  | run => exact Iff.rfl
  | fork t childPid => exact imp_congr_right fun _ => h.lock_forkChild_iff t childPid

/-- As long as no fork comes at a bad time, holding the lock and being inside are the same. -/
theorem forksFree_iff_forksOutside (pid : ℕ) (controlDir : String) (startEnabled : Bool)
    (events : List (PatchEvent ι)) :
    (∀ pre e, pre ++ [e] <+: events → (run pid controlDir startEnabled pre).ForksFree e) ↔
      ∀ pre e, pre ++ [e] <+: events → (run pid controlDir startEnabled pre).ForksOutside e := by
  have hnil : (run pid controlDir startEnabled ([] : List (PatchEvent ι))).LockInv :=
    fun t => rfl
  -- both conditions say that the invariant holds after every prefix
  have hfree : (∀ pre, pre <+: events → (run pid controlDir startEnabled pre).LockInv) ↔
      ∀ pre e, pre ++ [e] <+: events → (run pid controlDir startEnabled pre).ForksFree e :=
    List.forall_prefix_iff hnil fun pre e _ h => by
      rw [run_concat]
      exact h.step_iff e
  have houtside : (∀ pre, pre <+: events → (run pid controlDir startEnabled pre).LockInv) ↔
      ∀ pre e, pre ++ [e] <+: events → (run pid controlDir startEnabled pre).ForksOutside e :=
    List.forall_prefix_iff hnil fun pre e _ h => by
      rw [run_concat]
      exact (h.step_iff e).trans (h.forksFree_iff e)
  exact hfree.symm.trans houtside

end PatchRuntime

open PatchRuntime

variable {ι : Type} [DecidableEq ι]

/-- Along a line of processes every child can use the gate if and only if at no fork another
    thread is inside a locked section. -/
theorem gateUsable_iff (pid : ℕ) (controlDir : String) (startEnabled : Bool)
    (events : List (PatchEvent ι)) :
    (∀ pre t childPid, pre ++ [.fork t childPid] <+: events →
        (run pid controlDir startEnabled pre).code t = [] →
        (run pid controlDir startEnabled (pre ++ [.fork t childPid])).Usable t) ↔
      ∀ pre t childPid, pre ++ [.fork t childPid] <+: events →
        (run pid controlDir startEnabled pre).code t = [] →
        ∀ u, u ≠ t → ¬InsideLock ((run pid controlDir startEnabled pre).code u) := by
  have hchild : ∀ (pre : List (PatchEvent ι)) t childPid,
      (run pid controlDir startEnabled pre).code t = [] →
      ((run pid controlDir startEnabled (pre ++ [.fork t childPid])).Usable t ↔
        ((run pid controlDir startEnabled pre).forkChild t childPid).lock = none) := by
    intro pre t childPid hidle
    rw [run_concat, step, if_pos hidle]
    exact usable_iff hidle childPid
  -- the forking thread itself is outside
  have hself : ∀ (s : PatchRuntime ι) (t : ι), s.code t = [] →
      ((∀ u, u ≠ t → ¬InsideLock (s.code u)) ↔ ∀ u, ¬InsideLock (s.code u)) := by
    intro s t hidle
    constructor
    · intro h u
      by_cases hut : u = t
      · rw [hut, hidle]
        decide
      · exact h u hut
    · intro h u _
      exact h u
  have hforks := forksFree_iff_forksOutside pid controlDir startEnabled events
  constructor
  · intro h pre t childPid hpre hidle
    rw [hself _ t hidle]
    refine hforks.mp ?_ pre (.fork t childPid) hpre hidle
    intro pre e hpre
    cases e with
    | call => trivial
    | run => trivial
    | fork t childPid => exact fun hidle => (hchild pre t childPid hidle).mp (h pre t _ hpre hidle)
  · intro h pre t childPid hpre hidle
    rw [hchild pre t childPid hidle]
    refine hforks.mpr ?_ pre (.fork t childPid) hpre hidle
    intro pre e hpre
    cases e with
    | call => trivial
    | run => trivial
    | fork t childPid => exact fun hidle => (hself _ t hidle).mp (h pre t childPid hpre hidle)

/-! ## A fork during a `status` command -/

/-- What the main thread 0 and the control thread 1 do before the fork: the main thread asks the
    gate, which starts the server, and the control thread answers a `status` command and has just
    taken the lock. -/
def statusBeforeFork : List (PatchEvent ℕ) :=
  .call 0 .isEnabled :: List.replicate 9 (.run 0 true) ++
    [.call 1 .getStatus, .run 1 true, .run 1 true]

def forkDuringStatus : List (PatchEvent ℕ) := statusBeforeFork ++ [.fork 0 200]

/-- A fork while another thread asks for the status: the child cannot use the gate. -/
theorem not_usable_forkDuringStatus :
    ¬∀ pre t childPid, pre ++ [.fork t childPid] <+: forkDuringStatus →
      (run 100 "/tmp" true pre).code t = [] →
      (run 100 "/tmp" true (pre ++ [.fork t childPid])).Usable t := by
  intro h
  have husable := h statusBeforeFork 0 200 (List.prefix_refl _) (by decide)
  have hheld : (run 100 "/tmp" true (statusBeforeFork ++ [.fork 0 200])).lock = some 1 := by
    decide
  rw [husable.1] at hheld
  cases hheld

end DeLatency
