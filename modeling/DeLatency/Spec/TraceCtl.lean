import DeLatency.Control.TraceCtl
import Mathlib.Data.Finset.Card
import Mathlib.Data.List.Induction

/-!
# Monitors and the state file

A monitor that is alive should be the one the state file names.  An invocation that has
started a monitor names it when it saves the file, so it can only get lost when another
invocation saves the file after that.  These lost updates are the only way to an orphan
(`noOrphan_iff`).
-/

namespace DeLatency

/-- The invocation that makes the step. -/
def CtlStep.owner {ι : Type*} : CtlStep ι → Option ι
  | .loadState i => some i
  | .checkAlive i => some i
  | .spawn i _ => some i
  | .kill i _ => some i
  | .saveState i => some i
  | .exit _ => none
  | .appear _ => none

namespace CtlWorld

/-- At most one monitor is alive, and it is the one the state file names. -/
def NoOrphan {ι : Type*} (w : CtlWorld ι) : Prop :=
  w.monitors.card ≤ 1 ∧ ∀ m ∈ w.monitors, w.stateFile.ebpfPid = m

instance {ι : Type*} (w : CtlWorld ι) : Decidable w.NoOrphan :=
  inferInstanceAs (Decidable (_ ∧ _))

/-- If the file names every live monitor, none is an orphan. -/
theorem noOrphan_of_forall {ι : Type*} {w : CtlWorld ι}
    (h : ∀ m ∈ w.monitors, w.stateFile.ebpfPid = m) : w.NoOrphan := by
  refine ⟨Finset.card_le_one.mpr fun m hm m' hm' => ?_, h⟩
  rw [← h m hm, ← h m' hm']

/-- An invocation is about to save the file with `m` in it. -/
def Pending {ι : Type*} (w : CtlWorld ι) (m : ℤ) : Prop :=
  ∃ i state, w.phase i = .saving state ∧ state.ebpfPid = m

variable {ι : Type*} [DecidableEq ι] {command : ι → CtlCommand} {w w' : CtlWorld ι}
  {s : CtlStep ι} {m : ℤ}

/-! ## What a step can do -/

/-- The effect of each kind of step. -/
inductive Effect (command : ι → CtlCommand) (w : CtlWorld ι) : CtlStep ι → CtlWorld ι → Prop
  | loaded (i : ι) : w.phase i = .ready →
      Effect command w (.loadState i) (w.setPhase i (.loaded w.stateFile))
  | checkedOn (i : ι) (state : ControlState) : command i = .on → w.phase i = .loaded state →
      Effect command w (.checkAlive i) (w.setPhase i (w.startEbpf state))
  | checkedOff (i : ι) (state : ControlState) : command i = .off → w.phase i = .loaded state →
      Effect command w (.checkAlive i) (w.setPhase i (w.stopEbpf state))
  | notSpawned (i : ι) (state : ControlState) (outcome : SpawnOutcome) :
      w.phase i = .spawning state →
      Effect command w (.spawn i outcome) (w.setPhase i .finished)
  | spawned (i : ι) (state : ControlState) (pid : ℤ) :
      w.phase i = .spawning state → 0 < pid → pid ∉ w.alive →
      Effect command w (.spawn i (.runs pid))
        ({ w with
            alive := insert pid w.alive
            monitors := insert pid w.monitors }.setPhase i (.saving { state with ebpfPid := pid }))
  | notKilled (i : ι) (state : ControlState) (permitted : Bool) : w.phase i = .killing state →
      Effect command w (.kill i permitted) (w.setPhase i .finished)
  | killed (i : ι) (state : ControlState) (permitted : Bool) : w.phase i = .killing state →
      Effect command w (.kill i permitted)
        ((w.remove state.ebpfPid).setPhase i (.saving { state with ebpfPid := 0 }))
  | saved (i : ι) (state : ControlState) : w.phase i = .saving state →
      Effect command w (.saveState i) ({ w with stateFile := state }.setPhase i .finished)
  | exited (pid : ℤ) : Effect command w (.exit pid) (w.remove pid)
  | appeared (pid : ℤ) : Effect command w (.appear pid) { w with alive := insert pid w.alive }

/-- What a step of either command does to the file and the monitors. -/
theorem effect_of_step (h : w.step command s = some w') : Effect command w s w' := by
  cases s with
  | loadState i =>
    simp only [step] at h
    split at h <;> cases h
    next hi => exact .loaded i hi
  | checkAlive i =>
    simp only [step] at h
    split at h
    · next state hi =>
      split at h <;> cases h
      · next hcommand => exact .checkedOn i state hcommand hi
      · next hcommand => exact .checkedOff i state hcommand hi
    · cases h
  | spawn i outcome =>
    simp only [step] at h
    split at h
    · next state hi =>
      split at h
      · cases h
        exact .notSpawned i state _ hi
      · cases h
        exact .notSpawned i state _ hi
      · -- the spawned pid is positive and was not in use
        next pid =>
        split at h <;> cases h
        next hpid => exact .spawned i state pid hi hpid.1 hpid.2
    · cases h
  -- a kill is tried on the pid that was loaded, and may be refused
  | kill i permitted =>
    simp only [step] at h
    split at h
    · next state hi =>
      split at h <;> cases h
      · exact .killed i state permitted hi
      · exact .notKilled i state permitted hi
    · cases h
  | saveState i =>
    simp only [step] at h
    split at h <;> cases h
    next state hi => exact .saved i state hi
  | exit pid =>
    cases h
    exact .exited pid
  | appear pid =>
    simp only [step] at h
    split at h <;> cases h
    exact .appeared pid

omit [DecidableEq ι] in
/-- A pid is alive when it is positive and runs. -/
theorem pidAlive_iff : w.pidAlive m = true ↔ 0 < m ∧ m ∈ w.alive := decide_eq_true_iff

/-- Setting one command's phase leaves the others alone. -/
theorem setPhase_phase (w : CtlWorld ι) (i j : ι) (phase : CtlPhase) :
    (w.setPhase i phase).phase j = if j = i then phase else w.phase j :=
  Function.update_apply ..

/-- A monitor is there before the step, or the step has started it. -/
theorem Effect.monitors (h : Effect command w s w') (hm : m ∈ w'.monitors) :
    m ∈ w.monitors ∨ w'.Pending m := by
  cases h with
  | spawned i state pid =>
    -- only a spawn adds a monitor, and its command has yet to save it
    obtain heq | hold := Finset.mem_insert.mp hm
    · refine .inr ⟨i, { state with ebpfPid := pid }, ?_, heq.symm⟩
      rw [setPhase_phase, if_pos rfl]
    · exact .inl hold
  | killed => exact .inl (Finset.mem_of_mem_erase hm)
  | exited => exact .inl (Finset.mem_of_mem_erase hm)
  | loaded => exact .inl hm
  | checkedOn => exact .inl hm
  | checkedOff => exact .inl hm
  | notSpawned => exact .inl hm
  | notKilled => exact .inl hm
  | saved => exact .inl hm
  | appeared => exact .inl hm

/-- Only a save changes the file. -/
theorem Effect.stateFile (h : Effect command w s w') :
    w'.stateFile = w.stateFile ∨ ∃ i, s = .saveState i := by
  cases h with
  -- saving is the only effect that writes the file
  | saved i => exact .inr ⟨i, rfl⟩
  | loaded => exact .inl rfl
  | checkedOn => exact .inl rfl
  | checkedOff => exact .inl rfl
  | notSpawned => exact .inl rfl
  | spawned => exact .inl rfl
  | notKilled => exact .inl rfl
  | killed => exact .inl rfl
  | exited => exact .inl rfl
  | appeared => exact .inl rfl

/-- A pending save stays pending until it is done. -/
theorem Effect.pending (h : Effect command w s w') (hm : w.Pending m) :
    w'.Pending m ∨ w'.stateFile.ebpfPid = m := by
  obtain ⟨j, state, hj, hm⟩ := hm
  -- the steps of other invocations leave this one alone
  have hother : ∀ (v : CtlWorld ι) (i : ι) (phase : CtlPhase), v.phase = w.phase →
      (∀ state, w.phase i ≠ .saving state) → (v.setPhase i phase).Pending m := by
    intro v i phase hv hi
    refine ⟨j, state, ?_, hm⟩
    rw [setPhase_phase, if_neg, hv, hj]
    intro hx
    subst hx
    exact hi state hj
  cases h with
  | loaded i hi => exact .inl (hother w i _ rfl (by simp [hi]))
  | checkedOn i _ _ hi => exact .inl (hother w i _ rfl (by simp [hi]))
  | checkedOff i _ _ hi => exact .inl (hother w i _ rfl (by simp [hi]))
  | notSpawned i _ _ hi => exact .inl (hother w i _ rfl (by simp [hi]))
  | spawned i _ pid hi => exact .inl (hother { w with .. } i _ rfl (by simp [hi]))
  | notKilled i _ _ hi => exact .inl (hother w i _ rfl (by simp [hi]))
  | killed i _ _ hi => exact .inl (hother (w.remove _) i _ rfl (by simp [hi]))
  | saved i state' hi =>
    by_cases hij : j = i
    · subst hij
      rw [hi] at hj
      cases hj
      exact .inr hm
    · refine .inl ⟨j, state, ?_, hm⟩
      rw [setPhase_phase, if_neg hij]
      exact hj
  | exited => exact .inl ⟨j, state, hj, hm⟩
  | appeared => exact .inl ⟨j, state, hj, hm⟩

/-! ## Lost updates -/

/-- `m` is alive and the file names another pid. -/
def Orphaned (w : CtlWorld ι) (m : ℤ) : Prop := m ∈ w.monitors ∧ w.stateFile.ebpfPid ≠ m

/-- A save has replaced the pid of the monitor `m`, which is alive then and stays alive and
    unnamed. -/
def LostUpdate (command : ι → CtlCommand) (w₀ : CtlWorld ι) (steps : List (CtlStep ι)) (m : ℤ) :
    Prop :=
  ∃ before i after w, steps = before ++ .saveState i :: after ∧
    w₀.run command before = some w ∧ m ∈ w.monitors ∧ w.stateFile.ebpfPid = m ∧
    ∀ after₁ after₂ v, after = after₁ ++ after₂ →
      w₀.run command (before ++ .saveState i :: after₁) = some v → v.Orphaned m

/-- A save replaces the pid of the monitor `m`, which is alive. -/
def Replaces (command : ι → CtlCommand) (w₀ : CtlWorld ι) (steps : List (CtlStep ι)) (m : ℤ) :
    Prop :=
  ∃ before i after v u, steps = before ++ .saveState i :: after ∧
    w₀.run command before = some v ∧ v.step command (.saveState i) = some u ∧
    m ∈ v.monitors ∧ v.stateFile.ebpfPid = m ∧ u.stateFile.ebpfPid ≠ m

/-- One more step. -/
theorem run_concat {w₀ : CtlWorld ι} {steps : List (CtlStep ι)} :
    w₀.run command (steps ++ [s]) = some w' ↔
      ∃ w, w₀.run command steps = some w ∧ w.step command s = some w' := by
  rw [run, List.foldlM_append]
  simp [run, Option.bind_eq_some_iff]

/-- Runs compose. -/
theorem run_append {w₀ : CtlWorld ι} {before after : List (CtlStep ι)} :
    w₀.run command (before ++ after) = some w' ↔
      ∃ w, w₀.run command before = some w ∧ w.run command after = some w' := by
  rw [run, List.foldlM_append]
  exact Option.bind_eq_some_iff

/-- A monitor that is lost has been replaced by a save. -/
theorem LostUpdate.replaces {w₀ : CtlWorld ι} {steps : List (CtlStep ι)}
    (hrun : w₀.run command steps = some w) (h : LostUpdate command w₀ steps m) :
    Replaces command w₀ steps m := by
  obtain ⟨before, i, after, v, rfl, hv, hmem, hfile, hafter⟩ := h
  obtain ⟨v₁, hv₁, hrest⟩ := run_append.mp hrun
  cases hv.symm.trans hv₁
  obtain ⟨u, hsave, -⟩ := Option.bind_eq_some_iff.mp hrest
  have horphaned := hafter [] after u rfl (run_concat.mpr ⟨v, hv, hsave⟩)
  exact ⟨before, i, after, v, u, rfl, hv, hsave, hmem, hfile, horphaned.2⟩

/-- The run lemma: a live monitor is named in the file, about to be named, or lost. -/
theorem named_or_pending_or_lost {w₀ : CtlWorld ι} (hinitial : w₀.monitors = ∅)
    {steps : List (CtlStep ι)} (hrun : w₀.run command steps = some w) (hm : m ∈ w.monitors) :
    w.stateFile.ebpfPid = m ∨ w.Pending m ∨ LostUpdate command w₀ steps m := by
  induction steps using List.reverseRecOn generalizing w with
  | nil =>
    cases hrun
    rw [hinitial] at hm
    exact absurd hm (Finset.notMem_empty m)
  | append_singleton steps s ih =>
    obtain ⟨w₁, hbefore, hstep⟩ := run_concat.mp hrun
    have heffect := effect_of_step hstep
    by_cases hnamed : w.stateFile.ebpfPid = m
    · exact .inl hnamed
    obtain hold | hpending := heffect.monitors hm
    · obtain hfile | hpending | hlost := ih hbefore hold
      · -- the file has just changed, so this was a save
        obtain hsame | ⟨i, rfl⟩ := heffect.stateFile
        · exact absurd (hsame ▸ hfile) hnamed
        · refine .inr (.inr ⟨steps, i, [], w₁, rfl, hbefore, hold, hfile, ?_⟩)
          intro after₁ after₂ v hnil hv
          obtain ⟨rfl, -⟩ := List.append_eq_nil_iff.mp hnil.symm
          cases hrun.symm.trans hv
          exact ⟨hm, hnamed⟩
      · exact .inr ((heffect.pending hpending).elim .inl fun h => absurd h hnamed)
      · obtain ⟨before, i, after, v, rfl, hv, hmem, hfile, hafter⟩ := hlost
        refine .inr (.inr ⟨before, i, after ++ [s], v, by simp, hv, hmem, hfile, ?_⟩)
        intro after₁ after₂ u heq hu
        obtain rfl | ⟨rest, x, rfl⟩ := after₂.eq_nil_or_concat
        · -- the whole run
          rw [List.append_nil] at heq
          subst heq
          rw [List.append_assoc, List.cons_append] at hrun
          cases hrun.symm.trans hu
          exact ⟨hm, hnamed⟩
        · rw [List.concat_eq_append, ← List.append_assoc] at heq
          exact hafter after₁ rest u (List.append_inj' heq rfl).1 hu
    · exact .inr (.inl hpending)

/-! ## The result -/

/-- Nobody has begun yet. -/
structure Fresh (w : CtlWorld ι) : Prop where
  monitors : w.monitors = ∅
  phase : ∀ i, w.phase i = .ready

/-- Nobody is in the middle of something. -/
def AllFinished (w : CtlWorld ι) : Prop := ∀ i, w.phase i = .ready ∨ w.phase i = .finished

/-- Without lost updates the only live monitor is the one named in the file. -/
theorem noOrphan_of_not_lostUpdate {w₀ : CtlWorld ι} (hfresh : w₀.Fresh)
    {steps : List (CtlStep ι)} (hrun : w₀.run command steps = some w)
    (hfinished : w.AllFinished) (h : ∀ m, ¬LostUpdate command w₀ steps m) : w.NoOrphan := by
  apply noOrphan_of_forall
  intro m hm
  obtain hnamed | ⟨i, state, hi, -⟩ | hlost := named_or_pending_or_lost hfresh.monitors hrun hm
  · exact hnamed
  · -- nobody is about to save any more
    obtain hready | hdone := hfinished i
    · cases hi.symm.trans hready
    · cases hi.symm.trans hdone
  · exact absurd hlost (h m)

/-- The step form: when no save replaces the pid of a live monitor, no orphan is left once all
    invocations have finished. -/
theorem noOrphan_of_not_replaces {w₀ : CtlWorld ι} (hfresh : w₀.Fresh)
    {steps : List (CtlStep ι)} (hrun : w₀.run command steps = some w)
    (hfinished : w.AllFinished) (h : ∀ m, ¬Replaces command w₀ steps m) : w.NoOrphan :=
  noOrphan_of_not_lostUpdate hfresh hrun hfinished fun m hlost => h m (hlost.replaces hrun)

/-- Once all invocations have finished, the only live monitor is the one named in the file,
    if and only if no save on the way has lost a monitor. -/
theorem noOrphan_iff {w₀ : CtlWorld ι} (hfresh : w₀.Fresh) {steps : List (CtlStep ι)}
    (hrun : w₀.run command steps = some w) (hfinished : w.AllFinished) :
    w.NoOrphan ↔ ∀ m, ¬LostUpdate command w₀ steps m := by
  constructor
  · intro h m hx
    obtain ⟨before, i, after, v, rfl, -, -, -, hafter⟩ := hx
    have horphaned := hafter after [] w (List.append_nil after).symm hrun
    exact horphaned.2 (h.2 m horphaned.1)
  · exact noOrphan_of_not_lostUpdate hfresh hrun hfinished

/-- Process 50 is the target, and no monitor is running. -/
def targetRunning : CtlWorld Bool where
  stateFile := { targetPid := 50, ebpfMonitorBin := "ebpf_monitor" }
  alive := {50}

/-- One invocation turns the monitor on, then the other turns it off. -/
def onThenOff : List (CtlStep Bool) := [
  .loadState true, .checkAlive true, .spawn true (.runs 60), .saveState true,
  .loadState false, .checkAlive false, .kill false true, .saveState false]

/-- First on, then off: no update is lost and no monitor left. -/
theorem noOrphan_iff_onThenOff :
    ∃ w, targetRunning.run (fun i => if i then .on else .off) onThenOff = some w ∧
      (w.NoOrphan ↔
        ∀ m, ¬LostUpdate (fun i => if i then .on else .off) targetRunning onThenOff m) := by
  refine ⟨_, rfl, noOrphan_iff ⟨rfl, fun _ => rfl⟩ rfl ?_⟩
  intro i
  cases i <;> exact .inr rfl

/-- Two invocations turn the monitor on at the same time. -/
def onTwice : List (CtlStep Bool) := [
  .loadState true, .loadState false, .checkAlive true, .checkAlive false,
  .spawn true (.runs 60), .spawn false (.runs 61), .saveState true, .saveState false]

/-- Two monitors are left, and the file names one of them. -/
theorem not_noOrphan_onTwice :
    ∃ w, targetRunning.run (fun _ => .on) onTwice = some w ∧ w.AllFinished ∧ ¬w.NoOrphan := by
  refine ⟨_, rfl, ?_, by decide⟩
  intro i
  cases i <;> exact .inr rfl

/-! ## Invocations that take turns -/

/-- An invocation only takes a step while all others have not begun or have finished. -/
def Serial (command : ι → CtlCommand) (w₀ : CtlWorld ι) (steps : List (CtlStep ι)) : Prop :=
  ∀ before s after w i, steps = before ++ s :: after → w₀.run command before = some w →
    s.owner = some i → ∀ j, j ≠ i → w.phase j = .ready ∨ w.phase j = .finished

/-- What an invocation knows about the file and the monitors when no other interferes. -/
def Informed {ι : Type*} (w : CtlWorld ι) : CtlPhase → Prop
  | .ready => True
  | .loaded state => state = w.stateFile
  | .spawning _ => w.stateFile.ebpfPid ∉ w.monitors
  | .killing state => state = w.stateFile
  | .saving state => w.stateFile.ebpfPid ∈ w.monitors → state.ebpfPid = w.stateFile.ebpfPid
  | .finished => True

/-- The monitors are live processes, and every invocation is informed. -/
structure SerialInv (w : CtlWorld ι) : Prop where
  alive : ∀ m ∈ w.monitors, w.pidAlive m = true
  informed : ∀ i, w.Informed (w.phase i)

omit [DecidableEq ι] in
/-- In a serial run a command works on what the file says now. -/
theorem SerialInv.informed_of_phase (hinv : w.SerialInv) {i : ι} {phase : CtlPhase}
    (hi : w.phase i = phase) : w.Informed phase := by
  rw [← hi]
  exact hinv.informed i

/-- An informed invocation stays so when monitors end and the file stays. -/
theorem Informed.mono {ι : Type*} {w w' : CtlWorld ι} {phase : CtlPhase} (h : w.Informed phase)
    (hfile : w'.stateFile = w.stateFile) (hmonitors : w'.monitors ⊆ w.monitors) :
    w'.Informed phase := by
  -- a command that has loaded needs the file as it was; one that spawns or saves, fewer monitors
  cases phase with
  | ready => trivial
  | finished => trivial
  | loaded state => exact h.trans hfile.symm
  | killing state => exact h.trans hfile.symm
  | spawning state =>
    intro hmem
    rw [hfile] at hmem
    exact h (hmonitors hmem)
  | saving state =>
    intro hmem
    rw [hfile] at hmem ⊢
    exact h (hmonitors hmem)

/-- The step lemma for invocations that take turns. -/
theorem SerialInv.effect (hinv : w.SerialInv) (h : Effect command w s w')
    (hturn : ∀ i, s.owner = some i → ∀ j, j ≠ i → w.phase j = .ready ∨ w.phase j = .finished) :
    w'.SerialInv := by
  -- the owner of the step is informed, and the others have nothing to know
  have hinformed : ∀ {v : CtlWorld ι} {i : ι} {phase : CtlPhase}, s.owner = some i →
      v.phase = w.phase → v.Informed phase →
      ∀ j, (v.setPhase i phase).Informed ((v.setPhase i phase).phase j) := by
    intro v i phase howner hphase hi j
    rw [setPhase_phase]
    by_cases hj : j = i
    · rw [if_pos hj]
      exact hi
    · rw [if_neg hj, hphase]
      obtain hready | hdone := hturn i howner j hj
      · rw [hready]
        trivial
      · rw [hdone]
        trivial
  have hremove : ∀ pid, ∀ m ∈ (w.remove pid).monitors, (w.remove pid).pidAlive m = true := by
    intro pid m hm
    obtain ⟨hne, hm⟩ := Finset.mem_erase.mp hm
    obtain ⟨hpos, halive⟩ := pidAlive_iff.mp (hinv.alive m hm)
    exact pidAlive_iff.mpr ⟨hpos, Finset.mem_erase.mpr ⟨hne, halive⟩⟩
  cases h with
  | loaded i hi => exact ⟨hinv.alive, hinformed rfl rfl rfl⟩
  | checkedOn i state _ hi =>
    refine ⟨hinv.alive, hinformed rfl rfl ?_⟩
    have hstate : state = w.stateFile := hinv.informed_of_phase hi
    unfold startEbpf
    split
    · trivial
    · next hdead =>
      split
      · trivial
      · split
        · trivial
        · intro hmem
          rw [hstate] at hdead
          exact hdead (hinv.alive _ hmem)
  | checkedOff i state _ hi =>
    refine ⟨hinv.alive, hinformed rfl rfl ?_⟩
    have hstate : state = w.stateFile := hinv.informed_of_phase hi
    unfold stopEbpf
    split
    · exact hstate
    · next hdead =>
      intro hmem
      rw [hstate] at hdead
      exact absurd (hinv.alive _ hmem) hdead
  | notSpawned i => exact ⟨hinv.alive, hinformed rfl rfl trivial⟩
  | spawned i state pid hi hpos _ =>
    have hdead : w.stateFile.ebpfPid ∉ w.monitors := hinv.informed_of_phase hi
    refine ⟨fun m hm => ?_, hinformed rfl rfl fun hmem => ?_⟩
    · rw [pidAlive_iff]
      obtain rfl | hm := Finset.mem_insert.mp hm
      · exact ⟨hpos, Finset.mem_insert_self _ _⟩
      · obtain ⟨hpos, halive⟩ := pidAlive_iff.mp (hinv.alive m hm)
        exact ⟨hpos, Finset.mem_insert_of_mem halive⟩
    · exact ((Finset.mem_insert.mp hmem).resolve_right hdead).symm
  | notKilled i => exact ⟨hinv.alive, hinformed rfl rfl trivial⟩
  | killed i state _ hi =>
    have hstate : state = w.stateFile := hinv.informed_of_phase hi
    refine ⟨hremove state.ebpfPid, hinformed rfl rfl fun hmem => ?_⟩
    -- the named monitor has just been ended
    rw [hstate] at hmem
    exact absurd hmem (Finset.notMem_erase _ _)
  | saved i state hi => exact ⟨hinv.alive, hinformed rfl rfl trivial⟩
  | exited pid =>
    exact ⟨hremove pid, fun i => (hinv.informed i).mono rfl (Finset.erase_subset _ _)⟩
  | appeared pid =>
    refine ⟨fun m hm => ?_, fun i => (hinv.informed i).mono rfl (Finset.Subset.refl _)⟩
    obtain ⟨hpos, halive⟩ := pidAlive_iff.mp (hinv.alive m hm)
    exact pidAlive_iff.mpr ⟨hpos, Finset.mem_insert_of_mem halive⟩

/-- The invariant of serial runs holds after each of them. -/
theorem serialInv_run {w₀ : CtlWorld ι} (hfresh : w₀.Fresh) {steps : List (CtlStep ι)}
    (hserial : Serial command w₀ steps) (hrun : w₀.run command steps = some w) : w.SerialInv := by
  induction steps using List.reverseRecOn generalizing w with
  | nil =>
    cases hrun
    -- before the first step there is no monitor and no command under way
    refine ⟨fun m hm => ?_, fun i => ?_⟩
    · rw [hfresh.monitors] at hm
      exact absurd hm (Finset.notMem_empty m)
    · rw [hfresh.phase i]
      trivial
  | append_singleton steps s ih =>
    obtain ⟨w₁, hbefore, hstep⟩ := run_concat.mp hrun
    refine (ih ?_ hbefore).effect (effect_of_step hstep) fun i howner =>
      hserial steps s [] w₁ i rfl hbefore howner
    -- a prefix of a serial run is serial
    intro before s' after v i heq
    exact hserial before s' (after ++ [s]) v i (by simp [heq])

/-- Invocations that take turns leave no orphan. -/
theorem noOrphan_of_serial {w₀ : CtlWorld ι} (hfresh : w₀.Fresh) {steps : List (CtlStep ι)}
    (hserial : Serial command w₀ steps) (hrun : w₀.run command steps = some w)
    (hfinished : w.AllFinished) : w.NoOrphan := by
  apply noOrphan_of_not_replaces hfresh hrun hfinished
  intro m h
  obtain ⟨before, i, after, v, u, rfl, hv, hsave, hmem, hfile, hreplaced⟩ := h
  have hinv : v.SerialInv := serialInv_run hfresh
    (fun before' s' after' u j heq => hserial before' s' (after' ++ .saveState i :: after) u j
      (by simp [heq])) hv
  -- an informed invocation saves the pid that is in the file
  cases effect_of_step hsave with
  | saved _ state hi =>
    have hsame : v.stateFile.ebpfPid ∈ v.monitors → state.ebpfPid = v.stateFile.ebpfPid :=
      hinv.informed_of_phase hi
    exact hreplaced ((hsame (hfile ▸ hmem)).trans hfile)

end CtlWorld

end DeLatency
