import DeLatency.Spec.Announcements
import DeLatency.Spec.CollectorLoop
import DeLatency.Spec.Monitor
import Mathlib.Data.Set.Card

/-!
# From an announcement to a tracked thread

A scan takes what is in the file when it opens it, and the collector goes on meanwhile.  In
any order of the steps, nothing is tracked and nothing reported but what was announced, and a
scan that has opened the file and is through has added all that was announced when it began
and belongs to the root process (`discovery_tracks`), for good.
-/

namespace DeLatency

open CText

namespace Discovery

/-- The ids that the collector knows. -/
def known (s : Discovery) : List ℤ := s.collector.knownWorkerPids ++ s.collector.knownExactTids

/-- The threads that the monitor tracks. -/
def tracked (s : Discovery) : List UInt32 := s.monitor.targetTidMap.keys

/-- The line of the target file for a process, and for a thread. -/
def pidLine (id : ℤ) : List Char := decimal id ++ ['\n']

def tidLine (id : ℤ) : List Char := "tid:".toList ++ decimal id ++ ['\n']

/-- A line that names one of the ids. -/
def NamesOneOf (ids : List ℤ) (line : List Char) : Prop :=
  ∃ id ∈ ids, line = pidLine id ∨ line = tidLine id

/-! ## What each step does -/

variable {rootPid : ℤ} {isDescendantOrSelf : ℤ → Bool}

/-- A process is a target when it belongs to the root process. -/
theorem scanLine_pidLine {id : ℤ} (h : IsPid id) (scan : TargetScan) :
    scan.scanLine rootPid isDescendantOrSelf (pidLine id) =
      if 0 < rootPid ∧ ¬isDescendantOrSelf id then scan else scan.target id := by
  -- the id is one the scanner takes
  have hbounds : ¬(id ≤ 0 ∨ 2 ^ 31 - 1 < id) := by
    obtain ⟨hpos, hhi⟩ := h
    omega
  rw [TargetScan.scanLine, pidLine,
    cutLine_append fun c hc => .inl (isDigit_of_mem_decimal h hc), parseTargetSpec_decimal h]
  dsimp only
  rw [if_neg Bool.false_ne_true, pidOf_ofInt h, TargetScan.trackMainTidOfPid, if_neg hbounds]
  rfl

/-- A thread is one always. -/
theorem scanLine_tidLine {id : ℤ} (h : IsPid id) (scan : TargetScan) :
    scan.scanLine rootPid isDescendantOrSelf (tidLine id) = scan.target id := by
  -- nothing in the line stops the cut early
  have hchars : ∀ c ∈ "tid:".toList ++ decimal id, c.isDigit ∨ c ∈ "tid:".toList := by
    intro c hc
    cases List.mem_append.mp hc with
    | inl hc => exact .inr hc
    | inr hc => exact .inl (isDigit_of_mem_decimal h hc)
  rw [TargetScan.scanLine, tidLine, cutLine_append hchars, parseTargetSpec_tid h]
  dsimp only
  rw [if_pos rfl]
  rfl

/-- Treating a line that names `id` makes it a target or does nothing. -/
theorem scanLine_of_names {id : ℤ} (h : IsPid id) {line : List Char}
    (hline : line = pidLine id ∨ line = tidLine id) (scan : TargetScan) :
    scan.scanLine rootPid isDescendantOrSelf line = scan ∨
      scan.scanLine rootPid isDescendantOrSelf line = scan.target id := by
  rcases hline with rfl | rfl
  · rw [scanLine_pidLine h]
    -- a process outside the monitored tree is skipped
    split
    · exact .inl rfl
    · exact .inr rfl
  · exact .inr (scanLine_tidLine h scan)

/-- A line taken as a target is put into the monitor's map. -/
theorem monitor_target (scan : TargetScan) (id : ℤ) :
    (scan.target id).monitor = (scan.monitor.addTidToBpfMap (UInt32.ofInt id)).1 := rfl

/-! ## The collector -/

variable {lib : JsonLib}

/-- What a message makes the collector remember is written to the file at once. -/
theorem persisted_remember {c : Collector} (h : c.Persisted) (metadata : PyValue)
    (payload : FramePayload) : (c.remember metadata payload).Persisted := by
  unfold Collector.remember
  cases getSrc metadata with
  | error e => exact h
  | ok src =>
    dsimp only
    cases hpid : extractWorkerPid src metadata payload with
    -- nothing is noted when the reader of the process raises
    | error e => exact h
    | ok pid =>
      have hpids := h.persistWorkerPid (pos_of_extractWorkerPid hpid)
      dsimp only
      cases htid : extractExactTid src metadata payload with
      -- the process is noted even when the reader of the thread raises after it
      | error e => exact hpids
      | ok tid => exact hpids.persistExactTid (pos_of_extractExactTid htid)

/-- A message that raises leaves the file up to date as well. -/
theorem persisted_afterRaise {c : Collector} (h : c.Persisted) (frames : List ByteArray) :
    (c.afterRaise lib frames).Persisted := by
  unfold Collector.afterRaise
  split
  · exact h
  · split
    · split
      · exact h
      · exact persisted_remember h ..
    · -- what was remembered before the raise has been written too
      exact persisted_remember h ..
    · exact h

/-- A message leaves the file and what is known in agreement. -/
theorem persisted_message {s : Discovery} (h : s.collector.Persisted) (frames : List ByteArray) :
    (s.message lib frames).collector.Persisted := by
  unfold message
  split
  · split
    · next hok => exact h.handleFrames hok
    · exact persisted_afterRaise h frames
  · exact h

/-- A collector that is running learns what is announced. -/
theorem learns_message {s : Discovery} (halive : s.alive = true) (frames : List ByteArray) :
    Learns lib frames s.collector (s.message lib frames).collector := by
  unfold message
  rw [if_pos halive]
  split
  · next hok => exact learns_handleFrames hok
  · exact learns_afterRaise s.collector

/-- One that has ended does not. -/
theorem message_of_not_alive {s : Discovery} (halive : ¬s.alive = true)
    (frames : List ByteArray) : s.message lib frames = s := by
  rw [message, if_neg halive]

/-! ## The monitor -/

/-- A hook leaves the white list as it is and reports only threads on it. -/
structure HookStep (m m' : Monitor) : Prop where
  targetTidMap : m'.targetTidMap = m.targetTidMap
  covered : m.Covered → m'.Covered
  events : m.Covered → ∀ e ∈ m'.events, e ∈ m.events ∨ e.tid ∈ m.targetTidMap.keys

/-- A wakeup is a hook step. -/
theorem hookStep_traceWakeupCommon (m : Monitor) (tid : UInt32) (now : UInt64) :
    HookStep m (m.traceWakeupCommon tid now) := by
  refine ⟨?_, fun h => h.traceWakeupCommon tid now, fun _ e he => .inl ?_⟩ <;>
    obtain ⟨-, heq⟩ | ⟨-, heq⟩ := m.traceWakeupCommon_cases tid now
  · rw [heq]; rfl
  · rw [heq]
  · rw [heq] at he; exact he
  · rw [heq] at he; exact he

/-- A switch-out is a hook step. -/
theorem hookStep_switchOut (m : Monitor) (tid : UInt32) (prevState : Int64) (now : UInt64) :
    HookStep m (m.switchOut tid prevState now) := by
  refine ⟨?_, fun h => h.switchOut tid prevState now, fun _ e he => .inl ?_⟩ <;>
    obtain ⟨-, -, heq⟩ | ⟨-, heq⟩ := m.switchOut_cases tid prevState now
  · rw [heq]; rfl
  · rw [heq]
  · rw [heq] at he; exact he
  · rw [heq] at he; exact he

/-- A switch-in is a hook step. -/
theorem hookStep_switchIn (m : Monitor) (tid : UInt32) (now : UInt64) (reserved : Bool) :
    HookStep m (m.switchIn tid now reserved) := by
  refine ⟨?_, fun h => h.switchIn tid now reserved, fun hc e he => ?_⟩ <;>
    obtain ⟨heq, -⟩ | ⟨info, hinfo, -, heq⟩ := m.switchIn_cases tid now reserved
  · rw [heq]
  · rw [heq]
  · rw [heq] at he; exact .inl he
  · rw [heq] at he
    rcases List.mem_append.mp he with he | he
    · exact .inl he
    · -- a recorded wait is of a tracked thread
      have hmem : tid ∈ m.targetTidMap.keys :=
        hc tid (BoundedMap.isSome_lookup_iff.mp (by rw [hinfo]; rfl))
      unfold Monitor.report at he
      split at he
      · obtain rfl := List.mem_singleton.mp he
        exact .inr hmem
      · cases he

/-- Hook steps compose. -/
theorem HookStep.trans {m m' m'' : Monitor} (h : HookStep m m') (h' : HookStep m' m'') :
    HookStep m m'' where
  targetTidMap := h'.targetTidMap.trans h.targetTidMap
  covered := fun hc => h'.covered (h.covered hc)
  events := by
    intro hc e he
    -- an event is old, or for a thread tracked at that time
    rcases h'.events (h.covered hc) e he with he | he
    · exact h.events hc e he
    · exact .inr (h.targetTidMap ▸ he)

/-! ## Soundness -/

/-- Only what was announced is scanned, tracked and reported. -/
structure Sound (s : Discovery) : Prop where
  persisted : s.collector.Persisted
  covered : s.monitor.Covered
  pending : ∀ line ∈ s.pending, NamesOneOf s.known line
  tracked : ∀ tid ∈ s.tracked, tid ∈ s.known.map UInt32.ofInt
  reported : ∀ e ∈ s.monitor.events, e.tid ∈ s.tracked

/-- Nothing known is forgotten. -/
structure Keeps (s s' : Discovery) : Prop where
  pids : s.collector.knownWorkerPids ⊆ s'.collector.knownWorkerPids
  tids : s.collector.knownExactTids ⊆ s'.collector.knownExactTids

/-- Doing nothing keeps everything. -/
theorem Keeps.refl (s : Discovery) : Keeps s s := ⟨fun _ => id, fun _ => id⟩

/-- Steps that keep what is known and tracked compose. -/
theorem Keeps.trans {s s' s'' : Discovery} (h : Keeps s s') (h' : Keeps s' s'') : Keeps s s'' :=
  ⟨fun _ hx => h'.pids (h.pids hx), fun _ hx => h'.tids (h.tids hx)⟩

/-- What was known stays known. -/
theorem Keeps.known {s s' : Discovery} (h : Keeps s s') : s.known ⊆ s'.known :=
  List.append_subset.mpr ⟨fun _ hx => List.mem_append_left _ (h.pids hx),
    fun _ hx => List.mem_append_right _ (h.tids hx)⟩

/-- A message takes nothing away. -/
theorem keeps_message (s : Discovery) (frames : List ByteArray) :
    Keeps s (s.message lib frames) := by
  by_cases halive : s.alive = true
  · have hlearns := @learns_message lib s halive frames
    exact ⟨fun pid hpid => (hlearns.pids pid).mpr (.inl hpid),
      fun tid htid => (hlearns.tids tid).mpr (.inl htid)⟩
  · rw [message_of_not_alive halive]
    exact .refl s

/-- A line that names one of some ids names one of more ids. -/
theorem NamesOneOf.mono {ids ids' : List ℤ} {line : List Char} (h : NamesOneOf ids line)
    (hsub : ids ⊆ ids') : NamesOneOf ids' line := by
  obtain ⟨id, hid, hline⟩ := h
  exact ⟨id, hsub hid, hline⟩

/-- A message touches neither the monitor nor the lines that it has yet to read. -/
theorem message_monitor (s : Discovery) (frames : List ByteArray) :
    (s.message lib frames).monitor = s.monitor ∧ (s.message lib frames).pending = s.pending := by
  unfold message
  split
  · split <;> exact ⟨rfl, rfl⟩
  · exact ⟨rfl, rfl⟩

/-- A message keeps the state sound. -/
theorem Sound.message {s : Discovery} (h : s.Sound) (frames : List ByteArray) :
    (s.message lib frames).Sound := by
  obtain ⟨hmonitor, hpending⟩ := @message_monitor lib s frames
  -- what was announced stays so
  have hsub := (@keeps_message lib s frames).known
  refine ⟨persisted_message h.persisted frames, hmonitor ▸ h.covered, ?_, ?_, ?_⟩
  · rw [hpending]
    exact fun line hline => (h.pending line hline).mono hsub
  · rw [Discovery.tracked, hmonitor]
    exact fun tid htid => List.map_subset _ hsub (h.tracked tid htid)
  · rw [Discovery.tracked, hmonitor]
    exact h.reported

/-- The lines of the target file name the announced ids, each of them. -/
theorem fgetsLines_targetFile {s : Discovery} (h : s.collector.Persisted)
    (hids : ∀ id ∈ s.known, IsPid id) :
    (∀ line ∈ fgetsLines 127 s.collector.targetFile, NamesOneOf s.known line) ∧
      (∀ pid ∈ s.collector.knownWorkerPids,
        pidLine pid ∈ fgetsLines 127 s.collector.targetFile) ∧
      ∀ tid ∈ s.collector.knownExactTids,
        tidLine tid ∈ fgetsLines 127 s.collector.targetFile := by
  -- each line is short enough for one `fgets`
  have hlines : fgetsLines 127 s.collector.targetFile =
      (s.collector.pidLines ++ s.collector.tidLines).map fun line => line ++ ['\n'] := by
    rw [h.targetFile]
    refine fgetsLines_flatMap (fun line hline hnew => ?_) fun line hline => (mem_line hids hline).1
    exact absurd (notNewline_of_mem_line (mem_line hids hline).2 _ hnew) (by decide)
  rw [hlines]
  refine ⟨?_, ?_, ?_⟩
  · intro line hline
    obtain ⟨text, htext, rfl⟩ := List.mem_map.mp hline
    rcases List.mem_append.mp htext with htext | htext
    · obtain ⟨id, hid, rfl⟩ := List.mem_map.mp htext
      exact ⟨id, List.mem_append_left _ (List.mem_sortBy.mp hid), .inl rfl⟩
    · obtain ⟨id, hid, rfl⟩ := List.mem_map.mp htext
      exact ⟨id, List.mem_append_right _ (List.mem_sortBy.mp hid), .inr rfl⟩
  · intro pid hpid
    refine List.mem_map_of_mem (List.mem_append_left _ ?_)
    exact List.mem_map_of_mem (List.mem_sortBy.mpr hpid)
  · intro tid htid
    refine List.mem_map_of_mem (List.mem_append_right _ ?_)
    exact List.mem_map_of_mem (f := fun tid => "tid:".toList ++ decimal tid)
      (List.mem_sortBy.mpr htid)

/-- Opening the file, whole or while it is rewritten, gives the monitor lines that name known ids.
    -/
theorem Sound.openFile {s : Discovery} (h : s.Sound) (hids : ∀ id ∈ s.known, IsPid id)
    (rewriting : Bool) : (s.openFile rewriting).Sound := by
  unfold Discovery.openFile
  split
  · refine ⟨h.persisted, h.covered, ?_, h.tracked, h.reported⟩
    cases rewriting with
    | true => simp
    -- the lines read are those of the file, which names known ids only
    | false => exact (fgetsLines_targetFile h.persisted hids).1
  · exact h

/-- The state after a line has been treated in one of the two ways. -/
theorem nextLine_of_names {s : Discovery} {line : List Char} {pending : List (List Char)} {id : ℤ}
    (hpending : s.pending = line :: pending) (hid : IsPid id)
    (hline : line = pidLine id ∨ line = tidLine id) :
    s.nextLine rootPid isDescendantOrSelf = { s with pending := pending } ∨
      s.nextLine rootPid isDescendantOrSelf = { s with
        monitor := (s.monitor.addTidToBpfMap (UInt32.ofInt id)).1
        pending := pending } := by
  simp only [nextLine, hpending]
  -- the line is skipped, or its id is put into the map
  rcases scanLine_of_names hid hline { monitor := s.monitor } with hscan | hscan
  · exact .inl (by rw [hscan])
  · exact .inr (by rw [hscan, monitor_target])

/-- With no line left there is nothing to read. -/
theorem nextLine_of_nil {s : Discovery} (h : s.pending = []) :
    s.nextLine rootPid isDescendantOrSelf = s := by
  simp only [nextLine, h]

/-- A line may be passed over. -/
theorem Sound.dropLine {s : Discovery} (h : s.Sound) {line : List Char}
    {pending : List (List Char)} (hpending : s.pending = line :: pending) :
    ({ s with pending := pending } : Discovery).Sound :=
  ⟨h.persisted, h.covered, fun line' hline' =>
    h.pending line' (hpending ▸ List.mem_cons_of_mem _ hline'), h.tracked, h.reported⟩

/-- A known id may be added to the monitor's map. -/
theorem Sound.addTid {s : Discovery} (h : s.Sound) {id : ℤ} (hid : id ∈ s.known) :
    ({ s with monitor := (s.monitor.addTidToBpfMap (UInt32.ofInt id)).1 } : Discovery).Sound := by
  -- the map gains at most the new key
  obtain ⟨-, hevents, hkeys⟩ := s.monitor.addTidToBpfMap_spec (UInt32.ofInt id)
  refine ⟨h.persisted, h.covered.act (.track (UInt32.ofInt id)), h.pending, ?_, ?_⟩
  · intro tid htid
    rcases hkeys tid htid with rfl | htid
    · exact List.mem_map_of_mem hid
    · exact h.tracked tid htid
  · intro e he
    exact Monitor.mem_targetTidMap_addTidToBpfMap (h.reported e (hevents ▸ he))

/-- Reading one line keeps the state sound. -/
theorem Sound.nextLine {s : Discovery} (h : s.Sound) (hids : ∀ id ∈ s.known, IsPid id) :
    (s.nextLine rootPid isDescendantOrSelf).Sound := by
  cases hpending : s.pending with
  | nil =>
    rw [nextLine_of_nil hpending]
    exact h
  | cons line pending =>
    obtain ⟨id, hid, hline⟩ := h.pending line (hpending ▸ List.mem_cons_self ..)
    -- the line is skipped, or its thread is added
    rcases nextLine_of_names hpending (hids id hid) hline with heq | heq
    · rw [heq]
      exact h.dropLine hpending
    · rw [heq]
      exact (h.addTid hid).dropLine hpending

/-- The scheduler hooks keep the state sound. -/
theorem Sound.hook {s : Discovery} (h : s.Sound) {m : Monitor} (hm : HookStep s.monitor m) :
    ({ s with monitor := m } : Discovery).Sound := by
  refine ⟨h.persisted, hm.covered h.covered, h.pending, ?_, ?_⟩
  · intro tid htid
    exact h.tracked tid (by rwa [Discovery.tracked, hm.targetTidMap] at htid)
  · intro e he
    rw [Discovery.tracked, hm.targetTidMap]
    -- an event of a hook is for a tracked thread
    rcases hm.events h.covered e he with he | he
    · exact h.reported e he
    · exact he

/-- Only a message changes the collector, or ends it. -/
theorem step_of_not_message (s : Discovery) {st : DiscoveryStep}
    (h : ∀ frames, st ≠ .message frames) :
    (s.step lib rootPid st).collector = s.collector ∧
      (s.step lib rootPid st).alive = s.alive := by
  cases st with
  | message frames => exact absurd rfl (h frames)
  -- the monitor's steps do not reach the collector
  | openFile rewriting =>
    simp only [step, Discovery.openFile]
    split <;> exact ⟨rfl, rfl⟩
  | nextLine isDescendantOrSelf =>
    simp only [step, Discovery.nextLine]
    split <;> exact ⟨rfl, rfl⟩
  | _ => exact ⟨rfl, rfl⟩

/-- No step takes away what is known or tracked. -/
theorem keeps_step (s : Discovery) (st : DiscoveryStep) : Keeps s (s.step lib rootPid st) := by
  by_cases hmessage : ∃ frames, st = .message frames
  · obtain ⟨frames, rfl⟩ := hmessage
    exact keeps_message s frames
  · have hsame := (@step_of_not_message rootPid lib s st fun frames heq =>
      hmessage ⟨frames, heq⟩).1
    constructor <;> rw [hsame] <;> exact fun _ => id

/-- What is known after a step was known or is announced by it. -/
theorem known_step_cases (s : Discovery) (st : DiscoveryStep) {id : ℤ}
    (hid : id ∈ (s.step lib rootPid st).known) : id ∈ s.known ∨ Announced lib [st] id := by
  -- only a message adds ids, and only while the collector runs
  by_cases hmessage : ∃ frames, st = .message frames
  · obtain ⟨frames, rfl⟩ := hmessage
    by_cases halive : s.alive = true
    · have hlearns := @learns_message lib s halive frames
      rcases List.mem_append.mp hid with hid | hid
      · exact ((hlearns.pids id).mp hid).imp (List.mem_append_left _) fun hannounced =>
          ⟨frames, List.mem_singleton_self _, .inl hannounced⟩
      · exact ((hlearns.tids id).mp hid).imp (List.mem_append_right _) fun hannounced =>
          ⟨frames, List.mem_singleton_self _, .inr hannounced⟩
    · rw [step, message_of_not_alive halive] at hid
      exact .inl hid
  · rw [known, (step_of_not_message s fun frames heq => hmessage ⟨frames, heq⟩).1] at hid
    exact .inl hid

/-- The collector goes on unless a message raises. -/
theorem alive_step {s : Discovery} (h : s.alive = true) {st : DiscoveryStep}
    (hraises : ∀ frames, st = .message frames → ¬Raises lib frames) :
    (s.step lib rootPid st).alive = true := by
  -- only a message can stop the collector
  by_cases hmessage : ∃ frames, st = .message frames
  · obtain ⟨frames, rfl⟩ := hmessage
    rw [step, message, if_pos h]
    cases hhandle : s.collector.handleFrames lib true frames with
    | ok result => exact h
    | error e => exact absurd (handleFrames_error hhandle) (hraises frames rfl)
  · rw [(step_of_not_message s fun frames heq => hmessage ⟨frames, heq⟩).2, h]

/-- Every step keeps the state sound. -/
theorem Sound.step {s : Discovery} (h : s.Sound) (hids : ∀ id ∈ s.known, IsPid id)
    (st : DiscoveryStep) : (s.step lib rootPid st).Sound := by
  cases st with
  | message frames => exact h.message frames
  | openFile rewriting => exact h.openFile hids rewriting
  | nextLine isDescendantOrSelf => exact h.nextLine hids
  | schedWakeup pid now => exact h.hook (hookStep_traceWakeupCommon ..)
  | schedWakeupNew pid now => exact h.hook (hookStep_traceWakeupCommon ..)
  -- the one going out, then the one coming in
  | schedSwitch prevPid prevState nextPid now reserved =>
    exact h.hook ((hookStep_switchOut ..).trans (hookStep_switchIn ..))

/-- The state before any step is sound. -/
theorem sound_empty : ({} : Discovery).Sound where
  persisted := Collector.persisted_empty
  covered := fun tid htid => by simp at htid
  pending := by simp
  tracked := by simp [tracked]
  reported := by simp

/-! ## A scan under way -/

/-- Each of the ids is tracked, or the scan has still to come to its line. -/
def Underway (line : ℤ → List Char) (ids : List ℤ) (s : Discovery) : Prop :=
  ∀ id ∈ ids, UInt32.ofInt id ∈ s.tracked ∨ line id ∈ s.pending

/-- There is room for all that was announced. -/
def Fits (s : Discovery) : Prop := (s.known.map UInt32.ofInt).toFinset.card ≤ maxEntries

/-- If the later known ids fit into the map, the earlier ones do. -/
theorem Fits.of_subset {s s' : Discovery} (h : s'.Fits) (hsub : s.known ⊆ s'.known) :
    s.Fits :=
  (Finset.card_le_card fun x hx => by
    rw [List.mem_toFinset] at hx ⊢
    exact List.map_subset _ hsub hx).trans h

/-- A line that is treated gets its thread tracked. -/
theorem mem_tracked_addTid {s : Discovery} (h : s.Sound) (hfits : s.Fits) {id : ℤ}
    (hid : id ∈ s.known) :
    UInt32.ofInt id ∈ (s.monitor.addTidToBpfMap (UInt32.ofInt id)).1.targetTidMap.keys := by
  -- the id is known, so the map has room for it
  have hroom : (insert (UInt32.ofInt id) s.monitor.targetTidMap.keys.toFinset).card ≤
      maxEntries := by
    refine (Finset.card_le_card fun x hx => ?_).trans hfits
    rw [List.mem_toFinset]
    rcases Finset.mem_insert.mp hx with rfl | hx
    · exact List.mem_map_of_mem hid
    · exact h.tracked x (List.mem_toFinset.mp hx)
  exact (@TargetScan.mem_keys_addTid { monitor := s.monitor } _ hroom _).mpr (.inl rfl)

variable {line : ℤ → List Char} {ids : List ℤ}

/-- A scan under way is not disturbed by the hooks. -/
theorem Underway.hook {s : Discovery} (h : s.Underway line ids) {m : Monitor}
    (hm : HookStep s.monitor m) : ({ s with monitor := m } : Discovery).Underway line ids := by
  intro id hid
  rw [Discovery.tracked, hm.targetTidMap]
  exact h id hid

/-- The scan takes the ids in for which a line is made a target. -/
theorem Underway.nextLine {s : Discovery} (h : s.Underway line ids) (hsound : s.Sound)
    (hids : ∀ id ∈ s.known, IsPid id) (hsub : ids ⊆ s.known) (hfits : s.Fits)
    (htarget : ∀ id ∈ ids, ∀ scan : TargetScan,
      scan.scanLine rootPid isDescendantOrSelf (line id) = scan.target id) :
    (s.nextLine rootPid isDescendantOrSelf).Underway line ids := by
  cases hpending : s.pending with
  | nil =>
    rw [nextLine_of_nil hpending]
    exact h
  | cons first pending =>
    intro id hid
    -- the line is of one announced id, perhaps of this one
    obtain ⟨other, hother, hnames⟩ := hsound.pending first (hpending ▸ List.mem_cons_self ..)
    have hnext := @nextLine_of_names rootPid isDescendantOrSelf _ _ _ _ hpending
      (hids other hother) hnames
    rcases h id hid with htracked | hmem
    · rcases hnext with heq | heq
      · rw [heq]
        exact .inl htracked
      · rw [heq]
        exact .inl (Monitor.mem_targetTidMap_addTidToBpfMap htracked)
    · rcases List.mem_cons.mp (hpending ▸ hmem) with rfl | hmem
      · refine .inl ?_
        simp only [Discovery.tracked, Discovery.nextLine, hpending, htarget id hid]
        exact mem_tracked_addTid hsound hfits (hsub hid)
      · rcases hnext with heq | heq
        · rw [heq]
          exact .inr hmem
        · rw [heq]
          exact .inr hmem

/-- No step disturbs a scan under way: each of its ids is tracked already or on a line still to be
    read. -/
theorem Underway.step {s : Discovery} (h : s.Underway line ids) (hsound : s.Sound)
    (hids : ∀ id ∈ s.known, IsPid id) (hsub : ids ⊆ s.known) (hfits : s.Fits)
    (st : DiscoveryStep)
    (htarget : ∀ isDescendantOrSelf, st = .nextLine isDescendantOrSelf → ∀ id ∈ ids,
      ∀ scan : TargetScan,
        scan.scanLine rootPid isDescendantOrSelf (line id) = scan.target id) :
    (s.step lib rootPid st).Underway line ids := by
  cases st with
  | message frames =>
    obtain ⟨hmonitor, hpending⟩ := @message_monitor lib s frames
    intro id hid
    simp only [Discovery.step, Discovery.tracked, hmonitor, hpending]
    exact h id hid
  | openFile rewriting =>
    simp only [Discovery.step, Discovery.openFile]
    split
    · -- a new scan starts, and none was under way
      next hidle =>
      intro id hid
      rcases h id hid with htracked | hmem
      · exact .inl htracked
      · rw [hidle] at hmem
        cases hmem
    · exact h
  | nextLine isDescendantOrSelf => exact h.nextLine hsound hids hsub hfits (htarget _ rfl)
  | schedWakeup pid now => exact h.hook (hookStep_traceWakeupCommon ..)
  | schedWakeupNew pid now => exact h.hook (hookStep_traceWakeupCommon ..)
  | schedSwitch prevPid prevState nextPid now reserved =>
    exact h.hook ((hookStep_switchOut ..).trans (hookStep_switchIn ..))

/-! ## Runs -/

/-- No run takes away what is known or tracked. -/
theorem keeps_foldl (steps : List DiscoveryStep) (s : Discovery) :
    Keeps s (steps.foldl (step lib rootPid) s) := by
  induction steps generalizing s with
  | nil => exact .refl s
  | cons st steps ih => exact (keeps_step s st).trans (ih _)

/-- What was known before a run is known after it. -/
theorem known_foldl (steps : List DiscoveryStep) (s : Discovery) :
    s.known ⊆ (steps.foldl (step lib rootPid) s).known := (keeps_foldl steps s).known

/-- What some steps announce is announced by more steps. -/
theorem announced_mono {steps steps' : List DiscoveryStep} (hsub : steps ⊆ steps') {id : ℤ}
    (h : Announced lib steps id) : Announced lib steps' id := by
  obtain ⟨frames, hmem, hannounces⟩ := h
  exact ⟨frames, hsub hmem, hannounces⟩

/-- All that is known has been announced. -/
theorem announced_of_mem_known (steps : List DiscoveryStep) :
    ∀ id ∈ (run lib rootPid steps).known, Announced lib steps id := by
  induction steps using List.reverseRecOn with
  | nil => simp [run, known]
  | append_singleton steps st ih =>
    intro id hid
    rw [run, List.foldl_concat] at hid
    -- known before the step, or announced by it
    rcases known_step_cases _ st hid with hid | hannounced
    · exact announced_mono (List.subset_append_left ..) (ih id hid)
    · exact announced_mono (List.subset_append_right ..) hannounced

/-- The collector is running as long as no message has raised. -/
theorem alive_run (steps : List DiscoveryStep)
    (h : ∀ frames, .message frames ∈ steps → ¬Raises lib frames) :
    (run lib rootPid steps).alive = true := by
  induction steps using List.reverseRecOn with
  | nil => rfl
  | append_singleton steps st ih =>
    rw [run, List.foldl_concat]
    -- no message of the run raises
    refine alive_step (ih fun frames hmem => h frames (List.mem_append_left _ hmem)) ?_
    rintro frames rfl
    exact h frames (by simp)

/-- What a message announces to a running collector is known after it, for good. -/
theorem known_of_announces {earlier later : List DiscoveryStep} {frames : List ByteArray}
    (h : ∀ frames', .message frames' ∈ earlier → ¬Raises lib frames') :
    let s := run lib rootPid (earlier ++ .message frames :: later)
    (∀ pid, AnnouncesPid lib frames pid → pid ∈ s.collector.knownWorkerPids) ∧
      ∀ tid, AnnouncesTid lib frames tid → tid ∈ s.collector.knownExactTids := by
  intro s
  have hs : s = later.foldl (step lib rootPid)
      ((run lib rootPid earlier).message lib frames) := List.foldl_append
  -- nothing has raised before, so the collector runs and learns what is announced
  have hlearns := @learns_message lib _ (@alive_run rootPid lib earlier h) frames
  have hkeeps := @keeps_foldl rootPid lib later ((run lib rootPid earlier).message lib frames)
  rw [hs]
  exact ⟨fun pid hpid => hkeeps.pids ((hlearns.pids pid).mpr (.inr hpid)),
    fun tid htid => hkeeps.tids ((hlearns.tids tid).mpr (.inr htid))⟩

/-- Every run keeps the state sound. -/
theorem Sound.foldl (steps : List DiscoveryStep) {s : Discovery} (h : s.Sound)
    (hids : ∀ id ∈ (steps.foldl (Discovery.step lib rootPid) s).known, IsPid id) :
    (steps.foldl (Discovery.step lib rootPid) s).Sound := by
  induction steps generalizing s with
  | nil => exact h
  | cons st steps ih =>
    exact ih (h.step (fun id hid => hids id (known_foldl (st :: steps) s hid)) st) hids

/-- A scan under way stays under way over any further steps. -/
theorem Underway.foldl (steps : List DiscoveryStep) {s : Discovery}
    (h : s.Underway line ids) (hsound : s.Sound) (hsub : ids ⊆ s.known)
    (hids : ∀ id ∈ (steps.foldl (Discovery.step lib rootPid) s).known, IsPid id)
    (hfits : (steps.foldl (Discovery.step lib rootPid) s).Fits)
    (htarget : ∀ isDescendantOrSelf, .nextLine isDescendantOrSelf ∈ steps → ∀ id ∈ ids,
      ∀ scan : TargetScan,
        scan.scanLine rootPid isDescendantOrSelf (line id) = scan.target id) :
    (steps.foldl (Discovery.step lib rootPid) s).Underway line ids := by
  induction steps generalizing s with
  | nil => exact h
  | cons st steps ih =>
    -- what is known only grows, so the bounds at the end hold here too
    have hnow : ∀ id ∈ s.known, IsPid id := fun id hid =>
      hids id (known_foldl (st :: steps) s hid)
    have hstep : (s.step lib rootPid st).Underway line ids :=
      h.step hsound hnow hsub (hfits.of_subset (known_foldl (st :: steps) s)) st
        fun desc heq => htarget desc (heq ▸ List.mem_cons_self ..)
    exact ih hstep (hsound.step hnow st) (fun _ hx => (keeps_step s st).known (hsub hx)) hids hfits
      fun desc hmem => htarget desc (List.mem_cons_of_mem _ hmem)

/-- A scan that has found the file written and is through has added all the threads that were
    known when it began, and those of the known processes that belong to the root process. -/
theorem tracked_of_known (before after : List DiscoveryStep)
    (hidle : (run lib rootPid before).pending = [])
    (hids : ∀ id ∈ (run lib rootPid (before ++ .openFile false :: after)).known, IsPid id)
    (hfits : (run lib rootPid (before ++ .openFile false :: after)).Fits) :
    let start := run lib rootPid before
    let s := run lib rootPid (before ++ .openFile false :: after)
    s.pending = [] →
      (∀ tid ∈ start.collector.knownExactTids, UInt32.ofInt tid ∈ s.tracked) ∧
      ∀ pid ∈ start.collector.knownWorkerPids,
        (0 < rootPid → ∀ isDescendantOrSelf, .nextLine isDescendantOrSelf ∈ after →
          isDescendantOrSelf pid) →
        UInt32.ofInt pid ∈ s.tracked := by
  intro start s
  have hids : ∀ id ∈ s.known, IsPid id := hids
  have hfits : s.Fits := hfits
  have hs : s = (DiscoveryStep.openFile false :: after).foldl (step lib rootPid)
      start := List.foldl_append
  have hsub : start.known ⊆ s.known := hs ▸ known_foldl _ start
  have hstartids : ∀ id ∈ start.known, IsPid id := fun id hid => hids id (hsub hid)
  have hstartsound : start.Sound := sound_empty.foldl before hstartids
  have hopen : (start.openFile false).pending =
      fgetsLines 127 start.collector.targetFile := by
    simp only [openFile, start, hidle, if_true, Bool.false_eq_true, if_false]
  obtain ⟨-, hpidLines, htidLines⟩ :=
    fgetsLines_targetFile hstartsound.persisted hstartids
  -- ids whose lines are made targets whenever they are treated
  have hscan : ∀ (line : ℤ → List Char) (ids : List ℤ), ids ⊆ start.known →
      (∀ id ∈ ids, line id ∈ fgetsLines 127 start.collector.targetFile) →
      (∀ isDescendantOrSelf, .nextLine isDescendantOrSelf ∈ after → ∀ id ∈ ids,
        ∀ scan : TargetScan,
          scan.scanLine rootPid isDescendantOrSelf (line id) = scan.target id) →
      s.pending = [] → ∀ id ∈ ids, UInt32.ofInt id ∈ s.tracked := by
    intro line ids hmem hlines htarget hdone id hid
    have hunder : (start.step lib rootPid (.openFile false)).Underway line ids :=
      fun id hid => .inr (hopen ▸ hlines id hid)
    have hend := hunder.foldl after (hstartsound.step hstartids _)
      (fun _ hx => (keeps_step start (.openFile false)).known (hmem hx)) (hs ▸ hids)
      (hs ▸ hfits) htarget
    rcases hend id hid with htracked | hpending
    · rw [hs]
      exact htracked
    · rw [hs, List.foldl_cons] at hdone
      rw [hdone] at hpending
      cases hpending
  refine fun hdone => ⟨?_, ?_⟩
  · refine hscan tidLine _ (List.subset_append_right ..) htidLines ?_ hdone
    intro desc _ tid htid scan
    exact scanLine_tidLine (hstartids tid (List.mem_append_right _ htid)) scan
  · intro pid hpid hroot
    have hmem : pid ∈ start.known := List.mem_append_left _ hpid
    refine hscan pidLine [pid] (by simpa using hmem)
      (by simpa using hpidLines pid hpid) ?_ hdone pid (List.mem_singleton_self _)
    intro desc hdesc id hid scan
    rw [List.mem_singleton.mp hid, scanLine_pidLine (hstartids pid hmem), if_neg]
    intro hnot
    exact hnot.2 (hroot hnot.1 desc hdesc)

/-- Ids that are in a set of few are few as thread ids, too. -/
theorem fits_of_encard_le {s : Discovery} {ids : Set ℤ} (hids : ∀ id ∈ s.known, id ∈ ids)
    (hroom : ids.encard ≤ maxEntries) : s.Fits := by
  -- every known id is one of the announced ones
  have himage : ((s.known.map UInt32.ofInt).toFinset : Set UInt32) ⊆ UInt32.ofInt '' ids := by
    intro x hx
    obtain ⟨id, hid, rfl⟩ := List.mem_map.mp (List.mem_toFinset.mp (Finset.mem_coe.mp hx))
    exact ⟨id, hids id hid, rfl⟩
  have hcard : ((s.known.map UInt32.ofInt).toFinset.card : ℕ∞) ≤ (maxEntries : ℕ) :=
    calc ((s.known.map UInt32.ofInt).toFinset.card : ℕ∞)
        = ((s.known.map UInt32.ofInt).toFinset : Set UInt32).encard :=
          (Set.encard_coe_eq_coe_finsetCard _).symm
      _ ≤ (UInt32.ofInt '' ids).encard := Set.encard_le_encard himage
      _ ≤ ids.encard := Set.encard_image_le _ _
      _ ≤ (maxEntries : ℕ) := hroom
  exact_mod_cast hcard

end Discovery

/-- The message that a worker is ready has come in. -/
def readySteps : List DiscoveryStep := [.message [workerReadyFrame]]

/-- How the collector takes the ready message: as one frame with its payload inside. -/
theorem handleFrames_workerReady (c : Collector) :
    c.handleFrames (plainJson [workerReady]) true [workerReadyFrame] =
      c.handleMessage (plainJson [workerReady]) true (.dict workerReady)
        (.value (.dict [("pid", .int 100)]))
        (some (plainText [','] [':'] (.dict workerReady))) :=
  handleFrames_one rfl

/-- Before the file is opened the monitor has no line to read. -/
theorem pending_readySteps :
    (Discovery.run (plainJson [workerReady]) 50 readySteps).pending = [] := by
  simp only [Discovery.run, readySteps, List.foldl_cons, List.foldl_nil, Discovery.step,
    Discovery.message, handleFrames_workerReady]
  rfl

/-- The ready frame is a message that names the worker's process. -/
theorem messageIs_workerReady : MessageIs (plainJson [workerReady]) [workerReadyFrame]
    workerReady (.value (.dict [("pid", .int 100)])) := by
  refine ⟨?_, rfl⟩
  rw [workerReadyFrame, decodeUtf8_encodeUtf8]
  rfl

/-- It announces the process 100, and nothing else. -/
theorem announces_workerReady :
    (∀ pid, AnnouncesPid (plainJson [workerReady]) [workerReadyFrame] pid ↔ pid = 100) ∧
      ∀ tid, ¬AnnouncesTid (plainJson [workerReady]) [workerReadyFrame] tid := by
  -- the two readers evaluated on this message
  have hpid : extractWorkerPid (sourceOf workerReady) (.dict workerReady)
      (.value (.dict [("pid", .int 100)])) = .ok (some 100) := rfl
  have htid : extractExactTid (sourceOf workerReady) (.dict workerReady)
      (.value (.dict [("pid", .int 100)])) = .ok none := rfl
  constructor
  · intro pid
    rw [announcesPid_iff messageIs_workerReady, hpid, Except.ok.injEq, Option.some.injEq, eq_comm]
  · intro tid h
    rw [announcesTid_iff messageIs_workerReady, htid] at h
    cases h

/-- The scan that finds it, a child of the root process. -/
def readyScan : List DiscoveryStep := [.nextLine fun pid => decide (pid = 100)]

/-- After the scan no line is left. -/
theorem pending_readyScan :
    (Discovery.run (plainJson [workerReady]) 50
      (readySteps ++ .openFile false :: readyScan)).pending = [] := by
  simp only [Discovery.run, readySteps, readyScan, List.cons_append, List.nil_append,
    List.foldl_cons, List.foldl_nil, Discovery.step, Discovery.message, handleFrames_workerReady]
  rfl

end DeLatency
