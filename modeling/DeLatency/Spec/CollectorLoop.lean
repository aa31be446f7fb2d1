import DeLatency.Collector.Loop
import DeLatency.Spec.Framing

/-!
# What gets to the log

What a message adds to the log does not depend on what was there before (`map_handleFrames`).
So the log is at any time the lines of the messages taken from the socket, in the order in
which they came, and of these the file lacks less than one flush's worth
(`collectorLoop_run`).  When the collector has stopped, it lacks nothing: every message that
was accepted is in the file.  A message that raises ends it, and the file has the lines of all
those before.
-/

namespace DeLatency

variable (lib : JsonLib)

/-! ## One message -/

/-- What a message adds to the log, and whether it is counted. -/
def messageOutcome (frames : List ByteArray) : Except PyError (List Char × Bool) :=
  (({} : Collector).handleFrames lib true frames).map fun r => (r.1.log.text, r.2)

/-- What a raw line adds to a log does not depend on the log. -/
theorem text_logRawJsonLine (log : LogText) (line : List Char) :
    (log.logRawJsonLine line).text = log.text ++ (LogText.empty.logRawJsonLine line).text := by
  unfold LogText.logRawJsonLine
  split <;> rfl

/-- What a message adds to a log does not depend on the log. -/
theorem text_logMessage (log : LogText) (src : PyStr) (metadata : PyValue)
    (payload : FramePayload) (rawLine : Option (List Char)) :
    (log.logMessage lib src metadata payload rawLine).text =
      log.text ++ (LogText.empty.logMessage lib src metadata payload rawLine).text := by
  unfold LogText.logMessage
  split
  · exact text_logRawJsonLine log _
  · rfl

/-- The known ids have no influence on what a message writes or answers. -/
theorem map_handleMessage (c : Collector) (writeOk : Bool) (metadata : PyValue)
    (payload : FramePayload) (rawLine : Option (List Char)) :
    (c.handleMessage lib writeOk metadata payload rawLine).map
        (fun r => (r.1.log.text, r.2)) =
      ((({} : Collector).handleMessage lib true metadata payload rawLine).map
        fun r => (r.1.log.text, r.2)).map fun o => (c.log.text ++ o.1, o.2) := by
  unfold Collector.handleMessage
  cases getSrc metadata with
  | error e => rfl
  | ok src =>
    -- an exception of one of the readers leaves nothing to compare
    cases hpid : extractWorkerPid src metadata payload with
    | error e => simp [bind, Except.bind, hpid, Except.map]
    | ok pid =>
      cases htid : extractExactTid src metadata payload with
      | error e => simp [bind, Except.bind, hpid, htid, Except.map]
      | ok tid =>
        simp only [bind, Except.bind, hpid, htid, pure, Except.pure]
        -- logged, raised while logging, or not logged
        split_ifs
        · simp only [Except.map, log_persistExactTid, log_persistWorkerPid]
          rw [text_logMessage]
        · rfl
        · simp only [Except.map, log_persistExactTid, log_persistWorkerPid, LogText.empty,
            List.append_nil]

/-- A message does the same to any log. -/
theorem map_handleFrames (c : Collector) (writeOk : Bool) (frames : List ByteArray) :
    (c.handleFrames lib writeOk frames).map (fun r => (r.1.log.text, r.2)) =
      (messageOutcome lib frames).map fun o => (c.log.text ++ o.1, o.2) := by
  -- a message that is skipped adds nothing, whatever was logged before
  have hskip : ∀ c : Collector, (Except.ok (c.log.text, false) : Except PyError _) =
      Except.map (fun o : List Char × Bool => (c.log.text ++ o.1, o.2))
        (.ok (({} : Collector).log.text, false)) := fun c => by simp [Except.map, LogText.empty]
  unfold messageOutcome Collector.handleFrames
  split
  · exact hskip c
  · split
    · exact hskip c
    · split
      · exact hskip c
      · split
        · rename_i metadata _ _
          cases hpay : metadata.get "payload" with
          | error e => simp only [bind, Except.bind, Except.map]
          | ok payload => exact map_handleMessage lib c writeOk metadata (.value payload) _
        · exact map_handleMessage lib c writeOk _ _ _
        · exact hskip c

/-- What a message has added to the log, nothing if it raised. -/
def messageText (frames : List ByteArray) : List Char :=
  match messageOutcome lib frames with
  | .ok (text, _) => text
  | .error _ => []

/-- Whether a message is counted as written. -/
def counted (frames : List ByteArray) : Bool :=
  match messageOutcome lib frames with
  | .ok (_, kept) => kept
  | .error _ => false

/-- A message that ends the collector. -/
def Raises (frames : List ByteArray) : Prop := ∃ e, messageOutcome lib frames = .error e

/-- The log of some messages. -/
def logOf (messages : List (List ByteArray)) : List Char := messages.flatMap (messageText lib)

variable {lib} {c c' : Collector} {writeOk kept : Bool} {frames : List ByteArray}

/-- A call that returns has added the text of the message, and counts it as the message says. -/
theorem handleFrames_ok (h : c.handleFrames lib writeOk frames = .ok (c', kept)) :
    c'.log.text = c.log.text ++ messageText lib frames ∧ kept = counted lib frames ∧
      ¬Raises lib frames := by
  -- the outcome from an empty log says what is added to any other
  have hmap := map_handleFrames lib c writeOk frames
  rw [h] at hmap
  cases hout : messageOutcome lib frames with
  | error e =>
    rw [hout] at hmap
    cases hmap
  | ok outcome =>
    obtain ⟨text, kept'⟩ := outcome
    rw [hout] at hmap
    obtain ⟨htext, rfl⟩ := Prod.mk.inj (Except.ok.inj hmap)
    refine ⟨by simpa only [messageText, hout] using htext, by simp only [counted, hout], ?_⟩
    rintro ⟨e, he⟩
    rw [hout] at he
    cases he

/-- A call that raises has met a message that raises. -/
theorem handleFrames_error {e : PyError} (h : c.handleFrames lib writeOk frames = .error e) :
    Raises lib frames := by
  -- whether it raises does not depend on the collector's state
  have hmap := map_handleFrames lib c writeOk frames
  rw [h] at hmap
  cases hout : messageOutcome lib frames with
  | error e' => exact ⟨e', hout⟩
  | ok outcome =>
    rw [hout] at hmap
    cases hmap

/-! ## The invariant -/

/-- The messages `saved` and `unsaved` have been treated, in this order, and the lines of the
    first are in the file. -/
structure LoopInv (lib : JsonLib) (logFlushEvery : ℕ+) (s : CollectorLoop)
    (saved unsaved : List (List ByteArray)) : Prop where
  noneRaises : ∀ frames ∈ saved ++ unsaved, ¬Raises lib frames
  log : s.collector.log.text = logOf lib (saved ++ unsaved)
  file : s.file = logOf lib saved
  written : s.written = (saved ++ unsaved).countP (counted lib)
  running : s.status = .running →
    s.accepted = saved ++ unsaved ++ s.queue ∧
      unsaved.countP (counted lib) = s.written % (logFlushEvery : ℕ)
  stopped : s.status = .stopped →
    s.accepted = saved ∧ unsaved = [] ∧ s.queue = [] ∧ s.stopRequested = true
  raised : s.status = .raised →
    unsaved = [] ∧ ∃ bad, Raises lib bad ∧ s.accepted = saved ++ bad :: s.queue

/-- A remainder that does not come round grows by one. -/
theorem succ_mod_eq {n k : ℕ} (h : (k + 1) % n ≠ 0) : (k + 1) % n = k % n + 1 := by
  rcases Nat.eq_zero_or_pos n with rfl | hpos
  · simp
  · have hlt : k % n + 1 ≤ n := Nat.mod_lt k hpos
    have hmod : (k + 1) % n = (k % n + 1) % n := by rw [Nat.mod_add_mod]
    rcases hlt.lt_or_eq with hlt | heq
    · rw [hmod, Nat.mod_eq_of_lt hlt]
    · exact absurd (by rw [hmod, heq, Nat.mod_self]) h

namespace LoopInv

variable {logFlushEvery : ℕ+} {s : CollectorLoop} {saved unsaved : List (List ByteArray)}

/-- The last message is logged after the others. -/
theorem logOf_concat (messages : List (List ByteArray)) (frames : List ByteArray) :
    logOf lib (messages ++ [frames]) = logOf lib messages ++ messageText lib frames := by
  simp [logOf]

/-- Less than one flush's worth is missing. -/
theorem countP_lt (h : LoopInv lib logFlushEvery s saved unsaved) :
    unsaved.countP (counted lib) < logFlushEvery := by
  cases hstatus : s.status with
  -- the file is flushed at every multiple of the interval
  | running =>
    rw [(h.running hstatus).2]
    exact Nat.mod_lt _ logFlushEvery.pos
  -- nothing is unsaved after the end
  | stopped =>
    rw [(h.stopped hstatus).2.1]
    exact logFlushEvery.pos
  | raised =>
    rw [(h.raised hstatus).1]
    exact logFlushEvery.pos

/-- A message is taken and treated. -/
theorem treat (h : LoopInv lib logFlushEvery s saved unsaved) (hrun : s.status = .running)
    {queue : List (List ByteArray)} (hqueue : s.queue = frames :: queue)
    (hok : s.collector.handleFrames lib writeOk frames = .ok (c', kept)) :
    ∃ saved' unsaved',
      LoopInv lib logFlushEvery (s.turn lib logFlushEvery writeOk) saved' unsaved' := by
  obtain ⟨haccepted, hcount⟩ := h.running hrun
  obtain ⟨hlog, hkept, hraises⟩ := handleFrames_ok hok
  have hnone : ∀ f ∈ saved ++ (unsaved ++ [frames]), ¬Raises lib f := by
    intro f hf
    rw [← List.append_assoc] at hf
    rcases List.mem_append.mp hf with hf | hf
    · exact h.noneRaises f hf
    · obtain rfl := List.mem_singleton.mp hf
      exact hraises
  have htext : c'.log.text = logOf lib (saved ++ (unsaved ++ [frames])) := by
    rw [hlog, h.log, ← List.append_assoc, logOf_concat]
  have hacc : s.accepted = saved ++ (unsaved ++ [frames]) ++ queue := by
    rw [haccepted, hqueue]
    simp
  cases kept with
  | false =>
    -- nothing is counted and nothing flushed
    have hturn : s.turn lib logFlushEvery writeOk = { s with queue, collector := c' } := by
      simp [CollectorLoop.turn, hqueue, hok]
    rw [hturn]
    refine ⟨saved, unsaved ++ [frames], hnone, htext, h.file, ?_, fun _ => ⟨hacc, ?_⟩, ?_, ?_⟩
    · simp [h.written, ← hkept]
    · simp [hcount, ← hkept]
    · simp [hrun]
    · simp [hrun]
  | true =>
    have hwritten : s.written + 1 = (saved ++ (unsaved ++ [frames])).countP (counted lib) := by
      simp [h.written, ← hkept, add_assoc]
    by_cases hflush : (s.written + 1) % (logFlushEvery : ℕ) = 0
    · have hturn : s.turn lib logFlushEvery writeOk =
          { s with queue, collector := c', written := s.written + 1, file := c'.log.text } := by
        simp [CollectorLoop.turn, hqueue, hok, CollectorLoop.countWritten, hflush,
          CollectorLoop.flush]
      rw [hturn]
      refine ⟨saved ++ (unsaved ++ [frames]), [], by simpa using hnone, by simpa using htext,
        htext, by simpa using hwritten, fun _ => ⟨by simpa using hacc, ?_⟩, ?_, ?_⟩
      · simp [hflush]
      · simp [hrun]
      · simp [hrun]
    · have hturn : s.turn lib logFlushEvery writeOk =
          { s with queue, collector := c', written := s.written + 1 } := by
        simp [CollectorLoop.turn, hqueue, hok, CollectorLoop.countWritten, hflush]
      rw [hturn]
      refine ⟨saved, unsaved ++ [frames], hnone, htext, h.file, hwritten, fun _ => ⟨hacc, ?_⟩,
        ?_, ?_⟩
      · simp [hcount, ← hkept, succ_mod_eq hflush]
      · simp [hrun]
      · simp [hrun]

/-- A turn of the loop treats the next message, or stops. -/
theorem turn (h : LoopInv lib logFlushEvery s saved unsaved) (hrun : s.status = .running)
    (writeOk : Bool) :
    ∃ saved' unsaved',
      LoopInv lib logFlushEvery (s.turn lib logFlushEvery writeOk) saved' unsaved' := by
  obtain ⟨haccepted, -⟩ := h.running hrun
  cases hqueue : s.queue with
  | nil =>
    rw [hqueue, List.append_nil] at haccepted
    -- nothing to receive: the loop polls again, or stops if it was told to
    cases hstop : s.stopRequested with
    | false =>
      have hturn : s.turn lib logFlushEvery writeOk = s := by
        simp [CollectorLoop.turn, hqueue, hstop]
      rw [hturn]
      exact ⟨saved, unsaved, h⟩
    | true =>
      have hturn : s.turn lib logFlushEvery writeOk = { s.flush with status := .stopped } := by
        simp [CollectorLoop.turn, hqueue, hstop]
      rw [hturn]
      exact ⟨saved ++ unsaved, [], by simpa using h.noneRaises,
        by simpa [CollectorLoop.flush] using h.log, h.log,
        by simpa [CollectorLoop.flush] using h.written, nofun,
        fun _ => ⟨haccepted, rfl, hqueue, hstop⟩, nofun⟩
  | cons frames queue =>
    cases hhandle : s.collector.handleFrames lib writeOk frames with
    | ok result => exact h.treat hrun hqueue hhandle
    | error e =>
      -- the loop ends with the exception, after a last flush
      have hturn : s.turn lib logFlushEvery writeOk =
          { s.flush with queue, status := .raised } := by
        simp [CollectorLoop.turn, hqueue, hhandle]
      rw [hturn]
      refine ⟨saved ++ unsaved, [], by simpa using h.noneRaises,
        by simpa [CollectorLoop.flush] using h.log, h.log,
        by simpa [CollectorLoop.flush] using h.written, nofun, nofun,
        fun _ => ⟨rfl, frames, handleFrames_error hhandle, ?_⟩⟩
      rw [← hqueue]
      exact haccepted

/-- A signal or an arrival leaves the log as it is, and a turn goes on. -/
theorem step (h : LoopInv lib logFlushEvery s saved unsaved) (ev : LoopEvent) :
    ∃ saved' unsaved',
      LoopInv lib logFlushEvery (s.step lib logFlushEvery ev) saved' unsaved' := by
  unfold CollectorLoop.step
  split
  · next hrun =>
    cases ev with
    -- a message joins the end of the queue
    | arrive frames =>
      refine ⟨saved, unsaved, h.noneRaises, h.log, h.file, h.written, fun _ => ⟨?_, ?_⟩, ?_, ?_⟩
      · show s.accepted ++ [frames] = saved ++ unsaved ++ (s.queue ++ [frames])
        rw [(h.running hrun).1, List.append_assoc]
      · exact (h.running hrun).2
      · simp [hrun]
      · simp [hrun]
    | stopSignal =>
      refine ⟨saved, unsaved, h.noneRaises, h.log, h.file, h.written, h.running, ?_, ?_⟩
      · simp [hrun]
      · simp [hrun]
    | turn writeOk => exact h.turn hrun writeOk
  · -- a loop that has ended does nothing more
    exact ⟨saved, unsaved, h⟩

/-- The loop begins with nothing. -/
theorem init : LoopInv lib logFlushEvery {} [] [] where
  noneRaises := by simp
  log := rfl
  file := rfl
  written := rfl
  running := fun _ => ⟨rfl, by simp⟩
  stopped := nofun
  raised := nofun

end LoopInv

/-- At every point of a run the messages are saved, unsaved or waiting. -/
theorem exists_loopInv (lib : JsonLib) (logFlushEvery : ℕ+) (events : List LoopEvent) :
    ∃ saved unsaved,
      LoopInv lib logFlushEvery (CollectorLoop.run lib logFlushEvery events) saved unsaved :=
  List.foldlRecOn (motive := fun s => ∃ saved unsaved, LoopInv lib logFlushEvery s saved unsaved)
    events _ ⟨[], [], LoopInv.init⟩ fun _ ⟨_, _, h⟩ ev _ => h.step ev

/-- In any run, the messages that have been treated, `saved` and `unsaved`, are the first of
    those that the socket has accepted; the log is their lines in order, and the file has the
    lines of all but the `unsaved`, which are less than one flush's worth.  A collector that has
    stopped has treated and saved all that was accepted; one that has raised has saved all that
    came before the message that raised. -/
theorem collectorLoop_run (lib : JsonLib) (logFlushEvery : ℕ+) (events : List LoopEvent) :
    let s := CollectorLoop.run lib logFlushEvery events
    ∃ saved unsaved,
      s.collector.log.text = logOf lib (saved ++ unsaved) ∧
      s.file = logOf lib saved ∧
      s.written = (saved ++ unsaved).countP (counted lib) ∧
      unsaved.countP (counted lib) < logFlushEvery ∧
      match s.status with
      | .running => s.accepted = saved ++ unsaved ++ s.queue
      | .stopped => s.accepted = saved ∧ unsaved = [] ∧ s.stopRequested = true
      | .raised => unsaved = [] ∧ ∃ bad, Raises lib bad ∧ s.accepted = saved ++ bad :: s.queue := by
  intro s
  -- the invariant holds after every run; each status reads one of its fields
  obtain ⟨saved, unsaved, h⟩ := exists_loopInv lib logFlushEvery events
  refine ⟨saved, unsaved, h.log, h.file, h.written, h.countP_lt, ?_⟩
  cases hstatus : s.status with
  | running => exact (h.running hstatus).1
  | stopped =>
    obtain ⟨haccepted, hunsaved, -, hstop⟩ := h.stopped hstatus
    exact ⟨haccepted, hunsaved, hstop⟩
  | raised => exact h.raised hstatus

end DeLatency
