import DeLatency.Spec.CollectorLoop
import DeLatency.Spec.Framing
import Mathlib.Data.List.Induction

/-!
# The way of an event

An event is framed by its producer, logged by the collector and read by the converter.  Each
event that is carried becomes one line of the log, from which the same event is unpacked
(`SentEvent.exists_messageOutcome`), so the converter reads from the file what the socket has
accepted, in that order, but for what the collector has not yet treated or saved.
-/

namespace DeLatency

/-- An event and its producer. -/
structure SentEvent where
  producer : Producer
  eventType : PyStr
  payload : List (PyStr × PyValue)

namespace SentEvent

/-- The message of an event, `none` when its producer drops it. -/
def frames (lib : JsonLib) (e : SentEvent) : Option (List ByteArray) :=
  e.producer.frames lib e.eventType e.payload

/-- The event is one that the collector keeps and the libraries carry. -/
structure WellSent (lib : JsonLib) (e : SentEvent) : Prop where
  carries : lib.Carries e.producer e.eventType e.payload
  payload_ne_nil : e.payload ≠ []
  source : e.producer.source ∈ traceSources
  hashable : ¬RoleRaises e.producer.source e.eventType e.payload
  encodes : ¬EncodingRaises lib e.producer e.eventType e.payload

/-- The converter takes the event out of an entry of the log. -/
def UnpackedFrom (e : SentEvent) (entry : PyValue) : Prop :=
  ∃ parts, unpackEntry entry = .ok parts ∧ parts.src = .str e.producer.source ∧
    parts.etype = .str e.eventType ∧ parts.payload = .dict e.payload

variable {lib : JsonLib} {e : SentEvent} {message : List ByteArray}

/-- The event becomes one line, which is read as the event. -/
theorem exists_messageOutcome (h : e.WellSent lib) (hmessage : e.frames lib = some message) :
    ∃ line entry, messageOutcome lib message = .ok (line ++ ['\n'], true) ∧
      (∀ ch ∈ line, isNewline ch = false) ∧ loadLine lib line = some entry ∧
      e.UnpackedFrom entry := by
  -- the event was sent
  obtain ⟨hnone, -⟩ | ⟨sent, hsent, hdecodes⟩ := frames_cases h.carries
  · rw [frames, hnone] at hmessage
    cases hmessage
  obtain rfl := Option.some.inj (hsent.symm.trans hmessage)
  -- neither exception can come of a well sent event
  obtain ⟨hraises, -⟩ | ⟨hraises, -⟩ | ⟨-, -, c', line, entry, parts, hc', hline, hlog, hload,
      hparts⟩ := event_cases h.carries h.payload_ne_nil h.source hdecodes true {}
  · exact absurd hraises h.hashable
  · exact absurd hraises h.encodes
  · refine ⟨line, entry, ?_, hline, hload, parts, hparts⟩
    rw [messageOutcome, hc', Except.map, hlog]
    rfl

/-- A well sent event makes the collector raise nothing. -/
theorem not_raises (h : e.WellSent lib) (hmessage : e.frames lib = some message) :
    ¬Raises lib message := by
  rintro ⟨error, herror⟩
  obtain ⟨line, entry, hok, -⟩ := exists_messageOutcome h hmessage
  rw [herror] at hok
  cases hok

/-- It is counted. -/
theorem counted_frames (h : e.WellSent lib) (hmessage : e.frames lib = some message) :
    counted lib message = true := by
  obtain ⟨line, entry, hok, -⟩ := exists_messageOutcome h hmessage
  rw [counted, hok]

/-- The log of some events is read as these events. -/
theorem loadLogLines_logOf {sent : List SentEvent} (h : ∀ e ∈ sent, e.WellSent lib)
    {messages : List (List ByteArray)} (hmessages : messages.map some = sent.map (frames lib)) :
    ∃ log : LogText, log.text = logOf lib messages ∧
      List.Forall₂ (fun entry e => e.UnpackedFrom entry) (loadLogLines lib log.text) sent := by
  induction sent using List.reverseRecOn generalizing messages with
  | nil =>
    obtain rfl := List.map_eq_nil_iff.mp hmessages
    refine ⟨LogText.empty, rfl, ?_⟩
    have hnone : loadLogLines lib LogText.empty.text = [] := by
      simp [loadLogLines, LogText.empty, loadLine_nil]
    rw [hnone]
    exact .nil
  | append_singleton sent e ih =>
    -- the last message is that of the last event
    rw [List.map_append, List.map_singleton] at hmessages
    obtain ⟨first, last, rfl, hfirst, hlast⟩ := List.map_eq_append_iff.mp hmessages
    obtain ⟨message, rfl, hmessage⟩ := List.map_eq_singleton_iff.mp hlast
    obtain ⟨log, htext, hread⟩ := ih (fun e he => h e (List.mem_append_left _ he)) hfirst
    obtain ⟨line, entry, hok, hline, hload, hentry⟩ :=
      exists_messageOutcome (h e (List.mem_append_right _ (List.mem_singleton_self e)))
        hmessage.symm
    refine ⟨log.writeLine line, ?_, ?_⟩
    · have htextOf : messageText lib message = line ++ ['\n'] := by rw [messageText, hok]
      rw [logOf, List.flatMap_append, List.flatMap_singleton, htextOf]
      exact congrArg (· ++ (line ++ ['\n'])) htext
    · rw [loadLogLines_writeLine lib log hline, hload]
      exact List.rel_append hread (.cons hentry .nil)

end SentEvent

/-- End to end, for any run of the collector that has accepted the messages of some events: the
    collector has not failed, and what the converter reads from the file are these events, in
    order, without the last ones, of which there are less than one flush's worth more than wait in
    the socket.  If the collector has stopped, all of them are read. -/
theorem loadLogLines_file (lib : JsonLib) (logFlushEvery : ℕ+) (events : List LoopEvent)
    {sent : List SentEvent} (hsent : ∀ e ∈ sent, e.WellSent lib)
    (haccepted : (CollectorLoop.run lib logFlushEvery events).accepted.map some =
      sent.map (SentEvent.frames lib)) :
    let s := CollectorLoop.run lib logFlushEvery events
    s.status ≠ .raised ∧ ∃ saved rest, sent = saved ++ rest ∧
      List.Forall₂ (fun entry e => e.UnpackedFrom entry) (loadLogLines lib s.file) saved ∧
      rest.length < s.queue.length + logFlushEvery ∧ (s.status = .stopped → rest = []) := by
  intro s
  obtain ⟨saved, unsaved, h⟩ := exists_loopInv lib logFlushEvery events
  have hall : ∀ f ∈ s.accepted, ¬Raises lib f ∧ counted lib f = true := by
    intro f hf
    obtain ⟨e, he, hframes⟩ := List.mem_map.mp (haccepted ▸ List.mem_map_of_mem (f := some) hf)
    exact ⟨SentEvent.not_raises (hsent e he) hframes,
      SentEvent.counted_frames (hsent e he) hframes⟩
  have hraised : s.status ≠ .raised := by
    intro hstatus
    obtain ⟨-, bad, hbad, hsplit⟩ := h.raised hstatus
    refine (hall bad ?_).1 hbad
    rw [hsplit]
    simp
  refine ⟨hraised, ?_⟩
  -- what has been treated are the first messages
  have hsplit : s.accepted = saved ++ (unsaved ++ s.queue) := by
    cases hstatus : s.status with
    | running => rw [(h.running hstatus).1, List.append_assoc]
    | stopped =>
      obtain ⟨hacc, hunsaved, hqueue, -⟩ := h.stopped hstatus
      rw [hacc, hunsaved, hqueue, List.append_nil, List.append_nil]
    | raised => exact absurd hstatus hraised
  rw [hsplit] at hall
  rw [hsplit, List.map_append] at haccepted
  obtain ⟨first, rest, rfl, hfirst, hrest⟩ := List.map_eq_append_iff.mp haccepted.symm
  obtain ⟨log, htext, hread⟩ :=
    SentEvent.loadLogLines_logOf (fun e he => hsent e (List.mem_append_left _ he)) hfirst.symm
  refine ⟨first, rest, rfl, ?_, ?_, ?_⟩
  · rw [htext] at hread
    have hfile : s.file = logOf lib saved := h.file
    rwa [hfile]
  · have hcount : unsaved.countP (counted lib) = unsaved.length :=
      List.countP_eq_length.mpr fun f hf =>
        (hall f (List.mem_append_right _ (List.mem_append_left _ hf))).2
    have hlength : rest.length = unsaved.length + s.queue.length := by
      rw [← List.length_map (SentEvent.frames lib), hrest, List.length_map, List.length_append]
    have hlt := h.countP_lt
    omega
  · intro hstatus
    obtain ⟨-, hunsaved, hqueue, -⟩ := h.stopped hstatus
    have hnone : unsaved ++ s.queue = [] := by
      rw [hunsaved, List.nil_append]
      exact hqueue
    rw [hnone, List.map_nil] at hrest
    exact List.map_eq_nil_iff.mp hrest

/-- The event of a worker. -/
def forwardEvent : SentEvent where
  producer := .sendEvent "monkey_patch" []
  eventType := "gpu_forward_start"
  payload := forwardStart

/-- Its message. -/
def forwardMessage (lib : JsonLib) : List ByteArray :=
  [encodeUtf8 (lib.dumps .sendJson (.dict (withPayload
    (makeMetadata "monkey_patch" "gpu_forward_start" []) forwardStart)))]

/-- It arrives and is treated, and the collector is stopped. -/
def workerRun (lib : JsonLib) : List LoopEvent :=
  [.arrive (forwardMessage lib), .turn true, .stopSignal, .turn true]

/-- What two workers send and the collector writes is what the converter loads. -/
theorem loadLogLines_workerRun :
    let lib := patchJson "gpu_forward_start" forwardStart
    ∃ entry, loadLogLines lib (CollectorLoop.run lib 1 (workerRun lib)).file = [entry] ∧
      forwardEvent.UnpackedFrom entry := by
  intro lib
  have hsent : forwardEvent.WellSent lib :=
    ⟨carries_forwardStart, by simp [forwardEvent, forwardStart], by decide,
      fun h => absurd h.2.1 (by decide), fun h => absurd h.2 (by decide)⟩
  have hmessage : forwardEvent.frames lib = some (forwardMessage lib) := rfl
  obtain ⟨line, -, hok, -⟩ := SentEvent.exists_messageOutcome hsent hmessage
  -- the collector keeps the line, so that the interval of one line flushes it
  obtain ⟨⟨c, kept⟩, hc, hkept⟩ : ∃ r, ({} : Collector).handleFrames lib true
      (forwardMessage lib) = .ok r ∧ r.2 = true := by
    unfold messageOutcome at hok
    cases hr : ({} : Collector).handleFrames lib true (forwardMessage lib) with
    | error e =>
      rw [hr] at hok
      cases hok
    | ok r =>
      rw [hr] at hok
      exact ⟨r, rfl, congrArg Prod.snd (Except.ok.inj hok)⟩
  obtain rfl : kept = true := hkept
  have hrun : (CollectorLoop.run lib 1 (workerRun lib)).accepted = [forwardMessage lib] ∧
      (CollectorLoop.run lib 1 (workerRun lib)).status = .stopped := by
    simp [CollectorLoop.run, workerRun, CollectorLoop.step, CollectorLoop.turn, hc,
      CollectorLoop.countWritten, CollectorLoop.flush]
  obtain ⟨-, saved, rest, hsplit, hread, -, hrest⟩ := loadLogLines_file lib 1 (workerRun lib)
    (List.forall_mem_singleton.mpr hsent) (by rw [hrun.1, List.map_singleton, ← hmessage]; rfl)
  obtain rfl := hrest hrun.2
  rw [List.append_nil] at hsplit
  rw [← hsplit] at hread
  obtain ⟨entry, others, hentry, hnil, heq⟩ := List.forall₂_cons_right_iff.mp hread
  rw [List.forall₂_nil_right_iff.mp hnil] at heq
  exact ⟨entry, heq, hentry⟩

end DeLatency
