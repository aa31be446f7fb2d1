import DeLatency.ForStd.Json
import DeLatency.Monitor.Message

/-!
# What the messages of the monitor say

The buffer holds the text of every event, and the text is a JSON object from which the
event can be read back (`parse_handleEvent`).  The duration is printed in nanoseconds
under a name that says microseconds, so the two agree for an empty wait only
(`describesWait_iff`).
-/

namespace DeLatency

/-- A message is the whole text of an event, and its payload decodes to the event, the
    duration in whole microseconds. -/
structure DescribesWait (e : LatencyEvent) (msg : List Char) : Prop where
  whole : msg = e.format
  payload : ∃ message payload reason, Json.parse msg = some message ∧
    message.field? "payload" = some payload ∧
    payload.field? "tid" = some (.int e.tid.toNat) ∧
    payload.field? "start_ns" = some (.int e.startNs.toNat) ∧
    payload.field? "end_ns" = some (.int e.endNs.toNat) ∧
    payload.field? "dur_us" = some (.int ((e.endNs.toNat - e.startNs.toNat : ℤ) / 1000)) ∧
    payload.field? "reason" = some (.str reason) ∧
    (reason = "Wakeup".toList ↔ e.type = 0)

/-! ## Length -/

/-- A 64-bit number is printed in at most twenty digits. -/
theorem length_formatLlu_le (n : UInt64) : (formatLlu n).length ≤ 20 :=
  (Nat.length_toDigits_le_iff (by decide) (by decide)).mpr (by have := n.toNat_lt; omega)

/-- A 32-bit number is printed in at most ten digits. -/
theorem length_formatU_le (n : UInt32) : (formatU n).length ≤ 10 :=
  (Nat.length_toDigits_le_iff (by decide) (by decide)).mpr (by have := n.toNat_lt; omega)

/-- The reason has at most seven letters. -/
theorem length_reason_le (e : LatencyEvent) : e.reason.length ≤ 7 := by
  unfold LatencyEvent.reason
  split <;> decide

/-- The widest text has less than half the room of the buffer. -/
theorem length_format_lt (e : LatencyEvent) : e.format.length < sizeofMsg := by
  -- each field has its longest text
  have h1 := length_formatLlu_le e.startNs
  have h2 := length_formatLlu_le e.endNs
  have h3 := length_formatLlu_le (e.endNs - e.startNs)
  have h4 := length_formatU_le e.tid
  have h5 := length_reason_le e
  unfold LatencyEvent.format sizeofMsg
  simp only [List.length_append]
  simp
  omega

/-- Every event is sent as a whole. -/
theorem handleEvent_eq (e : LatencyEvent) : handleEvent sizeofEventData e = some e.format := by
  have hlen := length_format_lt e
  unfold handleEvent CText.snprintf
  simp only [ne_eq, not_true_eq_false, if_false, if_neg (not_le.mpr hlen)]
  rw [List.take_take, min_eq_left (by omega), List.take_length]

/-! ## Decoding -/

/-- What the text says; the duration is that of the wait in nanoseconds. -/
def LatencyEvent.json (e : LatencyEvent) : Json :=
  .obj [
    ("source".toList, .str "ebpf".toList),
    ("event_type".toList, .str "sched_latency".toList),
    ("timestamp".toList, .int e.endNs.toNat),
    ("payload".toList, .obj [
      ("tid".toList, .int e.tid.toNat),
      ("start_ns".toList, .int e.startNs.toNat),
      ("end_ns".toList, .int e.endNs.toNat),
      -- nanoseconds, whatever the key says
      ("dur_us".toList, .int (e.endNs - e.startNs).toNat),
      ("reason".toList, .str e.reason)])]

/-- A number that is not negative is printed by its digits. -/
theorem decimal_natCast (n : ℕ) : CText.decimal n = Nat.toDigits 10 n :=
  CText.decimal_of_nonneg (Int.natCast_nonneg n)

/-- The printed message is the rendering of a JSON object. -/
theorem format_eq_render (e : LatencyEvent) : e.format = e.json.render := by
  unfold LatencyEvent.format LatencyEvent.json formatLlu formatU
  simp [Json.render, Json.renderFields, Json.quote, decimal_natCast]

/-- The reason needs no escape. -/
theorem reason_plain (e : LatencyEvent) : ∀ c ∈ e.reason, Json.isPlain c = true := by
  unfold LatencyEvent.reason
  split
  · decide
  · decide

/-- Nothing in the message needs an escape. -/
theorem json_plain (e : LatencyEvent) : Json.Plain e.json := by
  have hreason := reason_plain e
  refine ⟨by decide, ?_, by decide, ?_, by decide, trivial, by decide, ?_, trivial⟩
  · show ∀ c ∈ "ebpf".toList, Json.isPlain c = true
    decide
  · show ∀ c ∈ "sched_latency".toList, Json.isPlain c = true
    decide
  · exact ⟨by decide, trivial, by decide, trivial, by decide, trivial, by decide, trivial,
      by decide, hreason, trivial⟩

/-- Every message decodes to its event. -/
theorem parse_format (e : LatencyEvent) : Json.parse e.format = some e.json := by
  rw [format_eq_render, Json.parse_render (json_plain e)]

/-- The reason tells the two types apart. -/
theorem reason_eq_iff (e : LatencyEvent) : e.reason = "Wakeup".toList ↔ e.type = 0 := by
  unfold LatencyEvent.reason
  split
  · next h => exact iff_of_true rfl h
  · next h => exact iff_of_false (by decide) h

/-- A duration that is printed in nanoseconds is one in microseconds for an empty wait only. -/
theorem describesWait_format_iff {e : LatencyEvent} (hle : e.startNs ≤ e.endNs) :
    DescribesWait e e.format ↔ e.startNs = e.endNs := by
  have hsub : (e.endNs - e.startNs).toNat = e.endNs.toNat - e.startNs.toNat :=
    UInt64.toNat_sub_of_le _ _ hle
  have hle' : e.startNs.toNat ≤ e.endNs.toNat := UInt64.le_iff_toNat_le.mp hle
  rw [← UInt64.toNat_inj]
  constructor
  · intro h
    obtain ⟨message, payload, reason, hparse, hpayload, -, -, -, hdur, -⟩ := h.payload
    rw [parse_format] at hparse
    cases hparse
    cases hpayload
    -- the field counts nanoseconds where its name says microseconds
    have hns : (Json.int (e.endNs - e.startNs).toNat) =
        .int ((e.endNs.toNat - e.startNs.toNat : ℤ) / 1000) := Option.some.inj hdur
    have heq := Json.int.inj hns
    omega
  · intro h
    refine ⟨rfl, e.json, _, e.reason, parse_format e, rfl, rfl, rfl, rfl, ?_, rfl, reason_eq_iff e⟩
    show some (Json.int _) = some (Json.int _)
    congr 2
    omega

/-- The message of an event with `start_ns <= end_ns` is sent whole and decodes to the
    event exactly when the wait is empty. -/
theorem describesWait_iff (e : LatencyEvent) (hle : e.startNs ≤ e.endNs) :
    (∃ msg, handleEvent sizeofEventData e = some msg ∧ DescribesWait e msg) ↔
      e.startNs = e.endNs := by
  -- the message is always sent, so only its text matters
  rw [handleEvent_eq, ← describesWait_format_iff hle]
  constructor
  · intro h
    obtain ⟨msg, hmsg, hdesc⟩ := h
    cases hmsg
    exact hdesc
  · intro h
    exact ⟨e.format, rfl, h⟩

/-- A wait of two microseconds. -/
def twoMicroseconds : LatencyEvent where
  startNs := 1000000
  endNs := 1002000
  tid := 4242
  type := 0

/-- The message for a wait of two microseconds. -/
theorem describesWait_iff_twoMicroseconds :
    (∃ msg, handleEvent sizeofEventData twoMicroseconds = some msg ∧
      DescribesWait twoMicroseconds msg) ↔ twoMicroseconds.startNs = twoMicroseconds.endNs :=
  describesWait_iff twoMicroseconds (by decide)

/-- Its message says 2000. -/
theorem not_describesWait_twoMicroseconds :
    ¬∃ msg, handleEvent sizeofEventData twoMicroseconds = some msg ∧
      DescribesWait twoMicroseconds msg := by
  intro h
  obtain ⟨msg, hmsg, hdesc⟩ := h
  rw [handleEvent_eq] at hmsg
  cases hmsg
  have heq := (describesWait_format_iff (by decide)).mp hdesc
  exact absurd heq (by decide)

end DeLatency
