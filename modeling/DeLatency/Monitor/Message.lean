import DeLatency.ForStd.CText
import DeLatency.Monitor.SchedLatency

/-!
# Messages of the monitor

The user-space side of the monitor formats each event of the ring buffer as a JSON text
and sends it to the collector.
-/

namespace DeLatency

/-- `sizeof(struct event_data)`, with the padding at its end. -/
def sizeofEventData : ℕ := 24

/-- `sizeof(msg)`. -/
def sizeofMsg : ℕ := 512

/-- `printf("%llu")`. -/
def formatLlu (n : UInt64) : List Char := Nat.toDigits 10 n.toNat

/-- `printf("%u")`. -/
def formatU (n : UInt32) : List Char := Nat.toDigits 10 n.toNat

/-- `reason`. -/
def LatencyEvent.reason (e : LatencyEvent) : List Char :=
  if e.type = 0 then "Wakeup".toList else "Preempt".toList

/-- The text that `snprintf` formats. -/
def LatencyEvent.format (e : LatencyEvent) : List Char :=
  "\x7b\"source\":\"ebpf\",\"event_type\":\"sched_latency\",\"timestamp\":".toList ++
    formatLlu e.endNs ++
    ",\"payload\":\x7b\"tid\":".toList ++ formatU e.tid ++
    ",\"start_ns\":".toList ++ formatLlu e.startNs ++
    ",\"end_ns\":".toList ++ formatLlu e.endNs ++
    ",\"dur_us\":".toList ++ formatLlu (e.endNs - e.startNs) ++
    ",\"reason\":\"".toList ++ e.reason ++ "\"\x7d\x7d".toList

/-- `handle_event`: what it sends, if the record has the size of an event. -/
def handleEvent (dataSz : ℕ) (e : LatencyEvent) : Option (List Char) :=
  if dataSz ≠ sizeofEventData then none
  else
    let (msg, len) := CText.snprintf sizeofMsg e.format
    let len := if sizeofMsg ≤ len then sizeofMsg - 1 else len
    some (msg.take len)

end DeLatency
