import DeLatency.Collector.Frames
import Mathlib.Data.PNat.Basic

/-!
# The loop of the collector

The loop takes one message after the other from the socket.  What it writes goes to a
buffer, which is written to the file every so many messages and when the file is closed.  A
signal asks the collector to stop, which it does once the socket has been idle for the length
of a timeout.

The socket accepts messages at any time while it is open.
-/

namespace DeLatency

/-- Whether the loop goes on; it ends after a signal or with an exception. -/
inductive LoopStatus
  | running
  | stopped
  | raised
deriving DecidableEq

/-- The process: what is waiting in the socket, `_stop_requested`, `written`, and how much of
    the log has got to the file.  `accepted` is ghost: all that the socket has accepted. -/
structure CollectorLoop where
  queue : List (List ByteArray) := []
  stopRequested : Bool := false
  collector : Collector := {}
  written : ℕ := 0
  file : List Char := []
  status : LoopStatus := .running
  accepted : List (List ByteArray) := []

/-- What happens to the process. -/
inductive LoopEvent
  | arrive (frames : List ByteArray)
  /-- `_handle_stop_signal` -/
  | stopSignal
  /-- A turn of the loop; `writeOk` is whether the target file can be written. -/
  | turn (writeOk : Bool)

namespace CollectorLoop

/-- `log_file.flush()`, also as the file is closed. -/
def flush (s : CollectorLoop) : CollectorLoop := { s with file := s.collector.log.text }

variable (lib : JsonLib) (logFlushEvery : ℕ+)

/-- What follows a message that was written to the log. -/
def countWritten (s : CollectorLoop) : CollectorLoop :=
  let s := { s with written := s.written + 1 }
  if s.written % (logFlushEvery : ℕ) = 0 then s.flush else s

def turn (s : CollectorLoop) (writeOk : Bool) : CollectorLoop :=
  match s.queue with
  -- `zmq.Again`
  | [] => if s.stopRequested then { s.flush with status := .stopped } else s
  | frames :: queue =>
    match s.collector.handleFrames lib writeOk frames with
    | .ok (collector, kept) =>
      let s := { s with queue, collector }
      if kept then s.countWritten logFlushEvery else s
    -- the exception closes the file on its way out
    | .error _ => { s.flush with queue, status := .raised }

def step (s : CollectorLoop) (ev : LoopEvent) : CollectorLoop :=
  if s.status = .running then
    match ev with
    | .arrive frames =>
      { s with queue := s.queue ++ [frames], accepted := s.accepted ++ [frames] }
    | .stopSignal => { s with stopRequested := true }
    | .turn writeOk => s.turn lib logFlushEvery writeOk
  else s

def run (events : List LoopEvent) : CollectorLoop :=
  events.foldl (step lib logFlushEvery) {}

end CollectorLoop

end DeLatency
