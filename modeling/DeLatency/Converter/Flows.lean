import DeLatency.Converter.Trace

/-!
# Flow arrows

An arrow is a pair of flow events with one id.  The arrows between the stages of a pipeline
come first, those from calls to their work on the GPU follow.
-/

namespace DeLatency

/-- The two events of an arrow between stages. -/
def FlowArrow.flowEvents (arrow : FlowArrow) : List FlowEvent :=
  [{ ph := .start, tsNs := arrow.send.tsNs, pid := arrow.send.pid, tid := arrow.send.tid,
     id := arrow.flowId },
    { ph := .finish, tsNs := arrow.recv.tsNs, pid := arrow.recv.pid, tid := arrow.recv.tid,
      id := arrow.flowId }]

def TraceEvent.flowEvent : TraceEvent → Option FlowEvent
  | .flow ev => some ev
  | _ => none

/-- The flow events of a trace. -/
def traceFlows (log : Log) : Except PyError (List FlowEvent) := do
  let workerEvents ← sortWorkerEvents log.workerEvents
  let dispatchSlices := generatedDispatchSlices workerEvents
  let cupti ← processCupti dispatchSlices log.cuptiMessages
  return (ppCommArrows dispatchSlices log.ppCommEvents).flatMap FlowArrow.flowEvents ++
    cupti.events.filterMap TraceEvent.flowEvent

end DeLatency
