import DeLatency.Collector.Frames
import DeLatency.Collector.Loop
import DeLatency.Collector.Producers
import DeLatency.Control.Descendants
import DeLatency.Control.Main
import DeLatency.Control.StateCodec
import DeLatency.Control.StateFile
import DeLatency.Control.TraceCtl
import DeLatency.Control.WorkerPids
import DeLatency.Converter.Breakdown
import DeLatency.Converter.Clocks
import DeLatency.Converter.Coroutine
import DeLatency.Converter.Cupti
import DeLatency.Converter.Dispatch
import DeLatency.Converter.Export
import DeLatency.Converter.Flows
import DeLatency.Converter.Intervals
import DeLatency.Converter.Lanes
import DeLatency.Converter.Lifecycle
import DeLatency.Converter.Log
import DeLatency.Converter.LogFile
import DeLatency.Converter.Nudge
import DeLatency.Converter.OsDelay
import DeLatency.Converter.PpComm
import DeLatency.Converter.PpGap
import DeLatency.Converter.Queue
import DeLatency.Converter.Trace
import DeLatency.Converter.TraceEvent
import DeLatency.Converter.Tracks
import DeLatency.Converter.Value
import DeLatency.Converter.WallComponents
import DeLatency.Converter.Worker
import DeLatency.ForStd.AsciiJson
import DeLatency.ForStd.BoundedMap
import DeLatency.ForStd.CText
import DeLatency.ForStd.Dict
import DeLatency.ForStd.ExceptLoop
import DeLatency.ForStd.FirstFit
import DeLatency.ForStd.FirstSeen
import DeLatency.ForStd.Gaps
import DeLatency.ForStd.Intervals
import DeLatency.ForStd.Json
import DeLatency.ForStd.Keyed
import DeLatency.ForStd.Laminar
import DeLatency.ForStd.ListExtra
import DeLatency.ForStd.Numbering
import DeLatency.ForStd.RoundSig
import DeLatency.ForStd.RunningMax
import DeLatency.ForStd.SortBy
import DeLatency.ForStd.Sweep
import DeLatency.ForStd.Worklist
import DeLatency.Monitor.Discovery
import DeLatency.Monitor.Message
import DeLatency.Monitor.ProcessTree
import DeLatency.Monitor.SchedLatency
import DeLatency.Monitor.TargetFile
import DeLatency.Patch.EngineCore
import DeLatency.Patch.EventLoop
import DeLatency.Patch.Generate
import DeLatency.Patch.GpuExec
import DeLatency.Patch.OutputHandler
import DeLatency.Patch.OutputTasks
import DeLatency.Patch.RequestContext
import DeLatency.Patch.Runtime
import DeLatency.Patch.SchedulerOutput
import DeLatency.Patch.SchedulerPatch
import DeLatency.Patch.TensorPayload
import DeLatency.Spec.Announcements
import DeLatency.Spec.BadMessage
import DeLatency.Spec.Breakdown
import DeLatency.Spec.CollectorLoop
import DeLatency.Spec.CompletePairing
import DeLatency.Spec.Coroutine
import DeLatency.Spec.CoroutinePairing
import DeLatency.Spec.Correlation
import DeLatency.Spec.Cupti
import DeLatency.Spec.CuptiConvert
import DeLatency.Spec.CuptiOff
import DeLatency.Spec.CuptiTurns
import DeLatency.Spec.Discovery
import DeLatency.Spec.Dispatch
import DeLatency.Spec.DispatchKey
import DeLatency.Spec.EngineCore
import DeLatency.Spec.EngineEvents
import DeLatency.Spec.EventLoop
import DeLatency.Spec.EventPath
import DeLatency.Spec.Export
import DeLatency.Spec.Flows
import DeLatency.Spec.Framing
import DeLatency.Spec.Generate
import DeLatency.Spec.GpuExec
import DeLatency.Spec.GpuSpans
import DeLatency.Spec.GroupedTracks
import DeLatency.Spec.HandlerTask
import DeLatency.Spec.Intervals
import DeLatency.Spec.Lanes
import DeLatency.Spec.LossyPairing
import DeLatency.Spec.MainCleanup
import DeLatency.Spec.Message
import DeLatency.Spec.Monitor
import DeLatency.Spec.MonitorSafety
import DeLatency.Spec.MonitorWait
import DeLatency.Spec.Normalisation
import DeLatency.Spec.Nudge
import DeLatency.Spec.Origin
import DeLatency.Spec.OsDelay
import DeLatency.Spec.OutputHandler
import DeLatency.Spec.OutputSocket
import DeLatency.Spec.PatchFork
import DeLatency.Spec.PhaseSource
import DeLatency.Spec.PpComm
import DeLatency.Spec.PpCommContext
import DeLatency.Spec.PpGap
import DeLatency.Spec.Preempt
import DeLatency.Spec.ProcessTree
import DeLatency.Spec.PyText
import DeLatency.Spec.Queue
import DeLatency.Spec.ReqSpans
import DeLatency.Spec.RequestContext
import DeLatency.Spec.ServedOutputs
import DeLatency.Spec.SliceStarts
import DeLatency.Spec.StateCodec
import DeLatency.Spec.StateFile
import DeLatency.Spec.StepPairing
import DeLatency.Spec.TargetFile
import DeLatency.Spec.TensorPayload
import DeLatency.Spec.Times
import DeLatency.Spec.Tpot
import DeLatency.Spec.TraceCtl
import DeLatency.Spec.Tracks
import DeLatency.Spec.TransferSource
import DeLatency.Spec.Ttft
import DeLatency.Spec.Uptime
import DeLatency.Spec.WallComponents
import DeLatency.Spec.WallSegments
import DeLatency.Spec.WorkerOnce
import DeLatency.Spec.WorkerTracks
import DeLatency.Tracer.Correlation
import DeLatency.Tracer.Cupti
import DeLatency.Tracer.Record
