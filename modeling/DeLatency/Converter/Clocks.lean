import DeLatency.Converter.Log
import DeLatency.ForStd.Dict
import DeLatency.ForStd.SortBy

/-!
# From the monotonic clock to the wall clock

The eBPF monitor reports times of the monotonic clock.  A `thread_role` event carries both
clocks, and so does a worker execute span, which is sent right at its end.  The median of
the differences is taken as the distance of the two clocks, for each thread and for all of
them; the request metrics are the last resort.
-/

namespace DeLatency

/-- `median_int`. -/
def medianInt (values : List ℤ) : Option ℤ :=
  if values = [] then none
  else
    let vals := values.sortBy id
    let mid := vals.length / 2
    if vals.length % 2 = 1 then some (vals.getD mid 0)
    else some ((vals.getD (mid - 1) 0 + vals.getD mid 0) / 2)

/-- One sample: by how much the wall clock is ahead. -/
def clockOffset (wallTsNs monoTsNs : Option ℤ) : Option ℤ :=
  match wallTsNs.bind toNsInt, monoTsNs.bind toNsInt with
  | some wallNs, some monoNs => if monoNs < wallNs then some (wallNs - monoNs) else none
  | _, _ => none

/-! ## Threads -/

def Log.threadRoleEvents (log : Log) : List ThreadRoleEvent :=
  log.filterMap fun entry => match entry.event with
    | .threadRole ev => some { ev with timestampNs := ev.timestampNs <|> entry.timestampNs }
    | _ => none

/-- The thread and the role of an event that is not skipped. -/
def threadRole (ev : ThreadRoleEvent) : Option (ℤ × String) :=
  match ev.tid, ev.role with
  | some tid, some role => if role = "" then none else some (tid, role)
  | _, _ => none

/-- `eventloop_thread_tids`. -/
def eventloopThreadTids (log : Log) : List ℤ :=
  (((log.threadRoleEvents.filterMap threadRole).filter
    fun entry => entry.2 = "asyncio_eventloop").map Prod.fst).dedup

/-- `thread_mono_to_wall_offsets`. -/
def threadMonoToWallOffsets (log : Log) : Dict ℤ (List ℤ) :=
  Dict.empty.pushAll (log.threadRoleEvents.filterMap fun ev =>
    match threadRole ev, clockOffset ev.timestampNs ev.monoTimestampNs with
    | some (tid, _), some offset => some (tid, offset)
    | _, _ => none)

/-- `thread_mono_to_wall_offset_by_tid`. -/
def threadMonoToWallOffsetByTid (log : Log) : Dict ℤ ℤ :=
  (threadMonoToWallOffsets log).filterMap fun _ offsets => medianInt offsets

/-! ## The whole log -/

/-- `worker_span_mono_to_wall_offsets`. -/
def workerSpanMonoToWallOffsets (log : Log) : List ℤ :=
  log.filterMap fun entry => match entry.event with
    | .executeModelSpan ev => clockOffset entry.timestampNs ev.endNs
    | _ => none

/-- `req_metric_mono_to_wall_offsets`. -/
def reqMetricMonoToWallOffsets (log : Log) : List ℤ :=
  log.reqMetricEvents.filterMap fun item =>
    let batchMonoNs := (item.reqEvents.flatMap (·.events)).filterMap fun ev =>
      (toNs ev.ts).filter (· ≠ 0)
    match (item.batchTsNs.bind toNsInt).filter (· ≠ 0), batchMonoNs.max? with
    | some batchTsNs, some lastNs => some (batchTsNs - lastNs)
    | _, _ => none

/-- `global_mono_to_wall_offset`. -/
def globalMonoToWallOffset (log : Log) : Option ℤ :=
  let explicitOffsets :=
    (threadMonoToWallOffsetByTid log).values ++ workerSpanMonoToWallOffsets log
  if explicitOffsets ≠ [] then medianInt explicitOffsets
  else medianInt (reqMetricMonoToWallOffsets log)

/-- The offset for a thread: its own, or that of the log. -/
def monoToWallOffset (log : Log) (tid : ℤ) : Option ℤ :=
  (threadMonoToWallOffsetByTid log).get? tid <|> globalMonoToWallOffset log

end DeLatency
