import DeLatency.Converter.Log
import DeLatency.ForStd.Keyed
import DeLatency.ForStd.SortBy
import Mathlib.Data.List.Infix

/-!
# Dispatch pairing

Every `req_scheduler_out_rpc` opens a dispatch for each request it lists and
every `req_step_ready` closes one.  The starts that are still open form one
queue per request; a step-ready event first looks for a start with its own
`dispatch_key` and otherwise takes the oldest one.

The maps of `process_logs` that are indexed by a request are kept here as one
record per request (`ReqDispatch`).  `Occurrence` fields are ghost: they name
the place in the log an entry comes from, and nothing computed reads them.
-/

namespace DeLatency

/-! ## Engine-core events -/

inductive ReqEventKind
  | dequeue
  | preempt
  | enqueue
deriving DecidableEq

/-- `sub in s`. -/
def hasSubstring (s : List Char) (sub : String) : Bool := decide (sub.toList <:+: s)

/-- The letters outside ASCII whose upper case has ASCII letters. -/
def asciiUpper : List (ℕ × String) :=
  [(0xdf, "SS"), (0x131, "I"), (0x149, "\u02bcN"), (0x17f, "S"), (0x1f0, "J\u030c"),
    (0x1e96, "H\u0331"), (0x1e97, "T\u0308"), (0x1e98, "W\u030a"), (0x1e99, "Y\u030a"),
    (0x1e9a, "A\u02be"), (0xfb00, "FF"), (0xfb01, "FI"), (0xfb02, "FL"), (0xfb03, "FFI"),
    (0xfb04, "FFL"), (0xfb05, "ST"), (0xfb06, "ST")]

/-- `c.upper()`, to be compared with ASCII texts. -/
def upperChar (c : Char) : List Char :=
  match asciiUpper.lookup c.toNat with
  | some upper => upper.toList
  | none => [c.toUpper]

/-- `normalize_req_event_type`. -/
def normalizeReqEventType : Option String → Option ReqEventKind
  | none => none
  | some rawType =>
    let s := strip rawType
    let up := s.toList.flatMap upperChar
    -- `QUEUE` is part of `DEQUEUE`, so the order of the tests matters
    if s = "2" || hasSubstring up "DEQUEUE" || hasSubstring up "SCHEDULED" ||
        hasSubstring up "DISPATCH" then some .dequeue
    else if s = "3" || hasSubstring up "PREEMPT" then some .preempt
    else if s = "1" || hasSubstring up "QUEUE" || hasSubstring up "ENQUEUE" then some .enqueue
    else none

/-- `phase_hint_queue_by_req[rid]` and `req_preempt_ts_by_req[rid]`. -/
structure EngineHints where
  phases : List Phase := []
  preemptTs : List ℤ := []

/-- The loop over the events of one update; the first dequeue ends it. -/
def scanEngineEvents : List EngineEvent → EngineHints → EngineHints
  | [], hints => hints
  | ev :: rest, hints =>
    let evType := normalizeReqEventType ev.type
    let evTsNs := toNs (ev.ts.or ev.timestampNs)
    let hints := match evTsNs with
      | some ts => if evType = some .preempt
          then { hints with preemptTs := hints.preemptTs ++ [ts] } else hints
      | none => hints
    if evType ≠ some .dequeue then scanEngineEvents rest hints
    -- the loop breaks at a dequeue, whether or not it carries a phase
    else match explicitPhase ev.phase with
      | some phase => { hints with phases := hints.phases ++ [phase] }
      | none => hints

/-- The extraction loop over all `req_metrics_events`, in order of batch time. -/
def extractEngineHints (events : List ReqMetricEvent) : String → EngineHints :=
  let sorted := events.sortBy fun x => ((x.batchTsNs.bind toNsInt).getD 0)
  sorted.foldl (fun st item =>
    item.reqEvents.foldl (fun st update =>
      match update.reqId with
      | none => st
      -- a blank id is skipped like a missing one
      | some rid => if rid = "" then st
          else Keyed.modify st rid (scanEngineEvents update.events)) st)
    fun _ => {}

/-! ## Pairing -/

/-- The `index`-th request listed by the `event`-th scheduler event. -/
structure Occurrence where
  event : ℕ
  index : ℕ
deriving DecidableEq

/-- A dispatch key that is present and not empty. -/
def truthyKey (key : Option String) : Option String := key.filter (· ≠ "")

/-- `a or b` on dispatch keys. -/
def orKey (a b : Option String) : Option String := if (truthyKey a).isSome then a else b

/-- An open start in `pending_dispatch_start[rid]`. -/
structure PendingStart where
  startNs : ℤ
  dispatchKey : Option String
  batchReqIds : List String
  src : Occurrence
deriving DecidableEq

/-- An entry of `req_dispatch_intervals_map[rid]`. -/
structure DispatchInterval where
  startNs : ℤ
  endNs : ℤ
  phase : Phase
  durationNs : ℤ
  dispatchKey : Option String
  batchReqIds : List String
  outSrc : Occurrence
  readySrc : Occurrence
deriving DecidableEq

/-- The window of a dispatch. -/
def DispatchInterval.window (d : DispatchInterval) : ℤ × ℤ := (d.startNs, d.endNs)

/-- The per-request slices of the pairing maps. -/
structure ReqDispatch where
  pending : List PendingStart := []
  hints : List Phase := []
  intervals : List DispatchInterval := []
  phaseNs : Phase → ℤ := fun _ => 0
  phaseCount : Phase → ℕ := fun _ => 0

/-- `_pop_dispatch_start_for_ready`: the start taken and the queue left. -/
def popDispatchStartForReady (queue : List PendingStart) (dispatchKey : Option String) :
    Option PendingStart × List PendingStart :=
  match queue with
  | [] => (none, [])
  | oldest :: younger =>
    match truthyKey dispatchKey with
    | some key =>
      match (oldest :: younger).find? fun item => item.dispatchKey = some key with
      | some item =>
        (some item, (oldest :: younger).eraseP fun item => item.dispatchKey = some key)
      -- no open start has the key
      | none => (some oldest, younger)
    -- the step-ready event carries no key
    | none => (some oldest, younger)

/-- The phase of a closing dispatch and the hints left: an explicit phase wins
    and uses up an equal hint, otherwise the next hint is taken. -/
def choosePhase (explicit : Option Phase) (hints : List Phase) : Phase × List Phase :=
  match explicit with
  | some phase => (phase, if hints.head? = some phase then hints.tail else hints)
  | none => match hints with
    | hint :: rest => (hint, rest)
    | [] => (.unknown, [])

/-- What an out-rpc event does to one request it lists. -/
def openDispatch (start : PendingStart) (st : ReqDispatch) : ReqDispatch :=
  { st with pending := st.pending ++ [start] }

/-- What a step-ready event does to one request it lists. -/
def closeDispatch (tsNs : ℤ) (readyDispatchKey : Option String) (explicit : Option Phase)
    (readySrc : Occurrence) (st : ReqDispatch) : ReqDispatch :=
  match popDispatchStartForReady st.pending readyDispatchKey with
  | (none, _) => st
  | (some startItem, pending) =>
    -- a start that is not earlier is dropped, and no hint is used up
    if tsNs ≤ startItem.startNs then { st with pending := pending }
    else
      let (phase, hints) := choosePhase explicit st.hints
      let durNs := tsNs - startItem.startNs
      { pending := pending
        hints := hints
        intervals := st.intervals ++ [{
          startNs := startItem.startNs
          endNs := tsNs
          phase := phase
          durationNs := durNs
          dispatchKey := orKey readyDispatchKey startItem.dispatchKey
          batchReqIds := startItem.batchReqIds
          outSrc := startItem.src
          readySrc := readySrc }]
        phaseNs := Function.update st.phaseNs phase (st.phaseNs phase + durNs)
        phaseCount := Function.update st.phaseCount phase (st.phaseCount phase + 1) }

/-- What the `index`-th listed request of an event does to that request's state. -/
def pairOccurrence (ev : SchedulerEvent) (tsNs : ℤ) (src : Occurrence) (rid : String) :
    ReqDispatch → ReqDispatch :=
  match ev.type with
  -- enqueues are read by another pass
  | .reqEnqueueScheduler => id
  | .reqSchedulerOutRpc => openDispatch {
      startNs := tsNs
      dispatchKey := ev.dispatchKey
      batchReqIds := ev.reqIds
      src := src }
  | .reqStepReady =>
      closeDispatch tsNs ev.dispatchKey (explicitPhase (ev.phaseByReq.lookup rid)) src

/-- One turn of the pairing loop, on the event and its place in the log. -/
def pairEvent (st : String → ReqDispatch) (item : SchedulerEvent × ℕ) : String → ReqDispatch :=
  match item.1.timestampNs.bind toNsInt with
  | none => st
  | some tsNs => item.1.reqIds.zipIdx.foldl (fun st r =>
      if r.1 = "" then st
      -- a request listed twice takes two turns
      else Keyed.modify st r.1 (pairOccurrence item.1 tsNs ⟨item.2, r.2⟩ r.1)) st

/-- `scheduler_events_sorted`, each event with its place in the log. -/
def sortSchedulerEvents (events : List SchedulerEvent) : List (SchedulerEvent × ℕ) :=
  events.zipIdx.sortBy fun x => (x.1.timestampNs.bind toNsInt).getD 0

/-- The pairing loop. -/
def pairDispatches (hints : String → EngineHints) (events : List SchedulerEvent) :
    String → ReqDispatch :=
  (sortSchedulerEvents events).foldl pairEvent fun rid => { hints := (hints rid).phases }

/-- `req_enqueue_map[rid]`: the first enqueue time of the request. -/
def reqEnqueueMap (events : List SchedulerEvent) (rid : String) : Option ℤ :=
  events.findSome? fun ev =>
    if ev.type = .reqEnqueueScheduler ∧ ev.reqId = some rid ∧ rid ≠ "" ∧ ev.timestampNs ≠ some 0
    then ev.timestampNs else none

/-- `req_preempt_ts_by_req[rid]`. -/
def reqPreemptTsByReq (log : Log) (rid : String) : List ℤ :=
  (extractEngineHints log.reqMetricEvents rid).preemptTs

/-- The pairing stage on a whole log. -/
def reqDispatch (log : Log) (rid : String) : ReqDispatch :=
  pairDispatches (extractEngineHints log.reqMetricEvents) log.schedulerEvents rid

/-- `req_dispatch_intervals_map[rid]`. -/
def reqDispatchIntervals (log : Log) (rid : String) : List DispatchInterval :=
  (reqDispatch log rid).intervals

end DeLatency
