import DeLatency.Converter.Value
import DeLatency.ForStd.AsciiJson
import DeLatency.ForStd.Dict
import DeLatency.ForStd.SortBy
import Mathlib.Data.String.Basic

/-!
# What the worker patches read from a scheduler output

The scheduler hands each step to the executor, the executor to the workers, and the
workers to the model runner.  The patches of all of them read the same object: whose
requests take part, how far each has come and how many tokens it gets.  From this they
make the dispatch key, by which the log tells one step from another.

A request id is any value that has a text.  An attribute can be missing, and an integer
attribute can hold something that `int` does not take; `none` stands for that.
-/

namespace DeLatency

/-- An attribute of an object. -/
inductive PyAttr (α : Type)
  | missing
  | null
  | value (a : α)

/-- The value of an attribute that holds a text which is not empty. -/
def PyAttr.truthy : PyAttr String → Option String
  | .value s => if s = "" then none else some s
  | _ => none

/-- An item that stands for a request: its `request_id`, its `req_id`, and `str(item)`. -/
structure ReqItem where
  requestId : PyAttr String := .missing
  reqId : PyAttr String := .missing
  text : String

/-- `getattr(item, "request_id", None) or getattr(item, "req_id", None)` -/
def ReqItem.attrId (item : ReqItem) : Option String := item.requestId.truthy.or item.reqId.truthy

/-- `str(rid).strip()`, where it is not blank. -/
def ReqItem.rid (item : ReqItem) : Option String :=
  normalizeRequestId (item.attrId.getD item.text)

/-- `_normalize_req_ids` on a list; an item of `None` is skipped. -/
def normalizeReqIds (reqIds : List (Option ReqItem)) : List String :=
  reqIds.filterMap fun item => item.bind ReqItem.rid

/-- `NewRequestData`; of the prompt its length. -/
structure NewRequest where
  item : ReqItem
  numComputedTokens : Option ℤ := none
  promptTokens : Option ℕ := none

/-- `CachedRequestData`. -/
structure CachedRequests where
  reqIds : PyAttr (List (Option ReqItem))
  /-- `list(getattr(cached, "num_computed_tokens", []) or [])` -/
  numComputedTokens : List (Option ℤ) := []

/-- `num_scheduled_tokens`: by request, in the order of the requests, or one number. -/
inductive NumScheduledTokens
  | dict (items : List (String × Option ℤ))
  | list (items : List (Option ℤ))
  | single (n : Option ℤ)

/-- The output of the scheduler.  `None` is the object without attributes. -/
structure SchedulerOutput where
  scheduledNewReqs : PyAttr (List (Option NewRequest)) := .missing
  scheduledCachedReqs : PyAttr CachedRequests := .missing
  numScheduledTokens : PyAttr NumScheduledTokens := .missing
  totalNumScheduledTokens : PyAttr (Option ℤ) := .missing

namespace SchedulerOutput

/-- The new requests of a step, none of them where the attribute cannot be iterated over. -/
def newReqs (so : SchedulerOutput) : List NewRequest :=
  match so.scheduledNewReqs with
  | .value reqs => reqs.filterMap id
  | _ => []

/-- The ids of the cached requests. -/
def cachedReqIds (so : SchedulerOutput) : List String :=
  match so.scheduledCachedReqs with
  | .value { reqIds := .value reqIds, .. } => normalizeReqIds reqIds
  | _ => []

def cachedComputedTokens (so : SchedulerOutput) : List (Option ℤ) :=
  match so.scheduledCachedReqs with
  | .value cached => cached.numComputedTokens
  | _ => []

/-- `_extract_req_ids_from_scheduler_output`. -/
def extractReqIds (so : SchedulerOutput) : List String :=
  match so.scheduledNewReqs with
  -- the loop raises, and the handler returns no request at all
  | .null => []
  | _ => so.newReqs.filterMap (fun req => req.item.rid) ++ so.cachedReqIds

/-- The step maps for a new request: how far it has come, and the length of its prompt. -/
def noteNewReq (maps : Dict String (Option ℤ) × Dict String ℤ) (req : NewRequest) :
    Dict String (Option ℤ) × Dict String ℤ :=
  match req.item.rid with
  | none => maps
  | some rid =>
    (maps.1.alter rid none fun _ => req.numComputedTokens,
      match req.promptTokens with
      | none => maps.2
      -- `setdefault`
      | some length => maps.2.alter rid (length : ℤ) id)

/-- `_extract_scheduler_step_maps`. -/
def extractStepMaps (so : SchedulerOutput) : Dict String (Option ℤ) × Dict String ℤ :=
  let (numComputedByReq, scheduledTokensByReq) :=
    so.newReqs.foldl noteNewReq (Dict.empty, Dict.empty)
  -- a cached request without a number of its own keeps what it has
  let numComputedByReq := (so.cachedReqIds.zip so.cachedComputedTokens).foldl
    (fun map p => map.alter p.1 none fun _ => p.2) numComputedByReq
  let scheduled : List (String × Option ℤ) :=
    match so.numScheduledTokens with
    | .value (.dict items) =>
      items.filterMap fun p => (normalizeRequestId p.1).map fun rid => (rid, p.2)
    | .value (.list items) => so.extractReqIds.zip items
    | _ => []
  (numComputedByReq, scheduled.foldl
    (fun map p => map.alter p.1 0 fun _ => p.2.getD 0) scheduledTokensByReq)

/-- `_safe_int(getattr(scheduler_output, "total_num_scheduled_tokens", None))`. -/
def totalScheduled (so : SchedulerOutput) : Option ℤ :=
  match so.totalNumScheduledTokens with
  | .value n => n
  | _ => none

/-! ## Dispatch keys -/

/-- An integer or `None`. -/
def jsonOfInt : Option ℤ → AsciiJson
  | none => .null
  | some n => .int n

/-- A dictionary with its keys in order. -/
def jsonOfDict {ν : Type} (value : ν → AsciiJson) (d : Dict String ν) : AsciiJson :=
  .obj ((d.entries.sortBy Prod.fst).map fun p => (p.1, value p.2))

/-- The parts of a step in the order of their names. -/
def dispatchParts (so : SchedulerOutput) : AsciiJson :=
  let (numComputedByReq, scheduledTokensByReq) := so.extractStepMaps
  .obj
    [("num_computed_by_req", jsonOfDict jsonOfInt numComputedByReq),
      ("req_ids", .arr (so.extractReqIds.map .str)),
      ("scheduled_tokens_by_req", jsonOfDict .int scheduledTokensByReq),
      ("total_scheduled_tokens", jsonOfInt so.totalScheduled)]

/-- The text that is hashed, `json.dumps(parts, sort_keys=True, ...)`. -/
def dispatchText (so : SchedulerOutput) : List Char := so.dispatchParts.render

/-- `_make_dispatch_key`, with the digest that `hashlib.sha1` makes of a text. -/
def makeDispatchKey (hexdigest : List Char → List Char) (so : SchedulerOutput) : String :=
  "sched:" ++ String.ofList ((hexdigest so.dispatchText).take 16)

/-! ## Summary -/

/-- `sum(int(x) for x in values)`, `none` where an `int` raises. -/
def sumInts (values : List (Option ℤ)) : Option ℤ := (values.mapM id).map List.sum

/-- The batch size and the input type of `_summarize_scheduler_output`. -/
def summarize (so : SchedulerOutput) : ℤ × String :=
  let size : Option (ℤ × String) :=
    match so.totalNumScheduledTokens with
    | .value total => total.map fun n => (n, "scheduler_output_v1")
    | .null => none
    -- the total is not there: the tokens of the requests are added up
    | .missing =>
      match so.numScheduledTokens with
      | .value (.dict items) => (sumInts (items.map Prod.snd)).map fun n => (n, "scheduler_output_v2")
      | .value (.list items) => (sumInts items).map fun n => (n, "scheduler_output_v2")
      | .value (.single n) => n.map fun n => (n, "scheduler_output_v2")
      | _ => none
  size.getD (0, "unknown")

end SchedulerOutput

end DeLatency
