import DeLatency.Converter.Value
import DeLatency.ForStd.Dict

/-!
# Request identity in the traced process

Every asyncio context has its own request id and request name; one table for the whole
process remembers the name of each id.  A request id or name that the callers pass is
given as its text, `none` for Python's `None`.
-/

namespace DeLatency

/-- `a or b` on optional strings. -/
def strOr (a b : Option String) : Option String := (a.filter (· ≠ "")).or b

def placeholderNames : List String := ["unknown", "none", "null"]

/-- `_normalize`: blank texts and placeholders are no value. -/
def normalize (value : Option String) : Option String :=
  match value with
  | none => none
  | some value =>
    let text := strip value
    if text = "" then none
    else if lower text ∈ placeholderNames then none
    else some text

/-- The two context variables of one context. -/
structure RequestVars where
  requestId : Option String := none
  requestName : Option String := none

/-- The tokens of one `bind_request_context`: the context they were made in and what the
    variables held before. -/
structure VarTokens (κ : Type) where
  ctx : κ
  old : RequestVars
  used : Bool := false

/-- The request identity of a process with contexts `κ`. -/
structure RequestContexts (κ : Type) where
  vars : κ → RequestVars := fun _ => {}
  requestNameById : Dict String String := Dict.empty
  /-- The tokens in the order in which they were made. -/
  tokens : List (VarTokens κ) := []

namespace RequestContexts

variable {κ : Type} [DecidableEq κ]

/-- `if rid and rname: _request_name_by_id[rid] = rname`. -/
def cacheName (names : Dict String String) (rid rname : Option String) : Dict String String :=
  match rid.filter (· ≠ ""), rname.filter (· ≠ "") with
  | some rid, some rname => names.alter rid rname fun _ => rname
  | _, _ => names

/-- `bind_request_context`. -/
def bindRequestContext (st : RequestContexts κ) (c : κ) (requestId requestName : Option String) :
    RequestContexts κ :=
  let rid := normalize requestId
  let rname := strOr (normalize requestName) rid
  { vars := Function.update st.vars c ⟨rid, rname⟩
    requestNameById := cacheName st.requestNameById rid rname
    tokens := st.tokens ++ [{ ctx := c, old := st.vars c }] }

/-- `reset_request_context` with the tokens of the `n`-th binding.  It raises, and changes
    nothing, where the tokens are spent or were made in another context. -/
def resetRequestContext (st : RequestContexts κ) (c : κ) (n : ℕ) : Option (RequestContexts κ) :=
  match st.tokens[n]? with
  | some tokens =>
    -- a token works once, and only in the context that made it
    if tokens.ctx = c ∧ tokens.used = false then
      some { st with
        vars := Function.update st.vars c tokens.old
        tokens := st.tokens.set n { tokens with used := true } }
    else none
  | none => none

/-- The name that `remember_request_name` settles on. -/
def rememberedName (st : RequestContexts κ) (c : κ) (requestId requestName : Option String) :
    Option String :=
  strOr (normalize requestName) (strOr (st.vars c).requestName (normalize requestId))

/-- `remember_request_name`, the state after it. -/
def rememberRequestName (st : RequestContexts κ) (c : κ) (requestId requestName : Option String) :
    RequestContexts κ :=
  let rname := st.rememberedName c requestId requestName
  { st with requestNameById := cacheName st.requestNameById (normalize requestId) rname }

/-- `resolve_request_name`. -/
def resolveRequestName (st : RequestContexts κ) (c : κ) (requestId fallback : Option String) :
    Option String :=
  let rid := normalize requestId
  let chain := strOr (normalize fallback) (strOr (st.vars c).requestName rid)
  match rid with
  | some rid => strOr (st.requestNameById.get? rid) chain
  | none => chain

end RequestContexts

/-- A call that concerns the request identity, in the context in which it is made. -/
inductive ContextCall (κ : Type)
  | bind (c : κ) (requestId requestName : Option String)
  | reset (c : κ) (n : ℕ)
  | remember (c : κ) (requestId requestName : Option String)
  /-- A task is created: its context starts as a copy of its creator's. -/
  | copyContext (parent c : κ)

namespace RequestContexts

variable {κ : Type} [DecidableEq κ]

def step (st : RequestContexts κ) : ContextCall κ → RequestContexts κ
  | .bind c requestId requestName => st.bindRequestContext c requestId requestName
  | .reset c n => (st.resetRequestContext c n).getD st
  | .remember c requestId requestName => st.rememberRequestName c requestId requestName
  | .copyContext parent c => { st with vars := Function.update st.vars c (st.vars parent) }

/-- The state after a sequence of calls. -/
def run (calls : List (ContextCall κ)) : RequestContexts κ := calls.foldl step {}

end RequestContexts

end DeLatency
