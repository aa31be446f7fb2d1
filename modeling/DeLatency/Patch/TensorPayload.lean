import Mathlib.Data.Int.Order.Basic
import Mathlib.Algebra.Order.Group.Unbundled.Int
import Mathlib.Algebra.BigOperators.Group.List.Basic

/-!
# The size of a transfer

A transfer between two stages of the pipeline carries tensors inside dictionaries, lists
and tuples.  The patch goes through them and sums up the sizes, but never looks at more
than `max_items` tensors, nor at more than `max_items` children of one container.
-/

namespace DeLatency

/-- What is asked of a tensor.  `size` has the number of its elements and the size of one,
    `none` where one of the two raises. -/
structure TensorInfo where
  size : Option (ℤ × ℤ)
  shape : Option (List ℤ) := none
  dtype : String := ""
  device : String := ""

/-- A value that is sent; the keys of a dictionary are given as their texts. -/
inductive PyObj
  | tensor (t : TensorInfo)
  | dict (items : List (String × PyObj))
  | list (items : List PyObj)
  | other

/-- An entry of `items`. -/
structure TensorItem where
  path : String
  shape : Option (List ℤ)
  dtype : String
  device : String
  bytes : ℤ

/-- `nbytes` -/
def TensorInfo.bytes (t : TensorInfo) : ℤ :=
  let (numel, elemSize) := t.size.getD (0, 0)
  max 0 (numel * elemSize)

def TensorInfo.item (t : TensorInfo) (path : String) : TensorItem where
  path := path
  shape := t.shape
  dtype := t.dtype
  device := t.device
  bytes := t.bytes

/-- `summary` -/
structure PayloadSummary where
  tensorCount : ℕ := 0
  bytes : ℤ := 0
  items : List TensorItem := []

def PayloadSummary.add (summary : PayloadSummary) (item : TensorItem) : PayloadSummary where
  tensorCount := summary.tensorCount + 1
  bytes := summary.bytes + item.bytes
  items := summary.items ++ [item]

/-- The path of an item of a dictionary. -/
def keyPath (path key : String) : String := if path = "" then key else path ++ "." ++ key

/-- The path of an item of a list. -/
def indexPath (path : String) (idx : ℕ) : String := path ++ "[" ++ toString idx ++ "]"

mutual

/-- `_visit` -/
def PyObj.visit (maxItems : ℕ) : PyObj → String → PayloadSummary → PayloadSummary
  | .tensor t, path, summary =>
    if maxItems ≤ summary.tensorCount then summary else summary.add (t.item path)
  -- at most `maxItems` entries are looked at on each level
  | .dict items, path, summary =>
    if maxItems ≤ summary.tensorCount then summary
    else visitDict maxItems items maxItems path summary
  | .list items, path, summary =>
    if maxItems ≤ summary.tensorCount then summary
    else visitList maxItems items maxItems 0 path summary
  | .other, _, summary => summary

/-- The loop over the first `n` items of a dictionary. -/
def visitDict (maxItems : ℕ) :
    List (String × PyObj) → ℕ → String → PayloadSummary → PayloadSummary
  | (key, child) :: rest, n + 1, path, summary =>
    visitDict maxItems rest n path (child.visit maxItems (keyPath path key) summary)
  | _, _, _, summary => summary

/-- The loop over the next `n` items of a list, which start at `idx`. -/
def visitList (maxItems : ℕ) :
    List PyObj → ℕ → ℕ → String → PayloadSummary → PayloadSummary
  | child :: rest, n + 1, idx, path, summary =>
    visitList maxItems rest n (idx + 1) path (child.visit maxItems (indexPath path idx) summary)
  | _, _, _, _, summary => summary

end

/-- `_estimate_tensor_payload` -/
def estimateTensorPayload (value : PyObj) (maxItems : ℕ) : PayloadSummary :=
  value.visit maxItems "" {}

end DeLatency
