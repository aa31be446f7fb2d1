import DeLatency.Patch.TensorPayload
import Mathlib

/-!
# Which tensors a transfer reports

The visit of a payload stops at the first `n` tensors, and of each container it sees the first
`n` children.  `prune` cuts the containers down, `tensors` lists all tensors in order; the
summary is that of the first `n` tensors of what is left (`estimateTensorPayload_eq`).
-/

namespace DeLatency

/-! ## All tensors of a value -/

mutual

/-- The tensors of a value in order, each with its path. -/
def PyObj.tensors : PyObj → String → List TensorItem
  | .tensor t, path => [t.item path]
  | .dict items, path => dictTensors items path
  | .list items, path => listTensors items 0 path
  | .other, _ => []

def dictTensors : List (String × PyObj) → String → List TensorItem
  | [], _ => []
  | (key, child) :: rest, path => child.tensors (keyPath path key) ++ dictTensors rest path

def listTensors : List PyObj → ℕ → String → List TensorItem
  | [], _, _ => []
  | child :: rest, idx, path => child.tensors (indexPath path idx) ++ listTensors rest (idx + 1) path

end

mutual

/-- The value with no more than `n` children in any container. -/
def PyObj.prune (n : ℕ) : PyObj → PyObj
  | .tensor t => .tensor t
  | .dict items => .dict (pruneDict n items n)
  | .list items => .list (pruneList n items n)
  | .other => .other

def pruneDict (n : ℕ) : List (String × PyObj) → ℕ → List (String × PyObj)
  | (key, child) :: rest, k + 1 => (key, child.prune n) :: pruneDict n rest k
  | _, _ => []

def pruneList (n : ℕ) : List PyObj → ℕ → List PyObj
  | child :: rest, k + 1 => child.prune n :: pruneList n rest k
  | _, _ => []

end

mutual

/-- No container has more than `n` children. -/
def PyObj.Narrow (n : ℕ) : PyObj → Prop
  | .tensor _ => True
  | .dict items => items.length ≤ n ∧ narrowDict n items
  | .list items => items.length ≤ n ∧ narrowList n items
  | .other => True

def narrowDict (n : ℕ) : List (String × PyObj) → Prop
  | [] => True
  | (_, child) :: rest => child.Narrow n ∧ narrowDict n rest

def narrowList (n : ℕ) : List PyObj → Prop
  | [] => True
  | child :: rest => child.Narrow n ∧ narrowList n rest

end

/-- The summary of some tensors. -/
def PayloadSummary.of (items : List TensorItem) : PayloadSummary where
  tensorCount := items.length
  bytes := (items.map TensorItem.bytes).sum
  items := items

/-- Adding a tensor to the summary of some is the summary of one more. -/
@[simp] theorem PayloadSummary.of_add (items : List TensorItem) (item : TensorItem) :
    (PayloadSummary.of items).add item = .of (items ++ [item]) := by
  simp [PayloadSummary.of, PayloadSummary.add]

/-- The summary counts its tensors. -/
@[simp] theorem PayloadSummary.tensorCount_of (items : List TensorItem) :
    (PayloadSummary.of items).tensorCount = items.length := rfl

/-! ## The visit -/

/-- Cutting a prefix early does not change what is left after the last cut. -/
theorem take_append_take {α : Type*} (n : ℕ) (a b c : List α) :
    (((a ++ b).take n) ++ c).take n = (a ++ (b ++ c)).take n := by
  rcases le_total n (a ++ b).length with hfull | hroom
  · rw [← List.append_assoc, List.take_append_of_le_length (by simpa using hfull),
      List.take_append_of_le_length hfull, List.take_take, Nat.min_self]
  · rw [List.take_of_length_le hroom, List.append_assoc]

/-- A list that fills the bound already takes nothing more. -/
theorem take_eq_of_full {α : Type*} {n : ℕ} {a : List α} (hle : a.length ≤ n) (hfull : n ≤ a.length)
    (b : List α) : (a ++ b).take n = a := by
  rw [List.take_append_of_le_length hfull, List.take_of_length_le hle]

mutual

/-- The visit adds the tensors of the value as long as there is room. -/
theorem PyObj.visit_of (n : ℕ) : ∀ (v : PyObj) (path : String) (seen : List TensorItem),
    seen.length ≤ n →
      v.visit n path (.of seen) = .of ((seen ++ (v.prune n).tensors path).take n)
  | .tensor t, path, seen, h => by
    simp only [PyObj.visit, PyObj.prune, PyObj.tensors]
    -- a summary that is full takes nothing more
    by_cases hfull : n ≤ (PayloadSummary.of seen).tensorCount
    · rw [if_pos hfull, take_eq_of_full h hfull]
    · rw [if_neg hfull, PayloadSummary.of_add, List.take_of_length_le]
      rw [PayloadSummary.tensorCount_of] at hfull
      rw [List.length_append, List.length_singleton]
      omega
  | .dict items, path, seen, h => by
    simp only [PyObj.visit, PyObj.prune, PyObj.tensors]
    by_cases hfull : n ≤ (PayloadSummary.of seen).tensorCount
    · rw [if_pos hfull, take_eq_of_full h hfull]
    · rw [if_neg hfull]
      -- the children are visited in their order, each after those before it
      exact visitDict_of n items n path seen h
  | .list items, path, seen, h => by
    simp only [PyObj.visit, PyObj.prune, PyObj.tensors]
    by_cases hfull : n ≤ (PayloadSummary.of seen).tensorCount
    · rw [if_pos hfull, take_eq_of_full h hfull]
    · rw [if_neg hfull]
      exact visitList_of n items n 0 path seen h
  | .other, path, seen, h => by
    simp only [PyObj.visit, PyObj.prune, PyObj.tensors, List.append_nil, List.take_of_length_le h]

/-- The visit of a dict adds its tensors up to the bound. -/
theorem visitDict_of (n : ℕ) : ∀ (items : List (String × PyObj)) (k : ℕ) (path : String)
    (seen : List TensorItem), seen.length ≤ n →
      visitDict n items k path (.of seen) =
        .of ((seen ++ dictTensors (pruneDict n items k) path).take n)
  | [], k, path, seen, h => by
    simp only [visitDict, pruneDict, dictTensors, List.append_nil, List.take_of_length_le h]
  | (key, child) :: rest, 0, path, seen, h => by
    simp only [visitDict, pruneDict, dictTensors, List.append_nil, List.take_of_length_le h]
  -- the child first, then the rest with what the child left
  | (key, child) :: rest, k + 1, path, seen, h => by
    simp only [visitDict, pruneDict, dictTensors]
    rw [PyObj.visit_of n child (keyPath path key) seen h,
      visitDict_of n rest k path _ (List.length_take_le ..), take_append_take]

/-- The visit of a list adds its tensors up to the bound. -/
theorem visitList_of (n : ℕ) : ∀ (items : List PyObj) (k idx : ℕ) (path : String)
    (seen : List TensorItem), seen.length ≤ n →
      visitList n items k idx path (.of seen) =
        .of ((seen ++ listTensors (pruneList n items k) idx path).take n)
  | [], k, idx, path, seen, h => by
    simp only [visitList, pruneList, listTensors, List.append_nil, List.take_of_length_le h]
  | child :: rest, 0, idx, path, seen, h => by
    simp only [visitList, pruneList, listTensors, List.append_nil, List.take_of_length_le h]
  -- the child first, then the rest at the next index
  | child :: rest, k + 1, idx, path, seen, h => by
    simp only [visitList, pruneList, listTensors]
    rw [PyObj.visit_of n child (indexPath path idx) seen h,
      visitList_of n rest k (idx + 1) path _ (List.length_take_le ..), take_append_take]

end

mutual

/-- A narrow payload has nothing to prune. -/
theorem PyObj.prune_of_narrow (n : ℕ) : ∀ v : PyObj, v.Narrow n → v.prune n = v
  | .tensor t, _ => rfl
  | .dict items, h => by rw [PyObj.prune, pruneDict_of_narrow n items n h.2 h.1]
  | .list items, h => by rw [PyObj.prune, pruneList_of_narrow n items n h.2 h.1]
  | .other, _ => rfl

/-- A narrow dict has nothing to prune. -/
theorem pruneDict_of_narrow (n : ℕ) : ∀ (items : List (String × PyObj)) (k : ℕ),
    narrowDict n items → items.length ≤ k → pruneDict n items k = items
  | [], k, _, _ => by simp only [pruneDict]
  | (key, child) :: rest, 0, _, hk => by simp at hk
  | (key, child) :: rest, k + 1, h, hk => by
    rw [pruneDict, PyObj.prune_of_narrow n child h.1,
      pruneDict_of_narrow n rest k h.2 (Nat.le_of_succ_le_succ hk)]

/-- A narrow list has nothing to prune. -/
theorem pruneList_of_narrow (n : ℕ) : ∀ (items : List PyObj) (k : ℕ),
    narrowList n items → items.length ≤ k → pruneList n items k = items
  | [], k, _, _ => by simp only [pruneList]
  | child :: rest, 0, _, hk => by simp at hk
  | child :: rest, k + 1, h, hk => by
    rw [pruneList, PyObj.prune_of_narrow n child h.1,
      pruneList_of_narrow n rest k h.2 (Nat.le_of_succ_le_succ hk)]

end

/-! ## The summary -/

/-- The summary of a payload is that of the first `n` tensors of the value with its containers
    cut down to `n` children, and where no container has more, of the first `n` tensors of all. -/
theorem estimateTensorPayload_eq (v : PyObj) (n : ℕ) :
    estimateTensorPayload v n = .of (((v.prune n).tensors "").take n) ∧
      (v.Narrow n → estimateTensorPayload v n = .of ((v.tensors "").take n)) := by
  have h : estimateTensorPayload v n = .of (((v.prune n).tensors "").take n) :=
    v.visit_of n "" [] (Nat.zero_le n)
  refine ⟨h, fun hnarrow => ?_⟩
  rw [h, v.prune_of_narrow n hnarrow]

/-- Two tensors, the second inside a dict. -/
def twoTensors : PyObj :=
  .list [.tensor { size := some (3, 2) }, .dict [("b", .tensor { size := some (5, 4) })]]

/-- With room for two both tensors are counted. -/
theorem estimateTensorPayload_eq_twoTensors :
    (estimateTensorPayload twoTensors 2).bytes = 26 ∧
      estimateTensorPayload twoTensors 2 = .of ((twoTensors.tensors "").take 2) :=
  ⟨by decide, (estimateTensorPayload_eq twoTensors 2).2 (by
    simp [twoTensors, PyObj.Narrow, narrowList, narrowDict])⟩

end DeLatency
