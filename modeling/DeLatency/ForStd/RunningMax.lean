import Mathlib.Order.Bounds.Basic
import Mathlib.Data.List.Basic
import Mathlib.Data.List.Induction

/-!
# Running maximum with ties

A loop that keeps the greatest value seen so far and every element that reaches
it.  An element without a value is skipped.  The loop computes the maximum of
the values and the start (`isGreatest_foldl_step`), and keeps exactly the
elements at that maximum, in order (`mem_foldl_step`).
-/

namespace RunningMax

section Seen

variable {α β : Type*} {value : α → Option β} {b : β} {l : List α}

/-- The values a loop from `b` has seen. -/
def seen (value : α → Option β) (b : β) (l : List α) : Set β :=
  insert b {v | ∃ a ∈ l, value a = some v}

/-- Before any element only the starting value has been seen. -/
theorem seen_nil : seen value b [] = {b} := by
  simp [seen]

/-- What has been seen is the starting value and the values of the elements. -/
theorem mem_seen {v : β} : v ∈ seen value b l ↔ v = b ∨ ∃ a ∈ l, value a = some v := Iff.rfl

/-- A further element adds its value, when it has one. -/
theorem seen_concat (a : α) :
    seen value b (l ++ [a]) = {v | value a = some v} ∪ seen value b l := by
  ext v
  simp only [mem_seen, Set.mem_union, Set.mem_ofPred_eq, List.mem_append, List.mem_singleton,
    or_and_right, exists_or, exists_eq_left]
  rw [← or_assoc, or_comm]

end Seen

variable {α β : Type*} [LinearOrder β] {value : α → Option β}

/-- One turn of the loop. -/
def step (value : α → Option β) (best : β × List α) (a : α) : β × List α :=
  match value a with
  | none => best
  | some v =>
    if best.1 < v then (v, [a])
    else if v = best.1 then (best.1, best.2 ++ [a])
    else best

/-- An element without a value is passed over. -/
theorem step_none {best : β × List α} {a : α} (h : value a = none) : step value best a = best := by
  simp only [step, h]

/-- An element with a value starts a new list of holders, joins the present one, or is passed
    over. -/
theorem step_some {best : β × List α} {a : α} {v : β} (h : value a = some v) :
    step value best a =
      if best.1 < v then (v, [a])
      else if v = best.1 then (best.1, best.2 ++ [a])
      else best := by
  simp only [step, h]

/-- The loop holds the greatest value seen, and the elements that reach it. -/
private theorem foldl_step (b : β) (l : List α) :
    IsGreatest (seen value b l) (l.foldl (step value) (b, [])).1 ∧
      (l.foldl (step value) (b, [])).2 =
        l.filter fun a => value a = some (l.foldl (step value) (b, [])).1 := by
  induction l using List.reverseRecOn with
  | nil => simp [seen_nil]
  | append_singleton l a ih =>
    obtain ⟨hmax, hbest⟩ := ih
    rw [List.foldl_concat, seen_concat, List.filter_append]
    cases hv : value a with
    | none =>
      rw [step_none hv]
      exact ⟨by simpa using hmax, by simpa [hv] using hbest⟩
    | some v =>
      have hset : {w | some v = some w} = ({v} : Set β) := by
        ext w; simp [eq_comm]
      rw [step_some hv, hset]
      -- the new value beats, ties with or stays below the best one
      split
      · next hlt =>
        have hgreatest : IsGreatest ({v} ∪ seen value b l) v := by
          refine ⟨.inl rfl, fun w hw => ?_⟩
          cases hw with
          | inl hw => exact hw.le
          | inr hw => exact (hmax.2 hw).trans hlt.le
        -- no earlier element reaches the new value
        have hnone : l.filter (fun x => value x = some v) = [] := by
          rw [List.filter_eq_nil_iff]
          intro x hx hxv
          rw [decide_eq_true_eq] at hxv
          exact absurd (hmax.2 (.inr ⟨x, hx, hxv⟩)) (not_le.mpr hlt)
        refine ⟨hgreatest, ?_⟩
        show [a] = _
        rw [hnone]
        simp [hv]
      · next hnlt =>
        rw [not_lt] at hnlt
        have hgreatest : IsGreatest ({v} ∪ seen value b l) (l.foldl (step value) (b, [])).1 := by
          refine ⟨.inr hmax.1, fun w hw => ?_⟩
          cases hw with
          | inl hw => exact hw.le.trans hnlt
          | inr hw => exact hmax.2 hw
        split
        · next heq =>
          refine ⟨hgreatest, ?_⟩
          show (l.foldl (step value) (b, [])).2 ++ [a] = _
          rw [hbest]
          simp [hv, heq]
        · next hne =>
          refine ⟨hgreatest, ?_⟩
          rw [← hbest]
          simp [hv, hne]

/-- The running value is the greatest one seen. -/
theorem isGreatest_foldl_step (value : α → Option β) (b : β) (l : List α) :
    IsGreatest (seen value b l) (l.foldl (step value) (b, [])).1 :=
  (foldl_step b l).1

/-- The holders are exactly the elements that have the greatest value. -/
theorem mem_foldl_step (value : α → Option β) (b : β) (l : List α) {a : α} :
    a ∈ (l.foldl (step value) (b, [])).2 ↔
      a ∈ l ∧ value a = some (l.foldl (step value) (b, [])).1 := by
  rw [(foldl_step b l).2, List.mem_filter, decide_eq_true_eq]

end RunningMax
