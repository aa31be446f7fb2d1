import Mathlib.Data.Finset.Card
import Mathlib.Data.Finset.Insert
import Mathlib.Data.Finset.SDiff
import Mathlib.Logic.Relation

/-!
# Closures computed with a stack

`closure` collects what can be reached from the elements of a stack: it takes the top
element, passes over it when it has been collected before, and otherwise collects it and
puts its successors onto the stack.  What it collects is what `next` reaches
(`mem_closure_iff`), and within a finite set it comes to an end (`exists_closure`).
-/

namespace Worklist

variable {α : Type*} {next : α → List α}

/-- `y` is reached from `x`. -/
def Reaches (next : α → List α) : α → α → Prop := Relation.ReflTransGen fun x y => y ∈ next x

/-- What is collected has its successors collected, or on the stack. -/
def Closed (next : α → List α) (stack results : List α) : Prop :=
  ∀ x ∈ results, ∀ y ∈ next x, y ∈ results ∨ y ∈ stack

/-- What is reachable from a collected node is collected, or reachable from the stack. -/
theorem Closed.reaches {stack results : List α} (h : Closed next stack results) {x y : α}
    (hx : x ∈ results) (hreach : Reaches next x y) :
    y ∈ results ∨ ∃ s ∈ stack, Reaches next s y := by
  induction hreach with
  | refl => exact .inl hx
  | tail _ hstep ih =>
    -- the path is still among the results, or has left through the stack
    obtain hmid | ⟨s, hs, hreach⟩ := ih
    · obtain hy | hy := h _ hmid _ hstep
      · exact .inl hy
      · exact .inr ⟨_, hy, .refl⟩
    · exact .inr ⟨s, hs, hreach.tail hstep⟩

/-- Passing over a node that is collected already keeps the worklist closed. -/
theorem Closed.skip {x : α} {stack results : List α} (h : Closed next (x :: stack) results)
    (hx : x ∈ results) : Closed next stack results := by
  intro z hz y hy
  obtain hy | hy := h z hz y hy
  · exact .inl hy
  · obtain rfl | hy := List.mem_cons.mp hy
    · exact .inl hx
    · exact .inr hy

/-- Collecting the top of the stack and pushing its successors keeps the worklist closed. -/
theorem Closed.collect {x : α} {stack results : List α} (h : Closed next (x :: stack) results) :
    Closed next ((next x).reverse ++ stack) (results ++ [x]) := by
  intro z hz y hy
  simp only [List.mem_append, List.mem_reverse, List.mem_singleton] at hz ⊢
  -- an older result, or the one just collected
  obtain hz | rfl := hz
  · obtain hy | hy := h z hz y hy
    · exact .inl (.inl hy)
    · obtain rfl | hy := List.mem_cons.mp hy
      · exact .inl (.inr rfl)
      · exact .inr (.inr hy)
  · exact .inr (.inl hy)

variable [DecidableEq α]

/-- The closure of a stack, top first, on top of what has been collected.  Without fuel there is
    no answer. -/
def closure (next : α → List α) : ℕ → List α → List α → Option (List α)
  | _, [], results => some results
  | 0, _ :: _, _ => none
  | fuel + 1, x :: stack, results =>
    if x ∈ results then closure next fuel stack results
    else closure next fuel ((next x).reverse ++ stack) (results ++ [x])

/-- The closure is what is reached from the stack, together with what was collected before. -/
theorem mem_closure_iff {fuel : ℕ} {stack results l : List α}
    (hclosed : Closed next stack results) (h : closure next fuel stack results = some l) {y : α} :
    y ∈ l ↔ y ∈ results ∨ ∃ s ∈ stack, Reaches next s y := by
  induction fuel generalizing stack results with
  | zero =>
    cases stack with
    | nil =>
      cases h
      simp
    | cons x stack => cases h
  | succ fuel ih =>
    cases stack with
    | nil =>
      cases h
      simp
    | cons x stack =>
      rw [closure] at h
      by_cases hx : x ∈ results
      · rw [if_pos hx] at h
        rw [ih (hclosed.skip hx) h]
        simp only [List.mem_cons, exists_eq_or_imp]
        constructor
        · intro hy
          exact hy.imp id .inr
        · intro hy
          obtain hy | hreach | hy := hy
          · exact .inl hy
          · exact (hclosed.skip hx).reaches hx hreach
          · exact .inr hy
      · rw [if_neg hx] at h
        rw [ih hclosed.collect h, List.mem_append, List.mem_singleton]
        simp only [List.mem_cons, exists_eq_or_imp]
        constructor
        · intro hy
          obtain (hy | rfl) | ⟨s, hs, hreach⟩ := hy
          · exact .inl hy
          · exact .inr (.inl .refl)
          · obtain hs | hs := List.mem_append.mp hs
            · exact .inr (.inl (hreach.head (List.mem_reverse.mp hs)))
            · exact .inr (.inr ⟨s, hs, hreach⟩)
        · intro hy
          obtain hy | hreach | ⟨s, hs, hreach⟩ := hy
          · exact .inl (.inl hy)
          · -- the first step leads to a successor, which is on the stack now
            obtain rfl | ⟨s, hs, hreach⟩ := hreach.cases_head
            · exact .inl (.inr rfl)
            · exact .inr ⟨s, List.mem_append_left _ (List.mem_reverse.mpr hs), hreach⟩
          · exact .inr ⟨s, List.mem_append_right _ hs, hreach⟩

/-- Within a finite set the closure is found with enough fuel, however much more there is. -/
theorem exists_closure {univ : Finset α} (hnext : ∀ x ∈ univ, ∀ y ∈ next x, y ∈ univ)
    (stack results : List α) (hstack : ∀ x ∈ stack, x ∈ univ) :
    ∃ n l, ∀ fuel, n ≤ fuel → closure next fuel stack results = some l := by
  -- fewer elements are left to collect, or the stack is shorter
  induction hcard : (univ \ results.toFinset).card using Nat.strong_induction_on
    generalizing stack results with
  | _ card ihCard =>
    induction stack with
    | nil => exact ⟨0, results, fun fuel _ => by cases fuel <;> rfl⟩
    | cons x stack ih =>
      obtain ⟨hx, hstack⟩ := List.forall_mem_cons.mp hstack
      by_cases hmem : x ∈ results
      · obtain ⟨n, l, h⟩ := ih hstack
        refine ⟨n + 1, l, fun fuel hfuel => ?_⟩
        obtain ⟨fuel, rfl⟩ := Nat.exists_eq_add_of_le' (Nat.one_le_of_lt hfuel)
        rw [closure, if_pos hmem]
        exact h fuel (by omega)
      · have hless : (univ \ (results ++ [x]).toFinset).card < card := by
          rw [← hcard]
          refine Finset.card_lt_card (Finset.ssubset_iff_of_subset ?_ |>.mpr ⟨x, ?_, ?_⟩)
          · intro y hy
            simp only [Finset.mem_sdiff, List.mem_toFinset, List.mem_append, not_or] at hy ⊢
            exact ⟨hy.1, hy.2.1⟩
          · simp [hx, hmem]
          · simp
        have hall : ∀ y ∈ (next x).reverse ++ stack, y ∈ univ := by
          intro y hy
          obtain hy | hy := List.mem_append.mp hy
          · exact hnext x hx y (List.mem_reverse.mp hy)
          · exact hstack y hy
        obtain ⟨n, l, h⟩ := ihCard _ hless _ (results ++ [x]) hall rfl
        refine ⟨n + 1, l, fun fuel hfuel => ?_⟩
        obtain ⟨fuel, rfl⟩ := Nat.exists_eq_add_of_le' (Nat.one_le_of_lt hfuel)
        rw [closure, if_neg hmem]
        exact h fuel (by omega)

end Worklist
