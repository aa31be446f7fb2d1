import Mathlib.Logic.Function.Basic
import Mathlib.Data.List.Basic

/-!
# Loops over keyed state

A state that maps every key to its own slice, updated one key at a time.  A
loop of such updates acts on each key as the loop over that key's updates alone
(`foldl_modify_apply`), so an invariant of one slice can be proved on one slice.
-/

namespace Keyed

variable {κ σ ι : Type*} [DecidableEq κ]

/-- Update the slice of one key. -/
def modify (st : κ → σ) (k : κ) (f : σ → σ) : κ → σ := Function.update st k (f (st k))

/-- The state of the key is changed. -/
@[simp] theorem modify_same (st : κ → σ) (k : κ) (f : σ → σ) : modify st k f k = f (st k) := by
  simp [modify]

/-- The states of other keys stay. -/
theorem modify_of_ne (st : κ → σ) {k k' : κ} (f : σ → σ) (h : k' ≠ k) :
    modify st k f k' = st k' := by
  simp [modify, h]

/-- What a loop of keyed updates does to one key. -/
theorem foldl_modify_apply (items : List ι) (key : ι → κ) (f : ι → σ → σ) (st : κ → σ) (k : κ) :
    items.foldl (fun st i => modify st (key i) (f i)) st k =
      (items.filter fun i => key i = k).foldl (fun s i => f i s) (st k) := by
  induction items generalizing st with
  | nil => rfl
  | cons i rest ih =>
    rw [List.foldl_cons, ih]
    -- an item of another key leaves the state at `k` alone
    by_cases h : key i = k
    · subst h; simp
    · simp [h, modify_of_ne st (f i) (Ne.symm h)]

end Keyed
