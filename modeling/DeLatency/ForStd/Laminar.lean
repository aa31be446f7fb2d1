import Mathlib.Data.List.Basic
import Mathlib.Order.Basic

/-!
# Laminar families of spans

A span is a pair of its start and its end.  What opens last closes first, and the clock does
not go back: then any two spans are apart or one lies in the other.  `Nested` is the
invariant of such a stack of open spans, with one lemma for an opening and one for a closing.
-/

variable {α : Type*} [Preorder α]

/-- One of the spans lies in the other, or they have no more than an end in common. -/
def Laminar (p q : α × α) : Prop :=
  p.2 ≤ q.1 ∨ q.2 ≤ p.1 ∨ (q.1 ≤ p.1 ∧ p.2 ≤ q.2) ∨ (p.1 ≤ q.1 ∧ q.2 ≤ p.2)

/-- An interval lies in itself. -/
theorem Laminar.refl (p : α × α) : Laminar p p := .inr (.inr (.inl ⟨le_rfl, le_rfl⟩))

/-- The spans that are closed by `now`, beside the starts of those still open, innermost
    first. -/
structure Nested (now : α) (starts : List α) (spans : List (α × α)) : Prop where
  starts_le : ∀ s ∈ starts, s ≤ now
  starts_sorted : starts.Pairwise (· ≥ ·)
  ends_le : ∀ p ∈ spans, p.2 ≤ now
  /-- A closed span is over before an open one starts, or starts inside it. -/
  apart : ∀ p ∈ spans, ∀ s ∈ starts, p.2 ≤ s ∨ s ≤ p.1
  laminar : spans.Pairwise Laminar

namespace Nested

variable {now t s : α} {starts : List α} {spans : List (α × α)}

/-- Nothing has been opened. -/
theorem nil (now : α) : Nested now [] [] :=
  ⟨by simp, .nil, by simp, by simp, .nil⟩

/-- Time may pass. -/
theorem later (h : Nested now starts spans) (ht : now ≤ t) : Nested t starts spans :=
  ⟨fun s hs => (h.starts_le s hs).trans ht, h.starts_sorted,
    fun p hp => (h.ends_le p hp).trans ht, h.apart, h.laminar⟩

/-- A span opens. -/
theorem enter (h : Nested now starts spans) (ht : now ≤ t) : Nested t (t :: starts) spans where
  -- the new start is the latest
  starts_le := by
    intro s hs
    rcases List.mem_cons.mp hs with rfl | hs
    · exact le_rfl
    · exact (h.starts_le s hs).trans ht
  starts_sorted := List.pairwise_cons.mpr ⟨fun s hs => (h.starts_le s hs).trans ht, h.starts_sorted⟩
  ends_le := (h.later ht).ends_le
  -- every span so far has ended before it
  apart := by
    intro p hp s hs
    rcases List.mem_cons.mp hs with rfl | hs
    · exact .inl ((h.ends_le p hp).trans ht)
    · exact h.apart p hp s hs
  laminar := h.laminar

/-- The innermost span closes, and is noted down any number of times. -/
theorem leave (h : Nested now (s :: starts) spans) (ht : now ≤ t) (n : ℕ) :
    Nested t starts (spans ++ List.replicate n (s, t)) where
  starts_le := fun s' hs => (h.starts_le s' (List.mem_cons_of_mem _ hs)).trans ht
  starts_sorted := (List.pairwise_cons.mp h.starts_sorted).2
  ends_le := by
    intro p hp
    rcases List.mem_append.mp hp with hp | hp
    · exact (h.ends_le p hp).trans ht
    · obtain rfl := List.eq_of_mem_replicate hp
      exact le_rfl
  apart := by
    intro p hp s' hs'
    rcases List.mem_append.mp hp with hp | hp
    · exact h.apart p hp s' (List.mem_cons_of_mem _ hs')
    · obtain rfl := List.eq_of_mem_replicate hp
      exact .inr ((List.pairwise_cons.mp h.starts_sorted).1 s' hs')
  laminar := by
    refine List.pairwise_append.mpr ⟨h.laminar, List.pairwise_replicate.mpr (.inr (.refl _)), ?_⟩
    intro p hp q hq
    obtain rfl := List.eq_of_mem_replicate hq
    -- the span that closes was open while `p` was closed
    rcases h.apart p hp s (List.mem_cons_self ..) with hps | hsp
    · exact .inl hps
    · exact .inr (.inr (.inl ⟨hsp, (h.ends_le p hp).trans ht⟩))

end Nested
