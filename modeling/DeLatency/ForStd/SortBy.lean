import DeLatency.ForStd.Dict
import Mathlib.Data.List.Sort
import Mathlib.Data.Prod.Lex

/-!
# Stable sorting by a key

`List.sortBy key xs` orders `xs` by `key` and keeps equal keys in their input
order.  It is insertion sort, so small inputs evaluate in the kernel.

The entries of a dictionary in the order of their keys are a canonical form of it
(`Dict.sortBy_entries_eq_iff`).
-/

namespace List

variable {α β : Type*} [LinearOrder β]

/-- Stable sort by a key. -/
def sortBy (key : α → β) (xs : List α) : List α :=
  xs.insertionSort fun a b => key a ≤ key b

/-- Sorting by a key only permutes the list. -/
theorem sortBy_perm (key : α → β) (xs : List α) : (xs.sortBy key).Perm xs :=
  perm_insertionSort _ xs

/-- Sorting by a key keeps the members. -/
@[simp] theorem mem_sortBy {key : α → β} {xs : List α} {a : α} :
    a ∈ xs.sortBy key ↔ a ∈ xs :=
  (sortBy_perm key xs).mem_iff

/-- The result is ordered by the key. -/
theorem pairwise_sortBy (key : α → β) (xs : List α) :
    (xs.sortBy key).Pairwise fun a b => key a ≤ key b := by
  have : Std.Total fun a b : α => key a ≤ key b := ⟨fun a b => le_total (key a) (key b)⟩
  have : IsTrans α fun a b => key a ≤ key b := ⟨fun _ _ _ => le_trans⟩
  exact pairwise_insertionSort _ xs

/-- Sorting by a key of the image is sorting before. -/
theorem map_sortBy {γ : Type*} {key : α → β} {key' : γ → β} {f : α → γ} {xs : List α}
    (h : ∀ a ∈ xs, key a = key' (f a)) : (xs.sortBy key).map f = (xs.map f).sortBy key' :=
  map_insertionSort _ _ f xs fun a ha b hb => by rw [h a ha, h b hb]

/-- Sorting twice is sorting once. -/
theorem sortBy_sortBy (key : α → β) (xs : List α) : (xs.sortBy key).sortBy key = xs.sortBy key :=
  (pairwise_sortBy key xs).insertionSort_eq

/-- Only the empty list sorts to the empty list. -/
@[simp] theorem sortBy_eq_nil {key : α → β} {xs : List α} : xs.sortBy key = [] ↔ xs = [] := by
  rw [← length_eq_zero_iff, (sortBy_perm key xs).length_eq, length_eq_zero_iff]

/-- An element whose key is least, and no other's, comes first. -/
theorem head?_sortBy_of_least {key : α → β} {xs : List α} {m : α} (hm : m ∈ xs)
    (hleast : ∀ x ∈ xs, key m ≤ key x) (hinj : ∀ x ∈ xs, key x = key m → x = m) :
    (xs.sortBy key).head? = some m := by
  cases h : xs.sortBy key with
  | nil => rw [sortBy_eq_nil.mp h] at hm; simp at hm
  | cons y rest =>
    have hy : y ∈ xs := mem_sortBy.mp (h ▸ mem_cons_self)
    have hm' : m ∈ y :: rest := by rw [← h]; exact mem_sortBy.mpr hm
    -- the least element is in front, or the front has the same key and so is the least
    obtain heq | hrest := mem_cons.mp hm'
    · rw [heq]; rfl
    · have hle : key y ≤ key m := by
        have hp := pairwise_sortBy key xs
        rw [h, pairwise_cons] at hp
        exact hp.1 m hrest
      rw [hinj y hy (le_antisymm hle (hleast y hy))]
      rfl

/-- Elements that are in order stay so. -/
theorem sublist_sortBy {key : α → β} {xs ys : List α}
    (h : xs.Pairwise fun a b => key a ≤ key b) (hsub : xs.Sublist ys) :
    xs.Sublist (ys.sortBy key) := by
  have : Std.Total fun a b : α => key a ≤ key b := ⟨fun a b => le_total (key a) (key b)⟩
  have : IsTrans α fun a b => key a ≤ key b := ⟨fun _ _ _ => le_trans⟩
  exact sublist_insertionSort h hsub

/-- Elements of one key stay in their order. -/
theorem filter_sortBy (key : α → β) (xs : List α) (b : β) :
    (xs.sortBy key).filter (key · = b) = xs.filter (key · = b) := by
  have hsame : (xs.filter (key · = b)).Pairwise fun a b => key a ≤ key b := by
    refine pairwise_of_forall_mem_list fun x hx y hy => ?_
    rw [of_decide_eq_true (mem_filter.mp hx).2, of_decide_eq_true (mem_filter.mp hy).2]
  have hsub := (sublist_sortBy hsame filter_sublist).filter (key · = b)
  rw [filter_filter, filter_congr fun x _ => Bool.and_self _] at hsub
  exact (hsub.eq_of_length ((sortBy_perm key xs).filter _).length_eq.symm).symm

/-- Of lists without two equal keys, sorting keeps what is in them and forgets the order. -/
theorem sortBy_eq_of_perm {key : α → β} {xs ys : List α} (h : xs.Perm ys)
    (hnodup : (xs.map key).Nodup) : xs.sortBy key = ys.sortBy key := by
  have hperm : (xs.sortBy key).Perm (ys.sortBy key) :=
    (sortBy_perm key xs).trans (h.trans (sortBy_perm key ys).symm)
  refine Perm.eq_of_pairwise ?_ (pairwise_sortBy key xs) (pairwise_sortBy key ys) hperm
  intro a b ha hb hab hba
  exact inj_on_of_nodup_map hnodup (mem_sortBy.mp ha) (h.mem_iff.mpr (mem_sortBy.mp hb))
    (le_antisymm hab hba)

end List

/-- Two dictionaries hold the same values if and only if their sorted entries are equal. -/
theorem Dict.sortBy_entries_eq_iff {κ ν : Type*} [LinearOrder κ] {d d' : Dict κ ν} :
    d.entries.sortBy Prod.fst = d'.entries.sortBy Prod.fst ↔ ∀ k, d.get? k = d'.get? k := by
  -- an entry is what the dict answers for its key
  have hmem_iff : ∀ (d : Dict κ ν) (k : κ) (v : ν), (k, v) ∈ d.entries ↔ d.get? k = some v :=
    fun d k v => ⟨Dict.get?_of_mem, Dict.mem_of_get?⟩
  constructor
  · intro h k
    apply Option.ext
    intro v
    rw [← hmem_iff, ← hmem_iff, ← @List.mem_sortBy _ _ _ Prod.fst, h, List.mem_sortBy]
  · intro h
    refine List.sortBy_eq_of_perm ?_ d.nodup
    rw [List.perm_ext_iff_of_nodup (List.Nodup.of_map _ d.nodup) (List.Nodup.of_map _ d'.nodup)]
    rintro ⟨k, v⟩
    rw [hmem_iff, hmem_iff, h k]
