import Mathlib.Data.List.Nodup
import Mathlib.Data.List.Lemmas

/-!
# The first element of each key

`List.firstSeen key l` keeps, in order, the elements of `l` that no element of the same key
comes before.  `List.pushNew` is a turn of the loop that computes it: an element is
appended when its key is not there yet.

`List.chunks` cuts a list into pieces of a given length.
-/

namespace List

variable {α β : Type*} [DecidableEq β] {key : α → β}

/-- The first element of each key, in order. -/
def firstSeen (key : α → β) : List α → List α
  | [] => []
  | a :: l => a :: (firstSeen key l).filter fun b => key b ≠ key a

/-- Append an element whose key is new. -/
def pushNew (key : α → β) (out : List α) (a : α) : List α :=
  if key a ∈ out.map key then out else out ++ [a]

/-- Nothing has been seen. -/
@[simp] theorem firstSeen_nil : firstSeen key [] = [] := rfl

/-- The first element is kept, and later ones with its key are not. -/
theorem firstSeen_cons (a : α) (l : List α) :
    firstSeen key (a :: l) = a :: (firstSeen key l).filter fun b => key b ≠ key a := rfl

/-- What the loop adds to the elements that are there. -/
theorem foldl_pushNew (l out : List α) :
    l.foldl (pushNew key) out = out ++ (firstSeen key l).filter fun b => key b ∉ out.map key := by
  induction l generalizing out with
  | nil => simp
  | cons a rest ih =>
    rw [foldl_cons, ih, pushNew, firstSeen_cons]
    by_cases ha : key a ∈ out.map key
    · -- the elements that `a` hides are hidden by `out` already
      rw [if_pos ha, filter_cons_of_neg (by simpa using ha), filter_filter]
      congr 1
      apply filter_congr
      intro b _
      by_cases hb : key b = key a
      · rw [hb]; simpa using ha
      · simp [hb]
    · rw [if_neg ha, filter_cons_of_pos (by simpa using ha), filter_filter, append_assoc,
        singleton_append]
      congr 2
      apply filter_congr
      intro b _
      rw [Bool.eq_iff_iff]
      simp only [map_append, map_singleton, mem_append, mem_singleton, not_or, decide_eq_true_eq,
        Bool.and_eq_true, ne_eq]

/-- Pushing what is new onto the empty list keeps the first of every key. -/
theorem foldl_pushNew_nil (l : List α) : l.foldl (pushNew key) [] = firstSeen key l := by
  simp [foldl_pushNew]

/-- The keys that are there are those of the list. -/
theorem mem_map_firstSeen {l : List α} {k : β} :
    k ∈ (firstSeen key l).map key ↔ k ∈ l.map key := by
  induction l with
  | nil => rfl
  | cons a rest ih =>
    rw [firstSeen_cons, map_cons, map_cons, mem_cons, mem_cons, ← ih]
    -- the filter only drops elements of the key that stands in front
    by_cases hk : k = key a
    · simp [hk]
    · simp only [hk, false_or, mem_map, mem_filter, decide_eq_true_eq]
      constructor
      · intro h
        obtain ⟨b, ⟨hb, -⟩, rfl⟩ := h
        exact ⟨b, hb, rfl⟩
      · intro h
        obtain ⟨b, hb, rfl⟩ := h
        exact ⟨b, ⟨hb, hk⟩, rfl⟩

/-- No key is there twice. -/
theorem nodup_firstSeen (l : List α) : ((firstSeen key l).map key).Nodup := by
  induction l with
  | nil => exact nodup_nil
  | cons a rest ih =>
    rw [firstSeen_cons, map_cons, nodup_cons]
    refine ⟨?_, ih.sublist (filter_sublist.map key)⟩
    simp only [mem_map, mem_filter, decide_eq_true_eq, not_exists, not_and]
    exact fun b hb heq => hb.2 heq

/-- What is kept is in the order of the list. -/
theorem firstSeen_sublist (l : List α) : (firstSeen key l).Sublist l := by
  induction l with
  | nil => exact .slnil
  | cons a rest ih => exact (filter_sublist.trans ih).cons_cons a

/-- Of two lists the second adds the keys that the first does not have. -/
theorem firstSeen_append (l l' : List α) :
    firstSeen key (l ++ l') =
      firstSeen key l ++ (firstSeen key l').filter fun b => key b ∉ l.map key := by
  rw [← foldl_pushNew_nil, foldl_append, foldl_pushNew_nil, foldl_pushNew]
  congr 1
  exact filter_congr fun b _ => by simp only [mem_map_firstSeen]

/-- Distinct keys are left alone. -/
theorem firstSeen_of_nodup {l : List α} (h : (l.map key).Nodup) : firstSeen key l = l := by
  induction l with
  | nil => rfl
  | cons a rest ih =>
    rw [map_cons, nodup_cons] at h
    -- nothing later has the first one's key, so the filter keeps all
    rw [firstSeen_cons, ih h.2, filter_eq_self.mpr]
    intro b hb
    rw [decide_eq_true_eq]
    exact fun heq => h.1 (heq ▸ mem_map_of_mem hb)

/-- The second time everything is kept. -/
@[simp] theorem firstSeen_firstSeen (l : List α) :
    firstSeen key (firstSeen key l) = firstSeen key l := firstSeen_of_nodup (nodup_firstSeen l)

/-- Something is kept of every list that is not empty. -/
@[simp] theorem firstSeen_eq_nil {l : List α} : firstSeen key l = [] ↔ l = [] := by
  cases l with
  | nil => simp
  | cons a rest => simp [firstSeen_cons]

/-! ## Pieces of a list -/

/-- Pieces of length `n`, the last one shorter. -/
def chunks (n : ℕ) (l : List α) : List (List α) :=
  (range ((l.length + n - 1) / n)).map fun i => (l.drop (i * n)).take n

/-- The empty list has no pieces. -/
@[simp] theorem chunks_nil {n : ℕ} (hn : 0 < n) : chunks n ([] : List α) = [] := by
  have hzero : (([] : List α).length + n - 1) / n = 0 := Nat.div_eq_of_lt (by simp; omega)
  rw [chunks, hzero]
  rfl

/-- The first piece, and the pieces of what is left. -/
theorem chunks_of_ne_nil {n : ℕ} (hn : 0 < n) {l : List α} (hl : l ≠ []) :
    chunks n l = l.take n :: chunks n (l.drop n) := by
  have hlen := length_pos_iff.mpr hl
  -- one chunk more than the rest has
  have hcount : (l.length + n - 1) / n = ((l.drop n).length + n - 1) / n + 1 := by
    rw [length_drop]
    by_cases hle : n ≤ l.length
    · rw [← Nat.add_div_right _ hn]
      congr 1
      omega
    · rw [show l.length - n = 0 by omega, Nat.div_eq_of_lt (show 0 + n - 1 < n by omega)]
      exact Nat.div_eq_of_lt_le (by omega) (by omega)
  -- the later chunks are those of the rest, moved on by one chunk
  rw [chunks, hcount, range_succ_eq_map, map_cons, Nat.zero_mul, drop_zero, map_map]
  congr 1
  apply map_congr_left
  intro i _
  rw [Function.comp_apply, drop_drop, Nat.succ_mul, Nat.add_comm]

/-- A list that is no longer than a piece is one piece. -/
theorem chunks_of_length_le {n : ℕ} {l : List α} (hl : l ≠ []) (hle : l.length ≤ n) :
    chunks n l = [l] := by
  have hn : 0 < n := by have := length_pos_iff.mpr hl; omega
  rw [chunks_of_ne_nil hn hl, take_of_length_le hle, drop_of_length_le hle, chunks_nil hn]

/-- The first pieces together are a prefix. -/
private theorem flatten_pieces (n : ℕ) (l : List α) (m : ℕ) :
    ((range m).map fun i => (l.drop (i * n)).take n).flatten = l.take (m * n) := by
  induction m with
  | zero => simp
  | succ m ih =>
    rw [range_succ, map_append, flatten_append, ih, map_singleton, flatten_singleton,
      Nat.succ_mul, take_add]

/-- The pieces together are the list. -/
theorem flatten_chunks {n : ℕ} (hn : 0 < n) (l : List α) : (chunks n l).flatten = l := by
  rw [chunks, flatten_pieces, take_of_length_le]
  have := Nat.lt_div_mul_add hn (a := l.length + n - 1)
  omega

/-- No piece is longer than asked. -/
theorem length_le_of_mem_chunks {n : ℕ} {l piece : List α} (h : piece ∈ chunks n l) :
    piece.length ≤ n := by
  obtain ⟨i, -, rfl⟩ := mem_map.mp h
  exact length_take_le _ _

end List
