import Mathlib.Data.List.Basic
import Mathlib.Data.List.Forall2
import Mathlib.Data.List.Induction
import Mathlib.Data.List.Pairwise
import Mathlib.Data.List.Zip
import Mathlib.Logic.Function.Iterate
import Mathlib.Order.Basic

/-!
# Small facts about lists
-/

namespace List

variable {α : Type*}

/-- The elements of a list are enumerated, not those of its type, which may be finite but large. -/
instance (priority := 1100) decidableForallMem {p : α → Prop} [DecidablePred p] (l : List α) :
    Decidable (∀ x ∈ l, p x) :=
  decidableBAll p l

/-- The head of a list ordered by a key has the least key. -/
theorem Pairwise.head_key_le {β : Type*} [Preorder β] {key : α → β} {a x : α} {l : List α}
    (h : (a :: l).Pairwise fun x y => key x ≤ key y) (hx : x ∈ a :: l) : key a ≤ key x := by
  have hrefl : Std.Refl fun x y : α => key x ≤ key y := ⟨fun x => le_refl (key x)⟩
  exact h.rel_head hx

/-- Taking out the first match of a search leaves the other elements. -/
theorem perm_cons_eraseP_of_find? {p : α → Bool} {l : List α} {a : α} (h : l.find? p = some a) :
    l.Perm (a :: l.eraseP p) := by
  induction l with
  | nil => cases h
  | cons b rest ih =>
    -- found in front, or in the rest
    by_cases hb : p b
    · rw [find?_cons_of_pos hb] at h
      cases h
      rw [eraseP_cons_of_pos hb]
    · rw [find?_cons_of_neg hb] at h
      rw [eraseP_cons_of_neg hb]
      exact (Perm.cons b (ih h)).trans (Perm.swap a b _)

section Writes

variable {ι : Type*} {pos : ι → ℕ} {value : ι → α}

/-- A position that no write touches keeps its value. -/
theorem getElem?_foldl_set_of_ne {l : List ι} {xs : List α} {k : ℕ} (h : ∀ i ∈ l, pos i ≠ k) :
    (l.foldl (fun xs i => xs.set (pos i) (value i)) xs)[k]? = xs[k]? := by
  induction l generalizing xs with
  | nil => rfl
  | cons i rest ih =>
    rw [foldl_cons, ih fun j hj => h j (mem_cons_of_mem i hj),
      getElem?_set_ne (h i mem_cons_self)]

/-- Writes to different positions all stand. -/
theorem getElem?_foldl_set_of_mem {l : List ι} {xs : List α} (hnodup : (l.map pos).Nodup)
    {i : ι} (hi : i ∈ l) (hlt : pos i < xs.length) :
    (l.foldl (fun xs i => xs.set (pos i) (value i)) xs)[pos i]? = some (value i) := by
  induction l generalizing xs with
  | nil => cases hi
  | cons j rest ih =>
    rw [map_cons, nodup_cons] at hnodup
    rw [foldl_cons]
    obtain rfl | hrest := mem_cons.mp hi
    · -- no later element writes to the same position
      rw [getElem?_foldl_set_of_ne, getElem?_set_self hlt]
      intro j hj heq
      exact hnodup.1 (heq ▸ mem_map_of_mem hj)
    · exact ih hnodup.2 hrest (by rwa [length_set])

/-- Setting elements keeps the length. -/
theorem length_foldl_set (l : List ι) (xs : List α) :
    (l.foldl (fun xs i => xs.set (pos i) (value i)) xs).length = xs.length := by
  induction l generalizing xs with
  | nil => rfl
  | cons i rest ih => rw [foldl_cons, ih, length_set]

end Writes

/-- When one more element keeps a property exactly under a condition, all prefixes have it
    exactly when every element meets the condition. -/
theorem forall_prefix_iff {l : List α} {P : List α → Prop} {ok : List α → α → Prop}
    (hnil : P []) (hstep : ∀ pre a, pre ++ [a] <+: l → P pre → (P (pre ++ [a]) ↔ ok pre a)) :
    (∀ pre, pre <+: l → P pre) ↔ ∀ pre a, pre ++ [a] <+: l → ok pre a := by
  constructor
  · intro h pre a hpre
    exact (hstep pre a hpre (h pre ((prefix_append pre [a]).trans hpre))).mp (h _ hpre)
  · intro h pre
    -- by induction along the prefixes, each of which is one longer than the last
    induction pre using List.reverseRecOn with
    | nil => exact fun _ => hnil
    | append_singleton pre a ih =>
      intro hpre
      have hold := ih ((prefix_append pre [a]).trans hpre)
      exact (hstep pre a hpre hold).mpr (h pre a hpre)

section Loops

variable {σ : Type*} {step : σ → α → σ} {P : σ → Prop} {born : α → Prop}

/-- What a loop's state has at the end, it had at the start or some turn brought it. -/
theorem exists_mem_of_foldl {l : List α} {s : σ} (h : P (l.foldl step s))
    (hstep : ∀ s a, P (step s a) → P s ∨ born a) : P s ∨ ∃ a ∈ l, born a := by
  induction l generalizing s with
  | nil => exact .inl h
  | cons a rest ih =>
    -- it held after the first step, or a later element brought it
    obtain hs | ⟨b, hb, hborn⟩ := ih h
    · obtain hold | hborn := hstep s a hs
      · exact .inl hold
      · exact .inr ⟨a, mem_cons_self, hborn⟩
    · exact .inr ⟨b, mem_cons_of_mem a hb, hborn⟩

/-- When no turn takes it away again, that is all that the state has at the end. -/
theorem foldl_iff_of_step (hstep : ∀ s a, P (step s a) ↔ P s ∨ born a) (l : List α) (s : σ) :
    P (l.foldl step s) ↔ P s ∨ ∃ a ∈ l, born a := by
  refine ⟨fun h => exists_mem_of_foldl h fun s a => (hstep s a).mp, ?_⟩
  induction l generalizing s with
  | nil => simp
  | cons a rest ih =>
    intro h
    -- the first step has brought it, or a later one will
    apply ih (step s a)
    rw [hstep]
    simp only [mem_cons, exists_eq_or_imp] at h
    exact or_assoc.mpr h

end Loops

/-- No piece has a separator in it. -/
theorem forall_of_mem_splitOnP {α : Type*} {p : α → Bool} {l piece : List α}
    (h : piece ∈ l.splitOnP p) : ∀ a ∈ piece, p a = false := by
  induction l generalizing piece with
  | nil =>
    rw [splitOnP_nil, mem_singleton] at h
    subst h
    exact fun a ha => absurd ha not_mem_nil
  | cons x l ih =>
    rw [splitOnP_cons_eq_if_modifyHead] at h
    by_cases hx : p x
    · rw [if_pos hx] at h
      obtain rfl | h := mem_cons.mp h
      · exact fun a ha => absurd ha not_mem_nil
      · exact ih h
    · rw [if_neg hx] at h
      cases hsplit : l.splitOnP p with
      | nil => exact absurd hsplit (splitOnP_ne_nil p l)
      | cons first pieces =>
        rw [hsplit] at ih h
        -- only the first piece is longer by one element
        obtain rfl | h := mem_cons.mp h
        · rw [forall_mem_cons]
          exact ⟨by simpa using hx, ih mem_cons_self⟩
        · exact ih (mem_cons_of_mem first h)

/-- Lines split off a text one by one, whatever comes after them. -/
theorem splitOnP_flatMap_append {α : Type*} {p : α → Bool} {sep : α} (hsep : p sep = true)
    {lines : List (List α)} (h : ∀ line ∈ lines, ∀ a ∈ line, p a = false) (rest : List α) :
    ((lines.flatMap fun line => line ++ [sep]) ++ rest).splitOnP p = lines ++ rest.splitOnP p := by
  induction lines with
  | nil => rfl
  -- the line holds no separator, so the split comes at its end
  | cons line lines ih =>
    rw [forall_mem_cons] at h
    rw [flatMap_cons, append_assoc, append_assoc, singleton_append,
      splitOnP_append_cons_of_forall_mem h.1 sep hsep, ih h.2, cons_append]

/-- A text made of lines splits into the lines and the empty rest. -/
theorem splitOnP_flatMap {α : Type*} {p : α → Bool} {sep : α} (hsep : p sep = true)
    {lines : List (List α)} (h : ∀ line ∈ lines, ∀ a ∈ line, p a = false) :
    (lines.flatMap fun line => line ++ [sep]).splitOnP p = lines ++ [[]] := by
  have happend := splitOnP_flatMap_append hsep h []
  rwa [append_nil] at happend

/-- An element of a longer list is the one that was added, or has the same elements before it in
    the list. -/
theorem concat_eq_append_cons {α : Type*} {l before after : List α} {a x : α}
    (h : l ++ [a] = before ++ x :: after) :
    (l = before ∧ a = x ∧ after = []) ∨
      ∃ after', after = after' ++ [a] ∧ l = before ++ x :: after' := by
  -- the split is at the last element, or before it
  obtain rfl | ⟨after', last, rfl⟩ := eq_nil_or_concat' after
  · obtain ⟨hl, hlast⟩ := append_inj' h rfl
    cases hlast
    exact .inl ⟨hl, rfl, rfl⟩
  · rw [← cons_append, ← append_assoc] at h
    obtain ⟨hl, hlast⟩ := append_inj' h rfl
    cases hlast
    exact .inr ⟨after', rfl, hl⟩

/-- Something about an element and what is before it holds in a longer list when it held before,
    or holds of the last element. -/
theorem exists_split_concat {α : Type*} {P : List α → α → Prop} {l : List α} {a : α} :
    (∃ before x after, l ++ [a] = before ++ x :: after ∧ P before x) ↔
      (∃ before x after, l = before ++ x :: after ∧ P before x) ∨ P l a := by
  constructor
  · intro h
    obtain ⟨before, x, after, heq, hP⟩ := h
    -- the split is at the new element, or among the old ones
    obtain ⟨rfl, rfl, -⟩ | ⟨after', -, rfl⟩ := concat_eq_append_cons heq
    · exact .inr hP
    · exact .inl ⟨before, x, after', rfl, hP⟩
  · intro h
    obtain ⟨before, x, after, rfl, hP⟩ | hP := h
    · exact ⟨before, x, after ++ [a], by simp, hP⟩
    · exact ⟨l, a, [], rfl, hP⟩

/-- Every element but the last is among those before the last. -/
theorem mem_dropLast_of_getElem? {l : List α} {i : ℕ} {a : α} (hi : l[i]? = some a)
    (hlt : i + 1 < l.length) : a ∈ l.dropLast := by
  apply mem_of_getElem? (i := i)
  rw [getElem?_dropLast, if_pos (by omega), hi]

/-- The last element of a pattern is matched before the end of a list, or by its end. -/
theorem concat_sublist_concat_iff (xs : List α) (x : α) (l : List α) (a : α) :
    (xs ++ [x]).Sublist (l ++ [a]) ↔ (xs ++ [x]).Sublist l ∨ x = a ∧ xs.Sublist l := by
  rw [← reverse_sublist, reverse_append, reverse_append, reverse_singleton, reverse_singleton,
    singleton_append, singleton_append, cons_sublist_cons', reverse_sublist,
    show x :: xs.reverse = (xs ++ [x]).reverse by simp, reverse_sublist]

/-- A pattern ends at some element, and the rest of it is matched before. -/
theorem exists_split_of_concat_sublist_map {β : Type*} {f : α → β} (xs : List β) {x : β}
    {l : List α} (h : (xs ++ [x]).Sublist (l.map f)) :
    ∃ before a after, l = before ++ a :: after ∧ f a = x ∧ xs.Sublist (before.map f) := by
  induction l using List.reverseRecOn with
  | nil => simp at h
  | append_singleton l a ih =>
    rw [map_append, map_singleton, concat_sublist_concat_iff] at h
    -- the last value is matched before the end or by the last element
    obtain h | ⟨hx, h⟩ := h
    · obtain ⟨before, b, after, rfl, hb, hsub⟩ := ih h
      exact ⟨before, b, after ++ [a], by simp, hb, hsub⟩
    · exact ⟨l, a, [], rfl, hx.symm, h⟩

/-- The last element with a property. -/
theorem exists_last_split {p : α → Prop} {l : List α} (h : ∃ a ∈ l, p a) :
    ∃ before a after, l = before ++ a :: after ∧ p a ∧ ∀ b ∈ after, ¬p b := by
  induction l using List.reverseRecOn with
  | nil => simp at h
  | append_singleton l a ih =>
    -- the induction is from the back: the last element has it, or the split is further in front
    by_cases ha : p a
    · exact ⟨l, a, [], rfl, ha, by simp⟩
    · obtain ⟨b, hb, hpb⟩ := h
      have hmem : b ∈ l := by
        obtain hb | hb := mem_append.mp hb
        · exact hb
        · exact absurd (mem_singleton.mp hb ▸ hpb) ha
      obtain ⟨before, c, after, rfl, hc, hlast⟩ := ih ⟨b, hmem, hpb⟩
      refine ⟨before, c, after ++ [a], by simp, hc, fun d hd => ?_⟩
      obtain hd | hd := mem_append.mp hd
      · exact hlast d hd
      · rwa [mem_singleton.mp hd]

/-- At most one element has a property that no two elements in the relation share. -/
theorem Pairwise.countP_le_one {R : α → α → Prop} {p : α → Bool} {l : List α}
    (h : l.Pairwise R) (hR : ∀ a b, R a b → p a → ¬p b) : l.countP p ≤ 1 := by
  induction l with
  | nil => simp
  | cons a rest ih =>
    rw [pairwise_cons] at h
    by_cases ha : p a
    · -- no later element can have it as well
      have hrest : rest.countP p = 0 :=
        countP_eq_zero.mpr fun b hb => hR a b (h.1 b hb) ha
      rw [countP_cons_of_pos ha]
      omega
    · rw [countP_cons_of_neg ha]
      exact ih h.2

/-- What is read off the picked elements is read off the elements. -/
theorem map_filterMap_sublist {β γ : Type*} {f : α → Option β} {g : β → γ} {h : α → γ}
    (l : List α) (hf : ∀ a b, f a = some b → g b = h a) :
    ((l.filterMap f).map g).Sublist (l.map h) := by
  induction l with
  | nil => exact Sublist.refl _
  | cons a rest ih =>
    rw [filterMap_cons, map_cons]
    -- an element is dropped or keeps its value
    cases hfa : f a with
    | none => exact ih.cons (h a)
    | some b =>
      rw [map_cons, hf a b hfa]
      exact ih.cons_cons (h a)

/-- Relations compose along lists. -/
theorem Forall₂.comp {α β γ : Type*} {R : α → β → Prop} {S : β → γ → Prop} {T : α → γ → Prop}
    (hT : ∀ a b c, R a b → S b c → T a c) {l : List α} {l' : List β} {l'' : List γ}
    (h : Forall₂ R l l') (h' : Forall₂ S l' l'') : Forall₂ T l l'' := by
  induction h generalizing l'' with
  | nil =>
    cases h'
    exact .nil
  | cons hab _ ih =>
    cases h' with
    | cons hbc h' => exact .cons (hT _ _ _ hab hbc) (ih h')

section Modify

variable {α β : Type*} {l : List α} {l' : List β} {i : ℕ} {a : α} {b : β} {f : β → β}

/-- Modifying one of two related lists at a place where the relation stays. -/
theorem Forall₂.modify_right {R : α → β → Prop} (h : Forall₂ R l l') (ha : l[i]? = some a)
    (hb : l'[i]? = some b) (hR : R a (f b)) : Forall₂ R l (l'.modify i f) := by
  induction h generalizing i with
  | nil => cases ha
  -- the change is at the head or behind it
  | @cons x y l l' hxy h ih =>
    cases i with
    | zero =>
      cases ha
      cases hb
      exact Forall₂.cons hR h
    | succ i => exact Forall₂.cons hxy (ih ha hb)

/-- Modifying one of two lists where a property of the pairs becomes true counts one more. -/
theorem countP_zip_modify {p : α × β → Bool} (ha : l[i]? = some a) (hb : l'[i]? = some b)
    (hold : ¬p (a, b)) (hnew : p (a, f b)) :
    (l.zip (l'.modify i f)).countP p = (l.zip l').countP p + 1 := by
  induction l generalizing i l' with
  | nil => cases ha
  | cons x l ih =>
    cases l' with
    | nil => cases hb
    | cons y l' =>
      -- the modified place is the first, or one of the rest
      cases i with
      | zero =>
        cases ha
        cases hb
        rw [modify_zero_cons, zip_cons_cons, zip_cons_cons, countP_cons_of_pos hnew,
          countP_cons_of_neg hold]
      | succ i =>
        have hrest := ih ha hb
        rw [modify_succ_cons, zip_cons_cons, zip_cons_cons, countP_cons, countP_cons, hrest]
        omega

end Modify

/-- A value that is changed once for each time that its key is named. -/
theorem foldl_update_apply {κ β : Type*} [DecidableEq κ] (f : β → β) (keys : List κ) (m : κ → β)
    (k : κ) :
    (keys.foldl (fun m key => Function.update m key (f (m key))) m) k =
      f^[keys.count k] (m k) := by
  induction keys generalizing m with
  | nil => rfl
  | cons key keys ih =>
    rw [foldl_cons, ih]
    -- each occurrence of the key applies the function once more
    by_cases h : k = key
    · subst h
      rw [Function.update_self, count_cons_self, Function.iterate_succ_apply]
    · rw [Function.update_of_ne h, count_cons_of_ne (Ne.symm h)]

/-- Appending over and over appends as many copies. -/
theorem iterate_concat (a : α) (n : ℕ) (l : List α) : (· ++ [a])^[n] l = l ++ replicate n a := by
  induction n generalizing l with
  | zero => simp
  | succ n ih =>
    rw [Function.iterate_succ_apply, ih, append_assoc, replicate_succ, singleton_append]

/-- What is mapped to nothing may be left out before. -/
theorem flatMap_filter {β : Type*} (p : α → Bool) (f : α → List β) (l : List α) :
    (l.filter p).flatMap f = l.flatMap fun a => if p a then f a else [] := by
  induction l with
  | nil => rfl
  | cons a l ih =>
    by_cases ha : p a
    · rw [filter_cons_of_pos ha, flatMap_cons, flatMap_cons, ih, if_pos ha]
    · rw [filter_cons_of_neg ha, flatMap_cons, ih, if_neg ha, nil_append]

/-- Elements that map to nothing may be left out. -/
theorem flatMap_filter_of_nil {β : Type*} {p : α → Bool} {f : α → List β} {l : List α}
    (h : ∀ a, ¬p a → f a = []) : (l.filter p).flatMap f = l.flatMap f := by
  rw [flatMap_filter]
  refine flatMap_congr fun a _ => ?_
  split
  · rfl
  · next ha => rw [h a ha]

end List
