import Mathlib.Data.List.Nodup
import Mathlib.Data.List.Perm.Basic
import Mathlib.Algebra.BigOperators.Group.List.Basic
import Mathlib.Algebra.Order.BigOperators.Group.List

/-!
# Insertion-ordered dictionaries

`Dict κ ν` is a finite map that remembers the order in which keys were first
inserted.  The proof field says that no key occurs twice, so a lookup and a sum
over the values never have to choose between entries.

`alter` covers both an assignment to a key and an update of a default value.
Two kinds of dictionary are built from it: counters (`add`) and groupings
(`push`).
-/

/-- A finite map in first-insertion order. -/
structure Dict (κ ν : Type*) where
  entries : List (κ × ν)
  nodup : (entries.map Prod.fst).Nodup

namespace Dict

variable {κ ν : Type*}

/-- Dictionaries with the same entries are equal. -/
@[ext] theorem ext {d d' : Dict κ ν} (h : d.entries = d'.entries) : d = d' := by
  cases d
  cases d'
  cases h
  rfl

/-- The empty dictionary. -/
def empty : Dict κ ν := ⟨[], by simp⟩

def keys (d : Dict κ ν) : List κ := d.entries.map Prod.fst

def values (d : Dict κ ν) : List ν := d.entries.map Prod.snd

/-- The sum of all stored values. -/
def total [AddMonoid ν] (d : Dict κ ν) : ν := d.values.sum

/-- The empty dictionary has no total. -/
@[simp] theorem total_empty [AddMonoid ν] : (empty : Dict κ ν).total = 0 := by
  simp [total, values, empty]

variable [DecidableEq κ]

/-- The value stored at `k`. -/
def get? (d : Dict κ ν) (k : κ) : Option ν := d.entries.lookup k

/-- The value stored at `k`, or a default. -/
def getD (d : Dict κ ν) (k : κ) (dflt : ν) : ν := (d.get? k).getD dflt

/-- Entries without the key `k` have no value for it. -/
private theorem lookup_of_notMem_keys {l : List (κ × ν)} {k : κ} (h : k ∉ l.map Prod.fst) :
    l.lookup k = none := by
  rw [List.lookup_eq_none_iff]
  intro e he
  have hne : e.1 ≠ k := ne_of_mem_of_not_mem (List.mem_map_of_mem he) h
  rw [bne_iff_ne]
  exact hne.symm

/-! ## Updating one key -/

/-- Replace the value at `k` by `f` of it, appending `f dflt` when `k` is new. -/
def alterEntries (k : κ) (dflt : ν) (f : ν → ν) : List (κ × ν) → List (κ × ν)
  | [] => [(k, f dflt)]
  | (k', v) :: rest =>
    if k' = k then (k', f v) :: rest else (k', v) :: alterEntries k dflt f rest

/-- A change adds its key. -/
theorem mem_keys_alterEntries (k : κ) (dflt : ν) (f : ν → ν) (l : List (κ × ν)) (x : κ) :
    x ∈ (alterEntries k dflt f l).map Prod.fst ↔ x = k ∨ x ∈ l.map Prod.fst := by
  induction l with
  | nil => simp [alterEntries]
  | cons e rest ih =>
    obtain ⟨k', v⟩ := e
    simp only [alterEntries]
    split
    · -- the key is found here, so the keys stay as they are
      next h => subst h; simp
    · simp only [List.map_cons, List.mem_cons, ih]
      exact or_left_comm

/-- A change makes no key come twice. -/
theorem nodup_alterEntries (k : κ) (dflt : ν) (f : ν → ν) (l : List (κ × ν))
    (h : (l.map Prod.fst).Nodup) : ((alterEntries k dflt f l).map Prod.fst).Nodup := by
  induction l with
  | nil => simp [alterEntries]
  | cons e rest ih =>
    obtain ⟨k', v⟩ := e
    simp only [List.map_cons, List.nodup_cons] at h
    simp only [alterEntries]
    split
    · simpa using h
    · -- the key is put further back, and is not the one in front
      next hne =>
      simp only [List.map_cons, List.nodup_cons, mem_keys_alterEntries, not_or]
      exact ⟨⟨hne, h.1⟩, ih h.2⟩

/-- Replace the value at `k` by `f` of it (of `dflt` when `k` is absent). -/
def alter (d : Dict κ ν) (k : κ) (dflt : ν) (f : ν → ν) : Dict κ ν :=
  ⟨alterEntries k dflt f d.entries, nodup_alterEntries k dflt f d.entries d.nodup⟩

/-- A change adds its key, in terms of the dictionary. -/
@[simp] theorem mem_keys_alter {d : Dict κ ν} {k : κ} {dflt : ν} {f : ν → ν} {x : κ} :
    x ∈ (d.alter k dflt f).keys ↔ x = k ∨ x ∈ d.keys :=
  mem_keys_alterEntries k dflt f d.entries x

/-- A new key comes last. -/
theorem entries_alter_of_notMem {d : Dict κ ν} {k : κ} (h : k ∉ d.keys) (dflt : ν) (f : ν → ν) :
    (d.alter k dflt f).entries = d.entries ++ [(k, f dflt)] := by
  -- a key that is not there goes to the end
  have hentries : ∀ l : List (κ × ν), k ∉ l.map Prod.fst →
      alterEntries k dflt f l = l ++ [(k, f dflt)] := by
    intro l hl
    induction l with
    | nil => rfl
    | cons e rest ih =>
      rw [List.map_cons, List.mem_cons, not_or] at hl
      have hne : ¬e.1 = k := fun heq => hl.1 heq.symm
      rw [alterEntries, if_neg hne, ih hl.2]
      rfl
  exact hentries d.entries h

/-- A new key comes after the others. -/
theorem keys_alter_of_notMem {d : Dict κ ν} {k : κ} (h : k ∉ d.keys) (dflt : ν) (f : ν → ν) :
    (d.alter k dflt f).keys = d.keys ++ [k] := by
  rw [keys, entries_alter_of_notMem h, List.map_append]
  rfl

/-- Assignments to different new keys append their entries. -/
theorem entries_foldl_alter {d : Dict κ ν} {es : List (κ × ν)}
    (h : (d.keys ++ es.map Prod.fst).Nodup) :
    (es.foldl (fun d e => d.alter e.1 e.2 fun _ => e.2) d).entries = d.entries ++ es := by
  induction es generalizing d with
  | nil => simp
  | cons e rest ih =>
    -- the next key is not there yet
    have hnew : e.1 ∉ d.keys := by
      rw [List.map_cons, List.nodup_append] at h
      exact fun hmem => h.2.2 e.1 hmem e.1 List.mem_cons_self rfl
    rw [List.foldl_cons, ih, entries_alter_of_notMem hnew, List.append_assoc]
    · rfl
    · rw [keys_alter_of_notMem hnew, List.append_assoc]
      exact h

/-- A change is found under its key and nowhere else. -/
private theorem lookup_alterEntries (k : κ) (dflt : ν) (f : ν → ν) (l : List (κ × ν)) (x : κ) :
    (alterEntries k dflt f l).lookup x =
      if x = k then some (f ((l.lookup k).getD dflt)) else l.lookup x := by
  induction l with
  | nil =>
    by_cases hx : x = k
    · simp [alterEntries, hx]
    · simp [alterEntries, List.lookup_cons, hx, beq_eq_false_iff_ne.mpr hx]
  | cons e rest ih =>
    obtain ⟨k', v⟩ := e
    -- the key stands here or in the rest
    by_cases hk : k' = k
    · subst hk
      by_cases hx : x = k'
      · simp [alterEntries, hx]
      · simp [alterEntries, List.lookup_cons, hx, beq_eq_false_iff_ne.mpr hx]
    · have hk' : (k == k') = false := beq_eq_false_iff_ne.mpr (Ne.symm hk)
      simp only [alterEntries, hk, if_false, List.lookup_cons, ih, hk']
      by_cases hx : x = k'
      · subst hx; simp [hk]
      · simp [beq_eq_false_iff_ne.mpr hx]

/-- The empty dictionary has the default everywhere. -/
@[simp] theorem getD_empty (k : κ) (dflt : ν) : (empty : Dict κ ν).getD k dflt = dflt := rfl

/-- Reading back an updated dictionary. -/
theorem getD_alter (d : Dict κ ν) (k x : κ) (dflt : ν) (f : ν → ν) :
    (d.alter k dflt f).getD x dflt =
      if x = k then f (d.getD k dflt) else d.getD x dflt := by
  simp only [getD, get?, alter, lookup_alterEntries]
  split <;> simp

/-- Looking up one key of an updated dictionary. -/
theorem get?_alter (d : Dict κ ν) (k x : κ) (dflt : ν) (f : ν → ν) :
    (d.alter k dflt f).get? x = if x = k then some (f (d.getD k dflt)) else d.get? x :=
  lookup_alterEntries k dflt f d.entries x

/-- Of several values that are stored under a key the last one counts. -/
theorem get?_foldl_alter {μ : Type*} (f : μ → ν) (dflt : ν) (es : List (κ × μ)) (d : Dict κ ν)
    (k : κ) :
    (es.foldl (fun d e => d.alter e.1 dflt fun _ => f e.2) d).get? k =
      ((es.reverse.lookup k).map f).or (d.get? k) := by
  induction es generalizing d with
  | nil => rfl
  | cons e es ih =>
    obtain ⟨k', v⟩ := e
    rw [List.foldl_cons, ih, get?_alter, List.reverse_cons, List.lookup_append]
    -- a later entry of the key wins over this one
    cases es.reverse.lookup k with
    | some v' => rfl
    | none =>
      by_cases hk : k = k'
      · simp [hk]
      · have hbeq : (k == k') = false := by simp [hk]
        simp [List.lookup_cons, hbeq, hk]

/-- The keys are what a lookup finds. -/
theorem isSome_get?_iff {d : Dict κ ν} {k : κ} : (d.get? k).isSome ↔ k ∈ d.keys := by
  rw [Option.isSome_iff_ne_none, get?, ne_eq, List.lookup_eq_none_iff, keys, List.mem_map]
  push Not
  constructor
  · intro h
    obtain ⟨e, he, hek⟩ := h
    exact ⟨e, he, (by simpa using hek : k = e.1).symm⟩
  · intro h
    obtain ⟨e, he, rfl⟩ := h
    exact ⟨e, he, by simp⟩

/-- A key that is not stored reads as the default. -/
theorem getD_of_notMem_keys {d : Dict κ ν} {k : κ} (h : k ∉ d.keys) (dflt : ν) :
    d.getD k dflt = dflt := by
  rw [getD, get?, lookup_of_notMem_keys h, Option.getD_none]

/-- A stored entry is what its key reads as. -/
theorem getD_of_mem {d : Dict κ ν} {k : κ} {v : ν} (h : (k, v) ∈ d.entries) (dflt : ν) :
    d.getD k dflt = v := by
  obtain ⟨l, hl⟩ := d
  show (l.lookup k).getD dflt = v
  change (k, v) ∈ l at h
  induction l with
  | nil => simp at h
  | cons e rest ih =>
    obtain ⟨k', v'⟩ := e
    have hl' := List.nodup_cons.mp hl
    cases List.mem_cons.mp h with
    | inl heq => cases heq; simp
    | inr hmem =>
      -- the head has another key, so the search goes on behind it
      have hne : k ≠ k' := ne_of_mem_of_not_mem (List.mem_map_of_mem hmem) hl'.1
      simpa [List.lookup_cons, beq_eq_false_iff_ne.mpr hne] using ih hl'.2 hmem

/-- An entry is found under its key. -/
theorem get?_of_mem {d : Dict κ ν} {k : κ} {v : ν} (h : (k, v) ∈ d.entries) :
    d.get? k = some v := by
  cases hget : d.get? k with
  | none =>
    have hkey : (d.get? k).isSome := isSome_get?_iff.mpr (List.mem_map_of_mem h)
    rw [hget] at hkey
    cases hkey
  | some w =>
    -- the read value is the entry's whatever the default is
    have hread := getD_of_mem h w
    rw [getD, hget, Option.getD_some] at hread
    rw [hread]

/-- What is found is an entry. -/
theorem mem_of_get? {d : Dict κ ν} {k : κ} {v : ν} (h : d.get? k = some v) :
    (k, v) ∈ d.entries := by
  have hkey : k ∈ d.keys := isSome_get?_iff.mp (Option.isSome_of_eq_some h)
  obtain ⟨⟨k, w⟩, he, rfl⟩ := List.mem_map.mp hkey
  rw [get?_of_mem he] at h
  rwa [← Option.some.inj h]

/-- A key that does not read as the default is stored. -/
theorem mem_entries_of_getD_ne {d : Dict κ ν} {k : κ} {dflt : ν} (h : d.getD k dflt ≠ dflt) :
    (k, d.getD k dflt) ∈ d.entries := by
  by_cases hk : k ∈ d.keys
  · obtain ⟨⟨k', v⟩, he, rfl⟩ := List.mem_map.mp hk
    rwa [getD_of_mem he]
  · exact absurd (getD_of_notMem_keys hk dflt) h

/-- What a loop of updates leaves at one key. -/
theorem getD_foldl_alter {ι : Type*} (items : List ι) (key : ι → κ) (f : ι → ν → ν) (dflt : ν)
    (d : Dict κ ν) (x : κ) :
    (items.foldl (fun d i => d.alter (key i) dflt (f i)) d).getD x dflt =
      (items.filter fun i => key i = x).foldl (fun v i => f i v) (d.getD x dflt) := by
  induction items generalizing d with
  | nil => rfl
  | cons i rest ih =>
    rw [List.foldl_cons, ih, getD_alter]
    -- an item of another key leaves the value at `x` alone
    by_cases h : key i = x
    · subst h; simp
    · simp [h, Ne.symm h]

/-! ## Removing one key -/

/-- Remove `k`. -/
def erase (d : Dict κ ν) (k : κ) : Dict κ ν :=
  ⟨d.entries.filter fun e => e.1 ≠ k, (d.nodup.sublist (List.filter_sublist.map _))⟩

/-- The other keys stay. -/
theorem mem_keys_erase {d : Dict κ ν} {k x : κ} : x ∈ (d.erase k).keys ↔ x ∈ d.keys ∧ x ≠ k := by
  simp only [keys, erase, List.mem_map, List.mem_filter, decide_eq_true_eq]
  constructor
  · intro h
    obtain ⟨e, ⟨he, hne⟩, rfl⟩ := h
    exact ⟨⟨e, he, rfl⟩, hne⟩
  · intro h
    obtain ⟨⟨e, he, rfl⟩, hne⟩ := h
    exact ⟨e, ⟨he, hne⟩, rfl⟩

/-- Looking up one key after a removal. -/
theorem get?_erase (d : Dict κ ν) (k x : κ) :
    (d.erase k).get? x = if x = k then none else d.get? x := by
  obtain ⟨l, hl⟩ := d
  simp only [get?, erase]
  induction l with
  | nil => simp
  | cons e rest ih =>
    obtain ⟨k', v⟩ := e
    have ih := ih (List.nodup_cons.mp hl).2
    -- the erased key stands here or in the rest
    by_cases hk : k' = k
    · subst hk
      by_cases hx : x = k'
      · subst hx; simpa using ih
      · simpa [List.lookup_cons, hx, beq_eq_false_iff_ne.mpr hx] using ih
    · rw [List.filter_cons_of_pos (by simpa using hk), List.lookup_cons, List.lookup_cons, ih]
      by_cases hx : x = k'
      · subst hx; simp [hk]
      · simp [beq_eq_false_iff_ne.mpr hx]

/-- The other values stay. -/
theorem getD_erase_of_ne (d : Dict κ ν) {k x : κ} (h : x ≠ k) (dflt : ν) :
    (d.erase k).getD x dflt = d.getD x dflt := by
  by_cases hx : x ∈ d.keys
  · obtain ⟨⟨x', v⟩, he, rfl⟩ := List.mem_map.mp hx
    rw [getD_of_mem he, getD_of_mem (List.mem_filter.mpr ⟨he, by simpa using h⟩)]
  · rw [getD_of_notMem_keys hx, getD_of_notMem_keys fun hm => hx (mem_keys_erase.mp hm).1]

/-- Removing a key removes its value from the total. -/
theorem total_erase_add [AddCommMonoid ν] (d : Dict κ ν) (k : κ) :
    (d.erase k).total + d.getD k 0 = d.total := by
  obtain ⟨l, hl⟩ := d
  induction l with
  | nil => simp [total, values, erase, getD, get?]
  | cons e rest ih =>
    obtain ⟨k', v⟩ := e
    simp only [List.map_cons, List.nodup_cons] at hl
    have ih := ih hl.2
    simp only [total, values, erase, getD, get?] at ih ⊢
    by_cases h : k' = k
    · subst h
      -- the key occurs only here, so nothing else is removed
      have hfilter : rest.filter (fun e => e.1 ≠ k') = rest := by
        rw [List.filter_eq_self]
        intro e he
        have hne : e.1 ≠ k' := ne_of_mem_of_not_mem (List.mem_map_of_mem he) hl.1
        simpa using hne
      simp only [ne_eq, decide_not] at hfilter
      simp [hfilter, add_comm]
    · have hk : (k == k') = false := beq_eq_false_iff_ne.mpr (Ne.symm h)
      simp only [ne_eq, decide_not, h, List.filter_cons_of_pos, List.lookup_cons, hk,
        List.map_cons, List.sum_cons, decide_false, Bool.not_false] at ih ⊢
      rw [add_assoc, ih]

/-! ## Keeping some entries -/

/-- Replace every value by `f` of it, dropping the entries without one. -/
def filterMap {μ : Type*} (f : κ → ν → Option μ) (d : Dict κ ν) : Dict κ μ :=
  ⟨d.entries.filterMap fun e => (f e.1 e.2).map (e.1, ·), by
    -- the keys that stay are a sublist of the keys
    refine d.nodup.sublist ?_
    induction d.entries with
    | nil => simp
    | cons e rest ih =>
      cases h : f e.1 e.2 with
      | none => simpa [h] using ih.cons e.1
      | some v => simpa [h] using ih.cons_cons e.1⟩

/-- A lookup after a map over the values is the map of the lookup. -/
theorem get?_filterMap {μ : Type*} (f : κ → ν → Option μ) (d : Dict κ ν) (k : κ) :
    (d.filterMap f).get? k = (d.get? k).bind (f k) := by
  obtain ⟨l, hl⟩ := d
  induction l with
  | nil => rfl
  | cons e rest ih =>
    obtain ⟨k', v⟩ := e
    simp only [List.map_cons, List.nodup_cons] at hl
    have ih := ih hl.2
    simp only [get?, filterMap] at ih ⊢
    by_cases hk : k = k'
    · subst hk
      cases h : f k v with
      | some w => simp [h]
      | none =>
        -- the dropped key does not occur again
        rw [lookup_of_notMem_keys hl.1] at ih
        simpa [h, List.lookup_cons] using ih
    · -- another key: kept or dropped, it does not answer for `k`
      have hk' : (k == k') = false := beq_eq_false_iff_ne.mpr hk
      cases h : f k' v with
      | some w => simpa [h, List.lookup_cons, hk'] using ih
      | none => simpa [h, List.lookup_cons, hk'] using ih

/-! ## Counters

A dictionary of summands, updated by `+=`. -/

section Counter

variable {M : Type*} [AddCommMonoid M]

/-- `d[k] += v` on a dictionary whose default is zero. -/
def add (d : Dict κ M) (k : κ) (v : M) : Dict κ M := d.alter k 0 (· + v)

/-- The sum grows by what is added. -/
private theorem sum_alterEntries (k : κ) (v : M) (l : List (κ × M)) :
    ((alterEntries k 0 (· + v) l).map Prod.snd).sum = (l.map Prod.snd).sum + v := by
  induction l with
  | nil => simp [alterEntries]
  | cons e rest ih =>
    obtain ⟨k', w⟩ := e
    simp only [alterEntries]
    -- the value goes to the first entry of the key, or to a new one at the end
    split
    · simp only [List.map_cons, List.sum_cons, add_right_comm]
    · simp only [List.map_cons, List.sum_cons, ih, add_assoc]

/-- The total grows by what is added. -/
@[simp] theorem total_add (d : Dict κ M) (k : κ) (v : M) : (d.add k v).total = d.total + v :=
  sum_alterEntries k v d.entries

/-- An addition changes the value of its key and no other. -/
theorem getD_add (d : Dict κ M) (k x : κ) (v : M) :
    (d.add k v).getD x 0 = if x = k then d.getD k 0 + v else d.getD x 0 :=
  getD_alter d k x 0 _

/-- An addition adds its key. -/
@[simp] theorem mem_keys_add {d : Dict κ M} {k x : κ} {v : M} :
    x ∈ (d.add k v).keys ↔ x = k ∨ x ∈ d.keys :=
  mem_keys_alter

/-- Add a list of summands, one after the other. -/
def addAll (d : Dict κ M) (es : List (κ × M)) : Dict κ M :=
  es.foldl (fun d e => d.add e.1 e.2) d

/-- Nothing is added. -/
@[simp] theorem addAll_nil (d : Dict κ M) : d.addAll [] = d := rfl

/-- The entries are added one after the other. -/
@[simp] theorem addAll_cons (d : Dict κ M) (e : κ × M) (es : List (κ × M)) :
    d.addAll (e :: es) = (d.add e.1 e.2).addAll es := rfl

/-- Adding summands adds their sum to the total. -/
theorem total_addAll (d : Dict κ M) (es : List (κ × M)) :
    (d.addAll es).total = d.total + (es.map Prod.snd).sum := by
  induction es generalizing d with
  | nil => simp
  | cons e rest ih => rw [addAll_cons, ih, total_add, List.map_cons, List.sum_cons, add_assoc]

/-- A key reads as the sum of the summands added under it. -/
theorem getD_addAll (d : Dict κ M) (es : List (κ × M)) (x : κ) :
    (d.addAll es).getD x 0 =
      d.getD x 0 + ((es.filter fun e => e.1 = x).map Prod.snd).sum := by
  induction es generalizing d with
  | nil => simp
  | cons e rest ih =>
    rw [addAll_cons, ih, getD_add]
    -- the entry counts only for its own key
    by_cases h : e.1 = x
    · subst h; simp [add_assoc]
    · simp [h, Ne.symm h]

/-- The keys afterwards are the old ones and those of the entries. -/
theorem mem_keys_addAll {d : Dict κ M} {es : List (κ × M)} {x : κ} :
    x ∈ (d.addAll es).keys ↔ x ∈ d.keys ∨ x ∈ es.map Prod.fst := by
  induction es generalizing d with
  | nil => simp
  | cons e rest ih =>
    simp only [addAll_cons, ih, mem_keys_add, List.map_cons, List.mem_cons]
    rw [or_comm (a := x = e.1), or_assoc]

/-- Summing the reads over any duplicate-free list that covers the keys gives
    the total. -/
theorem sum_getD_of_keys_subset (d : Dict κ M) {ks : List κ} (hks : ks.Nodup)
    (hsub : ∀ k ∈ d.keys, k ∈ ks) : (ks.map fun k => d.getD k 0).sum = d.total := by
  obtain ⟨l, hl⟩ := d
  induction l generalizing ks with
  | nil =>
    have h0 : ∀ k, Dict.getD (⟨[], hl⟩ : Dict κ M) k 0 = 0 := fun k => rfl
    simp [h0, total, values]
  | cons e rest ih =>
    obtain ⟨k, v⟩ := e
    have hk : k ∈ ks := hsub k (by simp [keys])
    simp only [List.map_cons, List.nodup_cons] at hl
    -- `k` reads as its own entry, every other key of the list as an entry behind it
    have hperm : ks.Perm (k :: ks.erase k) := List.perm_cons_erase hk
    have hrest := ih (hks.erase k) hl.2 (by
      intro x hx
      have hxk : x ≠ k := ne_of_mem_of_not_mem hx hl.1
      exact (List.mem_erase_of_ne hxk).mpr (hsub x (by simp only [keys] at hx ⊢; simp [hx])))
    rw [(hperm.map _).sum_eq, List.map_cons, List.sum_cons]
    have hhead : Dict.getD (⟨(k, v) :: rest, by simpa using hl⟩ : Dict κ M) k 0 = v :=
      getD_of_mem (by simp) 0
    have htail :
        (ks.erase k).map (fun x => Dict.getD (⟨(k, v) :: rest, by simpa using hl⟩ : Dict κ M) x 0)
          = (ks.erase k).map (fun x => Dict.getD (⟨rest, hl.2⟩ : Dict κ M) x 0) := by
      apply List.map_congr_left
      intro x hx
      have hxk : x ≠ k := ne_of_mem_of_not_mem hx hks.not_mem_erase
      simp [getD, get?, List.lookup_cons, beq_eq_false_iff_ne.mpr hxk]
    rw [hhead, htail, hrest]
    simp [total, values]

/-- Adding up dictionaries adds up their totals. -/
theorem total_addAll_flatMap {ι : Type*} (xs : List ι) (f : ι → Dict κ M) :
    ((empty : Dict κ M).addAll (xs.flatMap fun x => (f x).entries)).total =
      (xs.map fun x => (f x).total).sum := by
  rw [total_addAll, total_empty, zero_add]
  induction xs with
  | nil => rfl
  | cons x rest ih =>
    rw [List.flatMap_cons, List.map_append, List.sum_append, ih, List.map_cons, List.sum_cons]
    rfl

/-- The entries under one key add up to its value. -/
theorem sum_entries_of_key (d : Dict κ M) (k : κ) :
    ((d.entries.filter fun e => e.1 = k).map Prod.snd).sum = d.getD k 0 := by
  obtain ⟨l, hl⟩ := d
  induction l with
  | nil => rfl
  | cons e rest ih =>
    obtain ⟨k', v⟩ := e
    simp only [List.map_cons, List.nodup_cons] at hl
    by_cases h : k' = k
    · subst h
      -- the entry found is the only one that the filter keeps
      have hnone : rest.filter (fun e => e.1 = k') = [] := by
        rw [List.filter_eq_nil_iff]
        intro e he
        have hne : e.1 ≠ k' := ne_of_mem_of_not_mem (List.mem_map_of_mem he) hl.1
        simpa using hne
      simp [hnone, getD, get?]
    · have hrest := ih hl.2
      simpa [h, getD, get?, List.lookup_cons, beq_eq_false_iff_ne.mpr (Ne.symm h)] using hrest

/-- Adding up dictionaries adds up the reads of each key. -/
theorem getD_addAll_flatMap {ι : Type*} (xs : List ι) (f : ι → Dict κ M) (k : κ) :
    ((empty : Dict κ M).addAll (xs.flatMap fun x => (f x).entries)).getD k 0 =
      (xs.map fun x => (f x).getD k 0).sum := by
  rw [getD_addAll, getD_empty, zero_add]
  induction xs with
  | nil => rfl
  | cons x rest ih =>
    rw [List.flatMap_cons, List.filter_append, List.map_append, List.sum_append, ih,
      sum_entries_of_key, List.map_cons, List.sum_cons]

/-- The keys of a sum of dictionaries are those of its terms. -/
theorem mem_keys_addAll_flatMap {ι : Type*} {xs : List ι} {f : ι → Dict κ M} {k : κ} :
    k ∈ ((empty : Dict κ M).addAll (xs.flatMap fun x => (f x).entries)).keys ↔
      ∃ x ∈ xs, k ∈ (f x).keys := by
  have hnil : k ∉ (empty : Dict κ M).keys := by simp [keys, empty]
  rw [mem_keys_addAll, or_iff_right hnil]
  -- a key comes from one of the dicts
  constructor
  · intro h
    obtain ⟨e, he, rfl⟩ := List.mem_map.mp h
    obtain ⟨x, hx, hex⟩ := List.mem_flatMap.mp he
    exact ⟨x, hx, List.mem_map_of_mem hex⟩
  · intro h
    obtain ⟨x, hx, hk⟩ := h
    obtain ⟨e, he, rfl⟩ := List.mem_map.mp hk
    exact List.mem_map_of_mem (List.mem_flatMap.mpr ⟨x, hx, he⟩)

/-- A total splits into two of its keys and the rest. -/
theorem sum_entries_of_ne_add (d : Dict κ M) {k k' : κ} (h : k ≠ k') :
    ((d.entries.filter fun e => e.1 ≠ k ∧ e.1 ≠ k').map Prod.snd).sum + d.getD k 0 +
      d.getD k' 0 = d.total := by
  have hrest : ((d.entries.filter fun e => e.1 ≠ k ∧ e.1 ≠ k').map Prod.snd).sum =
      ((d.erase k').erase k).total := by
    simp only [total, values, erase, List.filter_filter]
    congr 2
    apply List.filter_congr
    intro e _
    simp
  -- removing `k'` leaves the read of `k` alone
  rw [hrest, ← getD_erase_of_ne d h 0, total_erase_add, total_erase_add]

/-- Reads stay non-negative under non-negative summands. -/
theorem getD_addAll_nonneg [PartialOrder M] [IsOrderedAddMonoid M] {d : Dict κ M}
    {es : List (κ × M)} {x : κ} (hd : 0 ≤ d.getD x 0) (hes : ∀ e ∈ es, 0 ≤ e.2) :
    0 ≤ (d.addAll es).getD x 0 := by
  rw [getD_addAll]
  -- what was there, and what the entries add
  apply add_nonneg hd
  apply List.sum_nonneg
  intro v hv
  obtain ⟨e, he, rfl⟩ := List.mem_map.mp hv
  exact hes e (List.mem_filter.mp he).1

end Counter

/-! ## Grouping -/

/-- `d[k].append(v)` on a dictionary whose default is the empty list. -/
def push (d : Dict κ (List ν)) (k : κ) (v : ν) : Dict κ (List ν) := d.alter k [] (· ++ [v])

/-- A push appends to the list of its key and no other. -/
theorem getD_push (d : Dict κ (List ν)) (k x : κ) (v : ν) :
    (d.push k v).getD x [] = if x = k then d.getD k [] ++ [v] else d.getD x [] :=
  getD_alter d k x [] _

/-- A push adds its key. -/
@[simp] theorem mem_keys_push {d : Dict κ (List ν)} {k x : κ} {v : ν} :
    x ∈ (d.push k v).keys ↔ x = k ∨ x ∈ d.keys :=
  mem_keys_alter

/-- Append a list of values, each under its key. -/
def pushAll (d : Dict κ (List ν)) (es : List (κ × ν)) : Dict κ (List ν) :=
  es.foldl (fun d e => d.push e.1 e.2) d

/-- Nothing is pushed. -/
@[simp] theorem pushAll_nil (d : Dict κ (List ν)) : d.pushAll [] = d := rfl

/-- The entries are pushed one after the other. -/
@[simp] theorem pushAll_cons (d : Dict κ (List ν)) (e : κ × ν) (es : List (κ × ν)) :
    d.pushAll (e :: es) = (d.push e.1 e.2).pushAll es := rfl

/-- A key holds the values appended under it, in order. -/
theorem getD_pushAll (d : Dict κ (List ν)) (es : List (κ × ν)) (x : κ) :
    (d.pushAll es).getD x [] =
      d.getD x [] ++ (es.filter fun e => e.1 = x).map Prod.snd := by
  induction es generalizing d with
  | nil => simp
  | cons e rest ih =>
    rw [pushAll_cons, ih, getD_push]
    -- the entry joins only its own key's list
    by_cases h : e.1 = x
    · subst h; simp
    · simp [h, Ne.symm h]

/-- Whatever a grouping of summands holds was one of them. -/
theorem mem_of_mem_entries_pushAll {es : List (κ × ν)} {k : κ} {vs : List ν} {v : ν}
    (he : (k, vs) ∈ ((empty : Dict κ (List ν)).pushAll es).entries) (hv : v ∈ vs) :
    (k, v) ∈ es := by
  -- the list under the key is the entries of that key, in order
  have hvs := getD_pushAll empty es k
  rw [getD_of_mem he, getD_empty, List.nil_append] at hvs
  rw [hvs] at hv
  obtain ⟨e, hmem, rfl⟩ := List.mem_map.mp hv
  obtain ⟨hes, hk⟩ := List.mem_filter.mp hmem
  rw [decide_eq_true_eq] at hk
  exact hk ▸ hes

/-- The keys afterwards are the old ones and those of the entries. -/
theorem mem_keys_pushAll {d : Dict κ (List ν)} {es : List (κ × ν)} {x : κ} :
    x ∈ (d.pushAll es).keys ↔ x ∈ d.keys ∨ x ∈ es.map Prod.fst := by
  induction es generalizing d with
  | nil => simp
  | cons e rest ih =>
    simp only [pushAll_cons, ih, mem_keys_push, List.map_cons, List.mem_cons]
    rw [or_comm (a := x = e.1), or_assoc]

end Dict
