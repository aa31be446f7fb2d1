import DeLatency.ForStd.Dict
import Mathlib.Data.Finset.Card

/-!
# Maps with a fixed number of entries

`BoundedMap κ ν cap` is a finite map that never holds more than `cap` keys.  An
update of a stored key always succeeds, an update of a new key succeeds while there
is room.  The proof field carries the bound, so a map that is too full cannot be
built.

`isSome_update_of_subset` is the rule for sizing one map by another: a map whose
keys are among those of a map of the same capacity never runs out of room for them.
-/

/-- A finite map with room for `cap` keys. -/
structure BoundedMap (κ ν : Type*) (cap : ℕ) where
  dict : Dict κ ν
  length_keys_le : dict.keys.length ≤ cap

namespace BoundedMap

variable {κ ν μ : Type*} {cap : ℕ}

/-- The empty map. -/
def empty : BoundedMap κ ν cap := ⟨Dict.empty, Nat.zero_le cap⟩

def keys (m : BoundedMap κ ν cap) : List κ := m.dict.keys

/-- There is no key in the empty map. -/
@[simp] theorem keys_empty : (empty : BoundedMap κ ν cap).keys = [] := rfl

/-- No key is there twice. -/
theorem nodup_keys (m : BoundedMap κ ν cap) : m.keys.Nodup := m.dict.nodup

variable [DecidableEq κ]

/-- The value stored at `k`. -/
def lookup (m : BoundedMap κ ν cap) (k : κ) : Option ν := m.dict.get? k

/-- Nothing is found in the empty map. -/
@[simp] theorem lookup_empty (k : κ) : (empty : BoundedMap κ ν cap).lookup k = none := rfl

/-- The keys are what a lookup finds. -/
theorem isSome_lookup_iff {m : BoundedMap κ ν cap} {k : κ} : (m.lookup k).isSome ↔ k ∈ m.keys :=
  Dict.isSome_get?_iff

/-- A lookup fails where there is no key. -/
theorem lookup_eq_none_iff {m : BoundedMap κ ν cap} {k : κ} : m.lookup k = none ↔ k ∉ m.keys := by
  rw [← isSome_lookup_iff, Option.not_isSome_iff_eq_none]

/-- An update keeps the bound when its key is stored or there is room. -/
private theorem length_keys_alter_le {d : Dict κ ν} {k : κ} {v : ν} (hcap : d.keys.length ≤ cap)
    (h : k ∈ d.keys ∨ d.keys.length < cap) :
    (d.alter k v fun _ => v).keys.length ≤ cap := by
  have hnodup : (d.alter k v fun _ => v).keys.Nodup := (d.alter k v fun _ => v).nodup
  have hsub : ∀ x ∈ (d.alter k v fun _ => v).keys, x = k ∨ x ∈ d.keys :=
    fun x hx => Dict.mem_keys_alter.mp hx
  cases h with
  -- the key is there already: no new one comes in
  | inl hk =>
    refine le_trans ((List.subperm_of_subset hnodup fun x hx => ?_).length_le) hcap
    exact (hsub x hx).elim (fun h => h ▸ hk) id
  -- the key may be new, and there is room for it
  | inr hroom =>
    have hlen : (d.alter k v fun _ => v).keys.length ≤ (k :: d.keys).length :=
      (List.subperm_of_subset hnodup fun x hx => List.mem_cons.mpr (hsub x hx)).length_le
    rw [List.length_cons] at hlen
    omega

/-- Store `v` at `k`; `none` when `k` is new and the map is full. -/
def update (m : BoundedMap κ ν cap) (k : κ) (v : ν) : Option (BoundedMap κ ν cap) :=
  if h : k ∈ m.dict.keys ∨ m.dict.keys.length < cap then
    some ⟨m.dict.alter k v fun _ => v, length_keys_alter_le m.length_keys_le h⟩
  else none

/-- An update changes the value of its key and no other. -/
theorem lookup_update {m m' : BoundedMap κ ν cap} {k : κ} {v : ν} (h : m.update k v = some m')
    (x : κ) : m'.lookup x = if x = k then some v else m.lookup x := by
  unfold update at h
  split at h
  · cases h
    exact Dict.get?_alter m.dict k x v fun _ => v
  · cases h

/-- An update adds its key. -/
theorem mem_keys_update {m m' : BoundedMap κ ν cap} {k : κ} {v : ν} (h : m.update k v = some m')
    {x : κ} : x ∈ m'.keys ↔ x = k ∨ x ∈ m.keys := by
  rw [← isSome_lookup_iff, lookup_update h, ← isSome_lookup_iff]
  by_cases hx : x = k
  · simp [hx]
  · simp [hx]

/-- There is room for a key in a map that is not full. -/
theorem isSome_update_of_lt {m : BoundedMap κ ν cap} (h : m.keys.length < cap) (k : κ) (v : ν) :
    (m.update k v).isSome := by
  unfold update
  rw [dif_pos (.inr h)]
  rfl

/-- A key finds room when it and the stored keys are at most `cap`. -/
theorem isSome_update_of_card_le {m : BoundedMap κ ν cap} {k : κ}
    (h : (insert k m.keys.toFinset).card ≤ cap) (v : ν) : (m.update k v).isSome := by
  by_cases hmem : k ∈ m.keys
  · unfold update
    rw [dif_pos (.inl hmem)]
    rfl
  · -- a new key counts itself, so there was room before
    refine isSome_update_of_lt ?_ k v
    rw [Finset.card_insert_of_notMem (by rwa [List.mem_toFinset]),
      List.toFinset_card_of_nodup m.nodup_keys] at h
    omega

/-- Keys that fit into another map of the same capacity always find room. -/
theorem isSome_update_of_subset {m : BoundedMap κ ν cap} {other : BoundedMap κ μ cap}
    (hsub : ∀ x ∈ m.keys, x ∈ other.keys) {k : κ} (hk : k ∈ other.keys) (v : ν) :
    (m.update k v).isSome := by
  have hroom : k ∈ m.dict.keys ∨ m.dict.keys.length < cap := by
    by_cases hmem : k ∈ m.dict.keys
    · exact .inl hmem
    · -- otherwise `k` and the stored keys are distinct keys of the other map
      refine .inr ?_
      have hnodup : (k :: m.keys).Nodup := List.nodup_cons.mpr ⟨hmem, m.nodup_keys⟩
      have hle : (k :: m.keys).length ≤ other.keys.length := by
        refine (List.subperm_of_subset hnodup fun x hx => ?_).length_le
        cases List.mem_cons.mp hx with
        | inl h => exact h ▸ hk
        | inr h => exact hsub x h
      have hother := other.length_keys_le
      rw [List.length_cons] at hle
      exact Nat.lt_of_succ_le (hle.trans hother)
  unfold update
  rw [dif_pos hroom]
  rfl

/-- Remove `k`. -/
def delete (m : BoundedMap κ ν cap) (k : κ) : BoundedMap κ ν cap where
  dict := m.dict.erase k
  length_keys_le := by
    have hlen : (m.dict.erase k).keys.length ≤ m.dict.keys.length := by
      unfold Dict.keys Dict.erase
      rw [List.length_map, List.length_map]
      exact List.length_filter_le _ _
    exact hlen.trans m.length_keys_le

/-- A deletion takes its key out and leaves the others. -/
theorem lookup_delete (m : BoundedMap κ ν cap) (k x : κ) :
    (m.delete k).lookup x = if x = k then none else m.lookup x :=
  Dict.get?_erase m.dict k x

/-- The other keys stay. -/
theorem mem_keys_delete {m : BoundedMap κ ν cap} {k x : κ} :
    x ∈ (m.delete k).keys ↔ x ∈ m.keys ∧ x ≠ k :=
  Dict.mem_keys_erase

end BoundedMap
