import DeLatency.ForStd.Dict
import DeLatency.ForStd.FirstSeen

/-!
# Numbers for keys

`Dict.ask` looks up the number of a key in a table and gives a new key the next number.  The
keys are then numbered in the order in which they were first asked for, from `base` on
(`List.number`), and a number that has been given stays (`number_append`).
-/

variable {κ : Type*} [DecidableEq κ]

namespace List

/-- The place of a key in the order of first requests, counted from `base`. -/
def number (base : ℕ) (asked : List κ) (k : κ) : ℕ := base + (firstSeen id asked).idxOf k

/-- All keys that were asked for are kept. -/
theorem mem_firstSeen_id {asked : List κ} {k : κ} : k ∈ firstSeen id asked ↔ k ∈ asked := by
  have hmap : k ∈ (firstSeen id asked).map id ↔ k ∈ asked.map id := mem_map_firstSeen
  simpa using hmap

/-- No key is kept twice. -/
theorem nodup_firstSeen_id (asked : List κ) : (firstSeen id asked).Nodup := by
  have hmap : ((firstSeen id asked).map id).Nodup := nodup_firstSeen asked
  simpa using hmap

/-- A key that is asked for comes last unless it was there. -/
theorem firstSeen_id_concat (asked : List κ) (k : κ) :
    firstSeen id (asked ++ [k]) =
      if k ∈ asked then firstSeen id asked else firstSeen id asked ++ [k] := by
  rw [firstSeen_append, map_id]
  by_cases h : k ∈ asked
  · simp [firstSeen_cons, h]
  · simp [firstSeen_cons, h]

/-- Later requests do not change a number. -/
theorem number_append (base : ℕ) {asked : List κ} {k : κ} (h : k ∈ asked) (later : List κ) :
    number base (asked ++ later) k = number base asked k := by
  rw [number, number, firstSeen_append, idxOf_append_of_mem (mem_firstSeen_id.mpr h)]

/-- Different keys have different numbers. -/
theorem number_inj {base : ℕ} {asked : List κ} {k k' : κ} (hk : k ∈ asked)
    (h : number base asked k = number base asked k') : k = k' :=
  (idxOf_inj (mem_firstSeen_id.mpr hk)).mp (Nat.add_left_cancel h)

/-- The key with a given number. -/
theorem number_eq_iff {base i : ℕ} {asked : List κ} {k : κ} (hk : k ∈ asked) :
    number base asked k = base + i ↔ (firstSeen id asked)[i]? = some k := by
  -- the key is among the first occurrences, so its index is in range
  have hlt : (firstSeen id asked).idxOf k < (firstSeen id asked).length :=
    idxOf_lt_length_of_mem (mem_firstSeen_id.mpr hk)
  constructor
  · intro h
    rw [← Nat.add_left_cancel h, getElem?_eq_getElem hlt, getElem_idxOf]
  · intro h
    obtain ⟨hi, hget⟩ := getElem?_eq_some_iff.mp h
    rw [number, ← hget, (nodup_firstSeen_id asked).idxOf_getElem]

end List

namespace Dict

/-- The number of a key, which is new when the table does not have it. -/
def ask (base : ℕ) (d : Dict κ ℕ) (k : κ) : Dict κ ℕ × ℕ :=
  match d.get? k with
  | some n => (d, n)
  | none => (d.alter k 0 fun _ => base + d.entries.length, base + d.entries.length)

/-- The table after the keys `asked` have been asked for. -/
structure Numbers (base : ℕ) (asked : List κ) (d : Dict κ ℕ) : Prop where
  keys : d.keys = List.firstSeen id asked
  get? : ∀ k ∈ asked, d.get? k = some (List.number base asked k)

/-- Nothing has a number yet. -/
theorem numbers_empty (base : ℕ) : Numbers base ([] : List κ) Dict.empty where
  keys := rfl
  get? := fun _ hk => absurd hk List.not_mem_nil

/-- One request. -/
theorem Numbers.ask {base : ℕ} {asked : List κ} {d : Dict κ ℕ} (h : Numbers base asked d) (k : κ) :
    Numbers base (asked ++ [k]) (d.ask base k).1 ∧
      (d.ask base k).2 = List.number base (asked ++ [k]) k := by
  unfold Dict.ask
  by_cases hk : k ∈ asked
  · -- the table has the key
    have hsame : ∀ x ∈ asked ++ [k], x ∈ asked := by
      intro x hx
      cases List.mem_append.mp hx with
      | inl hx => exact hx
      | inr hx => exact List.mem_singleton.mp hx ▸ hk
    rw [h.get? k hk]
    refine ⟨⟨by rw [List.firstSeen_id_concat, if_pos hk]; exact h.keys, fun x hx => ?_⟩,
      (List.number_append base hk [k]).symm⟩
    rw [List.number_append base (hsame x hx)]
    exact h.get? x (hsame x hx)
  · have hnone : d.get? k = none := by
      rw [← Option.not_isSome_iff_eq_none, isSome_get?_iff, h.keys, List.mem_firstSeen_id]
      exact hk
    have hkeys : k ∉ d.keys := by rwa [h.keys, List.mem_firstSeen_id]
    have hnumber : List.number base (asked ++ [k]) k = base + d.entries.length := by
      have hlen : d.entries.length = (List.firstSeen id asked).length := by
        rw [← h.keys, Dict.keys, List.length_map]
      have hnot : k ∉ List.firstSeen id asked := fun hmem => hk (List.mem_firstSeen_id.mp hmem)
      rw [List.number, List.firstSeen_id_concat, if_neg hk, List.idxOf_append_of_notMem hnot, hlen]
      simp
    rw [hnone]
    refine ⟨⟨?_, fun x hx => ?_⟩, hnumber.symm⟩
    · rw [keys_alter_of_notMem hkeys, h.keys, List.firstSeen_id_concat, if_neg hk]
    · rw [get?_alter]
      by_cases hxk : x = k
      · rw [if_pos hxk, hxk, hnumber]
      · have hx' : x ∈ asked := by
          cases List.mem_append.mp hx with
          | inl hx => exact hx
          | inr hx => exact absurd (List.mem_singleton.mp hx) hxk
        rw [if_neg hxk, h.get? x hx', List.number_append base hx']

end Dict
