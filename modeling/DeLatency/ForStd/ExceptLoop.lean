import Mathlib.Data.List.Forall2

/-!
# Loops that may raise

A loop in `Except` ends well exactly when every turn does.
-/

universe u v w

namespace Except

variable {ε : Type u} {α β : Type v}

/-- A sequence of two steps succeeds when both do. -/
theorem bind_eq_ok_iff {x : Except ε α} {f : α → Except ε β} {b : β} :
    (x >>= f) = .ok b ↔ ∃ a, x = .ok a ∧ f a = .ok b := by
  cases x with
  | error e => simp [bind, Except.bind]
  | ok a => simp [bind, Except.bind]

/-- A pure value does not raise. -/
@[simp] theorem pure_eq_ok (a : α) : (pure a : Except ε α) = .ok a := rfl

end Except

namespace List

variable {ε : Type u} {σ β : Type v} {α : Type w}

/-- A loop ends well when its first turn does and the rest does from there. -/
theorem foldlM_cons_eq_ok {f : σ → α → Except ε σ} {a : α} {l : List α} {s s' : σ} :
    (a :: l).foldlM f s = .ok s' ↔ ∃ t, f s a = .ok t ∧ l.foldlM f t = .ok s' := by
  rw [foldlM_cons, Except.bind_eq_ok_iff]

/-- A loop whose turns all succeed succeeds. -/
theorem exists_foldlM_eq_ok {f : σ → α → Except ε σ} {l : List α}
    (h : ∀ s, ∀ a ∈ l, ∃ t, f s a = .ok t) (s : σ) : ∃ s', l.foldlM f s = .ok s' := by
  induction l generalizing s with
  | nil => exact ⟨s, rfl⟩
  | cons a rest ih =>
    obtain ⟨t, ht⟩ := h s a mem_cons_self
    obtain ⟨s', hs'⟩ := ih (fun s b hb => h s b (mem_cons_of_mem a hb)) t
    exact ⟨s', foldlM_cons_eq_ok.mpr ⟨t, ht, hs'⟩⟩

/-- What holds at the start and survives every turn holds at the end. -/
theorem foldlM_induction {f : σ → α → Except ε σ} {l : List α} {s s' : σ} {P : σ → Prop}
    (hs : P s) (hstep : ∀ s, ∀ a ∈ l, ∀ t, f s a = .ok t → P s → P t)
    (h : l.foldlM f s = .ok s') : P s' := by
  induction l generalizing s with
  | nil => cases h; exact hs
  | cons a rest ih =>
    -- the first turn went through, and the rest started from its result
    obtain ⟨t, ht, hrest⟩ := foldlM_cons_eq_ok.mp h
    exact ih (hstep s a mem_cons_self t ht hs)
      (fun s b hb => hstep s b (mem_cons_of_mem a hb)) hrest

/-- The same for what is said about the elements so far. -/
theorem foldlM_induction_seen {f : σ → α → Except ε σ} {P : List α → σ → Prop} {l : List α}
    {s s' : σ} (hs : P [] s)
    (hstep : ∀ seen a s t, f s a = .ok t → P seen s → P (seen ++ [a]) t)
    (h : l.foldlM f s = .ok s') : P l s' := by
  -- the induction is on what is left, with any elements seen before
  have hrun : ∀ (rest seen : List α) (s : σ), P seen s → rest.foldlM f s = .ok s' →
      P (seen ++ rest) s' := by
    intro rest
    induction rest with
    | nil =>
      intro seen s hs h
      cases h
      rwa [append_nil]
    | cons a rest ih =>
      intro seen s hs h
      obtain ⟨t, ht, hrest⟩ := foldlM_cons_eq_ok.mp h
      have hend := ih (seen ++ [a]) t (hstep seen a s t ht hs) hrest
      rwa [append_assoc, singleton_append] at hend
  exact hrun l [] s hs h

/-- A loop that ends well has taken every turn. -/
theorem exists_turn_of_foldlM {f : σ → α → Except ε σ} {l : List α} {s s' : σ} {a : α}
    (h : l.foldlM f s = .ok s') (ha : a ∈ l) : ∃ t t', f t a = .ok t' := by
  induction l generalizing s with
  | nil => exact absurd ha not_mem_nil
  | cons b rest ih =>
    obtain ⟨t, ht, hrest⟩ := foldlM_cons_eq_ok.mp h
    -- the element's turn is the first one or a later one
    cases mem_cons.mp ha with
    | inl heq => exact ⟨s, t, heq ▸ ht⟩
    | inr hmem => exact ih hrest hmem

/-- A map that succeeds has mapped every element. -/
theorem mapM_eq_ok_iff_forall₂ {f : α → Except ε β} {l : List α} {l' : List β} :
    l.mapM f = .ok l' ↔ Forall₂ (fun a b => f a = .ok b) l l' := by
  induction l generalizing l' with
  | nil =>
    rw [mapM_nil, Except.pure_eq_ok, Except.ok.injEq, forall₂_nil_left_iff, eq_comm]
  | cons a rest ih =>
    rw [mapM_cons, Except.bind_eq_ok_iff, forall₂_cons_left_iff]
    -- the first element and the rest succeed together
    constructor
    · intro h
      obtain ⟨b, hb, h⟩ := h
      obtain ⟨bs, hbs, h⟩ := Except.bind_eq_ok_iff.mp h
      cases h
      exact ⟨b, bs, hb, ih.mp hbs, rfl⟩
    · intro h
      obtain ⟨b, bs, hb, hbs, rfl⟩ := h
      exact ⟨b, hb, Except.bind_eq_ok_iff.mpr ⟨bs, ih.mpr hbs, rfl⟩⟩

/-- What a map returns comes from an element. -/
theorem exists_of_mapM_eq_ok {f : α → Except ε β} {l : List α} {l' : List β}
    (h : l.mapM f = .ok l') {b : β} (hb : b ∈ l') : ∃ a ∈ l, f a = .ok b := by
  rw [mapM_eq_ok_iff_forall₂] at h
  induction h with
  | nil => cases hb
  | cons hhead _ ih =>
    cases mem_cons.mp hb with
    | inl heq => exact ⟨_, mem_cons_self, heq ▸ hhead⟩
    | inr hmem =>
      obtain ⟨a, ha, hfa⟩ := ih hmem
      exact ⟨a, mem_cons_of_mem _ ha, hfa⟩

/-- A map whose elements can all be mapped succeeds. -/
theorem exists_mapM_eq_ok {f : α → Except ε β} {l : List α}
    (h : ∀ a ∈ l, ∃ b, f a = .ok b) : ∃ l', l.mapM f = .ok l' := by
  induction l with
  | nil => exact ⟨[], rfl⟩
  | cons a rest ih =>
    obtain ⟨b, hb⟩ := h a mem_cons_self
    obtain ⟨bs, hbs⟩ := ih fun c hc => h c (mem_cons_of_mem a hc)
    exact ⟨b :: bs, mapM_eq_ok_iff_forall₂.mpr (.cons hb (mapM_eq_ok_iff_forall₂.mp hbs))⟩

/-! ## Labels -/

section Labels

variable {τ : Type v} {turn : σ → α → Except ε σ} {out : σ → List β} {label : α → τ}

/-- A turn of a loop that appends to an output, with the additions on the side under the label
    of the turn's element. -/
def labelTurn (turn : σ → α → Except ε σ) (out : σ → List β) (label : α → τ)
    (st : σ × List (τ × β)) (a : α) : Except ε (σ × List (τ × β)) :=
  (turn st.1 a).map fun s =>
    (s, st.2 ++ ((out s).drop (out st.1).length).map fun b => (label a, b))

/-- A turn with labels is the turn without them, and what it adds to the output has its label. -/
theorem labelTurn_eq_ok {st st' : σ × List (τ × β)} {a : α}
    (h : labelTurn turn out label st a = .ok st') :
    turn st.1 a = .ok st'.1 ∧
      st'.2 = st.2 ++ ((out st'.1).drop (out st.1).length).map fun b => (label a, b) := by
  unfold labelTurn at h
  -- the label is put on once the turn has succeeded
  cases hturn : turn st.1 a with
  | error e =>
    rw [hturn] at h
    cases h
  | ok s =>
    rw [hturn] at h
    obtain rfl := Except.ok.inj h
    exact ⟨rfl, rfl⟩

/-- The labels do not change the loop. -/
theorem map_fst_foldlM_labelTurn (l : List α) (st : σ × List (τ × β)) :
    (l.foldlM (labelTurn turn out label) st).map Prod.fst = l.foldlM turn st.1 := by
  induction l generalizing st with
  | nil => rfl
  | cons a rest ih =>
    rw [foldlM_cons, foldlM_cons, labelTurn]
    cases turn st.1 a with
    -- a turn that raises ends both loops
    | error e => rfl
    | ok s => exact ih _

end Labels

end List
