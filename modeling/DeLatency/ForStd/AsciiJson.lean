import DeLatency.ForStd.CText
import Mathlib.Tactic.IntervalCases

/-!
# JSON in ASCII

Values as a writer without blanks writes them, with every character outside printable
ASCII escaped.  What is written can be told from whatever follows it, so the text of a
value determines the value (`render_injective`).

`SelfDelimiting` says of any writer that its texts end where they end.  A list of such
texts up to a stop symbol can be taken apart again (`SelfDelimiting.flatMap_stop`).
-/

/-! ## Texts that end where they end -/

/-- Whatever follows a text that has been written, the text and what follows can be told. -/
def SelfDelimiting {α β : Type*} (write : α → List β) : Prop :=
  ∀ ⦃a b : α⦄ ⦃r s : List β⦄, write a ++ r = write b ++ s → a = b ∧ r = s

namespace SelfDelimiting

variable {α β : Type*} {write : α → List β}

/-- A reader that gets back what was written and leaves what follows it. -/
theorem of_read {read : List β → Option (α × List β)}
    (h : ∀ a r, read (write a ++ r) = some (a, r)) : SelfDelimiting write := by
  intro a b r s heq
  have hread : some (a, r) = some (b, s) := by rw [← h a r, heq, h b s]
  simpa using hread

/-- A list of items and a stop that no item begins with delimit themselves. -/
theorem flatMap_stop (h : SelfDelimiting write) {stop : β}
    (hstop : ∀ a, ∃ c rest, write a = c :: rest ∧ c ≠ stop) :
    SelfDelimiting fun as : List α => as.flatMap write ++ [stop] := by
  intro as
  induction as with
  | nil =>
    intro bs r s heq
    cases bs with
    | nil => simpa using heq
    | cons b bs =>
      obtain ⟨c, rest, hb, hc⟩ := hstop b
      simp only [List.flatMap_nil, List.flatMap_cons, hb, List.nil_append, List.cons_append,
        List.cons.injEq] at heq
      -- the other list goes on where this one has stopped
      exact absurd heq.1.symm hc
  | cons a as ih =>
    intro bs r s heq
    cases bs with
    | nil =>
      obtain ⟨c, rest, ha, hc⟩ := hstop a
      simp only [List.flatMap_nil, List.flatMap_cons, ha, List.nil_append, List.cons_append,
        List.cons.injEq] at heq
      -- and the other way round
      exact absurd heq.1 hc
    | cons b bs =>
      simp only [List.flatMap_cons, List.append_assoc] at heq
      -- the first elements are written alike, so they are equal; what follows is the induction
      obtain ⟨rfl, htail⟩ := h heq
      have hrest := @ih bs r s (by simpa using htail)
      exact ⟨congrArg (a :: ·) hrest.1, hrest.2⟩

end SelfDelimiting

namespace AsciiJson

open CText

/-! ## Characters -/

/-- A hexadecimal digit. -/
def hexDigit (n : ℕ) : Char := if n < 10 then Char.ofNat (48 + n) else Char.ofNat (87 + n)

def hexValue (c : Char) : ℕ := if c.isDigit then c.toNat - 48 else c.toNat - 87

/-- A hexadecimal digit is read as the number that it was written for. -/
theorem hexValue_hexDigit {n : ℕ} (h : n < 16) : hexValue (hexDigit n) = n := by
  interval_cases n <;> rfl

/-- `\u` and four digits. -/
def unicodeEscape (n : ℕ) : List Char :=
  ['\\', 'u', hexDigit (n / 4096), hexDigit (n / 256 % 16), hexDigit (n / 16 % 16),
    hexDigit (n % 16)]

/-- The code unit after a `\u`. -/
def readUnit : List Char → Option (ℕ × List Char)
  | a :: b :: c :: d :: rest =>
    some (4096 * hexValue a + 256 * hexValue b + 16 * hexValue c + hexValue d, rest)
  | _ => none

/-- The four digits of an escape are read as the code unit. -/
theorem readUnit_unicodeEscape {n : ℕ} (h : n < 2 ^ 16) (rest : List Char) :
    readUnit ((unicodeEscape n).drop 2 ++ rest) = some (n, rest) := by
  have hdigits : hexValue (hexDigit (n / 4096)) = n / 4096 ∧
      hexValue (hexDigit (n / 256 % 16)) = n / 256 % 16 ∧
      hexValue (hexDigit (n / 16 % 16)) = n / 16 % 16 ∧
      hexValue (hexDigit (n % 16)) = n % 16 := by
    refine ⟨hexValue_hexDigit (by omega), ?_, ?_, ?_⟩ <;>
      exact hexValue_hexDigit (Nat.mod_lt _ (by decide))
  obtain ⟨h1, h2, h3, h4⟩ := hdigits
  simp only [unicodeEscape, List.drop_succ_cons, List.drop_zero, List.cons_append,
    List.nil_append, readUnit, h1, h2, h3, h4]
  -- the four digits add up to the number again
  have hsum : 4096 * (n / 4096) + 256 * (n / 256 % 16) + 16 * (n / 16 % 16) + n % 16 = n := by
    omega
  rw [hsum]

/-- A letter after a backslash, for the characters that have one. -/
def shortEscapes : List (Char × Char) :=
  [('"', '"'), ('\\', '\\'), ('\n', 'n'), ('\r', 'r'), ('\t', 't'), ('\x0c', 'f'), ('\x08', 'b')]

/-- A character inside a string. -/
def escapeChar (c : Char) : List Char :=
  match shortEscapes.lookup c with
  | some letter => ['\\', letter]
  | none =>
    if 32 ≤ c.toNat ∧ c.toNat < 127 then [c]
    else if c.toNat < 2 ^ 16 then unicodeEscape c.toNat
    -- a surrogate pair
    else unicodeEscape (0xd800 + (c.toNat - 2 ^ 16) / 1024) ++
      unicodeEscape (0xdc00 + (c.toNat - 2 ^ 16) % 1024)

/-- Read a character inside a string. -/
def readChar : List Char → Option (Char × List Char)
  | '\\' :: 'u' :: rest =>
    match readUnit rest with
    | none => none
    | some (unit, rest) =>
      -- a leading surrogate: its partner is read as well
      if 0xd800 ≤ unit ∧ unit < 0xdc00 then
        match readUnit (rest.drop 2) with
        | none => none
        | some (low, rest) =>
          some (Char.ofNat (2 ^ 16 + 1024 * (unit - 0xd800) + (low - 0xdc00)), rest)
      else some (Char.ofNat unit, rest)
  | '\\' :: letter :: rest =>
    ((shortEscapes.find? fun p => p.2 = letter).map Prod.fst).map fun c => (c, rest)
  | c :: rest => some (c, rest)
  | [] => none

/-- A plain character stands for itself. -/
theorem readChar_cons {c : Char} (h : c ≠ '\\') (rest : List Char) :
    readChar (c :: rest) = some (c, rest) := by
  unfold readChar
  split
  · -- the two escape patterns start with a backslash, so the character is plain
    next heq => exact absurd (List.cons.inj heq).1 h
  · next heq => exact absurd (List.cons.inj heq).1 h
  · next heq =>
    cases heq
    rfl
  · next heq => cases heq

/-- An escape is read as its character, or as the first half of a pair with what follows. -/
theorem readChar_unicodeEscape {n : ℕ} (h : n < 2 ^ 16) (rest : List Char) :
    readChar (unicodeEscape n ++ rest) =
      if 0xd800 ≤ n ∧ n < 0xdc00 then
        (readUnit (rest.drop 2)).map fun p =>
          (Char.ofNat (2 ^ 16 + 1024 * (n - 0xd800) + (p.1 - 0xdc00)), p.2)
      else some (Char.ofNat n, rest) := by
  have hunit := readUnit_unicodeEscape h rest
  -- the escape starts with its two letters
  have htext : unicodeEscape n ++ rest = '\\' :: 'u' :: ((unicodeEscape n).drop 2 ++ rest) := rfl
  rw [htext, readChar, hunit]
  dsimp only
  split
  · cases readUnit (rest.drop 2) <;> rfl
  · rfl

/-- Every character is read back from its escape. -/
theorem readChar_escapeChar (c : Char) (rest : List Char) :
    readChar (escapeChar c ++ rest) = some (c, rest) := by
  unfold escapeChar
  split
  · next letter hletter =>
    -- the letters are told apart, and none of them is a `u`
    have hmem : (c, letter) ∈ shortEscapes := by
      rw [List.lookup_eq_some_iff] at hletter
      obtain ⟨before, after, hsplit, -⟩ := hletter
      rw [hsplit]
      exact List.mem_append_right _ List.mem_cons_self
    simp only [shortEscapes, List.mem_cons, Prod.mk.injEq, List.not_mem_nil, or_false] at hmem
    rcases hmem with h | h | h | h | h | h | h <;> obtain ⟨rfl, rfl⟩ := h <;> rfl
  · next hnone =>
    have hvalid : c.toNat < 0xd800 ∨ 0xdfff < c.toNat ∧ c.toNat < 0x110000 := c.valid
    split
    · apply readChar_cons
      intro h
      rw [h] at hnone
      exact absurd hnone (by decide)
    split
    · next hshort =>
      have hplain : ¬(0xd800 ≤ c.toNat ∧ c.toNat < 0xdc00) := by omega
      rw [readChar_unicodeEscape hshort, if_neg hplain, Char.ofNat_toNat]
    · next hlong =>
      -- both halves of the pair are code units of their own range
      have hhigh : 0xd800 + (c.toNat - 2 ^ 16) / 1024 < 0xdc00 := by omega
      have hlow : 0xdc00 + (c.toNat - 2 ^ 16) % 1024 < 2 ^ 16 := by omega
      have hdrop : (unicodeEscape (0xdc00 + (c.toNat - 2 ^ 16) % 1024) ++ rest).drop 2 =
          (unicodeEscape (0xdc00 + (c.toNat - 2 ^ 16) % 1024)).drop 2 ++ rest := rfl
      have hsum : 2 ^ 16 + 1024 * (0xd800 + (c.toNat - 2 ^ 16) / 1024 - 0xd800) +
          (0xdc00 + (c.toNat - 2 ^ 16) % 1024 - 0xdc00) = c.toNat := by omega
      rw [List.append_assoc, readChar_unicodeEscape (by omega), if_pos ⟨by omega, hhigh⟩, hdrop,
        readUnit_unicodeEscape hlow]
      simp only [Option.map_some, hsum, Char.ofNat_toNat]

/-- Where an escape ends can be told from the escape. -/
theorem selfDelimiting_escapeChar : SelfDelimiting escapeChar :=
  SelfDelimiting.of_read readChar_escapeChar

/-- No character is written with a quote in front. -/
theorem escapeChar_eq_cons (c : Char) : ∃ d rest, escapeChar c = d :: rest ∧ d ≠ '"' := by
  unfold escapeChar
  split
  · exact ⟨_, _, rfl, by decide⟩
  · next hnone =>
    split
    · refine ⟨_, _, rfl, ?_⟩
      -- a quote has a short escape, so it is not written as it stands
      rintro rfl
      exact absurd hnone (by decide)
    split
    · exact ⟨_, _, rfl, by decide⟩
    · exact ⟨_, _, rfl, by decide⟩

end AsciiJson

open AsciiJson CText

/-! ## Values -/

/-- A value without floats. -/
inductive AsciiJson
  | null
  | int (n : ℤ)
  | str (s : String)
  | arr (elems : List AsciiJson)
  | obj (fields : List (String × AsciiJson))

namespace AsciiJson

/-- A string, after its opening quote. -/
def strBody (s : String) : List Char := s.toList.flatMap escapeChar ++ ['"']

mutual

/-- The text of a value. -/
def render : AsciiJson → List Char
  | .null => "null".toList
  | .int n => decimal n
  | .str s => '"' :: strBody s
  | .arr [] => ['[', ']']
  | .arr (v :: elems) => '[' :: (render v ++ renderElems elems)
  | .obj [] => ['\x7b', '\x7d']
  | .obj ((key, v) :: fields) =>
    '\x7b' :: '"' :: (strBody key ++ ':' :: (render v ++ renderFields fields))

/-- The elements after the first, and the end of the array. -/
def renderElems : List AsciiJson → List Char
  | [] => [']']
  | v :: elems => ',' :: (render v ++ renderElems elems)

/-- The fields after the first, and the end of the object. -/
def renderFields : List (String × AsciiJson) → List Char
  | [] => ['\x7d']
  | (key, v) :: fields =>
    ',' :: '"' :: (strBody key ++ ':' :: (render v ++ renderFields fields))

end

/-! ## The text determines the value -/

/-- Where a string ends can be told from its text. -/
theorem selfDelimiting_strBody : SelfDelimiting strBody := by
  intro s t r r' h
  have hlist := selfDelimiting_escapeChar.flatMap_stop escapeChar_eq_cons h
  exact ⟨String.toList_injective hlist.1, hlist.2⟩

/-- What a text begins with tells the kind of its value. -/
def kindOf (c : Char) : ℕ :=
  if c = 'n' then 0
  else if c = '"' then 2
  else if c = '[' then 3
  else if c = '\x7b' then 4
  else if c = ']' then 5
  else 1

def kind : AsciiJson → ℕ
  | .null => 0
  | .int _ => 1
  | .str _ => 2
  | .arr _ => 3
  | .obj _ => 4

/-- A number begins with a digit or a minus. -/
theorem decimal_eq_cons (n : ℤ) : ∃ c rest, decimal n = c :: rest ∧ kindOf c = 1 := by
  cases h : decimal n with
  | nil =>
    unfold decimal at h
    obtain ⟨c, digits, hdigits, -⟩ := exists_toDigits_eq_cons n.natAbs
    split at h
    · cases h
    · rw [hdigits] at h
      cases h
  | cons c rest =>
    refine ⟨c, rest, rfl, ?_⟩
    have hc := eq_minus_or_isDigit_of_mem_decimal (h ▸ List.mem_cons_self)
    -- a minus or a digit is none of the characters that start another kind
    have hne : ∀ d : Char, d ≠ '-' → d.isDigit = false → c ≠ d := by
      rintro d hminus hdigit rfl
      rw [hdigit] at hc
      exact hc.elim hminus Bool.noConfusion
    simp [kindOf, hne 'n' (by decide) rfl, hne '"' (by decide) rfl, hne '[' (by decide) rfl,
      hne '\x7b' (by decide) rfl, hne ']' (by decide) rfl]

/-- The first character of a text tells the kind of the value. -/
theorem render_eq_cons (v : AsciiJson) : ∃ c rest, render v = c :: rest ∧ kindOf c = v.kind := by
  cases v with
  | null => exact ⟨_, _, rfl, rfl⟩
  | int n => exact decimal_eq_cons n
  | str s => exact ⟨_, _, rfl, rfl⟩
  | arr elems => cases elems <;> exact ⟨_, _, rfl, rfl⟩
  | obj fields => cases fields <;> exact ⟨_, _, rfl, rfl⟩

/-- Values with texts that begin alike are of one kind. -/
theorem kind_eq_of_render {v w : AsciiJson} {r s : List Char}
    (h : render v ++ r = render w ++ s) : v.kind = w.kind := by
  obtain ⟨c, rest, hv, hc⟩ := render_eq_cons v
  obtain ⟨d, rest', hw, hd⟩ := render_eq_cons w
  rw [hv, hw, List.cons_append, List.cons_append, List.cons.injEq] at h
  rw [← hc, ← hd, h.1]

/-- Digits that end where no digit follows are those of one number. -/
theorem toDigits_append_inj {m n : ℕ} {r s : List Char} (hr : NoDigitNext r)
    (hs : NoDigitNext s) (h : Nat.toDigits 10 m ++ r = Nat.toDigits 10 n ++ s) :
    m = n ∧ r = s := by
  have hscan : some m = some n := by rw [← scanDigits_append m hr, h, scanDigits_append n hs]
  obtain rfl : m = n := Option.some_injective _ hscan
  exact ⟨rfl, List.append_cancel_left h⟩

/-- A number ends before anything but a digit. -/
theorem decimal_append_inj {m n : ℤ} {r s : List Char} (hr : NoDigitNext r) (hs : NoDigitNext s)
    (h : decimal m ++ r = decimal n ++ s) : m = n ∧ r = s := by
  -- a number without a sign does not begin with one
  have hminus : ∀ (k : ℕ) (r s : List Char), '-' :: r ≠ Nat.toDigits 10 k ++ s := by
    intro k r s heq
    obtain ⟨c, digits, hdigits, hc⟩ := exists_toDigits_eq_cons k
    rw [hdigits, List.cons_append, List.cons.injEq] at heq
    rw [← heq.1] at hc
    cases hc
  unfold decimal at h
  split at h
  · next hm =>
    split at h
    · next hn =>
      rw [List.cons_append, List.cons_append, List.cons.injEq] at h
      obtain ⟨habs, htail⟩ := toDigits_append_inj hr hs h.2
      exact ⟨by omega, htail⟩
    · exact absurd h (hminus _ _ _)
  · next hm =>
    split at h
    · exact absurd h.symm (hminus _ _ _)
    · next hn =>
      obtain ⟨habs, htail⟩ := toDigits_append_inj hr hs h
      exact ⟨by omega, htail⟩

/-- After an element comes no digit. -/
theorem noDigitNext_renderElems (elems : List AsciiJson) (r : List Char) :
    NoDigitNext (renderElems elems ++ r) := by
  cases elems <;> rintro c ⟨⟩ <;> rfl

/-- After a field comes no digit. -/
theorem noDigitNext_renderFields (fields : List (String × AsciiJson)) (r : List Char) :
    NoDigitNext (renderFields fields ++ r) := by
  cases fields <;> rintro c ⟨⟩ <;> rfl

/-- What follows the opening bracket tells an empty array. -/
theorem render_arr_nil_append_ne (v : AsciiJson) (elems : List AsciiJson) (r s : List Char) :
    render (.arr []) ++ r ≠ render (.arr (v :: elems)) ++ s := by
  intro h
  obtain ⟨c, rest, hv, hc⟩ := render_eq_cons v
  simp only [render, hv, List.cons_append, List.cons.injEq, true_and] at h
  rw [← h.1] at hc
  cases v <;> cases hc

mutual

/-- Values whose texts begin a common text are equal, and so is what follows them. -/
theorem render_append_inj : ∀ {v w : AsciiJson} {r s : List Char}, NoDigitNext r →
    NoDigitNext s → render v ++ r = render w ++ s → v = w ∧ r = s
  | .null, w, r, s, _, _, h => by
    have hkind := kind_eq_of_render h
    cases w with
    | null => exact ⟨rfl, List.append_cancel_left h⟩
    | _ => cases hkind
  | .int m, w, r, s, hr, hs, h => by
    have hkind := kind_eq_of_render h
    cases w with
    | int n =>
      obtain ⟨rfl, hrest⟩ := decimal_append_inj hr hs h
      exact ⟨rfl, hrest⟩
    | _ => cases hkind
  | .str s, w, r, r', _, _, h => by
    have hkind := kind_eq_of_render h
    cases w with
    | str t =>
      obtain ⟨rfl, hrest⟩ := selfDelimiting_strBody (List.cons.inj h).2
      exact ⟨rfl, hrest⟩
    | _ => cases hkind
  | .arr [], w, r, s, _, _, h => by
    have hkind := kind_eq_of_render h
    cases w with
    | arr elems' =>
      cases elems' with
      | nil => exact ⟨rfl, List.append_cancel_left h⟩
      | cons w elems' =>
        -- an element starts with no bracket
        exact absurd h (render_arr_nil_append_ne _ _ _ _)
    | _ => cases hkind
  | .arr (v :: elems), w, r, s, _, _, h => by
    have hkind := kind_eq_of_render h
    cases w with
    | arr elems' =>
      cases elems' with
      | nil => exact absurd h.symm (render_arr_nil_append_ne _ _ _ _)
      | cons w elems' =>
        simp only [render, List.cons_append, List.append_assoc, List.cons.injEq, true_and] at h
        -- a comma or a bracket comes next, so that a number ends there
        obtain ⟨rfl, htail⟩ := render_append_inj (noDigitNext_renderElems _ _)
          (noDigitNext_renderElems _ _) h
        obtain ⟨rfl, hrest⟩ := renderElems_append_inj htail
        exact ⟨rfl, hrest⟩
    | _ => cases hkind
  | .obj [], w, r, s, _, _, h => by
    have hkind := kind_eq_of_render h
    cases w with
    | obj fields' =>
      cases fields' with
      | nil => exact ⟨rfl, List.append_cancel_left h⟩
      | cons field fields' => simp [render] at h
    | _ => cases hkind
  | .obj ((key, v) :: fields), w, r, s, _, _, h => by
    have hkind := kind_eq_of_render h
    cases w with
    | obj fields' =>
      cases fields' with
      | nil => simp [render] at h
      | cons field fields' =>
        obtain ⟨key', w⟩ := field
        simp only [render, List.cons_append, List.append_assoc, List.cons.injEq, true_and] at h
        obtain ⟨rfl, hvalue⟩ := selfDelimiting_strBody h
        obtain ⟨rfl, htail⟩ := render_append_inj (noDigitNext_renderFields _ _)
          (noDigitNext_renderFields _ _) (List.cons.inj hvalue).2
        obtain ⟨rfl, hrest⟩ := renderFields_append_inj htail
        exact ⟨rfl, hrest⟩
    | _ => cases hkind

/-- The same for the elements of an array. -/
theorem renderElems_append_inj : ∀ {elems elems' : List AsciiJson} {r s : List Char},
    renderElems elems ++ r = renderElems elems' ++ s → elems = elems' ∧ r = s
  | [], [], r, s, h => ⟨rfl, List.append_cancel_left h⟩
  | [], w :: elems', r, s, h => by simp [renderElems] at h
  | v :: elems, [], r, s, h => by simp [renderElems] at h
  | v :: elems, w :: elems', r, s, h => by
    simp only [renderElems, List.cons_append, List.append_assoc, List.cons.injEq, true_and] at h
    -- the element ends where the comma or bracket stands, so both sides end it alike
    obtain ⟨rfl, htail⟩ := render_append_inj (noDigitNext_renderElems _ _)
      (noDigitNext_renderElems _ _) h
    obtain ⟨rfl, hrest⟩ := renderElems_append_inj htail
    exact ⟨rfl, hrest⟩

/-- The same for the fields of an object. -/
theorem renderFields_append_inj : ∀ {fields fields' : List (String × AsciiJson)}
    {r s : List Char}, renderFields fields ++ r = renderFields fields' ++ s →
      fields = fields' ∧ r = s
  | [], [], r, s, h => ⟨rfl, List.append_cancel_left h⟩
  | [], (key, w) :: fields', r, s, h => by simp [renderFields] at h
  | (key, v) :: fields, [], r, s, h => by simp [renderFields] at h
  | (key, v) :: fields, (key', w) :: fields', r, s, h => by
    simp only [renderFields, List.cons_append, List.append_assoc, List.cons.injEq, true_and] at h
    obtain ⟨rfl, hvalue⟩ := selfDelimiting_strBody h
    -- a value ends before a comma or a brace, which is no digit
    obtain ⟨rfl, htail⟩ := render_append_inj (noDigitNext_renderFields _ _)
      (noDigitNext_renderFields _ _) (List.cons.inj hvalue).2
    obtain ⟨rfl, hrest⟩ := renderFields_append_inj htail
    exact ⟨rfl, hrest⟩

end

/-- A value can be told from its text. -/
theorem render_injective : Function.Injective render := by
  intro v w h
  have hnil : NoDigitNext [] := by
    rintro c ⟨⟩
  refine (render_append_inj (r := []) (s := []) hnil hnil ?_).1
  rw [List.append_nil, List.append_nil, h]

end AsciiJson
