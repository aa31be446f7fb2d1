import DeLatency.ForStd.CText

/-!
# JSON without escapes

Objects of integers and of strings that need no escape, as a writer without blanks
writes them and as a reader with blanks reads them.  The reader gets back what the
writer wrote (`parse_render`).  It is given more fuel than the text is long, which
bounds the depth of nesting.
-/

inductive Json
  | int (n : ℤ)
  | str (s : List Char)
  | obj (fields : List (List Char × Json))

namespace Json

open CText

/-! ## Writing -/

def quote (s : List Char) : List Char := '"' :: (s ++ ['"'])

mutual

/-- The text of a value. -/
def render : Json → List Char
  | .int n => decimal n
  | .str s => quote s
  | .obj fields => '\x7b' :: (renderFields fields ++ ['\x7d'])

/-- The fields of an object, with commas between them. -/
def renderFields : List (List Char × Json) → List Char
  | [] => []
  | [(key, v)] => quote key ++ ':' :: render v
  | (key, v) :: field :: rest =>
    quote key ++ ':' :: (render v ++ ',' :: renderFields (field :: rest))

end

/-! ## Reading -/

def isWs (c : Char) : Bool := c = ' ' ∨ c = '\t' ∨ c = '\n' ∨ c = '\r'

def skipWs (text : List Char) : List Char := text.dropWhile isWs

/-- A character that stands for itself in a string. -/
def isPlain (c : Char) : Bool := c ≠ '"' ∧ c ≠ '\\' ∧ 32 ≤ c.toNat

/-- The rest of a string, after the opening quote, and what follows it. -/
def parseStr : List Char → Option (List Char × List Char)
  | [] => none
  | c :: rest =>
    if c = '"' then some ([], rest)
    else if isPlain c then (parseStr rest).map fun p => (c :: p.1, p.2)
    else none

/-- A number without leading zeros, and what follows it. -/
def parseNat (text : List Char) : Option (ℕ × List Char) :=
  match scanDigits text with
  | none => none
  | some n =>
    if Nat.toDigits 10 n = text.takeWhile Char.isDigit then some (n, text.dropWhile Char.isDigit)
    else none

mutual

/-- A value, and what follows it. -/
def parseValue : ℕ → List Char → Option (Json × List Char)
  | 0, _ => none
  | n + 1, text =>
    match skipWs text with
    | [] => none
    | c :: rest =>
      if c = '"' then (parseStr rest).map fun p => (.str p.1, p.2)
      else if c = '\x7b' then
        if (skipWs rest).head? = some '\x7d' then some (.obj [], (skipWs rest).tail)
        else (parseFields n rest).map fun p => (.obj p.1, p.2)
      -- a number, with or without a sign
      else if c = '-' then (parseNat rest).map fun p => (.int (-p.1), p.2)
      else (parseNat (c :: rest)).map fun p => (.int p.1, p.2)

/-- The fields of an object up to its end, at least one. -/
def parseFields : ℕ → List Char → Option (List (List Char × Json) × List Char)
  | 0, _ => none
  | n + 1, text =>
    match skipWs text with
    | [] => none
    | c :: rest =>
      if c ≠ '"' then none
      else match parseStr rest with
        | none => none
        | some (key, rest) =>
          -- a key must be followed by a colon
          if (skipWs rest).head? ≠ some ':' then none
          else match parseValue n (skipWs rest).tail with
            | none => none
            | some (v, rest) =>
              -- a comma goes on to the next field, a closing brace ends the object
              if (skipWs rest).head? = some ',' then
                (parseFields n (skipWs rest).tail).map fun p => ((key, v) :: p.1, p.2)
              else if (skipWs rest).head? = some '\x7d' then
                some ([(key, v)], (skipWs rest).tail)
              else none

end

/-- A text that is one value. -/
def parse (text : List Char) : Option Json :=
  match parseValue (text.length + 1) text with
  | some (v, rest) => if skipWs rest = [] then some v else none
  | none => none

/-- The field of an object. -/
def field? (key : String) : Json → Option Json
  | .obj fields => fields.lookup key.toList
  | _ => none

/-! ## Round trip -/

mutual

/-- No string in the value needs an escape. -/
def Plain : Json → Prop
  | .int _ => True
  | .str s => ∀ c ∈ s, isPlain c = true
  | .obj fields => PlainFields fields

def PlainFields : List (List Char × Json) → Prop
  | [] => True
  | (key, v) :: rest => (∀ c ∈ key, isPlain c = true) ∧ Plain v ∧ PlainFields rest

end

/-- There is no whitespace to skip. -/
theorem skipWs_cons {c : Char} (h : isWs c = false) (rest : List Char) :
    skipWs (c :: rest) = c :: rest :=
  List.dropWhile_cons_of_neg (by simp [h])

/-- A plain string is read up to its quote. -/
theorem parseStr_append {s : List Char} (hs : ∀ c ∈ s, isPlain c = true) (rest : List Char) :
    parseStr (s ++ '"' :: rest) = some (s, rest) := by
  induction s with
  | nil => rfl
  | cons c s ih =>
    rw [List.forall_mem_cons] at hs
    -- a plain character is no quote, so the text goes on
    have hquote : c ≠ '"' := by
      intro h
      rw [h] at hs
      exact absurd hs.1 (by decide)
    rw [List.cons_append, parseStr, if_neg hquote, if_pos hs.1, ih hs.2]
    rfl

/-- The digits of a number are read to the end. -/
theorem parseNat_append (n : ℕ) {rest : List Char} (h : NoDigitNext rest) :
    parseNat (Nat.toDigits 10 n ++ rest) = some (n, rest) := by
  have hdigits : ∀ c ∈ Nat.toDigits 10 n, c.isDigit = true := fun c hc => isDigit_of_mem_toDigits hc
  -- the digits end where the number does
  have hdrop : (Nat.toDigits 10 n ++ rest).dropWhile Char.isDigit = rest := by
    rw [List.dropWhile_append_of_pos hdigits]
    cases rest with
    | nil => rfl
    | cons c rest =>
      have hc : c.isDigit = false := h c rfl
      exact List.dropWhile_cons_of_neg (by simp [hc])
  unfold parseNat
  rw [scanDigits_append n h, takeWhile_toDigits_append n h, hdrop]
  simp

/-- A number is read back when no digit follows it. -/
theorem parseValue_int (m : ℕ) (n : ℤ) {rest : List Char} (h : NoDigitNext rest) :
    parseValue (m + 1) (decimal n ++ rest) = some (.int n, rest) := by
  unfold decimal
  split
  · next hneg =>
    have hws : skipWs ('-' :: Nat.toDigits 10 n.natAbs ++ rest) =
        '-' :: (Nat.toDigits 10 n.natAbs ++ rest) := rfl
    rw [parseValue, hws]
    simp [parseNat_append n.natAbs h, abs_of_neg hneg]
  · next hpos =>
    have habs : (n.natAbs : ℤ) = n := by omega
    have hread := parseNat_append n.natAbs h
    obtain ⟨c, digits, hdigits, hc⟩ := exists_toDigits_eq_cons n.natAbs
    rw [hdigits] at hread ⊢
    -- a digit is neither a blank nor one of the other beginnings
    have hne : ∀ d : Char, d.isDigit = false → c ≠ d := by
      intro d hd heq
      rw [heq, hd] at hc
      cases hc
    have hws : isWs c = false := by
      simp [isWs, hne ' ' rfl, hne '\t' rfl, hne '\n' rfl, hne '\r' rfl]
    rw [List.cons_append] at hread ⊢
    rw [parseValue, skipWs_cons hws]
    simp [hne '"' rfl, hne '\x7b' rfl, hne '-' rfl, hread, habs]

/-- A plain string is read back. -/
theorem parseValue_str (m : ℕ) {s : List Char} (hs : ∀ c ∈ s, isPlain c = true)
    (rest : List Char) : parseValue (m + 1) (quote s ++ rest) = some (.str s, rest) := by
  have hquote : quote s ++ rest = '"' :: (s ++ '"' :: rest) := by
    simp [quote]
  rw [hquote, parseValue, skipWs_cons (by decide)]
  simp [parseStr_append hs]

/-- After a value comes no digit. -/
theorem noDigitNext_cons {c : Char} (h : c.isDigit = false) (rest : List Char) :
    NoDigitNext (c :: rest) := by
  intro d hd
  cases hd
  exact h

/-- The fields of an object begin with a quote. -/
theorem renderFields_eq_cons (f : List Char × Json) (fs : List (List Char × Json)) :
    ∃ text, renderFields (f :: fs) = '"' :: text := by
  obtain ⟨key, v⟩ := f
  cases fs with
  | nil => exact ⟨_, rfl⟩
  | cons g fs => exact ⟨_, rfl⟩

mutual

/-- With enough fuel the reader gets a value back and leaves what follows it. -/
theorem parseValue_render : ∀ (v : Json) (m : ℕ) (rest : List Char), Plain v →
    (render v).length < m → NoDigitNext rest → parseValue m (render v ++ rest) = some (v, rest)
  | _, 0, _, _, hm, _ => absurd hm (Nat.not_lt_zero _)
  | .int n, m + 1, rest, _, _, hrest => parseValue_int m n hrest
  | .str s, m + 1, rest, hs, _, _ => parseValue_str m hs rest
  | .obj [], m + 1, rest, _, _, _ => by
    show parseValue (m + 1) ('\x7b' :: '\x7d' :: rest) = _
    rw [parseValue, skipWs_cons (by decide)]
    simp [skipWs_cons (show isWs '\x7d' = false by decide)]
  | .obj (f :: fs), m + 1, rest, hplain, hm, _ => by
    have hlen : (renderFields (f :: fs)).length < m := by
      simp only [render, List.length_cons, List.length_append] at hm
      omega
    have hfields := parseFields_render f fs m rest hplain hlen
    have htext : render (.obj (f :: fs)) ++ rest =
        '\x7b' :: (renderFields (f :: fs) ++ '\x7d' :: rest) := by
      simp [render]
    obtain ⟨text, hbegin⟩ := renderFields_eq_cons f fs
    rw [htext, parseValue, skipWs_cons (by decide)]
    -- a field begins with a quote, so the object is not empty
    rw [hbegin] at hfields ⊢
    rw [List.cons_append] at hfields ⊢
    simp [skipWs_cons (show isWs '"' = false by decide), hfields]

/-- Plain fields are read back, given as much fuel as their text is long. -/
theorem parseFields_render : ∀ (f : List Char × Json) (fs : List (List Char × Json)) (m : ℕ)
    (rest : List Char), PlainFields (f :: fs) → (renderFields (f :: fs)).length < m →
    parseFields m (renderFields (f :: fs) ++ '\x7d' :: rest) = some (f :: fs, rest)
  | _, _, 0, _, _, hm => absurd hm (Nat.not_lt_zero _)
  | (key, v), [], m + 1, rest, hplain, hm => by
    -- the fuel is enough for what is left of the text
    obtain ⟨hkey, hv, -⟩ := hplain
    have hlen : (render v).length < m := by
      simp only [renderFields, quote, List.length_cons, List.length_append] at hm
      omega
    have hvalue := parseValue_render v m ('\x7d' :: rest) hv hlen
      (noDigitNext_cons (by decide) rest)
    have htext : renderFields [(key, v)] ++ '\x7d' :: rest =
        '"' :: (key ++ '"' :: ':' :: (render v ++ '\x7d' :: rest)) := by
      simp [renderFields, quote]
    rw [htext, parseFields, skipWs_cons (by decide)]
    simp [parseStr_append hkey, skipWs_cons (show isWs ':' = false by decide), hvalue,
      skipWs_cons (show isWs '\x7d' = false by decide)]
  | (key, v), g :: fs, m + 1, rest, hplain, hm => by
    obtain ⟨hkey, hv, hplain⟩ := hplain
    have hlen : (render v).length < m ∧ (renderFields (g :: fs)).length < m := by
      simp only [renderFields, quote, List.length_cons, List.length_append] at hm
      omega
    have hvalue := parseValue_render v m (',' :: (renderFields (g :: fs) ++ '\x7d' :: rest)) hv
      hlen.1 (noDigitNext_cons (by decide) _)
    have hfields := parseFields_render g fs m rest hplain hlen.2
    have htext : renderFields ((key, v) :: g :: fs) ++ '\x7d' :: rest =
        '"' :: (key ++ '"' :: ':' :: (render v ++
          ',' :: (renderFields (g :: fs) ++ '\x7d' :: rest))) := by
      simp [renderFields, quote]
    rw [htext, parseFields, skipWs_cons (by decide)]
    simp [parseStr_append hkey, skipWs_cons (show isWs ':' = false by decide), hvalue,
      skipWs_cons (show isWs ',' = false by decide), hfields]

end

/-- The reader gets back what the writer wrote. -/
theorem parse_render {v : Json} (h : Plain v) : parse (render v) = some v := by
  have hrest : NoDigitNext [] := fun c hc => by cases hc
  have hread := parseValue_render v ((render v).length + 1) [] h (Nat.lt_succ_self _) hrest
  rw [List.append_nil] at hread
  unfold parse
  rw [hread]
  rfl

end Json
