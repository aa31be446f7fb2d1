import DeLatency.ForStd.FirstSeen
import DeLatency.ForStd.ListExtra
import Mathlib.Algebra.Order.Ring.Int
import Mathlib.Data.Int.DivMod
import Mathlib.Data.List.TakeWhile

/-!
# Text as C's stdio reads and writes it

A text is a list of characters, each of which stands for a byte.  `decimal` is the `%d`
of `printf` and `scanInt` that of `sscanf`; they are inverse on the values of an `int`
(`scanInt_decimal`).  `strtoul` reads an `unsigned long` and returns what follows it.
`fgetsLines` are the pieces a loop of `fgets` calls returns: lines,
except that a line longer than the buffer comes in several pieces.
-/

namespace CText

/-- `isspace` in the C locale. -/
def isSpace (c : Char) : Bool :=
  c = ' ' ∨ c = '\t' ∨ c = '\n' ∨ c = '\x0b' ∨ c = '\x0c' ∨ c = '\r'

/-- `printf("%d")`. -/
def decimal (n : ℤ) : List Char :=
  if n < 0 then '-' :: Nat.toDigits 10 n.natAbs else Nat.toDigits 10 n.natAbs

/-- The number that a text starts with. -/
def scanDigits (text : List Char) : Option ℕ :=
  let digits := text.takeWhile Char.isDigit
  if digits = [] then none else some (Nat.ofDigitChars 10 digits 0)

/-- What `strtol` and the store into an `int` make of a number: the first saturates, the
    second keeps the low 32 bits. -/
def toInt (n : ℤ) : ℤ := Int.bmod (max (-2 ^ 63) (min n (2 ^ 63 - 1))) (2 ^ 32)

/-- `sscanf("%d")`. -/
def scanInt (text : List Char) : Option ℤ :=
  match text.dropWhile isSpace with
  | '-' :: rest => (scanDigits rest).map fun n : ℕ => toInt (-n)
  | '+' :: rest => (scanDigits rest).map fun n : ℕ => toInt n
  | rest => (scanDigits rest).map fun n : ℕ => toInt n

/-- Split off a sign; `true` means minus. -/
def scanSign : List Char → Bool × List Char
  | '-' :: rest => (true, rest)
  | '+' :: rest => (false, rest)
  | rest => (false, rest)

/-- `strtoul` in base ten: the value and the text after it.  A value that is too large is
    `ULONG_MAX`, and a minus takes the value modulo `2 ^ 64`. -/
def strtoul (text : List Char) : ℕ × List Char :=
  let (negative, body) := scanSign (text.dropWhile isSpace)
  match scanDigits body with
  | none => (0, text)
  | some n =>
    (if 2 ^ 64 ≤ n then 2 ^ 64 - 1 else if negative then (2 ^ 64 - n) % 2 ^ 64 else n,
      body.dropWhile Char.isDigit)

/-- `snprintf` into a buffer of the given size: what is stored before the terminating zero,
    and the length of the whole text. -/
def snprintf (size : ℕ) (text : List Char) : List Char × ℕ := (text.take (size - 1), text.length)

/-- `strncasecmp(text, name, strlen(name)) == 0`, for a lower-case name. -/
def startsWithNoCase (name text : List Char) : Bool :=
  (text.take name.length).map Char.toLower = name

/-- The pieces that `fgets` returns, when `room` characters still fit after the start
    `piece` of the current one, and `size` into an empty buffer. -/
def fgetsFrom (size room : ℕ) (piece : List Char) : List Char → List (List Char)
  | [] => if piece = [] then [] else [piece]
  | c :: rest =>
    if c = '\n' ∨ room ≤ 1 then (piece ++ [c]) :: fgetsFrom size size [] rest
    else fgetsFrom size (room - 1) (piece ++ [c]) rest

/-- The pieces of a text that `fgets` returns into a buffer for `size` characters and the
    terminating zero. -/
def fgetsLines (size : ℕ) (text : List Char) : List (List Char) := fgetsFrom size size [] text

/-! ## Numbers -/

/-- A value of an `int` is stored as it is. -/
theorem toInt_of_int {n : ℤ} (hlo : -2 ^ 31 ≤ n) (hhi : n < 2 ^ 31) : toInt n = n := by
  unfold toInt
  rw [min_eq_left (by omega), max_eq_right (by omega)]
  exact Int.bmod_eq_of_le (by omega) (by omega)

/-- The next character is not a digit. -/
def NoDigitNext (rest : List Char) : Prop := ∀ c ∈ rest.head?, c.isDigit = false

/-- What a number is written with are digits. -/
theorem isDigit_of_mem_toDigits {n : ℕ} {c : Char} (h : c ∈ Nat.toDigits 10 n) :
    c.isDigit = true :=
  Nat.isDigit_of_mem_toDigits (by decide) (by decide) h

/-- The digits of a number end where the rest begins. -/
theorem takeWhile_toDigits_append (n : ℕ) {rest : List Char} (h : NoDigitNext rest) :
    (Nat.toDigits 10 n ++ rest).takeWhile Char.isDigit = Nat.toDigits 10 n := by
  rw [List.takeWhile_append_of_pos fun c hc => isDigit_of_mem_toDigits hc]
  cases rest with
  | nil => simp
  | cons c rest =>
    have hc : c.isDigit = false := h c rfl
    rw [List.takeWhile_cons_of_neg (by simp [hc]), List.append_nil]

/-- A number is read back when no digit follows it. -/
theorem scanDigits_append (n : ℕ) {rest : List Char} (h : NoDigitNext rest) :
    scanDigits (Nat.toDigits 10 n ++ rest) = some n := by
  unfold scanDigits
  rw [takeWhile_toDigits_append n h, if_neg Nat.toDigits_ne_nil, Nat.ofDigitChars_ten_toDigits]

/-- A digit is neither a space nor a sign. -/
theorem not_isSpace_of_isDigit {c : Char} (h : c.isDigit = true) : isSpace c = false := by
  have hrange : 48 ≤ c.toNat ∧ c.toNat ≤ 57 := by
    simpa [Char.isDigit, UInt32.le_iff_toNat_le] using h
  unfold isSpace
  rw [decide_eq_false_iff_not]
  rintro (rfl | rfl | rfl | rfl | rfl | rfl) <;> revert hrange <;> decide

/-- A number starts with a digit. -/
theorem exists_toDigits_eq_cons (n : ℕ) :
    ∃ c digits, Nat.toDigits 10 n = c :: digits ∧ c.isDigit = true := by
  cases h : Nat.toDigits 10 n with
  | nil => exact absurd h Nat.toDigits_ne_nil
  | cons c digits =>
    refine ⟨c, digits, rfl, isDigit_of_mem_toDigits (n := n) ?_⟩
    rw [h]
    exact List.mem_cons_self

/-- There is no sign before a digit. -/
theorem scanSign_of_isDigit {c : Char} (h : c.isDigit = true) (rest : List Char) :
    scanSign (c :: rest) = (false, c :: rest) := by
  unfold scanSign
  split
  · next heq =>
    cases heq
    exact absurd h (by decide)
  · next heq =>
    cases heq
    exact absurd h (by decide)
  · -- neither sign is a digit
    rfl

/-- `strtoul` reads a number to its end. -/
theorem strtoul_toDigits {n : ℕ} (h : n < 2 ^ 64) : strtoul (Nat.toDigits 10 n) = (n, []) := by
  obtain ⟨c, digits, hdigits, hc⟩ := exists_toDigits_eq_cons n
  have hscan : scanDigits (Nat.toDigits 10 n) = some n := by
    have hnext : NoDigitNext [] := fun c hc => by cases hc
    have happend := scanDigits_append n hnext
    rwa [List.append_nil] at happend
  -- a digit is no blank, so nothing is skipped in front
  have hspace : (c :: digits).dropWhile isSpace = c :: digits :=
    List.dropWhile_cons_of_neg (by simp [not_isSpace_of_isDigit hc])
  -- and nothing is left behind the digits
  have hrest : (c :: digits).dropWhile Char.isDigit = [] := by
    rw [List.dropWhile_eq_nil_iff, ← hdigits]
    exact fun d hd => isDigit_of_mem_toDigits hd
  unfold strtoul
  rw [hdigits] at hscan ⊢
  rw [hspace, scanSign_of_isDigit hc]
  dsimp only
  rw [hscan, hrest]
  dsimp only
  rw [if_neg (not_le.mpr h), if_neg Bool.false_ne_true]

/-- A text that starts with a digit does not start with a word. -/
theorem startsWithNoCase_of_isDigit {c : Char} (hc : c.isDigit = true) {name : List Char}
    (hname : (name.head?.any fun d => !d.isDigit) = true) (rest : List Char) :
    startsWithNoCase name (c :: rest) = false := by
  obtain ⟨d, hd, hdigit⟩ := (Option.any_eq_true _ _).mp hname
  obtain ⟨name', rfl⟩ := List.head?_eq_some_iff.mp hd
  unfold startsWithNoCase
  rw [decide_eq_false_iff_not]
  intro h
  rw [List.length_cons, List.take_succ_cons, List.map_cons] at h
  have hhead := (List.cons.inj h).1
  -- a digit has no lower case, so the name would have to start with one
  have hlower : c.toLower = c := by
    have hrange : 48 ≤ c.toNat ∧ c.toNat ≤ 57 := by
      simpa [Char.isDigit, UInt32.le_iff_toNat_le] using hc
    unfold Char.toLower
    rw [dif_neg]
    intro hx
    obtain ⟨h1, h2⟩ := hx
    have h1' : 65 ≤ c.toNat := by simpa [UInt32.le_iff_toNat_le] using h1
    omega
  rw [hlower] at hhead
  rw [← hhead, hc] at hdigit
  cases hdigit

/-- `sscanf` reads back what `printf` has written. -/
theorem scanInt_decimal {n : ℤ} (hlo : -2 ^ 31 ≤ n) (hhi : n < 2 ^ 31) {rest : List Char}
    (h : NoDigitNext rest) : scanInt (decimal n ++ rest) = some n := by
  unfold decimal
  split
  · next hneg =>
    -- a minus sign and the digits of the absolute value
    have hdrop : ('-' :: Nat.toDigits 10 n.natAbs ++ rest).dropWhile isSpace =
        '-' :: (Nat.toDigits 10 n.natAbs ++ rest) := rfl
    rw [scanInt, hdrop]
    simp only [scanDigits_append n.natAbs h, Option.map_some]
    rw [show -(n.natAbs : ℤ) = n by omega, toInt_of_int hlo hhi]
  · next hpos =>
    have hnat : (n.natAbs : ℤ) = n := by omega
    -- the digits alone; neither sign matches the first of them
    obtain ⟨c, digits, hdigits, hc⟩ := exists_toDigits_eq_cons n.natAbs
    have hscan := scanDigits_append n.natAbs h
    rw [hdigits] at hscan ⊢
    have hdrop : (c :: digits ++ rest).dropWhile isSpace = c :: digits ++ rest :=
      List.dropWhile_cons_of_neg (by simp [not_isSpace_of_isDigit hc])
    rw [scanInt, hdrop]
    split
    · next heq =>
      cases heq
      exact absurd hc (by decide)
    · next heq =>
      cases heq
      exact absurd hc (by decide)
    · rw [hscan, Option.map_some, hnat, toInt_of_int hlo hhi]

/-- An `int` has ten digits and a sign at most. -/
theorem length_decimal_le {n : ℤ} (hlo : -2 ^ 31 ≤ n) (hhi : n < 2 ^ 31) :
    (decimal n).length ≤ 11 := by
  -- ten digits at most, and one place for the sign
  have hlen : (Nat.toDigits 10 n.natAbs).length ≤ 10 :=
    (Nat.length_toDigits_le_iff (by decide) (by decide)).mpr (by omega)
  unfold decimal
  split
  · rw [List.length_cons]
    omega
  · omega

/-- `toString` writes what `printf` writes. -/
theorem toList_toString (n : ℤ) : (toString n).toList = decimal n := by
  unfold decimal
  cases n with
  | ofNat m =>
    rw [if_neg (by simp)]
    exact Nat.toList_repr
  -- the sign, then the digits of the opposite number
  | negSucc m =>
    rw [if_pos (Int.negSucc_lt_zero m)]
    show ("-" ++ Nat.repr (m + 1)).toList = _
    rw [String.toList_append, Nat.toList_repr]
    rfl

/-- A number that is not negative is its digits. -/
theorem decimal_of_nonneg {n : ℤ} (h : 0 ≤ n) : decimal n = Nat.toDigits 10 n.toNat := by
  have habs : n.natAbs = n.toNat := by omega
  rw [decimal, if_neg (not_lt.mpr h), habs]

/-- A number is made of digits, behind a minus maybe. -/
theorem eq_minus_or_isDigit_of_mem_decimal {n : ℤ} {c : Char} (h : c ∈ decimal n) :
    c = '-' ∨ c.isDigit = true := by
  unfold decimal at h
  split at h
  · obtain rfl | h := List.mem_cons.mp h
    · exact .inl rfl
    · exact .inr (isDigit_of_mem_toDigits h)
  · exact .inr (isDigit_of_mem_toDigits h)

/-- A number is on one line. -/
theorem newline_notMem_decimal (n : ℤ) : '\n' ∉ decimal n := by
  intro h
  have hchar := eq_minus_or_isDigit_of_mem_decimal h
  revert hchar
  decide

/-! ## Lines -/

/-- What is left of a line is added to the piece that has been read. -/
theorem fgetsFrom_append (size : ℕ) {room : ℕ} (piece line rest : List Char)
    (hline : '\n' ∉ line) (hroom : line.length < room) :
    fgetsFrom size room piece (line ++ '\n' :: rest) =
      (piece ++ line ++ ['\n']) :: fgetsLines size rest := by
  induction line generalizing room piece with
  | nil => simp [fgetsFrom, fgetsLines]
  | cons c line ih =>
    rw [List.mem_cons, not_or] at hline
    rw [List.length_cons] at hroom
    -- the piece takes one more character: no newline yet, and room for it
    have hstay : ¬(c = '\n' ∨ room ≤ 1) := by
      intro hx
      obtain h | h := hx
      · exact hline.1 h.symm
      · omega
    rw [List.cons_append, fgetsFrom, if_neg hstay, ih (piece ++ [c]) hline.2 (by omega)]
    simp

/-- A line that fits into the buffer is returned as a whole. -/
theorem fgetsLines_append {size : ℕ} {line : List Char} (rest : List Char)
    (hline : '\n' ∉ line) (hsize : line.length < size) :
    fgetsLines size (line ++ '\n' :: rest) = (line ++ ['\n']) :: fgetsLines size rest :=
  fgetsFrom_append size [] line rest hline hsize

/-- A piece that fills the buffer is returned without the end of its line. -/
theorem fgetsFrom_full (size : ℕ) {room : ℕ} (piece text rest : List Char)
    (htext : '\n' ∉ text) (hpos : 0 < text.length) (hroom : text.length = room) :
    fgetsFrom size room piece (text ++ rest) = (piece ++ text) :: fgetsLines size rest := by
  induction text generalizing room piece with
  | nil => exact absurd hpos (lt_irrefl 0)
  | cons c text ih =>
    rw [List.mem_cons, not_or] at htext
    rw [List.length_cons] at hroom
    rw [List.cons_append, fgetsFrom]
    cases text with
    | nil =>
      -- the last character fills the room
      rw [if_pos (.inr (by simp at hroom; omega))]
      rfl
    | cons d text =>
      have hstay : ¬(c = '\n' ∨ room ≤ 1) := by
        intro hx
        obtain h | h := hx
        · exact htext.1 h.symm
        · rw [List.length_cons] at hroom
          omega
      rw [if_neg hstay, ih (piece ++ [c]) htext.2 (by simp) (by omega)]
      simp

/-- Any line is returned in pieces of the size of the buffer. -/
theorem fgetsLines_append_chunks {size : ℕ} (hsize : 0 < size) (line rest : List Char)
    (hline : '\n' ∉ line) :
    fgetsLines size (line ++ '\n' :: rest) =
      (line ++ ['\n']).chunks size ++ fgetsLines size rest := by
  have hne : ∀ text : List Char, text ++ ['\n'] ≠ [] := fun text => by simp
  induction hlen : line.length using Nat.strong_induction_on generalizing line with
  | _ len ih =>
    by_cases hlt : line.length < size
    · rw [fgetsLines_append rest hline hlt, List.chunks_of_length_le (hne line) (by simp; omega)]
      rfl
    · -- the buffer is full before the line ends
      have hfirst : '\n' ∉ line.take size := fun h => hline (List.mem_of_mem_take h)
      have hlast : '\n' ∉ line.drop size := fun h => hline (List.mem_of_mem_drop h)
      have htake : (line.take size).length = size := by rw [List.length_take]; omega
      have hsplit : line ++ '\n' :: rest =
          line.take size ++ (line.drop size ++ '\n' :: rest) := by
        rw [← List.append_assoc, List.take_append_drop]
      rw [hsplit, fgetsLines, fgetsFrom_full size [] _ _ hfirst (by omega) htake, List.nil_append,
        ih (line.drop size).length (by rw [List.length_drop]; omega) _ hlast rfl,
        List.chunks_of_ne_nil hsize (hne line), List.take_append_of_le_length (by omega),
        List.drop_append_of_le_length (by omega)]
      rfl

/-- Lines that fit are returned one by one, whatever comes after them. -/
theorem fgetsLines_flatMap_append (size : ℕ) {lines : List (List Char)} (rest : List Char)
    (hline : ∀ line ∈ lines, '\n' ∉ line) (hsize : ∀ line ∈ lines, line.length < size) :
    fgetsLines size ((lines.flatMap fun line => line ++ ['\n']) ++ rest) =
      (lines.map fun line => line ++ ['\n']) ++ fgetsLines size rest := by
  induction lines with
  | nil => rfl
  -- the first line fits the buffer and ends at its newline
  | cons line lines ih =>
    rw [List.forall_mem_cons] at hline hsize
    rw [List.flatMap_cons, List.append_assoc, List.append_assoc, List.singleton_append,
      fgetsLines_append _ hline.1 hsize.1, ih hline.2 hsize.2, List.map_cons, List.cons_append]

/-- The lines of a text are returned one by one when they all fit. -/
theorem fgetsLines_flatMap {size : ℕ} {lines : List (List Char)}
    (hline : ∀ line ∈ lines, '\n' ∉ line) (hsize : ∀ line ∈ lines, line.length < size) :
    fgetsLines size (lines.flatMap fun line => line ++ ['\n']) =
      lines.map fun line => line ++ ['\n'] := by
  have happend := fgetsLines_flatMap_append size [] hline hsize
  have hnil : fgetsLines size [] = [] := rfl
  rwa [List.append_nil, hnil, List.append_nil] at happend

/-! ## Bytes -/

/-- The bytes of a text in UTF-8. -/
def utf8 (text : List Char) : List Char :=
  text.flatMap fun c => (String.utf8EncodeChar c).map Char.ofUInt8

/-- The bytes of two texts come one after the other. -/
@[simp] theorem utf8_append (text text' : List Char) :
    utf8 (text ++ text') = utf8 text ++ utf8 text' := List.flatMap_append

/-- A character that is not ASCII has no ASCII byte. -/
theorem le_of_mem_utf8EncodeChar {c : Char} {b : UInt8} (hb : b ∈ String.utf8EncodeChar c)
    (hc : 128 ≤ c.toNat) : 128 ≤ b.toNat := by
  have hlarge : ¬c.val.toNat ≤ 0x7f := by
    change 128 ≤ c.val.toNat at hc
    omega
  unfold String.utf8EncodeChar at hb
  dsimp only at hb
  rw [if_neg hlarge] at hb
  -- two, three or four bytes
  split at hb
  · simp only [List.mem_cons, List.not_mem_nil, or_false] at hb
    obtain rfl | rfl := hb <;> rw [UInt8.toNat_ofNat'] <;> omega
  split at hb
  · simp only [List.mem_cons, List.not_mem_nil, or_false] at hb
    obtain rfl | rfl | rfl := hb <;> rw [UInt8.toNat_ofNat'] <;> omega
  · simp only [List.mem_cons, List.not_mem_nil, or_false] at hb
    obtain rfl | rfl | rfl | rfl := hb <;> rw [UInt8.toNat_ofNat'] <;> omega

/-- The bytes of an ASCII character. -/
theorem utf8EncodeChar_ascii {c : Char} (hc : c.toNat < 128) :
    (String.utf8EncodeChar c).map Char.ofUInt8 = [c] := by
  -- an ASCII character takes the branch of one byte
  have hsmall : c.val.toNat ≤ 0x7f := by
    change c.val.toNat < 128 at hc
    omega
  have hbyte : (UInt8.ofNat c.val.toNat).toNat = c.toNat := by
    rw [UInt8.toNat_ofNat']
    exact Nat.mod_eq_of_lt (by show c.toNat < 256; omega)
  unfold String.utf8EncodeChar
  dsimp only
  rw [if_pos hsmall, List.map_singleton, List.singleton_inj, ← Char.toNat_inj]
  exact hbyte

/-- ASCII texts are their own bytes. -/
theorem utf8_ascii {text : List Char} (h : ∀ c ∈ text, c.toNat < 128) : utf8 text = text := by
  induction text with
  | nil => rfl
  | cons c text ih =>
    rw [List.forall_mem_cons] at h
    rw [utf8, List.flatMap_cons, utf8EncodeChar_ascii h.1]
    exact congrArg (c :: ·) (ih h.2)

/-- No byte of another character is a newline. -/
theorem newline_notMem_utf8 {text : List Char} (h : '\n' ∉ text) : '\n' ∉ utf8 text := by
  unfold utf8
  rw [List.mem_flatMap]
  intro hx
  obtain ⟨c, hc, hmem⟩ := hx
  -- the bytes of a character beyond ASCII are 128 or more, and the newline is 10
  by_cases hascii : c.toNat < 128
  · rw [utf8EncodeChar_ascii hascii, List.mem_singleton] at hmem
    exact h (hmem ▸ hc)
  · obtain ⟨b, hb, heq⟩ := List.mem_map.mp hmem
    have hle := le_of_mem_utf8EncodeChar hb (not_lt.mp hascii)
    have hlt : b.toNat < 256 := b.toNat_lt
    have htoNat : (Char.ofUInt8 b).toNat = b.toNat := rfl
    rw [heq] at htoNat
    have hten : '\n'.toNat = 10 := rfl
    omega

/-- A newline is its own byte. -/
theorem newline_mem_utf8 {text : List Char} (h : '\n' ∈ text) : '\n' ∈ utf8 text :=
  List.mem_flatMap.mpr ⟨'\n', h, by rw [utf8EncodeChar_ascii (by decide)]; exact List.mem_cons_self⟩

/-- Every character has bytes. -/
theorem map_utf8EncodeChar_ne_nil (c : Char) :
    (String.utf8EncodeChar c).map Char.ofUInt8 ≠ [] := by
  rw [ne_eq, List.map_eq_nil_iff, ← List.length_eq_zero_iff, String.length_utf8EncodeChar]
  exact c.utf8Size_pos.ne'

/-- Only the empty text has no bytes. -/
theorem utf8_eq_nil {text : List Char} : utf8 text = [] ↔ text = [] := by
  unfold utf8
  rw [List.flatMap_eq_nil_iff, List.eq_nil_iff_forall_not_mem]
  exact forall_congr' fun c => imp_congr_right fun _ =>
    iff_of_false (map_utf8EncodeChar_ne_nil c) not_false

/-- The bytes that the characters of a text stand for. -/
def toBytes (text : List Char) : ByteArray := (text.map Char.toUInt8).toByteArray

/-- The character that stands for a byte stands for this byte. -/
theorem toUInt8_ofUInt8 (b : UInt8) : (Char.ofUInt8 b).toUInt8 = b := by
  rw [← UInt8.toNat_inj]
  show (Char.ofUInt8 b).toNat % 256 = b.toNat
  exact Nat.mod_eq_of_lt b.toNat_lt

/-- A character that stands for a byte is the one of its byte. -/
theorem ofUInt8_toUInt8 {c : Char} (h : c.toNat < 256) : Char.ofUInt8 c.toUInt8 = c := by
  rw [← Char.toNat_inj]
  show c.toNat % 256 = c.toNat
  exact Nat.mod_eq_of_lt h

/-- The bytes of the encoded text are those of the encoding. -/
theorem toBytes_utf8 (text : List Char) : toBytes (utf8 text) = text.utf8Encode := by
  have hid : (Char.toUInt8 ∘ Char.ofUInt8) = id := funext toUInt8_ofUInt8
  unfold toBytes utf8 List.utf8Encode
  rw [List.map_flatMap]
  simp only [List.map_map, hid, List.map_id]

/-- What the encoding of a text consists of are bytes. -/
theorem toNat_lt_of_mem_utf8 {text : List Char} {c : Char} (h : c ∈ utf8 text) : c.toNat < 256 := by
  obtain ⟨_, -, hc⟩ := List.mem_flatMap.mp h
  obtain ⟨b, -, rfl⟩ := List.mem_map.mp hc
  exact b.toNat_lt

/-- Characters that stand for bytes can be told from the bytes. -/
theorem toBytes_inj {text text' : List Char} (h : ∀ c ∈ text, c.toNat < 256)
    (h' : ∀ c ∈ text', c.toNat < 256) : toBytes text = toBytes text' ↔ text = text' := by
  -- characters below 256 come back out of their bytes
  have hback : ∀ {text : List Char}, (∀ c ∈ text, c.toNat < 256) →
      (text.map Char.toUInt8).map Char.ofUInt8 = text := by
    intro text h
    rw [List.map_map]
    exact (List.map_congr_left fun c hc => ofUInt8_toUInt8 (h c hc)).trans (List.map_id text)
  constructor
  · intro heq
    rw [← hback h, ← hback h', List.toByteArray_inj.mp heq]
  · rintro rfl
    rfl

/-- A text whose bytes end with an ASCII character ends with it. -/
theorem utf8_eq_concat {text bytes : List Char} {c : Char} (hc : c.toNat < 128)
    (h : utf8 text = bytes ++ [c]) : ∃ start, text = start ++ [c] ∧ utf8 start = bytes := by
  cases text using List.reverseRec with
  | nil => simp [utf8] at h
  | append_singleton start d =>
    have hd : utf8 [d] = (String.utf8EncodeChar d).map Char.ofUInt8 := List.flatMap_singleton ..
    rw [utf8_append, hd] at h
    by_cases hascii : d.toNat < 128
    · rw [utf8EncodeChar_ascii hascii] at h
      obtain ⟨hstart, hlast⟩ := List.append_inj' h rfl
      cases hlast
      exact ⟨start, rfl, hstart⟩
    · -- none of the bytes of another character is ASCII
      have hmem : c ∈ (String.utf8EncodeChar d).map Char.ofUInt8 := by
        have hlast := congrArg List.getLast? h
        rw [List.getLast?_append_of_ne_nil _ (map_utf8EncodeChar_ne_nil d),
          List.getLast?_concat] at hlast
        exact List.mem_of_getLast? hlast
      obtain ⟨b, hb, rfl⟩ := List.mem_map.mp hmem
      exact absurd hc (not_lt.mpr (le_of_mem_utf8EncodeChar hb (not_lt.mp hascii)))

/-- An ASCII ending of the bytes is one of the text. -/
theorem utf8_eq_append {ascii : List Char} (hascii : ∀ c ∈ ascii, c.toNat < 128)
    {text bytes : List Char} (h : utf8 text = bytes ++ ascii) :
    ∃ start, text = start ++ ascii ∧ utf8 start = bytes := by
  -- from the end, since an ASCII character is the last byte by itself
  induction ascii using List.reverseRec generalizing text with
  | nil => exact ⟨text, (List.append_nil text).symm, h.trans (List.append_nil bytes)⟩
  | append_singleton ascii c ih =>
    rw [← List.append_assoc] at h
    obtain ⟨start, rfl, hstart⟩ := utf8_eq_concat (hascii c (by simp)) h
    obtain ⟨start, rfl, hbytes⟩ := ih (fun d hd => hascii d (by simp [hd])) hstart
    exact ⟨start, List.append_assoc .., hbytes⟩

end CText
