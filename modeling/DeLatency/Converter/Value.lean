import DeLatency.ForStd.RoundSig
import Mathlib.Algebra.Order.Ring.Int

/-!
# Raw log values: `to_ns`, `to_int`, `normalize_request_id`

The log is JSON, and the converter normalises a timestamp wherever it reads one.
`toNs` is its `to_ns` with all four channels (integer, string, float, other);
`toNsInt` is the integer channel alone, which is all that later stages use, since
the intervals they build hold integers already.

Strings are read with ASCII digits; a finite float is an exact dyadic.
-/

namespace DeLatency

/-- A Python float as `json.loads` builds it: a finite one is
    `mantissa * 2 ^ exponent`. -/
inductive PyFloat
  | finite (mantissa exponent : ℤ)
  | inf (negative : Bool)
  | nan

/-- A Python string: a text, or a text up to a lone surrogate and the string after it. -/
inductive PyStr
  | text (s : String)
  | surrogate (before : String) (unit : Fin 0x800) (after : PyStr)
deriving DecidableEq

namespace PyStr

instance : Coe String PyStr := ⟨text⟩

/-- The string has a lone surrogate, which no encoding of Unicode can write. -/
def loneSurrogate : PyStr → Bool
  | text _ => false
  | surrogate .. => true

/-- A text has no lone surrogate. -/
@[simp] theorem loneSurrogate_text (s : String) : (text s).loneSurrogate = false := rfl

/-- The string is empty. -/
def isEmpty : PyStr → Bool
  | text s => s = ""
  | surrogate .. => false

end PyStr

/-- A value as `json.loads` builds it. -/
inductive PyValue
  | null
  | bool (b : Bool)
  | int (n : ℤ)
  | float (x : PyFloat)
  | str (s : PyStr)
  | list (xs : List PyValue)
  | dict (fields : List (PyStr × PyValue))

/-- Python truthiness, as in `a or b`. -/
def PyValue.truthy : PyValue → Bool
  | .null => false
  | .bool b => b
  | .int n => n ≠ 0
  | .float (.finite m _) => m ≠ 0
  -- infinities and not-a-number count as true
  | .float _ => true
  | .str s => !s.isEmpty
  | .list xs => !xs.isEmpty
  | .dict fields => !fields.isEmpty

/-- `a or b`. -/
def PyValue.or (a b : PyValue) : PyValue := if a.truthy then a else b

mutual

/-- Some string of the value has a lone surrogate. -/
def PyValue.loneSurrogate : PyValue → Bool
  | .str s => s.loneSurrogate
  | .list xs => loneSurrogateItems xs
  | .dict fields => loneSurrogateFields fields
  | _ => false

def loneSurrogateItems : List PyValue → Bool
  | [] => false
  | x :: xs => x.loneSurrogate || loneSurrogateItems xs

def loneSurrogateFields : List (PyStr × PyValue) → Bool
  | [] => false
  | (key, x) :: fields => key.loneSurrogate || x.loneSurrogate || loneSurrogateFields fields

end

/-- A dictionary has one in a key or in a value. -/
theorem loneSurrogateFields_append (fields fields' : List (PyStr × PyValue)) :
    loneSurrogateFields (fields ++ fields') =
      (loneSurrogateFields fields || loneSurrogateFields fields') := by
  induction fields with
  | nil => rfl
  | cons field fields ih =>
    simp only [List.cons_append, loneSurrogateFields, ih, Bool.or_assoc]

/-! ## Exceptions -/

/-- What the Python programs raise. -/
inductive PyError
  | keyError (key : String)
  | attributeError
  | typeError
  | unicodeEncodeError
deriving DecidableEq

/-- `payload[key]`, given what is stored under the key. -/
def item {α : Type} (key : String) : Option α → Except PyError α
  | some value => .ok value
  | none => .error (.keyError key)

/-- An item is found when it is there. -/
theorem item_eq_ok {α : Type} {key : String} {stored : Option α} {value : α} :
    item key stored = .ok value ↔ stored = some value := by
  cases stored with
  | none => simp [item]
  | some v => simp [item]

/-- `value.get(key)`. -/
def PyValue.get (key : PyStr) : PyValue → Except PyError PyValue
  | .dict fields => .ok ((fields.lookup key).getD .null)
  | _ => .error .attributeError

/-- `value in names`, for a set of strings: a value that cannot be hashed cannot be looked up. -/
def PyValue.memSet (names : List String) : PyValue → Except PyError Bool
  | .str s => .ok (s ∈ names.map PyStr.text)
  | .list _ => .error .typeError
  | .dict _ => .error .typeError
  | _ => .ok false

/-! ## Strings -/

/-- The characters that `str.strip` removes. -/
def isSpace (c : Char) : Bool :=
  let n := c.toNat
  (9 ≤ n && n ≤ 13) || (28 ≤ n && n ≤ 32) || (0x2000 ≤ n && n ≤ 0x200a) ||
    [0x85, 0xa0, 0x1680, 0x2028, 0x2029, 0x202f, 0x205f, 0x3000].contains n

/-- `s.strip()`. -/
def strip (s : String) : String :=
  String.ofList ((s.toList.dropWhile isSpace).reverse.dropWhile isSpace).reverse

/-- `c.lower()` as far as ASCII letters come out of it: the Kelvin sign is a `k`. -/
def lowerChar (c : Char) : Char := if c.toNat = 0x212a then 'k' else c.toLower

/-- `s.lower()`, to be compared with ASCII texts. -/
def lower (s : String) : String := String.ofList (s.toList.map lowerChar)

/-- `s.lower()` leaves a lone surrogate as it is. -/
def PyStr.lower : PyStr → PyStr
  | text s => text (DeLatency.lower s)
  | surrogate before unit after => surrogate (DeLatency.lower before) unit after.lower

/-- `normalize_request_id` on a string: stripped, `None` when blank. -/
def normalizeRequestId (rawRid : String) : Option String :=
  let rid := strip rawRid
  if rid = "" then none else some rid

/-- `normalize_request_ids` on a list of strings. -/
def normalizeRequestIds (rawReqIds : List String) : List String :=
  rawReqIds.filterMap normalizeRequestId

/-- The value of a digit string. -/
def natOfDigits (ds : List Char) : ℕ := ds.foldl (fun n c => 10 * n + (c.toNat - '0'.toNat)) 0

/-- `s.isdigit()`. -/
def isDigits (ds : List Char) : Bool := !ds.isEmpty && ds.all Char.isDigit

/-- Split off a leading sign; `true` means minus. -/
def splitSign : List Char → Bool × List Char
  | '-' :: cs => (true, cs)
  | '+' :: cs => (false, cs)
  | cs => (false, cs)

def applySign (negative : Bool) (n : ℕ) : ℤ := if negative then -n else n

/-- The zeros of Unicode.  The other nine digits of a script follow its zero. -/
def decimalZeros : List ℕ :=
  [0x660, 0x6f0, 0x7c0, 0x966, 0x9e6, 0xa66, 0xae6, 0xb66, 0xbe6, 0xc66, 0xce6, 0xd66, 0xde6,
    0xe50, 0xed0, 0xf20, 0x1040, 0x1090, 0x17e0, 0x1810, 0x1946, 0x19d0, 0x1a80, 0x1a90, 0x1b50,
    0x1bb0, 0x1c40, 0x1c50, 0xa620, 0xa8d0, 0xa900, 0xa9d0, 0xa9f0, 0xaa50, 0xabf0, 0xff10,
    0x104a0, 0x10d30, 0x11066, 0x110f0, 0x11136, 0x111d0, 0x112f0, 0x11450, 0x114d0, 0x11650,
    0x116c0, 0x11730, 0x118e0, 0x11950, 0x11c50, 0x11d50, 0x11da0, 0x16a60, 0x16ac0, 0x16b50,
    0x1d7ce, 0x1d7d8, 0x1d7e2, 0x1d7ec, 0x1d7f6, 0x1e140, 0x1e2f0, 0x1e950, 0x1fbf0]

/-- `int` takes a digit of any script for the ASCII one. -/
def asciiDigit (c : Char) : Char :=
  if c.toNat < 128 then c
  else
    match decimalZeros.find? fun zero => zero ≤ c.toNat ∧ c.toNat < zero + 10 with
    | none => c
    | some zero => Char.ofNat ('0'.toNat + (c.toNat - zero))

/-- `int(s)`, `none` for the `ValueError`. -/
def parseInt (s : String) : Option ℤ :=
  let (negative, body) := splitSign ((strip s).toList.map asciiDigit)
  -- single underscores between digits are accepted, so no group may be empty
  let groups := body.splitOn '_'
  if groups.all isDigits then some (applySign negative (natOfDigits groups.flatten)) else none

/-- The exponent part of a decimal literal. -/
def parseExponent : List Char → Option ℤ
  | [] => some 0
  | c :: cs =>
    if c = 'e' ∨ c = 'E' then
      let (negative, ds) := splitSign cs
      if isDigits ds then some (applySign negative (natOfDigits ds)) else none
    else none

/-- `Decimal(s)` for a finite literal: sign, coefficient and power of ten.
    `none` stands for a literal that is invalid or not finite. -/
def parseDecimal (s : String) : Option (Bool × ℕ × ℤ) :=
  -- unlike `int`, the constructor drops underscores wherever they stand
  let (negative, body) := splitSign (s.toList.filter (· ≠ '_'))
  let whole := body.takeWhile Char.isDigit
  let rest := body.dropWhile Char.isDigit
  let (frac, rest) := match rest with
    | '.' :: r => (r.takeWhile Char.isDigit, r.dropWhile Char.isDigit)
    | r => ([], r)
  if whole.isEmpty && frac.isEmpty then none
  else (parseExponent rest).map fun e =>
    (negative, natOfDigits (whole ++ frac), e - frac.length)

/-! ## Timestamps -/

/-- Whether `c * b ^ e` exceeds `bound`. -/
def scaledExceeds (b c : ℕ) (e : ℤ) (bound : ℕ) : Bool :=
  if 0 ≤ e then bound < c * b ^ e.toNat else bound * b ^ (-e).toNat < c

/-- `int(c * b ^ e)`. -/
def scaledTrunc (b c : ℕ) (e : ℤ) : ℤ :=
  if 0 ≤ e then (c * b ^ e.toNat : ℕ) else (c / b ^ (-e).toNat : ℕ)

/-- The integer channel of `to_ns`: a value above `1e14` is nanoseconds, a
    smaller one is seconds and goes through `int(val * 1e9)`. -/
def toNsInt (val : ℤ) : Option ℤ :=
  if val ≤ 0 then none
  else if 10 ^ 14 < val then some val
  else some (roundSig 2 53 (val.toNat * 10 ^ 9))

/-- The string channel of `to_ns`.  Other digits than those of ASCII, and the interpreter's limit
    on how many digits `int` takes, are left out. -/
def toNsStr (raw : String) : Option ℤ :=
  let s := strip raw
  -- an optional sign and digits only: read as an integer
  if isDigits (splitSign s.toList).2 then
    toNsInt (applySign (splitSign s.toList).1 (natOfDigits (splitSign s.toList).2))
  else
    match parseDecimal s with
    | none => none
    | some (negative, c, e) =>
      if negative ∨ c = 0 then none
      else if scaledExceeds 10 c e (10 ^ 14) then some (scaledTrunc 10 c e)
      -- the product with `1e9` is rounded to the precision of the decimal context
      else some (scaledTrunc 10 (roundSig 10 28 c) (e + 9))

/-- The float channel of `to_ns`. -/
def toNsFloat : PyFloat → Option ℤ
  | .finite m e =>
    if m ≤ 0 then none
    else if scaledExceeds 2 m.toNat e (10 ^ 14) then some (scaledTrunc 2 m.toNat e)
    -- the product with `1e9` is rounded to a double, its exponent is kept
    else some (scaledTrunc 2 (roundSig 2 53 (m.toNat * 10 ^ 9)) e)
  | _ => none

/-- `to_ns`: any raw value to nanoseconds. -/
def toNs : PyValue → Option ℤ
  | .int n => toNsInt n
  | .str (.text s) => toNsStr s
  | .float x => toNsFloat x
  -- a string with a lone surrogate is no number
  | _ => none

/-- A value above `1e14` is read as it stands. -/
theorem toNsInt_of_lt {val : ℤ} (h : 10 ^ 14 < val) : toNsInt val = some val := by
  have hpos : ¬val ≤ 0 := by omega
  rw [toNsInt, if_neg hpos, if_pos h]

/-- Whatever `to_ns` reads from an integer is positive, and never below it. -/
theorem le_of_toNsInt {val ns : ℤ} (h : toNsInt val = some ns) : 0 < ns ∧ val ≤ ns := by
  unfold toNsInt at h
  split at h
  · cases h
  · next hpos =>
    rw [not_le] at hpos
    split at h
    · cases h; exact ⟨hpos, le_refl _⟩
    · -- scaling by `1e9` outweighs the rounding to a double
      have hround : val.toNat * 10 ^ 9 ≤ 2 * roundSig 2 53 (val.toNat * 10 ^ 9) :=
        le_two_mul_roundSig (by decide) (by decide)
      cases h
      constructor <;> omega

/-- A value that is read as seconds moves far to the right. -/
theorem lt_of_toNsInt_of_le {val ns : ℤ} (h : toNsInt val = some ns) (hle : val ≤ 10 ^ 14) :
    val < ns := by
  unfold toNsInt at h
  split at h
  · cases h
  · next hpos =>
    rw [if_neg (not_lt.mpr hle)] at h
    -- rounding to a double keeps at least half of the number
    have hround : val.toNat * 10 ^ 9 ≤ 2 * roundSig 2 53 (val.toNat * 10 ^ 9) :=
      le_two_mul_roundSig (by decide) (by decide)
    cases h
    omega

/-! ## JSON texts

The JSON libraries are not part of the repository. -/

/-- Who writes a text, and with which options. -/
inductive JsonWriter
  /-- `json.dumps(value)` -/
  | dumps
  /-- `json.dumps(value, separators=(",", ":"))` -/
  | dumpsCompact
  /-- `json.dumps(value, ensure_ascii=False)` -/
  | dumpsUnicode
  /-- `send_json` of the socket -/
  | sendJson
  /-- `json_object_to_json_string_ext` of json-c -/
  | jsonC
deriving DecidableEq

structure JsonLib where
  /-- The text of a value.  With `ensure_ascii=False` the text of a value with a lone surrogate
      has it too, and is of no use: it cannot be encoded. -/
  dumps : JsonWriter → PyValue → List Char
  /-- `json.loads`, `none` where it raises. -/
  loads : List Char → Option PyValue

/-- `text.encode("utf-8")`. -/
def encodeUtf8 (text : List Char) : ByteArray := (String.ofList text).toUTF8

/-- `frame.decode()`, `none` where it raises. -/
def decodeUtf8 (frame : ByteArray) : Option (List Char) :=
  (String.fromUTF8? frame).map String.toList

/-- What has been encoded is decoded again. -/
@[simp] theorem decodeUtf8_encodeUtf8 (text : List Char) :
    decodeUtf8 (encodeUtf8 text) = some text := by
  have hvalid : (String.ofList text).toUTF8.IsValidUTF8 := (String.ofList text).isValidUTF8
  rw [decodeUtf8, encodeUtf8, String.fromUTF8?, dif_pos hvalid, Option.map_some]
  exact congrArg some String.toList_ofList

end DeLatency
