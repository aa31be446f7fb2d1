import DeLatency.Converter.Value
import DeLatency.ForStd.CText

/-!
# What Python reads in a text

A text without whitespace at its ends is its own `strip`, and `int` reads back what C's
`printf` has written.  Bytes that end in ASCII are decoded when those before are.
-/

namespace DeLatency

open CText

/-! ## Whitespace -/

/-- A digit is no blank. -/
theorem not_isSpace_of_isDigit {c : Char} (h : c.isDigit = true) :
    DeLatency.isSpace c = false := by
  have hrange : 48 ≤ c.toNat ∧ c.toNat ≤ 57 := by
    simpa [Char.isDigit, UInt32.le_iff_toNat_le] using h
  unfold DeLatency.isSpace
  simp
  omega

/-- There is no whitespace at either end. -/
def Trimmed (text : List Char) : Prop :=
  (∀ c ∈ text.head?, DeLatency.isSpace c = false) ∧
    ∀ c ∈ text.getLast?, DeLatency.isSpace c = false

instance (text : List Char) : Decidable (Trimmed text) :=
  @instDecidableAnd _ _ (Option.decidableForallMem _) (Option.decidableForallMem _)

/-- A text without blanks is trimmed. -/
theorem Trimmed.of_forall {text : List Char} (h : ∀ c ∈ text, DeLatency.isSpace c = false) :
    Trimmed text :=
  ⟨fun c hc => h c (List.mem_of_mem_head? hc), fun c hc => h c (List.mem_of_mem_getLast? hc)⟩

/-- No blank in front, none to drop. -/
theorem dropWhile_isSpace {text : List Char}
    (h : ∀ c ∈ text.head?, DeLatency.isSpace c = false) :
    text.dropWhile DeLatency.isSpace = text := by
  cases text with
  | nil => rfl
  | cons c text =>
    have hc := h c rfl
    rw [List.dropWhile_cons_of_neg (by simp [hc])]

/-- Stripping leaves a trimmed text alone. -/
theorem strip_of_trimmed {text : List Char} (h : Trimmed text) :
    strip (String.ofList text) = String.ofList text := by
  have hrev : ∀ c ∈ text.reverse.head?, DeLatency.isSpace c = false := by
    rw [List.head?_reverse]
    exact h.2
  unfold strip
  rw [String.toList_ofList, dropWhile_isSpace h.1, dropWhile_isSpace hrev, List.reverse_reverse]

/-- What is left does not start with a blank. -/
theorem head?_dropWhile_isSpace {text : List Char} :
    ∀ c ∈ (text.dropWhile DeLatency.isSpace).head?, DeLatency.isSpace c = false := by
  intro c hc
  have := List.head?_dropWhile_not DeLatency.isSpace text
  rw [Option.mem_def.mp hc] at this
  simpa using this

/-- A stripped text is trimmed. -/
theorem trimmed_strip (s : String) : Trimmed (strip s).toList := by
  rw [strip, String.toList_ofList]
  refine ⟨?_, ?_⟩
  · intro c hc
    -- what is left is a prefix of the text without its leading whitespace
    have hpre := List.reverse_prefix.mpr (List.dropWhile_suffix
      (l := (s.toList.dropWhile DeLatency.isSpace).reverse) DeLatency.isSpace)
    rw [List.reverse_reverse] at hpre
    obtain ⟨t, ht⟩ := hpre
    have hhead : c ∈ (s.toList.dropWhile DeLatency.isSpace).head? := by
      rw [← ht, List.head?_append, Option.mem_def.mp hc]
      rfl
    exact head?_dropWhile_isSpace c hhead
  · intro c hc
    rw [List.getLast?_reverse] at hc
    exact head?_dropWhile_isSpace c hc

/-- Stripping twice is stripping once. -/
theorem strip_strip (s : String) : strip (strip s) = strip s := by
  have := strip_of_trimmed (trimmed_strip s)
  rwa [String.ofList_toList] at this

/-- A request id that is normalised stays what it is. -/
theorem normalizeRequestId_of_eq_some {s rid : String} (h : normalizeRequestId s = some rid) :
    normalizeRequestId rid = some rid := by
  simp only [normalizeRequestId] at h ⊢
  split at h
  · cases h
  · next hne =>
    obtain rfl := Option.some.inj h
    rw [strip_strip, if_neg hne]

/-- Ids in normal form stay as they are. -/
theorem normalizeRequestIds_eq_self {rids : List String}
    (h : ∀ rid ∈ rids, normalizeRequestId rid = some rid) : normalizeRequestIds rids = rids := by
  rw [normalizeRequestIds, List.filterMap_congr h, List.filterMap_some]

/-! ## Numbers -/

/-- A number that is not negative has nothing but digits. -/
theorem isDigit_of_mem_decimal_nonneg {n : ℤ} (h : 0 ≤ n) {c : Char} (hc : c ∈ decimal n) :
    c.isDigit = true := by
  rw [decimal_of_nonneg h] at hc
  exact isDigit_of_mem_toDigits hc

/-- The digits of a number are ASCII. -/
theorem map_asciiDigit_of_isDigit {text : List Char} (h : ∀ c ∈ text, c.isDigit = true) :
    text.map asciiDigit = text := by
  refine (List.map_congr_left fun c hc => ?_).trans (List.map_id text)
  have hrange : 48 ≤ c.toNat ∧ c.toNat ≤ 57 := by
    simpa [Char.isDigit, UInt32.le_iff_toNat_le] using h c hc
  rw [asciiDigit, if_pos (by omega), id]

/-- `int` reads a number. -/
theorem parseInt_decimal {n : ℤ} (h : 0 ≤ n) :
    parseInt (String.ofList (decimal n)) = some n := by
  have hdigits : ∀ ch ∈ decimal n, ch.isDigit = true :=
    fun _ hch => isDigit_of_mem_decimal_nonneg h hch
  have hstrip : strip (String.ofList (decimal n)) = String.ofList (decimal n) :=
    strip_of_trimmed (.of_forall fun ch hch => not_isSpace_of_isDigit (hdigits ch hch))
  obtain ⟨c, digits, hcons, hc⟩ := exists_toDigits_eq_cons n.toNat
  rw [← decimal_of_nonneg h] at hcons
  -- there is no sign to take off
  have hsign : splitSign (decimal n) = (false, decimal n) := by
    rw [hcons, splitSign]
    · intro cs hx
      cases hx
      exact absurd hc (by decide)
    · intro cs hx
      cases hx
      exact absurd hc (by decide)
  have hunderscore : '_' ∉ decimal n := fun hch => absurd (hdigits '_' hch) (by decide)
  have hall : isDigits (decimal n) = true := by
    rw [isDigits, List.all_eq_true.mpr hdigits, hcons]
    rfl
  have hvalue : (natOfDigits (decimal n) : ℤ) = n := by
    have hnat : natOfDigits (decimal n) = n.toNat := by
      rw [decimal_of_nonneg h]
      exact Nat.ofDigitChars_ten_toDigits
    rw [hnat, Int.toNat_of_nonneg h]
  rw [parseInt, hstrip, String.toList_ofList, map_asciiDigit_of_isDigit hdigits, hsign]
  dsimp only
  rw [List.splitOn_eq_singleton hunderscore, List.all_cons, hall, List.flatten_singleton]
  simp [applySign, hvalue]

/-! ## Bytes -/

/-- Decoding is the inverse of encoding. -/
theorem decodeUtf8_eq_some_iff {frame : ByteArray} {text : List Char} :
    decodeUtf8 frame = some text ↔ frame = encodeUtf8 text := by
  constructor
  · intro h
    rw [decodeUtf8, String.fromUTF8?] at h
    split at h
    · -- an accepted frame is the encoding of the text it was read as
      obtain rfl := Option.some.inj h
      rw [encodeUtf8, String.ofList_toList]
      rfl
    · cases h
  · rintro rfl
    exact decodeUtf8_encodeUtf8 text

/-- Bytes are decoded to the text of which they are the encoding. -/
theorem decodeUtf8_toBytes {bytes text : List Char} (h : ∀ c ∈ bytes, c.toNat < 256) :
    decodeUtf8 (toBytes bytes) = some text ↔ utf8 text = bytes := by
  have hencode : encodeUtf8 text = toBytes (utf8 text) := by
    rw [toBytes_utf8, encodeUtf8]
    exact String.toByteArray_ofList
  rw [decodeUtf8_eq_some_iff, hencode, toBytes_inj h fun c hc => toNat_lt_of_mem_utf8 hc, eq_comm]

/-- What is ASCII at the end stays as it is. -/
theorem decodeUtf8_toBytes_append {bytes ascii : List Char} (h : ∀ c ∈ bytes, c.toNat < 256)
    (hascii : ∀ c ∈ ascii, c.toNat < 128) :
    decodeUtf8 (toBytes (bytes ++ ascii)) = (decodeUtf8 (toBytes bytes)).map (· ++ ascii) := by
  have hbytes : ∀ c ∈ bytes ++ ascii, c.toNat < 256 := by
    intro c hc
    obtain hc | hc := List.mem_append.mp hc
    · exact h c hc
    · exact (hascii c hc).trans (by decide)
  ext text
  rw [decodeUtf8_toBytes hbytes, Option.map_eq_some_iff]
  -- an ASCII end decodes to itself, so the decoding splits before it
  constructor
  · intro heq
    obtain ⟨start, rfl, hstart⟩ := utf8_eq_append hascii heq
    exact ⟨start, (decodeUtf8_toBytes h).mpr hstart, rfl⟩
  · rintro ⟨start, hstart, rfl⟩
    rw [utf8_append, (decodeUtf8_toBytes h).mp hstart, utf8_ascii hascii]

end DeLatency
