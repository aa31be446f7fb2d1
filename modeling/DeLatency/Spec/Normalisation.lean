import DeLatency.Spec.Intervals
import Mathlib.Algebra.Order.Field.Rat

/-!
# Converting a time again

`to_ns` guesses the unit of a number from its size, and later stages convert what earlier
ones have converted.  A positive integer may be an `int`, a text of digits, or a text with a
point or an exponent; all of them are read as `ReadAs` says.  A converted time stays as it
is if and only if there were more than `1e5` seconds, or nanoseconds, to begin with
(`toNsAgain_one_iff`), and two times change places only across the threshold
(`toNs_stable`).
-/

namespace DeLatency

/-! ## Spellings of an integer -/

/-- `to_ns` reads the value as an integer. -/
def PyValue.integerText : PyValue → Bool
  | .int _ => true
  | .str (.text s) => isDigits (splitSign (strip s).toList).2
  | _ => false

/-- An integer and the texts that stand for it. -/
inductive Spells : PyValue → ℤ → Prop
  | int (x : ℤ) : Spells (.int x) x
  | digits (s : String) (hdigits : isDigits (splitSign (strip s).toList).2 = true) :
      Spells (.str s) (applySign (splitSign (strip s).toList).1
        (natOfDigits (splitSign (strip s).toList).2))
  | decimal (s : String) (c : ℕ) (e x : ℤ)
      (hdigits : isDigits (splitSign (strip s).toList).2 = false)
      (hparse : parseDecimal (strip s) = some (false, c, e)) (hvalue : (c : ℚ) * 10 ^ e = x) :
      Spells (.str s) x

/-- What `to_ns` makes of a positive integer: a double holds the nanoseconds of a number of
    seconds but for its last digits. -/
structure ReadAs (x ns : ℤ) : Prop where
  nanoseconds : 10 ^ 14 < x → ns = x
  lower : x ≤ 10 ^ 14 → x * 10 ^ 9 - 2 ^ 23 ≤ ns
  upper : x ≤ 10 ^ 14 → ns ≤ x * 10 ^ 9 + 2 ^ 23
  exact : x ≤ 10 ^ 5 → ns = x * 10 ^ 9

/-- Every positive number is read as some time. -/
theorem exists_toNsInt {x : ℤ} (hpos : 0 < x) : ∃ ns, toNsInt x = some ns ∧ ReadAs x ns := by
  refine ⟨readNs x, toNsInt_eq_readNs hpos, ?_⟩
  -- above the bound the number is nanoseconds, below it seconds
  by_cases hns : 10 ^ 14 < x
  · rw [NsTime.readNs hns]
    constructor <;> omega
  · have hread : readNs x = roundSig 2 53 (x.toNat * 10 ^ 9) := by
      rw [readNs, toNsInt, if_neg (by omega), if_neg hns, Option.getD_some]
    obtain ⟨hlower, hupper⟩ := roundSig_near_of_lt (b := 2) (p := 53) (m := 77)
      (n := x.toNat * 10 ^ 9) (by omega) (by omega) (by omega)
    rw [hread]
    constructor
    · omega
    · omega
    · omega
    · intro hfew
      -- a product with few enough digits is not rounded
      have hexact := roundSig_mul_pow (b := 2) (p := 53) (q := x.toNat * 10 ^ 9) (by omega)
        (by omega) (by omega) 0
      rw [Nat.pow_zero, Nat.mul_one] at hexact
      omega

/-! ## Decimals -/

/-- The value of `c * b ^ e`, without fractions. -/
theorem scaled_cases {c : ℕ} {e x : ℤ} (h : (c : ℚ) * 10 ^ e = x) :
    (0 ≤ e ∧ (c * 10 ^ e.toNat : ℕ) = x) ∨ (e < 0 ∧ (c : ℤ) = x * (10 ^ (-e).toNat : ℕ)) := by
  -- a decimal point to the right of the digits, or inside them
  obtain he | he := le_or_gt 0 e
  · refine .inl ⟨he, ?_⟩
    obtain ⟨n, rfl⟩ := Int.eq_ofNat_of_zero_le he
    rw [zpow_natCast] at h
    exact_mod_cast h
  · refine .inr ⟨he, ?_⟩
    obtain ⟨n, hn⟩ := Int.eq_ofNat_of_zero_le (show 0 ≤ -e by omega)
    obtain rfl : e = -n := by omega
    rw [zpow_neg, zpow_natCast, ← div_eq_mul_inv, div_eq_iff (by positivity)] at h
    rw [neg_neg, Int.toNat_natCast]
    exact_mod_cast h

/-- A decimal of an integral value is cut to that value. -/
theorem scaledTrunc_of_value {c : ℕ} {e x : ℤ} (h : (c : ℚ) * 10 ^ e = x) :
    scaledTrunc 10 c e = x := by
  unfold scaledTrunc
  obtain ⟨he, hx⟩ | ⟨he, hx⟩ := scaled_cases h
  · rw [if_pos he]
    exact hx
  · rw [if_neg (by omega), Int.natCast_div, hx]
    exact Int.mul_ediv_cancel x (by positivity)

/-- Its comparison with a bound is that of the value. -/
theorem scaledExceeds_iff_of_value {c : ℕ} {e x : ℤ} (h : (c : ℚ) * 10 ^ e = x) (bound : ℕ) :
    scaledExceeds 10 c e bound = true ↔ bound < x := by
  unfold scaledExceeds
  obtain ⟨he, hx⟩ | ⟨he, hx⟩ := scaled_cases h
  · rw [if_pos he, decide_eq_true_eq]
    omega
  · rw [if_neg (by omega), decide_eq_true_eq, ← Nat.cast_lt (α := ℤ), hx, Nat.cast_mul]
    exact Int.mul_lt_mul_right (by positivity)

/-- A number of at most `1e14` needs fewer digits than the context of `decimal` has. -/
theorem roundSig_of_value {c : ℕ} {e x : ℤ} (h : (c : ℚ) * 10 ^ e = x) (hpos : 0 < x)
    (hle : x ≤ 10 ^ 14) : roundSig 10 28 c = c := by
  obtain ⟨he, hx⟩ | ⟨he, hx⟩ := scaled_cases h
  · have hc : c ≤ c * 10 ^ e.toNat := Nat.le_mul_of_pos_right c (by positivity)
    have hround := roundSig_mul_pow (b := 10) (p := 28) (q := c) (by omega) (by omega) (by omega) 0
    rwa [Nat.pow_zero, Nat.mul_one] at hround
  · have hc : c = x.toNat * 10 ^ (-e).toNat := by
      rw [← Nat.cast_inj (R := ℤ), hx, Nat.cast_mul, Int.toNat_of_nonneg hpos.le]
    rw [hc]
    exact roundSig_mul_pow (by omega) (by omega) (by omega) _

/-- A text with a point or an exponent is read exactly. -/
theorem toNs_decimal {s : String} {c : ℕ} {e x : ℤ}
    (hdigits : isDigits (splitSign (strip s).toList).2 = false)
    (hparse : parseDecimal (strip s) = some (false, c, e)) (hvalue : (c : ℚ) * 10 ^ e = x)
    (hpos : 0 < x) : toNs (.str s) = some (if 10 ^ 14 < x then x else x * 10 ^ 9) := by
  have hc : c ≠ 0 := by
    intro hzero
    rw [hzero, Nat.cast_zero, zero_mul] at hvalue
    have hx : x = 0 := by exact_mod_cast hvalue.symm
    omega
  -- a zero or negative decimal would be refused
  have hguard : ¬(false = true ∨ c = 0) := by simp [hc]
  have hexceeds := scaledExceeds_iff_of_value hvalue (10 ^ 14)
  show toNsStr s = _
  rw [toNsStr, if_neg (by simp [hdigits]), hparse]
  dsimp only
  rw [if_neg hguard]
  -- the comparison with the bound is exact, since it is made on the decimal
  by_cases hns : 10 ^ 14 < x
  · rw [if_pos hns, if_pos (hexceeds.mpr (by exact_mod_cast hns)), scaledTrunc_of_value hvalue]
  · -- seconds are multiplied by 10^9 before they are cut
    have hscaled : (c : ℚ) * 10 ^ (e + 9) = (x * 10 ^ 9 : ℤ) := by
      rw [zpow_add₀ (by norm_num), ← mul_assoc, hvalue]
      push_cast
      rfl
    have hbelow : ¬scaledExceeds 10 c e (10 ^ 14) = true := fun h =>
      hns (by exact_mod_cast hexceeds.mp h)
    rw [if_neg hns, if_neg hbelow, roundSig_of_value hvalue hpos (by omega),
      scaledTrunc_of_value hscaled]

/-! ## Reading a spelling -/

/-- A text of digits is read like the number. -/
theorem Spells.toNs_integerText {raw : PyValue} {x : ℤ} (h : Spells raw x)
    (htext : raw.integerText = true) : toNs raw = toNsInt x := by
  cases h with
  | int => rfl
  | digits s hdigits =>
    show toNsStr s = _
    rw [toNsStr, if_pos hdigits]
  | decimal s c e _ hdigits => exact absurd htext (by simp [PyValue.integerText, hdigits])

/-- Any other spelling is read as nanoseconds above the bound and as seconds below it. -/
theorem Spells.toNs_not_integerText {raw : PyValue} {x : ℤ} (h : Spells raw x)
    (htext : raw.integerText = false) (hpos : 0 < x) :
    toNs raw = some (if 10 ^ 14 < x then x else x * 10 ^ 9) := by
  cases h with
  | int => cases htext
  | digits s hdigits => exact absurd hdigits (by simpa [PyValue.integerText] using htext)
  | decimal s c e _ hdigits hparse hvalue => exact toNs_decimal hdigits hparse hvalue hpos

/-- Every spelling of a positive integer is read as `ReadAs` says. -/
theorem Spells.exists_toNs {raw : PyValue} {x : ℤ} (h : Spells raw x) (hpos : 0 < x) :
    ∃ ns, toNs raw = some ns ∧ ReadAs x ns := by
  cases htext : raw.integerText with
  | true =>
    rw [h.toNs_integerText htext]
    exact exists_toNsInt hpos
  | false =>
    refine ⟨_, h.toNs_not_integerText htext hpos, ?_⟩
    split
    · constructor <;> omega
    · constructor <;> omega

/-- A positive number is read as a positive time. -/
theorem ReadAs.pos {x ns : ℤ} (h : ReadAs x ns) (hpos : 0 < x) : 0 < ns := by
  obtain ⟨hnanoseconds, hlower, -, -⟩ := h
  omega

/-- A converted value is above the threshold from `100001` seconds on. -/
theorem ReadAs.nsTime_iff {x ns : ℤ} (h : ReadAs x ns) : NsTime ns ↔ 10 ^ 5 < x := by
  obtain ⟨hnanoseconds, hlower, hupper, hexact⟩ := h
  unfold NsTime
  omega

/-! ## Conversions of converted values -/

/-- `to_ns` on a result of `to_ns`. -/
def convertAgain (read : Option ℤ) : Option ℤ := read.bind fun ns => toNs (.int ns)

/-- A value that is converted, and converted again `n` times. -/
def toNsAgain (n : ℕ) (raw : PyValue) : Option ℤ := convertAgain^[n] (toNs raw)

/-- A time in nanoseconds stays itself however often it is read. -/
theorem iterate_convertAgain {t : ℤ} (h : NsTime t) (n : ℕ) :
    convertAgain^[n] (some t) = some t := by
  have hfixed : convertAgain (some t) = some t := h.toNsInt
  exact Function.iterate_fixed hfixed n

/-- A time that is not above the threshold is taken for seconds once more. -/
theorem convertAgain_eq_iff {t : ℤ} : convertAgain (some t) = some t ↔ NsTime t := by
  constructor
  · intro h
    by_contra hbelow
    have hlt := lt_of_toNsInt_of_le h (not_lt.mp hbelow)
    omega
  · exact fun h => iterate_convertAgain h 1

/-- Reading again changes nothing exactly above 10^5. -/
theorem toNsAgain_one_iff {raw : PyValue} {x : ℤ} (h : Spells raw x) (hpos : 0 < x) :
    toNsAgain 1 raw = toNs raw ↔ 10 ^ 5 < x := by
  obtain ⟨ns, hns, hread⟩ := h.exists_toNs hpos
  rw [← hread.nsTime_iff, ← convertAgain_eq_iff, ← hns]
  rfl

/-- After two conversions a value stays as it is. -/
theorem toNsAgain_succ {raw : PyValue} {x : ℤ} (h : Spells raw x) (hpos : 0 < x) (n : ℕ) :
    toNsAgain (n + 1) raw = toNsAgain 1 raw := by
  obtain ⟨ns, hns, hread⟩ := h.exists_toNs hpos
  obtain ⟨ns', hns', hread'⟩ := exists_toNsInt (hread.pos hpos)
  -- what has been read once is far enough from zero to stay
  have hfar : NsTime ns' := by
    rw [hread'.nsTime_iff]
    obtain ⟨hnanoseconds, hlower, -, -⟩ := hread
    omega
  have hone : convertAgain (toNs raw) = some ns' := by
    rw [hns]
    exact hns'
  show convertAgain^[n] (convertAgain (toNs raw)) = convertAgain (toNs raw)
  rw [hone]
  exact iterate_convertAgain hfar n

/-! ## Order -/

/-- Two numbers keep their order unless the smaller counts as seconds, the larger as
    nanoseconds, and the seconds come to more nanoseconds than that. -/
theorem toNs_le_iff {raw raw' : PyValue} {x y : ℤ} (h : Spells raw x) (h' : Spells raw' y)
    (hpos : 0 < x) (hle : x ≤ y) (hsame : x = y → raw.integerText = raw'.integerText) :
    ∃ ns ns', toNs raw = some ns ∧ toNs raw' = some ns' ∧
      (ns ≤ ns' ↔ ¬(x ≤ 10 ^ 14 ∧ 10 ^ 14 < y ∧ y < ns)) := by
  obtain ⟨ns, hns, hread⟩ := h.exists_toNs hpos
  obtain ⟨ns', hns', hread'⟩ := h'.exists_toNs (hpos.trans_le hle)
  refine ⟨ns, ns', hns, hns', ?_⟩
  obtain heq | hlt := hle.eq_or_lt
  · subst heq
    -- one number, read in one way
    have hread_eq : toNs raw = toNs raw' := by
      cases htext : raw.integerText with
      | true =>
        rw [h.toNs_integerText htext, h'.toNs_integerText ((hsame rfl).symm.trans htext)]
      | false =>
        rw [h.toNs_not_integerText htext hpos,
          h'.toNs_not_integerText ((hsame rfl).symm.trans htext) hpos]
    rw [hns, hns', Option.some.injEq] at hread_eq
    omega
  · obtain ⟨hnanoseconds, hlower, hupper, -⟩ := hread
    obtain ⟨hnanoseconds', hlower', hupper', -⟩ := hread'
    omega

/-! ## The interval helpers -/

/-- The intersections are those of every pair, in order. -/
theorem sumIntersections_eq {spans others : List (ℤ × ℤ)} (h : ∀ p ∈ spans, NsSpan p)
    (h' : ∀ q ∈ others, NsSpan q) :
    (sumIntersections spans others).2 =
      spans.flatMap fun p => others.filterMap fun q => clipSpan (some q.1) (some q.2) p := by
  unfold sumIntersections
  dsimp only
  apply List.flatMap_congr
  intro p hp
  rw [(h p hp).start.toNsInt, (h p hp).finish.toNsInt]
  dsimp only
  split
  · -- an interval that takes no time meets none
    next hempty =>
    symm
    rw [List.filterMap_eq_nil_iff]
    intro q _
    exact if_neg fun hq => not_lt.mpr hempty hq.1
  · next hlt =>
    apply List.filterMap_congr
    intro q hq
    rw [(h' q hq).start.toNsInt, (h' q hq).finish.toNsInt]
    show _ = if p.1 < p.2 ∧ max p.1 q.1 < min p.2 q.2 then _ else none
    dsimp only
    split
    · next hempty =>
      symm
      exact if_neg (by omega)
    · rw [not_le] at hlt
      simp only [hlt, true_and]
      rfl

/-- An interval of converted times is clipped as it stands when both times are above the
    threshold, and only then. -/
theorem clipInterval_self_iff {raw raw' : PyValue} {x y s e : ℤ} (h : Spells raw x)
    (h' : Spells raw' y) (hpos : 0 < x) (hpos' : 0 < y) (hs : toNs raw = some s)
    (he : toNs raw' = some e) (hlt : s < e) :
    clipInterval s e none none = some (s, e) ↔ 10 ^ 5 < x ∧ 10 ^ 5 < y := by
  obtain ⟨ns, hns, hread⟩ := h.exists_toNs hpos
  obtain ⟨ns', hns', hread'⟩ := h'.exists_toNs hpos'
  obtain rfl : s = ns := Option.some.inj (hs.symm.trans hns)
  obtain rfl : e = ns' := Option.some.inj (he.symm.trans hns')
  rw [← hread.nsTime_iff, ← hread'.nsTime_iff]
  constructor
  · -- clipping reads both times again; it gives them back when neither changes
    intro hclip
    unfold clipInterval at hclip
    split at hclip
    · next t u ht hu =>
      split at hclip
      · cases hclip
      · dsimp only at hclip
        split at hclip
        · cases hclip
        · cases hclip
          exact ⟨convertAgain_eq_iff.mp ht, convertAgain_eq_iff.mp hu⟩
    · cases hclip
  · intro hbounds
    exact clipInterval_none ⟨hbounds.1, hbounds.2⟩ hlt

/-! ## Stability -/

/-- A time that an earlier stage has converted from nanoseconds or from more than `1e5`
    seconds. -/
def Converted (t : ℤ) : Prop := ∃ raw x, Spells raw x ∧ 10 ^ 5 < x ∧ toNs raw = some t

/-- A converted time is one in nanoseconds. -/
theorem Converted.nsTime {t : ℤ} (h : Converted t) : NsTime t := by
  obtain ⟨raw, x, hspells, hfar, ht⟩ := h
  obtain ⟨ns, hns, hread⟩ := hspells.exists_toNs (by omega)
  obtain rfl : t = ns := Option.some.inj (ht.symm.trans hns)
  exact hread.nsTime_iff.mpr hfar

/-- An interval between converted times. -/
def ConvertedSpan (p : ℤ × ℤ) : Prop := Converted p.1 ∧ Converted p.2

/-- A converted interval is one of times in nanoseconds. -/
theorem ConvertedSpan.nsSpan {p : ℤ × ℤ} (h : ConvertedSpan p) : NsSpan p :=
  ⟨h.1.nsTime, h.2.nsTime⟩

/-- What the interval helpers make of some intervals, by the bounds as they stand. -/
structure TakenAsTheyStand (spans : List (ℤ × ℤ)) : Prop where
  clip : ∀ p ∈ spans, ∀ windowStartNs windowEndNs,
    clipInterval p.1 p.2 windowStartNs windowEndNs = clipSpan windowStartNs windowEndNs p
  sumClipped : ∀ windowStartNs windowEndNs mergeOverlaps,
    let clipped := spans.filterMap (clipSpan windowStartNs windowEndNs)
    let kept := if mergeOverlaps then mergeIntervals clipped else clipped
    sumClippedIntervalItems spans windowStartNs windowEndNs mergeOverlaps =
      (sumIntervalPairs kept, kept)
  uncovered : ∀ windowStartNs windowEndNs,
    uncoveredIntervalNs windowStartNs windowEndNs spans =
      max 0 (max 0 (windowEndNs - windowStartNs) - sumIntervalPairs (mergeIntervals
        (spans.filterMap (clipSpan (some windowStartNs) (some windowEndNs)))))
  intersections : ∀ others, (∀ q ∈ others, ConvertedSpan q) →
    let common := spans.flatMap fun p => others.filterMap fun q =>
      clipSpan (some q.1) (some q.2) p
    sumIntersections spans others = ((common.map fun p => p.2 - p.1).sum, common)

/-- Converted intervals are taken as they stand. -/
theorem takenAsTheyStand {spans : List (ℤ × ℤ)} (h : ∀ p ∈ spans, ConvertedSpan p) :
    TakenAsTheyStand spans := by
  -- converted times are in nanoseconds, and those are read as they stand
  have hspans : ∀ p ∈ spans, NsSpan p := fun p hp => (h p hp).nsSpan
  constructor
  · intro p hp windowStartNs windowEndNs
    exact clipInterval_eq_clipSpan (hspans p hp) ..
  · intro windowStartNs windowEndNs mergeOverlaps
    unfold sumClippedIntervalItems
    rw [clipAll_eq_clipSpan hspans]
  · intro windowStartNs windowEndNs
    unfold uncoveredIntervalNs
    rw [clipAll_eq_clipSpan hspans]
  · intro others hothers
    have hcommon := sumIntersections_eq hspans fun q hq => (hothers q hq).nsSpan
    dsimp only
    rw [← hcommon]
    rfl

/-- Converting a converted value again changes nothing if and only if it was above `1e5`.  Two
    values keep their order unless one counts as seconds and the other, which is greater, as fewer
    nanoseconds.  The interval helpers take the bounds that come from above `1e5`, and only those,
    as they stand. -/
theorem toNs_stable :
    (∀ raw x, Spells raw x → 0 < x →
      (toNsAgain 1 raw = toNs raw ↔ 10 ^ 5 < x) ∧
        ∀ n, toNsAgain (n + 1) raw = toNsAgain 1 raw) ∧
    (∀ raw raw' x y, Spells raw x → Spells raw' y → 0 < x → x ≤ y →
      (x = y → raw.integerText = raw'.integerText) →
      ∃ ns ns', toNs raw = some ns ∧ toNs raw' = some ns' ∧
        (ns ≤ ns' ↔ ¬(x ≤ 10 ^ 14 ∧ 10 ^ 14 < y ∧ y < ns))) ∧
    (∀ raw raw' x y s e, Spells raw x → Spells raw' y → 0 < x → 0 < y → toNs raw = some s →
      toNs raw' = some e → s < e →
      (clipInterval s e none none = some (s, e) ↔ 10 ^ 5 < x ∧ 10 ^ 5 < y)) ∧
    ∀ spans, (∀ p ∈ spans, ConvertedSpan p) → TakenAsTheyStand spans := by
  -- reading again, the order of two numbers, clipping, and the lists of intervals
  refine ⟨?_, ?_, ?_, ?_⟩
  · intro raw x h hpos
    exact ⟨toNsAgain_one_iff h hpos, toNsAgain_succ h hpos⟩
  · intro raw raw' x y h h' hpos hle hsame
    exact toNs_le_iff h h' hpos hle hsame
  · intro raw raw' x y s e h h' hpos hpos' hs he hlt
    exact clipInterval_self_iff h h' hpos hpos' hs he hlt
  · intro spans h
    exact takenAsTheyStand h

/-- Blanks around the digits do not matter. -/
theorem spells_blanks : Spells (.str " 1700000000 ") 1700000000 := by
  have hvalue : applySign (splitSign (strip " 1700000000 ").toList).1
      (natOfDigits (splitSign (strip " 1700000000 ").toList).2) = 1700000000 := by decide +kernel
  have hspells := Spells.digits " 1700000000 " (by decide +kernel)
  rwa [hvalue] at hspells

/-- Seconds since the epoch, as a text and as an integer. -/
theorem toNs_stable_usual :
    toNsAgain 1 (.str " 1700000000 ") = toNs (.str " 1700000000 ") ∧
      (∃ ns ns', toNs (.str " 1700000000 ") = some ns ∧ toNs (.int 1700000001) = some ns' ∧
        (ns ≤ ns' ↔ ¬((1700000000 : ℤ) ≤ 10 ^ 14 ∧ (10 : ℤ) ^ 14 < 1700000001 ∧
          1700000001 < ns))) ∧
      TakenAsTheyStand [(1700000000 * 10 ^ 9, 1700000001 * 10 ^ 9)] := by
  refine ⟨?_, ?_, ?_⟩
  · exact ((toNs_stable.1 _ _ spells_blanks (by decide)).1).mpr (by decide)
  · exact toNs_stable.2.1 _ _ _ _ spells_blanks (.int 1700000001) (by decide) (by decide)
      (by decide)
  · -- both ends of the interval come out of a conversion
    apply toNs_stable.2.2.2
    intro p hp
    rw [List.mem_singleton] at hp
    subst hp
    exact ⟨⟨.int 1700000000, _, .int _, by decide, by decide +kernel⟩,
      ⟨.int 1700000001, _, .int _, by decide, by decide +kernel⟩⟩

/-- One second is converted to nanoseconds that are then taken for seconds; `1e14` seconds come to
    more nanoseconds than `1e14 + 1` is; and `1e14` comes to more as a text with an exponent than
    as an integer. -/
theorem not_stable_seconds :
    (¬∀ raw x, Spells raw x → 0 < x → toNsAgain 1 raw = toNs raw) ∧
      (¬∀ x y, 0 < x → x < y →
        ∃ ns ns', toNs (.int x) = some ns ∧ toNs (.int y) = some ns' ∧ ns ≤ ns') ∧
      ¬∀ raw raw' x, Spells raw x → Spells raw' x → 0 < x →
        ∃ ns ns', toNs raw = some ns ∧ toNs raw' = some ns' ∧ ns ≤ ns' := by
  -- the greatest number that is read as seconds, rounded to a double
  have hint : toNs (.int (10 ^ 14)) = some 99999999999999991611392 := by decide +kernel
  refine ⟨?_, ?_, ?_⟩
  · intro h
    exact absurd (h (.int 1) 1 (.int 1) (by decide)) (by decide +kernel)
  · intro h
    obtain ⟨ns, ns', hns, hns', hle⟩ := h (10 ^ 14) (10 ^ 14 + 1) (by decide) (by decide)
    have hnanoseconds : toNs (.int (10 ^ 14 + 1)) = some (10 ^ 14 + 1) := by decide +kernel
    rw [hint, Option.some.injEq] at hns
    rw [hnanoseconds, Option.some.injEq] at hns'
    omega
  · intro h
    -- the same number as a decimal is not rounded
    have hspells : Spells (.str "1e14") (10 ^ 14) :=
      .decimal "1e14" 1 14 (10 ^ 14) (by decide +kernel) (by decide +kernel) (by norm_num)
    obtain ⟨ns, ns', hns, hns', hle⟩ := h _ _ _ hspells (.int (10 ^ 14)) (by decide)
    have hdecimal : toNs (.str "1e14") = some (10 ^ 23) := by decide +kernel
    rw [hdecimal, Option.some.injEq] at hns
    rw [hint, Option.some.injEq] at hns'
    omega

end DeLatency
