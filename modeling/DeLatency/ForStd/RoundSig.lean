import Mathlib.Algebra.Order.Ring.Nat
import Mathlib.Data.Nat.Log
import Mathlib.Tactic.Set

/-!
# Rounding to significant digits

`roundSig b p n` rounds a natural number to `p` significant base-`b` digits,
ties to even: with `b = 2` and `p = 53` this is the rounding of an exact product
to a double, with `b = 10` and `p = 28` the rounding of a decimal context.
-/

/-- `n` rounded half-even to `p` significant base-`b` digits. -/
def roundSig (b p n : ℕ) : ℕ :=
  let digits := Nat.log b n + 1
  if digits ≤ p then n
  else
    let unit := b ^ (digits - p)
    let q := n / unit
    let r := n % unit
    if unit < 2 * r ∨ (2 * r = unit ∧ q % 2 = 1) then (q + 1) * unit else q * unit

/-- Rounding moves a number by at most half a unit of its last digit. -/
theorem roundSig_near {b : ℕ} (hb : 1 < b) (p n : ℕ) :
    2 * n ≤ 2 * roundSig b p n + b ^ (Nat.log b n + 1 - p) ∧
      2 * roundSig b p n ≤ 2 * n + b ^ (Nat.log b n + 1 - p) := by
  unfold roundSig
  simp only
  split
  · omega
  · -- rounded down or up to a multiple of the unit, whichever is nearer
    set unit := b ^ (Nat.log b n + 1 - p)
    have hdiv : n / unit * unit + n % unit = n := Nat.div_add_mod' n unit
    have hmod : n % unit < unit := Nat.mod_lt n (Nat.pow_pos (by omega))
    have hsucc : (n / unit + 1) * unit = n / unit * unit + unit := Nat.succ_mul _ _
    split
    · omega
    · omega

/-- Rounding a number of at most `m` digits. -/
theorem roundSig_near_of_lt {b p m n : ℕ} (hb : 1 < b) (hp : 0 < p) (hn : n < b ^ m) :
    2 * n ≤ 2 * roundSig b p n + b ^ (m - p) ∧ 2 * roundSig b p n ≤ 2 * n + b ^ (m - p) := by
  obtain ⟨hlower, hupper⟩ := roundSig_near hb p n
  -- a number below `b ^ m` has at most `m` digits
  have hdigits : Nat.log b n + 1 - p ≤ m - p := by
    obtain rfl | hpos := Nat.eq_zero_or_pos n
    · rw [Nat.log_zero_right]
      omega
    · have hlog := Nat.log_lt_of_lt_pow hpos.ne' hn
      omega
  -- so the unit of the last kept digit is at most this
  have hunit : b ^ (Nat.log b n + 1 - p) ≤ b ^ (m - p) := Nat.pow_le_pow_right (by omega) hdigits
  omega

/-- Rounding loses less than half of a number. -/
theorem le_two_mul_roundSig {b p n : ℕ} (hb : 1 < b) (hp : 0 < p) : n ≤ 2 * roundSig b p n := by
  obtain rfl | hn := Nat.eq_zero_or_pos n
  · omega
  · -- the leading digit survives
    have hunit : b ^ (Nat.log b n + 1 - p) ≤ n :=
      (Nat.pow_le_pow_right hb.le (by omega)).trans (Nat.pow_log_le_self b hn.ne')
    have hnear := (roundSig_near hb p n).1
    omega

/-- A number that has at most `p` digits but for zeros at its end stays as it is. -/
theorem roundSig_mul_pow {b p q : ℕ} (hb : 1 < b) (hp : 0 < p) (hq : q < b ^ p) (k : ℕ) :
    roundSig b p (q * b ^ k) = q * b ^ k := by
  unfold roundSig
  simp only
  split
  · rfl
  · next hdigits =>
    have hne : q * b ^ k ≠ 0 := by
      intro hzero
      rw [hzero, Nat.log_zero_right] at hdigits
      omega
    have hlt : q * b ^ k < b ^ (p + k) := by
      rw [Nat.pow_add]
      exact Nat.mul_lt_mul_of_pos_right hq (Nat.pow_pos (by omega))
    have hlog := Nat.log_lt_of_lt_pow hne hlt
    -- the unit of the last digit divides the zeros
    have hdvd : b ^ (Nat.log b (q * b ^ k) + 1 - p) ∣ q * b ^ k :=
      (pow_dvd_pow b (by omega)).trans (Nat.dvd_mul_left (b ^ k) q)
    rw [Nat.mod_eq_zero_of_dvd hdvd, if_neg, Nat.div_mul_cancel hdvd]
    have hunit : 0 < b ^ (Nat.log b (q * b ^ k) + 1 - p) := Nat.pow_pos (by omega)
    omega
