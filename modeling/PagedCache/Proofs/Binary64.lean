import PagedCache.Binary64
import Mathlib.Algebra.Order.Field.Power
import Mathlib.Data.Int.Log
import Mathlib.Data.Rat.Floor
import Mathlib.Tactic.FieldSimp

/-!
# Rounding to doubles

The double nearest to a quotient depends on the quotient only, and a double is the one
nearest to its own value.
-/

namespace PagedCache

namespace Decimal

theorem roundHalfEven_mul_mul_right (numerator denominator : Nat) {factor : Nat}
    (hfactor : 0 < factor) :
    roundHalfEven (numerator * factor) (denominator * factor) =
      roundHalfEven numerator denominator := by
  simp only [roundHalfEven, Nat.mul_div_mul_right numerator denominator hfactor,
    Nat.mul_mod_mul_right, ← mul_assoc, Nat.mul_lt_mul_right hfactor]

theorem roundHalfEven_mul_self (value : Nat) {factor : Nat} (hfactor : 0 < factor) :
    roundHalfEven (value * factor) factor = value := by
  simp only [roundHalfEven, Nat.mul_mod_left, Nat.mul_div_left value hfactor, mul_zero,
    if_pos hfactor]

end Decimal

namespace Binary64

/-! ## Logarithms -/

/-- A power as a quotient of natural powers. -/
theorem zpow_eq_div {base : ℚ} (hbase : base ≠ 0) (power : Int) :
    base ^ power = base ^ power.toNat / base ^ (-power).toNat := by
  have hpower : power = (power.toNat : Int) - ((-power).toNat : Int) :=
    (Int.toNat_sub_toNat_neg power).symm
  conv_lhs => rw [hpower, zpow_sub₀ hbase, zpow_natCast, zpow_natCast]

/-- Comparing a quotient with a power of two is comparing products. -/
theorem div_lt_zpow_iff {numerator denominator : Nat} (hdenominator : 0 < denominator)
    (power : Int) :
    (numerator : ℚ) / denominator < (2 : ℚ) ^ power ↔
      numerator * 2 ^ (-power).toNat < denominator * 2 ^ power.toNat := by
  have hpositive : (0 : ℚ) < denominator := Nat.cast_pos.mpr hdenominator
  rw [zpow_eq_div two_ne_zero, div_lt_div_iff₀ hpositive (by positivity),
    mul_comm ((2 : ℚ) ^ power.toNat)]
  exact_mod_cast Iff.rfl

/-- `binaryLog` is the logarithm of the quotient. -/
theorem binaryLog_eq_log {numerator denominator : Nat} (hnumerator : 0 < numerator)
    (hdenominator : 0 < denominator) :
    binaryLog numerator denominator = Int.log 2 ((numerator : ℚ) / denominator) := by
  have hpositive : (0 : ℚ) < denominator := Nat.cast_pos.mpr hdenominator
  have hquotient : (0 : ℚ) < (numerator : ℚ) / denominator := by positivity
  let estimate : Int := (Nat.log2 numerator : Int) - (Nat.log2 denominator : Int)
  have hlower : estimate - 1 ≤ Int.log 2 ((numerator : ℚ) / denominator) := by
    rw [← Int.zpow_le_iff_le_log (by decide) hquotient, le_div_iff₀ hpositive,
      Nat.cast_ofNat]
    calc (2 : ℚ) ^ (estimate - 1) * denominator
        ≤ (2 : ℚ) ^ (estimate - 1) * 2 ^ (Nat.log2 denominator + 1) := by
          gcongr
          exact_mod_cast Nat.lt_log2_self.le
      _ = (2 : ℚ) ^ Nat.log2 numerator := by
          rw [← zpow_natCast, ← zpow_natCast, ← zpow_add₀ two_ne_zero]
          congr 1
          push_cast
          omega
      _ ≤ numerator := by exact_mod_cast Nat.log2_self_le hnumerator.ne'
  have hupper : Int.log 2 ((numerator : ℚ) / denominator) < estimate + 1 := by
    rw [← Int.lt_zpow_iff_log_lt (by decide) hquotient, div_lt_iff₀ hpositive,
      Nat.cast_ofNat]
    calc (numerator : ℚ)
        < 2 ^ (Nat.log2 numerator + 1) := by exact_mod_cast Nat.lt_log2_self
      _ = (2 : ℚ) ^ (estimate + 1) * 2 ^ Nat.log2 denominator := by
          rw [← zpow_natCast, ← zpow_natCast, ← zpow_add₀ two_ne_zero]
          congr 1
          push_cast
          omega
      _ ≤ (2 : ℚ) ^ (estimate + 1) * denominator := by
          gcongr
          exact_mod_cast Nat.log2_self_le hdenominator.ne'
  have hcompare : Int.log 2 ((numerator : ℚ) / denominator) < estimate ↔
      numerator * 2 ^ (-estimate).toNat < denominator * 2 ^ estimate.toNat := by
    rw [← Int.lt_zpow_iff_log_lt (by decide) hquotient, ← div_lt_zpow_iff hdenominator]
    rfl
  change (if numerator * 2 ^ (-estimate).toNat < denominator * 2 ^ estimate.toNat then
    estimate - 1 else estimate) = _
  split <;> omega

/-! ## The nearest double -/

theorem nearest_mul_mul_right (numerator : Nat) {denominator factor : Nat}
    (hdenominator : 0 < denominator) (hfactor : 0 < factor) :
    nearest (numerator * factor) (denominator * factor) =
      nearest numerator denominator := by
  obtain rfl | hnumerator := Nat.eq_zero_or_pos numerator
  · simp only [nearest, Nat.zero_mul, if_true]
  · have hscaled : 0 < numerator * factor := Nat.mul_pos hnumerator hfactor
    have hlog : binaryLog (numerator * factor) (denominator * factor) =
        binaryLog numerator denominator := by
      have hcancel : (factor : ℚ) ≠ 0 := Nat.cast_ne_zero.mpr hfactor.ne'
      rw [binaryLog_eq_log hscaled (Nat.mul_pos hdenominator hfactor),
        binaryLog_eq_log hnumerator hdenominator]
      push_cast
      rw [mul_div_mul_right _ _ hcancel]
    simp only [nearest, hlog, if_neg hscaled.ne', if_neg hnumerator.ne',
      mul_right_comm _ factor, Decimal.roundHalfEven_mul_mul_right _ _ hfactor]

/-- **The nearest double depends on the quotient only.** -/
theorem nearest_eq_of_mul_eq {numerator denominator otherNumerator otherDenominator : Nat}
    (hdenominator : 0 < denominator) (hother : 0 < otherDenominator)
    (hsame : numerator * otherDenominator = otherNumerator * denominator) :
    nearest numerator denominator = nearest otherNumerator otherDenominator :=
  calc nearest numerator denominator
      = nearest (numerator * otherDenominator) (denominator * otherDenominator) :=
        (nearest_mul_mul_right numerator hdenominator hother).symm
    _ = nearest (otherNumerator * denominator) (otherDenominator * denominator) := by
        rw [hsame, mul_comm denominator]
    _ = nearest otherNumerator otherDenominator :=
        nearest_mul_mul_right otherNumerator hother hdenominator

theorem nearest_le_infinity (numerator denominator : Nat) :
    nearest numerator denominator ≤ infinity := by
  unfold nearest
  split
  · exact Nat.zero_le _
  · exact min_le_right _ _

theorem scaled_quotient (value : Nat) (power : Int) :
    ((scaled value power).1 : ℚ) / (scaled value power).2 = value * (2 : ℚ) ^ power := by
  rw [zpow_eq_div two_ne_zero, scaled]
  push_cast
  rw [mul_div_assoc]

theorem log_scaled_lt {value bits : Nat} (power : Int) (hvalue : 0 < value)
    (hbound : value < 2 ^ bits) :
    Int.log 2 (value * (2 : ℚ) ^ power) < power + bits := by
  have hpositive : (0 : ℚ) < value := Nat.cast_pos.mpr hvalue
  rw [← Int.lt_zpow_iff_log_lt (by decide) (by positivity), Nat.cast_ofNat]
  calc (value : ℚ) * (2 : ℚ) ^ power
      < 2 ^ bits * (2 : ℚ) ^ power := by
        gcongr
        exact_mod_cast hbound
    _ = (2 : ℚ) ^ (power + bits) := by
        rw [zpow_add₀ two_ne_zero, zpow_natCast, mul_comm]

theorem le_log_scaled {value bits : Nat} (power : Int) (hvalue : 2 ^ bits ≤ value) :
    power + bits ≤ Int.log 2 (value * (2 : ℚ) ^ power) := by
  have hpositive : (0 : ℚ) < value :=
    Nat.cast_pos.mpr ((Nat.two_pow_pos bits).trans_le hvalue)
  rw [← Int.zpow_le_iff_le_log (by decide) (by positivity), Nat.cast_ofNat]
  calc (2 : ℚ) ^ (power + bits)
      = 2 ^ bits * (2 : ℚ) ^ power := by
        rw [zpow_add₀ two_ne_zero, zpow_natCast, mul_comm]
    _ ≤ value * (2 : ℚ) ^ power := by
        gcongr
        exact_mod_cast hvalue

/-- A significand of 53 bits is kept, unless one of fewer bits could have a smaller
exponent. -/
theorem nearest_scaled {value : Nat} {power : Int} (hvalue : 0 < value)
    (hbound : value < 2 ^ 53) (hpower : -1074 ≤ power)
    (hleading : 2 ^ 52 ≤ value ∨ power = -1074) :
    nearest (scaled value power).1 (scaled value power).2 =
      min ((power + 1074).toNat * 2 ^ 52 + value) infinity := by
  have hnumerator : 0 < (scaled value power).1 := Nat.mul_pos hvalue (Nat.two_pow_pos _)
  have hdenominator : 0 < (scaled value power).2 := Nat.two_pow_pos _
  have hupper := log_scaled_lt power hvalue hbound
  have hlower : 2 ^ 52 ≤ value → power + 52 ≤ Int.log 2 (value * (2 : ℚ) ^ power) :=
    le_log_scaled power
  have hexponent : max (binaryLog (scaled value power).1 (scaled value power).2 - 52)
      (-1074) = power := by
    rw [binaryLog_eq_log hnumerator hdenominator, scaled_quotient]
    omega
  have hrounded : Decimal.roundHalfEven
      ((scaled value power).1 * 2 ^ (-power).toNat)
      ((scaled value power).2 * 2 ^ power.toNat) = value := by
    have hswap : (scaled value power).1 * 2 ^ (-power).toNat =
        value * ((scaled value power).2 * 2 ^ power.toNat) := by
      simp only [scaled]
      ring
    rw [hswap]
    exact Decimal.roundHalfEven_mul_self value (Nat.mul_pos hdenominator (Nat.two_pow_pos _))
  simp only [nearest, if_neg hnumerator.ne', hexponent, hrounded]

/-- **A double is the nearest one to its value.** -/
theorem nearest_ratio {magnitude : Nat} (hmagnitude : magnitude ≤ infinity) :
    nearest (ratio magnitude).1 (ratio magnitude).2 = magnitude := by
  have hinfinity : infinity = 2047 * 2 ^ 52 := rfl
  obtain rfl | hpositive := Nat.eq_zero_or_pos magnitude
  · rfl
  · by_cases hsmall : magnitude < 2 ^ 52
    · have hbound : magnitude < 2 ^ 53 := by omega
      have hnearest := nearest_scaled hpositive hbound le_rfl (.inr rfl)
      rw [ratio, significand, exponent, if_pos hsmall, if_pos hsmall, hnearest]
      omega
    · have hbound : magnitude % 2 ^ 52 + 2 ^ 52 < 2 ^ 53 := by omega
      have hpower : -1074 ≤ ((magnitude / 2 ^ 52 : Nat) : Int) - 1075 := by omega
      have hnearest := nearest_scaled (Nat.add_pos_right _ (by decide)) hbound hpower
        (.inl (Nat.le_add_left _ _))
      rw [ratio, significand, exponent, if_neg hsmall, if_neg hsmall, hnearest]
      omega

end Binary64

end PagedCache
