import PagedCache.Decimal.Shortest
import PagedCache.Proofs.Binary64

/-!
# Shortest decimals tell doubles apart

The shortest decimal of a double reads back as that double.  What a decimal reads back
as depends on its value only, so two doubles with shortest decimals of the same value
are the same double.
-/

namespace PagedCache.Decimal

open Binary64

namespace Scientific

/-- The exact value. -/
def value (decimal : Scientific) : ℚ :=
  decimal.coefficient * 10 ^ decimal.exponent

theorem value_eq_div (decimal : Scientific) :
    decimal.value = (decimal.ratio.1 : ℚ) / decimal.ratio.2 := by
  rw [value, zpow_eq_div (by norm_num), ratio]
  push_cast
  rw [mul_div_assoc]

theorem ratio_snd_pos (decimal : Scientific) : 0 < decimal.ratio.2 :=
  Nat.pow_pos (by decide)

theorem value_eq_zero_iff {decimal : Scientific} :
    decimal.value = 0 ↔ decimal.coefficient = 0 := by
  have hpower : (10 : ℚ) ^ decimal.exponent ≠ 0 := zpow_ne_zero _ (by norm_num)
  rw [value, mul_eq_zero, or_iff_left hpower, Nat.cast_eq_zero]

/-- A power of ten in the coefficient is a power of ten. -/
theorem value_mul_pow (coefficient count : Nat) (exponent : Int) :
    value ⟨coefficient * 10 ^ count, exponent⟩ = value ⟨coefficient, exponent + count⟩ := by
  simp only [value]
  push_cast
  rw [zpow_add₀ (by norm_num), zpow_natCast]
  ring

theorem toBinary64_eq_nearest {decimal : Scientific} {numerator denominator : Nat}
    (hdenominator : 0 < denominator)
    (hvalue : decimal.value = (numerator : ℚ) / denominator) :
    decimal.toBinary64 = nearest numerator denominator := by
  have hleft : (decimal.ratio.2 : ℚ) ≠ 0 := Nat.cast_ne_zero.mpr decimal.ratio_snd_pos.ne'
  have hright : (denominator : ℚ) ≠ 0 := Nat.cast_ne_zero.mpr hdenominator.ne'
  rw [value_eq_div, div_eq_div_iff hleft hright] at hvalue
  exact nearest_eq_of_mul_eq decimal.ratio_snd_pos hdenominator (by exact_mod_cast hvalue)

theorem toBinary64_eq_of_value_eq {left right : Scientific}
    (hvalue : left.value = right.value) : left.toBinary64 = right.toBinary64 :=
  toBinary64_eq_nearest right.ratio_snd_pos (hvalue.trans right.value_eq_div)

theorem value_trim (fuel : Nat) (decimal : Scientific) :
    (trim fuel decimal).value = decimal.value := by
  induction fuel generalizing decimal with
  | zero => rfl
  | succ fuel ih =>
      rw [trim]
      split
      · rename_i htrailing
        rw [ih]
        have hshift := value_mul_pow (decimal.coefficient / 10) 1 decimal.exponent
        rw [pow_one, Nat.div_mul_cancel (Nat.dvd_of_mod_eq_zero htrailing.2)] at hshift
        exact hshift.symm
      · rfl

theorem value_normalize (decimal : Scientific) : decimal.normalize.value = decimal.value :=
  value_trim _ decimal

end Scientific

theorem value_exact (magnitude : Nat) :
    (exact magnitude).value =
      ((Binary64.ratio magnitude).1 : ℚ) / (Binary64.ratio magnitude).2 := by
  have hpower : min (exponent magnitude) 0 = -((-exponent magnitude).toNat : Int) := by omega
  have hten : (10 : ℚ) ^ (-exponent magnitude).toNat =
      5 ^ (-exponent magnitude).toNat * 2 ^ (-exponent magnitude).toNat := by
    rw [← mul_pow]
    norm_num
  simp only [exact, Scientific.value, Binary64.ratio, scaled]
  rw [hpower, zpow_neg, zpow_natCast, hten]
  push_cast
  field_simp

/-- **Shortest decimals read back.** -/
theorem toBinary64_shortest {magnitude : Nat} (hmagnitude : magnitude ≤ infinity) :
    (shortest magnitude).toBinary64 = magnitude := by
  rw [shortest, Scientific.toBinary64_eq_of_value_eq (Scientific.value_normalize _)]
  cases hfound : (candidates magnitude).find? fun decimal => decimal.toBinary64 == magnitude with
  | some decimal => simpa using List.find?_some hfound
  | none =>
      have hexact := Scientific.toBinary64_eq_nearest (Nat.two_pow_pos _)
        (value_exact magnitude)
      exact hexact.trans (nearest_ratio hmagnitude)

/-! ## Patterns above infinity -/

/-- No decimal reads back as a pattern above infinity. -/
theorem value_shortest_of_infinity_lt {magnitude : Nat} (hmagnitude : infinity < magnitude) :
    (shortest magnitude).value = (exact magnitude).value := by
  have hnone : (candidates magnitude).find?
      (fun decimal => decimal.toBinary64 == magnitude) = none := by
    rw [List.find?_eq_none]
    intro decimal _ hread
    have hbound : decimal.toBinary64 ≤ infinity := nearest_le_infinity _ _
    rw [beq_iff_eq] at hread
    omega
  rw [shortest, Scientific.value_normalize, hnone, Option.getD_none]

/-- The significand of a pattern above infinity, which tells it from the others. -/
theorem ratio_of_infinity_lt {magnitude : Nat} (hlower : infinity < magnitude)
    (hupper : magnitude < signWeight) :
    Binary64.ratio magnitude = scaled (magnitude % 2 ^ 52 + 2 ^ 52) 972 := by
  have hinfinity : infinity = 2047 * 2 ^ 52 := rfl
  have hweight : signWeight = 2048 * 2 ^ 52 := rfl
  have hlarge : ¬magnitude < 2 ^ 52 := by omega
  have hexponent : ((magnitude / 2 ^ 52 : Nat) : Int) - 1075 = 972 := by omega
  rw [Binary64.ratio, significand, exponent, if_neg hlarge, if_neg hlarge, hexponent]

theorem value_shortest_eq_of_infinity_lt {magnitude : Nat} (hlower : infinity < magnitude)
    (hupper : magnitude < signWeight) :
    (shortest magnitude).value =
      (magnitude % 2 ^ 52 + 2 ^ 52 : Nat) * (2 : ℚ) ^ (972 : Int) := by
  rw [value_shortest_of_infinity_lt hlower, value_exact,
    ratio_of_infinity_lt hlower hupper, scaled_quotient]

/-- Powers of ten hold few powers of two. -/
theorem two_mul_ten_pow_ne (value : Nat) {tens twos : Nat} (htwos : tens + 1 < twos) :
    ((2 : Nat) : ℚ) * 10 ^ tens ≠ value * 2 ^ twos := by
  intro hvalue
  have hsame : 2 * 10 ^ tens = value * 2 ^ twos := by exact_mod_cast hvalue
  obtain ⟨more, rfl⟩ : ∃ more, twos = tens + 1 + (more + 1) := ⟨twos - tens - 2, by omega⟩
  have hten : 2 * 10 ^ tens = 5 ^ tens * 2 ^ (tens + 1) := by
    rw [pow_succ, ← mul_assoc, ← mul_pow]
    exact mul_comm _ _
  have htwo : value * 2 ^ (tens + 1 + (more + 1)) =
      value * 2 ^ more * 2 * 2 ^ (tens + 1) := by
    rw [pow_add, pow_succ 2 more]
    ring
  rw [hten, htwo] at hsame
  have hfive := Nat.eq_of_mul_eq_mul_right (Nat.two_pow_pos _) hsame
  have hodd : 5 ^ tens % 2 = 1 := by
    rw [Nat.pow_mod]
    simp
  omega

/-- The decimal of infinity is not that of a pattern above. -/
theorem value_shortest_infinity_ne {magnitude : Nat} (hlower : infinity < magnitude)
    (hupper : magnitude < signWeight) :
    (shortest infinity).value ≠ (shortest magnitude).value := by
  have hshortest : shortest infinity = ⟨2, (308 : Nat)⟩ := by decide +kernel
  have hpower : (972 : Int) = (972 : Nat) := rfl
  rw [hshortest, value_shortest_eq_of_infinity_lt hlower hupper, Scientific.value, hpower,
    zpow_natCast, zpow_natCast]
  exact two_mul_ten_pow_ne (magnitude % 2 ^ 52 + 2 ^ 52) (by decide : 308 + 1 < 972)

theorem magnitude_le_infinity_of_value_eq {left right : Nat} (hleft : left ≤ infinity)
    (hright : right < signWeight)
    (hvalue : (shortest left).value = (shortest right).value) : right ≤ infinity := by
  by_contra hlarge
  rw [not_le] at hlarge
  have hread : (shortest right).toBinary64 = infinity := by
    have hbound : right % 2 ^ 52 + 2 ^ 52 < 2 ^ 53 := by omega
    have hexact := (value_shortest_of_infinity_lt hlarge).trans (value_exact right)
    have hnearest := nearest_scaled (Nat.add_pos_right _ (by decide)) hbound
      (by decide : -1074 ≤ (972 : Int)) (.inl (Nat.le_add_left _ _))
    have hinfinity : infinity = 2047 * 2 ^ 52 := rfl
    have hpower : ((972 : Int) + 1074).toNat = 2046 := rfl
    rw [← ratio_of_infinity_lt hlarge hright] at hnearest
    rw [Scientific.toBinary64_eq_nearest (Nat.two_pow_pos _) hexact]
    refine hnearest.trans ?_
    omega
  have hinfinite : left = infinity := by
    rw [← toBinary64_shortest hleft, Scientific.toBinary64_eq_of_value_eq hvalue, hread]
  exact value_shortest_infinity_ne hlarge hright (hinfinite ▸ hvalue)

/-- **Doubles with shortest decimals of the same value are the same.** -/
theorem magnitude_eq_of_value_eq {left right : Nat} (hleft : left < signWeight)
    (hright : right < signWeight)
    (hvalue : (shortest left).value = (shortest right).value) : left = right := by
  by_cases hfinite : left ≤ infinity
  · have hother := magnitude_le_infinity_of_value_eq hfinite hright hvalue
    rw [← toBinary64_shortest hfinite, ← toBinary64_shortest hother]
    exact Scientific.toBinary64_eq_of_value_eq hvalue
  · have hother : ¬right ≤ infinity := fun hother =>
      hfinite (magnitude_le_infinity_of_value_eq hother hleft hvalue.symm)
    rw [not_le] at hfinite hother
    have hpower : (2 : ℚ) ^ (972 : Int) ≠ 0 := zpow_ne_zero _ two_ne_zero
    rw [value_shortest_eq_of_infinity_lt hfinite hleft,
      value_shortest_eq_of_infinity_lt hother hright, mul_left_inj' hpower,
      Nat.cast_inj] at hvalue
    have hinfinity : infinity = 2047 * 2 ^ 52 := rfl
    have hweight : signWeight = 2048 * 2 ^ 52 := rfl
    omega

theorem value_shortest_zero : (shortest 0).value = 0 :=
  Scientific.value_eq_zero_iff.mpr (by decide +kernel)

theorem coefficient_shortest_ne_zero {magnitude : Nat} (hmagnitude : magnitude ≠ 0)
    (hbound : magnitude < signWeight) : (shortest magnitude).coefficient ≠ 0 := by
  intro hzero
  have hvalue : (shortest magnitude).value = (shortest 0).value := by
    rw [Scientific.value_eq_zero_iff.mpr hzero, value_shortest_zero]
  exact hmagnitude (magnitude_eq_of_value_eq hbound (by decide) hvalue)

end PagedCache.Decimal
