import PagedCache.Binary64
import PagedCache.Decimal.Digits

/-!
# Shortest decimals

The decimal with the fewest digits that reads back as a given double, and of
those the nearest to the double.  Reading back is rounding to the nearest
double, so a decimal is accepted exactly when it lies in the interval that
rounds to the double.
-/

namespace PagedCache.Decimal

-- Powers are those of the core library, whatever else is loaded.
attribute [local instance (high)] instPowNat

/-- The decimal `coefficient * 10 ^ exponent`. -/
structure Scientific where
  coefficient : Nat
  exponent : Int
  deriving DecidableEq, Repr

namespace Scientific

/-- The value as a numerator and a denominator. -/
def ratio (decimal : Scientific) : Nat × Nat :=
  (decimal.coefficient * 10 ^ decimal.exponent.toNat, 10 ^ (-decimal.exponent).toNat)

/-- The double nearest to the decimal. -/
def toBinary64 (decimal : Scientific) : Nat :=
  Binary64.nearest decimal.ratio.1 decimal.ratio.2

/-- Move trailing zeros of the coefficient into the exponent, at most `fuel` of
them. -/
def trim : Nat → Scientific → Scientific
  | 0, decimal => decimal
  | fuel + 1, decimal =>
    if decimal.coefficient ≠ 0 ∧ decimal.coefficient % 10 = 0 then
      trim fuel ⟨decimal.coefficient / 10, decimal.exponent + 1⟩
    else decimal

/-- Without trailing zeros. -/
def normalize (decimal : Scientific) : Scientific :=
  trim (width decimal.coefficient) decimal

end Scientific

/-- The two neighbours of `numerator / denominator` among the multiples of
`10 ^ exponent`, the nearer one first; of two equally near ones the even one. -/
def neighbours (numerator denominator : Nat) (exponent : Int) : List Scientific :=
  let scaledNumerator := numerator * 10 ^ (-exponent).toNat
  let scaledDenominator := denominator * 10 ^ exponent.toNat
  let below := scaledNumerator / scaledDenominator
  let near := roundHalfEven scaledNumerator scaledDenominator
  let far := if near = below then below + 1 else below
  [⟨near, exponent⟩, ⟨far, exponent⟩]

/-- Candidates for the text of a positive finite magnitude: for one, two, and up
to seventeen digits, the neighbours of its value. -/
def candidates (magnitude : Nat) : List Scientific :=
  let (numerator, denominator) := Binary64.ratio magnitude
  let top := powerAbove numerator denominator
  (List.range 17).flatMap fun fewer =>
    neighbours numerator denominator (top - (fewer + 1 : Nat))

/-- The exact value of a magnitude, written with powers of ten only. -/
def exact (magnitude : Nat) : Scientific :=
  let significand := Binary64.significand magnitude
  let power := Binary64.exponent magnitude
  ⟨significand * 2 ^ power.toNat * 5 ^ (-power).toNat, min power 0⟩

/-- The first candidate that reads back. -/
def shortest (magnitude : Nat) : Scientific :=
  (((candidates magnitude).find? fun decimal => decimal.toBinary64 == magnitude).getD
    (exact magnitude)).normalize

end PagedCache.Decimal
