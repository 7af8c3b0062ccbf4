import PagedCache.Decimal.Rounding

/-!
# Binary64 magnitudes

A nonnegative IEEE 754 double is kept as the natural number that its bits
without the sign spell.  Every finite magnitude is an exact quotient of natural
numbers, so arithmetic is exact arithmetic followed by one rounding.
-/

namespace PagedCache.Binary64

-- Powers are those of the core library, whatever else is loaded.
attribute [local instance (high)] instPowNat

/-- The magnitude of infinity; every finite magnitude is below it. -/
def infinity : Nat := 2047 * 2 ^ (52 : Nat)

/-- The weight of the sign among the bits of a double. -/
def signWeight : Nat := 2 ^ (63 : Nat)

/-- The significand, an integer below `2 ^ 53`. -/
def significand (magnitude : Nat) : Nat :=
  if magnitude < 2 ^ (52 : Nat) then magnitude else magnitude % 2 ^ (52 : Nat) + 2 ^ (52 : Nat)

/-- The power of two that the significand is scaled by. -/
def exponent (magnitude : Nat) : Int :=
  if magnitude < 2 ^ (52 : Nat) then -1074 else (magnitude / 2 ^ (52 : Nat) : Nat) - 1075

/-- `value * 2 ^ power` as a numerator and a denominator. -/
def scaled (value : Nat) (power : Int) : Nat × Nat :=
  (value * 2 ^ power.toNat, 2 ^ (-power).toNat)

/-- The exact value of a finite magnitude as a numerator and a denominator. -/
def ratio (magnitude : Nat) : Nat × Nat :=
  scaled (significand magnitude) (exponent magnitude)

/-- The largest `power` with `2 ^ power ≤ numerator / denominator`, for a
positive quotient. -/
def binaryLog (numerator denominator : Nat) : Int :=
  let estimate : Int := (Nat.log2 numerator : Int) - (Nat.log2 denominator : Int)
  if numerator * 2 ^ (-estimate).toNat < denominator * 2 ^ estimate.toNat then estimate - 1
  else estimate

/-- The magnitude nearest to `numerator / denominator`, ties going to the even
significand; `infinity` when the quotient is too large. -/
def nearest (numerator denominator : Nat) : Nat :=
  if numerator = 0 then 0
  else
    let power := max (binaryLog numerator denominator - 52) (-1074)
    let rounded := Decimal.roundHalfEven
      (numerator * 2 ^ (-power).toNat) (denominator * 2 ^ power.toNat)
    min ((power + 1074).toNat * 2 ^ (52 : Nat) + rounded) infinity

/-- The rounded product. -/
def multiply (left right : Nat) : Nat :=
  nearest ((ratio left).1 * (ratio right).1) ((ratio left).2 * (ratio right).2)

/-- The rounded quotient. -/
def divide (left right : Nat) : Nat :=
  nearest ((ratio left).1 * (ratio right).2) ((ratio left).2 * (ratio right).1)

/-- The magnitude nearest to a natural number. -/
def ofNat (value : Nat) : Nat :=
  nearest value 1

end PagedCache.Binary64
