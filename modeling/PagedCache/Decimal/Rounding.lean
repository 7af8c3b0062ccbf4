/-!
# Rounding a quotient

The nearest natural number to a quotient of natural numbers, with an exact
half going to the even neighbour.
-/

namespace PagedCache.Decimal

-- Powers are those of the core library, whatever else is loaded.
attribute [local instance (high)] instPowNat

/-- The natural number nearest to `numerator / denominator`; a tie goes to the
even neighbour. -/
def roundHalfEven (numerator denominator : Nat) : Nat :=
  let quotient := numerator / denominator
  let doubled := 2 * (numerator % denominator)
  if doubled < denominator then quotient
  else if denominator < doubled then quotient + 1
  else if quotient % 2 = 0 then quotient
  else quotient + 1

/-- The least `power` with `numerator / denominator < 10 ^ power`, for a
positive quotient. -/
def powerAbove (numerator denominator : Nat) : Int :=
  if denominator ≤ numerator then
    ((Nat.toDigits 10 (numerator / denominator)).length : Int)
  else
    let width := (Nat.toDigits 10 (denominator / numerator)).length
    if denominator ≤ numerator * 10 ^ (width - 1) then 2 - (width : Int)
    else 1 - (width : Int)

end PagedCache.Decimal
