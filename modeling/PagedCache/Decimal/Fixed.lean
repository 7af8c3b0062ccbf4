import PagedCache.Decimal.Digits
import PagedCache.Decimal.Rounding

/-!
# Fixed places

A quotient with a given number of decimal places; an exact half goes to the even
neighbour.
-/

namespace PagedCache.Decimal

-- Powers are those of the core library, whatever else is loaded.
attribute [local instance (high)] instPowNat

/-- The text of `numerator / denominator` with `places` places, at least one. -/
def fixed (places numerator denominator : Nat) : List Char :=
  let scaled := roundHalfEven (numerator * 10 ^ places) denominator
  let fraction := digits (scaled % 10 ^ places)
  digits (scaled / 10 ^ places) ++
    '.' :: List.replicate (places - fraction.length) '0' ++ fraction

end PagedCache.Decimal
