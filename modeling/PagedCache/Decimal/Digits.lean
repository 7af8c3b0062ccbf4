/-!
# Decimal digits

Natural numbers as digit characters, most significant digit first, and back.
-/

namespace PagedCache.Decimal

/-- An ASCII digit. -/
def isDigit (char : Char) : Bool :=
  '0' ≤ char && char ≤ '9'

def digitValue (char : Char) : Nat :=
  char.toNat - '0'.toNat

/-- The digits of `value` without leading zeros; zero is the one digit `0`. -/
def digits (value : Nat) : List Char :=
  Nat.toDigits 10 value

/-- The number that a run of digits denotes. -/
def ofDigits (chars : List Char) : Nat :=
  chars.foldl (fun value char => 10 * value + digitValue char) 0

/-- The number of digits of `value`. -/
def width (value : Nat) : Nat :=
  (digits value).length

/-- The number that the text denotes, when it is a nonempty run of digits. -/
def ofText? (chars : List Char) : Option Nat :=
  if chars.isEmpty || !chars.all isDigit then none else some (ofDigits chars)

/-- Read digits after `value` as long as the number stays below `bound`, and
count the digits read. -/
def absorb (bound value : Nat) : List Char → Nat × Nat
  | [] => (value, 0)
  | char :: rest =>
    let next := 10 * value + digitValue char
    if next < bound then
      let (final, count) := absorb bound next rest
      (final, count + 1)
    else (value, 0)

end PagedCache.Decimal
