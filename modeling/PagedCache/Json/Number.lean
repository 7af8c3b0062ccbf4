import PagedCache.Decimal.Shortest

/-!
# JSON numbers

A number is an integer or a double.  Which of the two a literal denotes depends
on its form: a literal with a fraction or an exponent, the literal `-0`, and
an integer literal outside the 64-bit ranges all denote doubles.
-/

namespace PagedCache.Json

-- Powers are those of the core library, whatever else is loaded.
attribute [local instance (high)] instPowNat

/-- An integer, or a finite double given by its bits. -/
inductive Number where
  | integer (value : Int)
  | binary64 (bits : UInt64)
  deriving DecidableEq, Repr

/-- A number as it stands in a text. -/
structure Literal where
  negative : Bool
  whole : List Char
  fraction : Option (List Char)
  /-- Whether the exponent is negative, and its digits. -/
  exponent : Option (Bool × List Char)
  deriving DecidableEq, Repr

namespace Literal

/-- Split a leading sign off. -/
def splitSign : List Char → Bool × List Char
  | '-' :: rest => (true, rest)
  | chars => (false, chars)

/-- An exponent may also carry a plus sign. -/
def splitExponentSign : List Char → Bool × List Char
  | '+' :: rest => (false, rest)
  | chars => splitSign chars

/-- Split `.` and the digits after it off; `none` when the point is there and no
digit follows. -/
def splitFraction : List Char → Option (Option (List Char) × List Char)
  | '.' :: rest =>
    if (rest.takeWhile Decimal.isDigit).isEmpty then none
    else some (some (rest.takeWhile Decimal.isDigit), rest.dropWhile Decimal.isDigit)
  | chars => some (none, chars)

/-- Read the exponent, which ends the literal. -/
def readExponent? : List Char → Option (Option (Bool × List Char))
  | [] => some none
  | char :: rest =>
    if char = 'e' || char = 'E' then
      let (negative, digits) := splitExponentSign rest
      if digits.isEmpty || !digits.all Decimal.isDigit then none
      else some (some (negative, digits))
    else none

/-- Read a literal: a sign, digits without a superfluous zero, a fraction, and
an exponent, of which only the digits are required. -/
def ofChars? (chars : List Char) : Option Literal := do
  let (negative, unsigned) := splitSign chars
  let whole := unsigned.takeWhile Decimal.isDigit
  if whole.isEmpty || (whole.head? == some '0' && whole.length != 1) then none
  else
    let (fraction, rest) ← splitFraction (unsigned.dropWhile Decimal.isDigit)
    let exponent ← readExponent? rest
    some ⟨negative, whole, fraction, exponent⟩

/-- Integers below this bound keep their exact value. -/
def wordBound : Nat := 2 ^ (64 : Nat)

/-- The power of ten that the exponent names. -/
def exponentValue (literal : Literal) : Int :=
  match literal.exponent with
  | none => 0
  | some (true, digits) => -(Decimal.ofDigits digits : Int)
  | some (false, digits) => Decimal.ofDigits digits

/-- The leading digits, read as far as they stay below `wordBound`, and the power
of ten that they are scaled by.  Later digits count only by their place. -/
def leadingDigits (literal : Literal) : Nat × Int :=
  let (whole, read) := Decimal.absorb wordBound 0 literal.whole
  let (all, fractionRead) := Decimal.absorb wordBound whole (literal.fraction.getD [])
  (all, (literal.whole.length - read : Nat) - (fractionRead : Int) + literal.exponentValue)

/-- The largest power of ten that is a finite double. -/
def largestPower : Nat := 308

/-- Scale a double by a power of ten with one rounding for each step of at most
`largestPower`; `none` when the result is too large. -/
def scale (magnitude : Nat) (power : Int) : Option Nat :=
  if power.natAbs ≤ largestPower then
    if 0 ≤ power then
      let product := Binary64.multiply magnitude (Binary64.ofNat (10 ^ power.natAbs))
      if product < Binary64.infinity then some product else none
    else some (Binary64.divide magnitude (Binary64.ofNat (10 ^ power.natAbs)))
  else if magnitude = 0 then some 0
  else if 0 ≤ power then none
  else
    scale (Binary64.divide magnitude (Binary64.ofNat (10 ^ largestPower)))
      (power + largestPower)
termination_by power.natAbs
decreasing_by simp only [largestPower] at *; omega

/-- The double that the literal denotes; `none` when it is too large. -/
def toBinary64? (literal : Literal) : Option UInt64 :=
  let (digits, power) := literal.leadingDigits
  (scale (Binary64.ofNat digits) power).map fun magnitude =>
    UInt64.ofNat (if literal.negative then Binary64.signWeight + magnitude else magnitude)

/-- The integer that the literal denotes, when it denotes one. -/
def toInteger? (literal : Literal) : Option Int :=
  if literal.fraction.isSome || literal.exponent.isSome then none
  else
    let magnitude := Decimal.ofDigits literal.whole
    if literal.negative then
      if magnitude ≠ 0 ∧ magnitude ≤ 2 ^ (63 : Nat) then some (-(magnitude : Int)) else none
    else if magnitude < wordBound then some magnitude
    else none

/-- The number that the literal denotes; `none` when it is too large for a
double. -/
def toNumber? (literal : Literal) : Option Number :=
  match literal.toInteger? with
  | some value => some (.integer value)
  | none => literal.toBinary64?.map .binary64

end Literal

/-- How a double is written. -/
structure DoubleLayout where
  /-- The first decimal place of a positional text is not below this power of ten. -/
  leastPositional : Int
  /-- From this power of ten on an exponent is written. -/
  leastExponential : Int
  /-- The mark between coefficient and exponent. -/
  exponentMark : Char
  /-- What stands before the digits of a nonnegative exponent. -/
  plusSign : List Char

/-- Doubles from `1e-5` up to below `1e16` are positional with at least one
place; all others have a signed exponent. -/
def doubleLayout : DoubleLayout := ⟨-5, 16, 'e', ['+']⟩

namespace DoubleLayout

/-- A decimal point after the first digit, unless there is one digit only. -/
def mantissa : List Char → List Char
  | first :: second :: rest => first :: '.' :: second :: rest
  | digits => digits

def signedExponent (layout : DoubleLayout) (exponent : Int) : List Char :=
  if exponent < 0 then '-' :: Decimal.digits exponent.natAbs
  else layout.plusSign ++ Decimal.digits exponent.natAbs

/-- The digits with a point after `places` of them, padded with zeros so that a
digit stands on both sides of it. -/
def positional (digits : List Char) (places : Int) : List Char :=
  if places ≤ 0 then
    ['0', '.'] ++ List.replicate (-places).toNat '0' ++ digits
  else
    let whole := digits.take places.toNat
    let fraction := digits.drop places.toNat
    whole ++ List.replicate (places.toNat - digits.length) '0' ++
      '.' :: (if fraction.isEmpty then ['0'] else fraction)

/-- The text of a positive decimal. -/
def write (layout : DoubleLayout) (decimal : Decimal.Scientific) : List Char :=
  let digits := Decimal.digits decimal.coefficient
  let leading := decimal.exponent + digits.length - 1
  if layout.leastPositional ≤ leading && leading < layout.leastExponential then
    positional digits (leading + 1)
  else mantissa digits ++ layout.exponentMark :: layout.signedExponent leading

end DoubleLayout

namespace Number

/-- The text of a double. -/
def binary64Text (bits : UInt64) : List Char :=
  let negative := decide (Binary64.signWeight ≤ bits.toNat)
  let magnitude := bits.toNat % Binary64.signWeight
  let unsigned :=
    if magnitude = 0 then ['0', '.', '0']
    else doubleLayout.write (Decimal.shortest magnitude)
  if negative then '-' :: unsigned else unsigned

/-- The text of an integer. -/
def integerText (value : Int) : List Char :=
  if value < 0 then '-' :: Decimal.digits value.natAbs else Decimal.digits value.natAbs

/-- The text of a number. -/
def text : Number → List Char
  | integer value => integerText value
  | binary64 bits => binary64Text bits

/-- The integer as a natural number of 64 bits. -/
def toWord? : Number → Option Nat
  | integer (.ofNat value) => if value < Literal.wordBound then some value else none
  | _ => none

end Number

end PagedCache.Json
