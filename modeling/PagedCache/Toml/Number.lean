import PagedCache.Binary64
import PagedCache.Decimal.Digits

/-!
# TOML numbers

Integers of 64 bits in four bases and floats, each given as a whole word.
Underscores may stand between digits.
-/

namespace PagedCache.Toml.Number

-- Powers are those of the core library, whatever else is loaded.
attribute [local instance (high)] instPowNat

/-- The value of a digit in any base up to sixteen. -/
def digitValue? (char : Char) : Option Nat :=
  if Decimal.isDigit char then some (Decimal.digitValue char)
  else if 'a' ≤ char && char ≤ 'f' then some (char.toNat - 'a'.toNat + 10)
  else if 'A' ≤ char && char ≤ 'F' then some (char.toNat - 'A'.toNat + 10)
  else none

/-- Whether the character is a digit of the base. -/
def isDigit (base : Nat) (char : Char) : Bool :=
  match digitValue? char with
  | some value => decide (value < base)
  | none => false

/-- Digits of a base in which every underscore stands between two digits; without
the underscores. -/
def digits? (base : Nat) : List Char → Option (List Char)
  | [] => none
  | [char] => if isDigit base char then some [char] else none
  | char :: '_' :: rest =>
    if isDigit base char then (digits? base rest).map (char :: ·) else none
  | char :: rest =>
    if isDigit base char then (digits? base rest).map (char :: ·) else none

/-- The number that digits of a base denote. -/
def ofDigits (base : Nat) (chars : List Char) : Nat :=
  chars.foldl (fun value char => base * value + (digitValue? char).getD 0) 0

/-- Split a sign off; the flag says whether it is a minus. -/
def splitSign : List Char → Bool × List Char
  | '-' :: rest => (true, rest)
  | '+' :: rest => (false, rest)
  | chars => (false, chars)

/-- Decimal digits of which only a lone one may be zero at the front. -/
def wholeDigits? (chars : List Char) : Option (List Char) :=
  match digits? 10 chars with
  | some ('0' :: _ :: _) => none
  | found => found

def applySign (negative : Bool) (magnitude : Nat) : Int :=
  if negative then -(magnitude : Int) else magnitude

/-- An integer of 64 bits. -/
def bounded (value : Int) : Option Int :=
  if -(2 ^ (63 : Nat)) ≤ value ∧ value < 2 ^ (63 : Nat) then some value else none

/-- The integer that a word is. -/
def integer? (word : List Char) : Option Int :=
  match word with
  | '0' :: 'x' :: digits => ((digits? 16 digits).map (ofDigits 16)).bind fun n => bounded n
  | '0' :: 'o' :: digits => ((digits? 8 digits).map (ofDigits 8)).bind fun n => bounded n
  | '0' :: 'b' :: digits => ((digits? 2 digits).map (ofDigits 2)).bind fun n => bounded n
  | _ =>
    let (negative, unsigned) := splitSign word
    (wholeDigits? unsigned).bind fun digits =>
      bounded (applySign negative (Decimal.ofDigits digits))

/-- Decimals from this power of ten on are too large for a double. -/
def overflowPower : Int := 310

/-- Decimals below this power of ten round to zero. -/
def vanishingPower : Int := -400

/-- The magnitude of the double nearest to `coefficient * 10 ^ power`. -/
def nearest (coefficient : Nat) (power : Int) : Nat :=
  let leading := power + Decimal.width coefficient
  if coefficient = 0 || decide (leading < vanishingPower) then 0
  else if overflowPower < leading then Binary64.infinity
  else Binary64.nearest (coefficient * 10 ^ power.toNat) (10 ^ (-power).toNat)

/-- The bits of a double; a positive one has to be finite. -/
def toBits (negative : Bool) (magnitude : Nat) : Option UInt64 :=
  if negative then some (UInt64.ofNat (Binary64.signWeight + magnitude))
  else if magnitude < Binary64.infinity then some (UInt64.ofNat magnitude)
  else none

/-- An exponent: a mark, a sign, and digits. -/
def exponent? : List Char → Option Int
  | [] => some 0
  | mark :: rest =>
    if mark = 'e' || mark = 'E' then
      let (negative, unsigned) := splitSign rest
      (digits? 10 unsigned).map fun digits => applySign negative (Decimal.ofDigits digits)
    else none

/-- Whether the character ends the digits before an exponent. -/
def isExponentMark (char : Char) : Bool :=
  char = 'e' || char = 'E'

/-- The bits of the float that a word is. -/
def float? (word : List Char) : Option UInt64 :=
  let (negative, unsigned) := splitSign word
  match unsigned with
  | ['i', 'n', 'f'] =>
    some (UInt64.ofNat (Binary64.infinity + if negative then Binary64.signWeight else 0))
  | ['n', 'a', 'n'] =>
    some (UInt64.ofNat
      (Binary64.infinity + 2 ^ (51 : Nat) + if negative then Binary64.signWeight else 0))
  | _ =>
    let isWhole (char : Char) : Bool := char != '.' && !isExponentMark char
    match wholeDigits? (unsigned.takeWhile isWhole), unsigned.dropWhile isWhole with
    | some whole, '.' :: rest =>
      match digits? 10 (rest.takeWhile (!isExponentMark ·)),
          exponent? (rest.dropWhile (!isExponentMark ·)) with
      | some fraction, some power =>
        toBits negative (nearest (Decimal.ofDigits (whole ++ fraction)) (power - fraction.length))
      | _, _ => none
    | some whole, mark :: rest =>
      (exponent? (mark :: rest)).bind fun power =>
        toBits negative (nearest (Decimal.ofDigits whole) power)
    | _, _ => none

end PagedCache.Toml.Number
