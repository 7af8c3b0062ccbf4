import PagedCache.Decimal.Digits

/-!
# TOML dates and times

A date, a time, or both, with an offset if both are there.  The parts have to lie
in the calendar.
-/

namespace PagedCache.Toml.Datetime

/-- The number that two digits denote. -/
def pair? (tens ones : Char) : Option Nat :=
  if Decimal.isDigit tens && Decimal.isDigit ones then some (Decimal.ofDigits [tens, ones])
  else none

def isLeap (year : Nat) : Bool :=
  year % 4 == 0 && (year % 100 != 0 || year % 400 == 0)

def daysIn (year month : Nat) : Nat :=
  match month with
  | 2 => if isLeap year then 29 else 28
  | 4 => 30
  | 6 => 30
  | 9 => 30
  | 11 => 30
  | _ => 31

/-- A date at the front of a word, and the rest of the word. -/
def date? : List Char → Option (List Char)
  | y1 :: y2 :: y3 :: y4 :: '-' :: m1 :: m2 :: '-' :: d1 :: d2 :: rest => do
    let century ← pair? y1 y2
    let year ← pair? y3 y4
    let month ← pair? m1 m2
    let day ← pair? d1 d2
    if 1 ≤ month ∧ month ≤ 12 ∧ 1 ≤ day ∧ day ≤ daysIn (100 * century + year) month then
      some rest
    else none
  | _ => none

/-- A fraction of a second, which may be missing. -/
def fraction? : List Char → Option (List Char)
  | '.' :: rest =>
    if (rest.takeWhile Decimal.isDigit).isEmpty then none
    else some (rest.dropWhile Decimal.isDigit)
  | rest => some rest

/-- A time at the front of a word, and the rest of the word. -/
def time? : List Char → Option (List Char)
  | h1 :: h2 :: ':' :: m1 :: m2 :: ':' :: s1 :: s2 :: rest => do
    let hour ← pair? h1 h2
    let minute ← pair? m1 m2
    let second ← pair? s1 s2
    if hour ≤ 23 ∧ minute ≤ 59 ∧ second ≤ 60 then fraction? rest else none
  | _ => none

/-- Whether the text is an offset from universal time, or nothing. -/
def isOffset : List Char → Bool
  | [] => true
  | ['Z'] => true
  | ['z'] => true
  | [sign, h1, h2, ':', m1, m2] =>
    (sign == '+' || sign == '-') &&
      match pair? h1 h2, pair? m1 m2 with
      | some hour, some minute => hour ≤ 23 && minute ≤ 59
      | _, _ => false
  | _ => false

/-- Whether the word is a time with an offset that may be missing. -/
def isTimeOfDay (word : List Char) : Bool :=
  match time? word with
  | some rest => isOffset rest
  | none => false

/-- Whether the word is a date only. -/
def isDate (word : List Char) : Bool :=
  date? word == some []

/-- Whether the word is a date, a time, or both with a letter between them. -/
def isDatetime (word : List Char) : Bool :=
  match date? word with
  | some [] => true
  | some (mark :: rest) => (mark == 'T' || mark == 't') && isTimeOfDay rest
  | none => time? word == some []

end PagedCache.Toml.Datetime
