import PagedCache.Json.Number

/-!
# JSON tokens

A text is cut into brackets, commas, colons, strings, and words.  A word is a
maximal run of characters that are none of the others; it has to be a number or
one of the three names.
-/

namespace PagedCache.Json

inductive Token where
  | openObject
  | closeObject
  | openArray
  | closeArray
  | colon
  | comma
  | null
  | bool (flag : Bool)
  | number (literal : Literal)
  /-- The text is missing when an escape in the string names no character. -/
  | string (text : Option String)
  deriving DecidableEq, Repr

namespace Token

/-- Blanks between tokens. -/
def isBlank (char : Char) : Bool :=
  char = ' ' || char = '\n' || char = '\t' || char = '\r'

/-- A token of one character. -/
def ofChar? : Char → Option Token
  | '{' => some openObject
  | '}' => some closeObject
  | '[' => some openArray
  | ']' => some closeArray
  | ':' => some colon
  | ',' => some comma
  | _ => none

/-- A character that a word may hold. -/
def inWord (char : Char) : Bool :=
  !isBlank char && char ≠ '"' && (ofChar? char).isNone

/-- The token that a word is. -/
def ofWord? : List Char → Option Token
  | ['n', 'u', 'l', 'l'] => some null
  | ['t', 'r', 'u', 'e'] => some (bool true)
  | ['f', 'a', 'l', 's', 'e'] => some (bool false)
  | word => (Literal.ofChars? word).map number

/-- A piece of a string: a character, or a 16-bit unit given by an escape. -/
inductive Piece where
  | char (char : Char)
  | unit (value : Nat)
  deriving DecidableEq, Repr

def hexValue? (char : Char) : Option Nat :=
  if Decimal.isDigit char then some (Decimal.digitValue char)
  else if 'a' ≤ char && char ≤ 'f' then some (char.toNat - 'a'.toNat + 10)
  else if 'A' ≤ char && char ≤ 'F' then some (char.toNat - 'A'.toNat + 10)
  else none

/-- The 16-bit unit that four hexadecimal digits spell. -/
def unit? (first second third fourth : Char) : Option Nat := do
  let first ← hexValue? first
  let second ← hexValue? second
  let third ← hexValue? third
  let fourth ← hexValue? fourth
  some (((first * 16 + second) * 16 + third) * 16 + fourth)

/-- The character that a backslash and `char` stand for. -/
def escaped? : Char → Option Char
  | '"' => some '"'
  | '\\' => some '\\'
  | '/' => some '/'
  | 'b' => some '\x08'
  | 'f' => some '\x0c'
  | 'n' => some '\n'
  | 'r' => some '\r'
  | 't' => some '\t'
  | _ => none

/-- The pieces of a string up to its closing quote, and the text after it.
`reversed` holds the pieces read so far. -/
def scanString (reversed : List Piece) : List Char → Option (List Piece × List Char)
  | [] => none
  | '"' :: rest => some (reversed.reverse, rest)
  | '\\' :: 'u' :: first :: second :: third :: fourth :: rest =>
    match unit? first second third fourth with
    | some value => scanString (.unit value :: reversed) rest
    | none => none
  | '\\' :: char :: rest =>
    match escaped? char with
    | some value => scanString (.char value :: reversed) rest
    | none => none
  | ['\\'] => none
  | char :: rest =>
    if char.toNat < 0x20 then none else scanString (.char char :: reversed) rest

/-- Decode the pieces: a high and a low surrogate together are one character, a
surrogate alone is none. -/
def charsOfPieces : List Piece → Option (List Char)
  | [] => some []
  | .char char :: rest => (charsOfPieces rest).map (char :: ·)
  | .unit high :: .unit low :: rest =>
    if 0xd800 ≤ high && high < 0xdc00 then
      if 0xdc00 ≤ low && low < 0xe000 then
        (charsOfPieces rest).map
          (Char.ofNat ((high - 0xd800) * 0x400 + (low - 0xdc00) + 0x10000) :: ·)
      else none
    else if 0xdc00 ≤ high && high < 0xe000 then none
    else (charsOfPieces (.unit low :: rest)).map (Char.ofNat high :: ·)
  | .unit value :: rest =>
    if 0xd800 ≤ value && value < 0xe000 then none
    else (charsOfPieces rest).map (Char.ofNat value :: ·)

theorem scanString_length {reversed pieces : List Piece} {input rest : List Char}
    (hscan : scanString reversed input = some (pieces, rest)) :
    rest.length < input.length := by
  fun_induction scanString reversed input <;> simp_all <;> omega

/-- The tokens of a text. -/
def lex (input : List Char) : Option (List Token) :=
  match input with
  | [] => some []
  | char :: rest =>
    if isBlank char then lex rest
    else if char = '"' then
      match _hscan : scanString [] rest with
      | none => none
      | some (pieces, after) =>
        (lex after).map (.string ((charsOfPieces pieces).map String.ofList) :: ·)
    else
      match ofChar? char with
      | some token => (lex rest).map (token :: ·)
      | none =>
        match ofWord? (char :: rest.takeWhile inWord) with
        | none => none
        | some token => (lex (rest.dropWhile inWord)).map (token :: ·)
termination_by input.length
decreasing_by
  · simp
  · have := scanString_length _hscan
    simp only [List.length_cons]
    omega
  · simp
  · have := (List.dropWhile_sublist inWord (l := rest)).length_le
    simp only [List.length_cons]
    omega

end Token

end PagedCache.Json
