import PagedCache.Decimal.Digits

/-!
# TOML strings

Four notations: between single or triple quotes, with escapes between double
quotes and without between apostrophes.  Scanning starts after the opening quotes
and gives the text and the rest of the input.
-/

namespace PagedCache.Toml.Text

/-- Blanks inside a line. -/
def isBlank (char : Char) : Bool :=
  char = ' ' || char = '\t'

/-- Characters that a string or a comment may hold as themselves. -/
def isPrintable (char : Char) : Bool :=
  char = '\t' || (0x20 ≤ char.toNat && char.toNat ≠ 0x7f)

def hexValue? (char : Char) : Option Nat :=
  if Decimal.isDigit char then some (Decimal.digitValue char)
  else if 'a' ≤ char && char ≤ 'f' then some (char.toNat - 'a'.toNat + 10)
  else if 'A' ≤ char && char ≤ 'F' then some (char.toNat - 'A'.toNat + 10)
  else none

/-- The character whose number the hexadecimal digits spell. -/
def charOfHex? (digits : List Char) : Option Char :=
  match digits.mapM hexValue? with
  | none => none
  | some values =>
    let number := values.foldl (fun number value => 16 * number + value) 0
    if h : number.isValidChar then some (Char.ofNatAux number h) else none

/-- The character that a backslash and `char` stand for. -/
def escaped? : Char → Option Char
  | 'b' => some '\x08'
  | 't' => some '\t'
  | 'n' => some '\n'
  | 'f' => some '\x0c'
  | 'r' => some '\r'
  | '"' => some '"'
  | '\\' => some '\\'
  | _ => none

/-- The rest of a string between double quotes; `reversed` holds what was read. -/
def scanBasic (reversed : List Char) : List Char → Option (String × List Char)
  | [] => none
  | '"' :: rest => some (String.ofList reversed.reverse, rest)
  | '\\' :: 'u' :: a :: b :: c :: d :: rest =>
    match charOfHex? [a, b, c, d] with
    | some char => scanBasic (char :: reversed) rest
    | none => none
  | '\\' :: 'U' :: a :: b :: c :: d :: e :: f :: g :: h :: rest =>
    match charOfHex? [a, b, c, d, e, f, g, h] with
    | some char => scanBasic (char :: reversed) rest
    | none => none
  | '\\' :: char :: rest =>
    match escaped? char with
    | some char => scanBasic (char :: reversed) rest
    | none => none
  | char :: rest =>
    if isPrintable char && char != '\\' then scanBasic (char :: reversed) rest else none

/-- The rest of a string between apostrophes. -/
def scanLiteral (reversed : List Char) : List Char → Option (String × List Char)
  | [] => none
  | '\'' :: rest => some (String.ofList reversed.reverse, rest)
  | char :: rest => if isPrintable char then scanLiteral (char :: reversed) rest else none

/-- What a backslash at the end of a line does to the text after it. -/
inductive Trimming where
  /-- Nothing: no such backslash is in effect. -/
  | off
  /-- The end of the line has to follow. -/
  | pending
  /-- Blanks and line ends are skipped. -/
  | active
  deriving DecidableEq, Repr

/-- Up to two more quotes right after the closing ones belong to the text. -/
def closeWith (quote : Char) (reversed rest : List Char) : Option (String × List Char) :=
  let extra := (rest.take 2).takeWhile (· = quote)
  some (String.ofList (extra ++ reversed).reverse, rest.drop extra.length)

/-- The rest of a string between triple double quotes. -/
def scanMultilineBasic (trimming : Trimming) (reversed : List Char) :
    List Char → Option (String × List Char)
  | [] => none
  | '\n' :: rest =>
    match trimming with
    | .off => scanMultilineBasic .off ('\n' :: reversed) rest
    | _ => scanMultilineBasic .active reversed rest
  | '\r' :: '\n' :: rest =>
    match trimming with
    | .off => scanMultilineBasic .off ('\n' :: reversed) rest
    | _ => scanMultilineBasic .active reversed rest
  | '"' :: '"' :: '"' :: rest =>
    if trimming = .pending then none else closeWith '"' reversed rest
  | '\\' :: 'u' :: a :: b :: c :: d :: rest =>
    match trimming, charOfHex? [a, b, c, d] with
    | .pending, _ => none
    | _, some char => scanMultilineBasic .off (char :: reversed) rest
    | _, none => none
  | '\\' :: 'U' :: a :: b :: c :: d :: e :: f :: g :: h :: rest =>
    match trimming, charOfHex? [a, b, c, d, e, f, g, h] with
    | .pending, _ => none
    | _, some char => scanMultilineBasic .off (char :: reversed) rest
    | _, none => none
  | '\\' :: char :: rest =>
    match trimming, escaped? char with
    | .pending, _ => none
    | _, some char => scanMultilineBasic .off (char :: reversed) rest
    | _, none =>
      if isBlank char then scanMultilineBasic .pending reversed rest
      else if char = '\n' then scanMultilineBasic .active reversed rest
      else if char = '\r' && rest.head? = some '\n' then
        scanMultilineBasic .pending reversed rest
      else none
  | char :: rest =>
    if isBlank char && trimming ≠ .off then scanMultilineBasic trimming reversed rest
    else if trimming = .pending then none
    else if isPrintable char && char != '\\' then
      scanMultilineBasic .off (char :: reversed) rest
    else none

/-- The rest of a string between triple apostrophes. -/
def scanMultilineLiteral (reversed : List Char) : List Char → Option (String × List Char)
  | [] => none
  | '\'' :: '\'' :: '\'' :: rest => closeWith '\'' reversed rest
  | '\n' :: rest => scanMultilineLiteral ('\n' :: reversed) rest
  | '\r' :: '\n' :: rest => scanMultilineLiteral ('\n' :: reversed) rest
  | char :: rest =>
    if isPrintable char then scanMultilineLiteral (char :: reversed) rest else none

/-- A line end right after the opening quotes is no part of the text. -/
def dropFirstLineEnd : List Char → List Char
  | '\n' :: rest => rest
  | '\r' :: '\n' :: rest => rest
  | rest => rest

/-- A string in any notation at the front of the input. -/
def scan : List Char → Option (String × List Char)
  | '"' :: '"' :: '"' :: rest => scanMultilineBasic .off [] (dropFirstLineEnd rest)
  | '\'' :: '\'' :: '\'' :: rest => scanMultilineLiteral [] (dropFirstLineEnd rest)
  | '"' :: rest => scanBasic [] rest
  | '\'' :: rest => scanLiteral [] rest
  | _ => none

end PagedCache.Toml.Text
