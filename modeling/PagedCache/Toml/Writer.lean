import PagedCache.Toml.Text

/-!
# Writing TOML

A string is written in the first of four notations that needs no escapes; only if
none does, it is escaped.  Arrays of two or more items have one line for each item.
-/

namespace PagedCache.Toml.Writer

-- Powers are those of the core library, whatever else is loaded.
attribute [local instance (high)] instPowNat

/-- The length of the longest run of `char`; `run` is the length of the run before
the text and `longest` the longest one so far. -/
def longestRun (char : Char) (run longest : Nat) : List Char → Nat
  | [] => longest
  | first :: rest =>
    if first = char then longestRun char (run + 1) (max longest (run + 1)) rest
    else longestRun char 0 longest rest

/-- A control character that only an escape can stand for. -/
def needsEscape (char : Char) : Bool :=
  (char.toNat < 0x20 && char ≠ '\t' && char ≠ '\n') || char.toNat = 0x7f

inductive Style where
  | basic
  | literal
  | multilineBasic
  | multilineLiteral
  deriving DecidableEq, Repr

/-- Whether the text can stand in the notation without escapes. -/
def Style.fits (text : List Char) : Style → Bool
  | basic =>
    !text.any needsEscape && !text.contains '\\' && !text.contains '"' && !text.contains '\n'
  | literal => !text.any needsEscape && !text.contains '\'' && !text.contains '\n'
  | multilineBasic =>
    !text.any needsEscape && !text.contains '\\' && longestRun '"' 0 0 text ≤ 2
  | multilineLiteral => !text.any needsEscape && longestRun '\'' 0 0 text ≤ 2

/-- The notation that a text is written in. -/
def styleFor (text : List Char) : Style :=
  match [Style.basic, .literal, .multilineBasic, .multilineLiteral].find? (·.fits text) with
  | some found => found
  | none => if text.contains '\n' then .multilineBasic else .basic

/-- Four uppercase hexadecimal digits. -/
def hexDigits (value : Nat) : List Char :=
  [value / 4096 % 16, value / 256 % 16, value / 16 % 16, value % 16].map fun digit =>
    (Nat.digitChar digit).toUpper

/-- One character between double quotes.  A quote is escaped when it would follow
`quotes` others and `allowed` is the longest run that may stand. -/
def escape (multiline : Bool) (allowed quotes : Nat) (char : Char) : List Char :=
  match char with
  | '\x08' => ['\\', 'b']
  | '\t' => ['\\', 't']
  | '\n' => if multiline then ['\n'] else ['\\', 'n']
  | '\x0c' => ['\\', 'f']
  | '\r' => ['\\', 'r']
  | '\\' => ['\\', '\\']
  | '"' => if quotes < allowed then ['"'] else ['\\', '"']
  | char =>
    if char.toNat < 0x20 || char.toNat = 0x7f then '\\' :: 'u' :: hexDigits char.toNat
    else [char]

/-- The text between double quotes; `quotes` counts the quotes right before it that
stand for themselves. -/
def escapeAll (multiline : Bool) (allowed quotes : Nat) : List Char → List Char
  | [] => []
  | char :: rest =>
    let next := if char = '"' && quotes < allowed then quotes + 1 else 0
    escape multiline allowed quotes char ++ escapeAll multiline allowed next rest

/-- A line end after the opening quotes, which belongs to the notation. -/
def opening (text : List Char) : List Char :=
  if text.contains '\n' then ['\n'] else []

def Style.write (text : List Char) : Style → List Char
  | basic => '"' :: escapeAll false 0 0 text ++ ['"']
  | literal => '\'' :: text ++ ['\'']
  | multilineBasic =>
    ['"', '"', '"'] ++ opening text ++ escapeAll true 2 0 text ++ ['"', '"', '"']
  | multilineLiteral => ['\'', '\'', '\''] ++ opening text ++ text ++ ['\'', '\'', '\'']

/-- A string. -/
def string (text : String) : List Char :=
  (styleFor text.toList).write text.toList

/-- An integer of 64 bits; there is none for a larger number. -/
def integer? (value : Nat) : Option (List Char) :=
  if value < 2 ^ (63 : Nat) then some (Decimal.digits value) else none

/-- An array of strings. -/
def strings (texts : List String) : List Char :=
  match texts with
  | [] => ['[', ']']
  | [text] => '[' :: string text ++ [']']
  | _ => '[' :: (texts.flatMap fun text => "\n    ".toList ++ string text ++ [',']) ++ ['\n', ']']

/-- A line that assigns a written value. -/
def assignment (name : String) (value : List Char) : List Char :=
  name.toList ++ " = ".toList ++ value ++ ['\n']

end PagedCache.Toml.Writer
