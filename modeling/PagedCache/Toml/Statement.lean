import PagedCache.Toml.Datetime
import PagedCache.Toml.Number
import PagedCache.Toml.Table
import PagedCache.Toml.Text

/-!
# TOML statements

A text is a list of statements: assignments and two kinds of headers.  What the
statements mean together is not decided here.

Nested values are bounded by `maxDepth`, dotted keys by `maxKeyLength`.  A loop over
the parts of a text takes the length of the text as its bound, because every part
has at least one character.
-/

namespace PagedCache.Toml

inductive Statement where
  /-- `path` leads from the current table to the one that gets the entry. -/
  | assign (path : List String) (name : String) (value : Value)
  /-- The header of a table. -/
  | table (path : List String) (name : String)
  /-- The header of a further table of an array. -/
  | element (path : List String) (name : String)
  deriving Repr

namespace Statement

/-- Arrays and inline tables may be nested this deep. -/
def maxDepth : Nat := 79

/-- A dotted key has at most this many parts. -/
def maxKeyLength : Nat := 79

def skipBlanks (input : List Char) : List Char :=
  input.dropWhile Text.isBlank

def isAlphanumeric (char : Char) : Bool :=
  ('a' ≤ char && char ≤ 'z') || ('A' ≤ char && char ≤ 'Z') || Decimal.isDigit char

/-- Characters of a key without quotes. -/
def inBareKey (char : Char) : Bool :=
  isAlphanumeric char || char = '_' || char = '-'

/-- Characters of a value without quotes. -/
def inWord (char : Char) : Bool :=
  inBareKey char || char = '+' || char = '.' || char = ':'

/-- One part of a key. -/
def scanKeyPart : List Char → Option (String × List Char)
  | '"' :: rest => Text.scanBasic [] rest
  | '\'' :: rest => Text.scanLiteral [] rest
  | input =>
    let part := input.takeWhile inBareKey
    if part.isEmpty then none else some (String.ofList part, input.dropWhile inBareKey)

/-- The parts of a key, of which there are at most `bound`. -/
def scanKeyParts : Nat → List Char → Option (List String × List Char)
  | 0, _ => none
  | bound + 1, input =>
    match scanKeyPart (skipBlanks input) with
    | none => none
    | some (part, after) =>
      match skipBlanks after with
      | '.' :: rest =>
        (scanKeyParts bound rest).map fun (parts, after) => (part :: parts, after)
      | rest => some ([part], rest)

/-- A key as a path and a name, and the rest after blanks. -/
def scanKey (input : List Char) : Option ((List String × String) × List Char) :=
  match scanKeyParts maxKeyLength input with
  | none => none
  | some (parts, rest) => parts.getLast?.map fun name => ((parts.dropLast, name), rest)

/-- The rest after blanks, line ends, and comments.  `inComment` says whether the
input is inside a comment, which goes on to the end of the line. -/
def skipFiller (inComment : Bool) : List Char → Option (List Char)
  | [] => some []
  | '\n' :: rest => skipFiller false rest
  | '\r' :: '\n' :: rest => skipFiller false rest
  | char :: rest =>
    if inComment then
      if Text.isPrintable char then skipFiller true rest else none
    else if Text.isBlank char then skipFiller false rest
    else if char = '#' then skipFiller true rest
    else some (char :: rest)

/-- The rest after the end of a line, before which blanks and a comment may stand. -/
def skipLineEnd (input : List Char) : Option (List Char) :=
  let ending :=
    match skipBlanks input with
    | '#' :: comment => comment.dropWhile Text.isPrintable
    | rest => rest
  match ending with
  | [] => some []
  | '\n' :: rest => some rest
  | '\r' :: '\n' :: rest => some rest
  | _ => none

/-- The value that a word is, except for one that a space may continue. -/
def valueOfWord? (word : List Char) : Option Value :=
  match word with
  | ['t', 'r', 'u', 'e'] => some (.boolean true)
  | ['f', 'a', 'l', 's', 'e'] => some (.boolean false)
  | _ =>
    if Datetime.isDatetime word then some (.datetime (String.ofList word))
    else
      match Number.integer? word with
      | some value => some (.integer value)
      | none => (Number.float? word).map .float

/-- A value that is not a container. -/
def scanScalar (input : List Char) : Option (Value × List Char) :=
  if input.head? = some '"' ∨ input.head? = some '\'' then
    (Text.scan input).map fun (text, rest) => (.string text, rest)
  else
    let word := input.takeWhile inWord
    let rest := input.dropWhile inWord
    match rest with
    | ' ' :: more =>
      let second := more.takeWhile inWord
      if Datetime.isDate word && Datetime.isTimeOfDay second then
        some (.datetime (String.ofList (word ++ ' ' :: second)), more.dropWhile inWord)
      else (valueOfWord? word).map fun value => (value, rest)
    | _ => (valueOfWord? word).map fun value => (value, rest)

/-- The items of an array up to its closing bracket. -/
def scanItems (scan : List Char → Option (Value × List Char)) :
    Nat → List Char → Option (List Value × List Char)
  | 0, _ => none
  | bound + 1, input =>
    match skipFiller false input with
    | none => none
    | some (']' :: rest) => some ([], rest)
    | some start =>
      match scan start with
      | none => none
      | some (value, after) =>
        match skipFiller false after with
        | some (']' :: rest) => some ([value], rest)
        | some (',' :: rest) =>
          (scanItems scan bound rest).map fun (values, after) => (value :: values, after)
        | _ => none

/-- A key, an equals sign, and a value. -/
def scanAssignment (scan : List Char → Option (Value × List Char)) (input : List Char) :
    Option ((List String × String × Value) × List Char) :=
  match scanKey input with
  | some ((path, name), '=' :: rest) =>
    (scan (skipBlanks rest)).map fun (value, after) =>
      ((path, name, value), skipBlanks after)
  | _ => none

/-- The entries of an inline table up to its closing brace. -/
def scanInline (scan : List Char → Option (Value × List Char)) :
    Nat → Entries → List Char → Option (Entries × List Char)
  | 0, _, _ => none
  | bound + 1, entries, input =>
    match scanAssignment scan input with
    | none => none
    | some ((path, name, value), after) =>
      match entries.assign .inline .inline path name value with
      | none => none
      | some entries =>
        match after with
        | '}' :: rest => some (entries, rest)
        | ',' :: rest => scanInline scan bound entries rest
        | _ => none

/-- A value with at most `depth` containers inside each other. -/
def scanValue : Nat → List Char → Option (Value × List Char)
  | 0, input => scanScalar input
  | depth + 1, input =>
    match input with
    | '[' :: rest =>
      (scanItems (scanValue depth) input.length rest).map fun (items, after) =>
        (.array items, after)
    | '{' :: rest =>
      match skipBlanks rest with
      | '}' :: after => some (.table .inline [], after)
      | start =>
        (scanInline (scanValue depth) input.length [] start).map fun (entries, after) =>
          (.table .inline entries, after)
    | _ => scanScalar input

/-- The statement at the front of a line, and the rest after the line. -/
def scanLine (input : List Char) : Option (Statement × List Char) :=
  match input with
  | '[' :: '[' :: rest =>
    match scanKey rest with
    | some ((path, name), ']' :: ']' :: after) =>
      (skipLineEnd after).map fun rest => (.element path name, rest)
    | _ => none
  | '[' :: rest =>
    match scanKey rest with
    | some ((path, name), ']' :: after) =>
      (skipLineEnd after).map fun rest => (.table path name, rest)
    | _ => none
  | _ =>
    match scanAssignment (scanValue maxDepth) input with
    | some ((path, name, value), after) =>
      (skipLineEnd after).map fun rest => (.assign path name value, rest)
    | none => none

/-- The statements of a text, of which there are fewer than `bound`. -/
def scanAll : Nat → List Char → Option (List Statement)
  | 0, _ => none
  | bound + 1, input =>
    match skipFiller false input with
    | some [] => some []
    | some start =>
      match scanLine start with
      | none => none
      | some (statement, rest) => (scanAll bound rest).map (statement :: ·)
    | none => none

end Statement

end PagedCache.Toml
