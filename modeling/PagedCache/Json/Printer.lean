import PagedCache.Json.Value

/-!
# Printing JSON

The compact text has no blanks.  The indented text puts every item and member on
a line of its own, two blanks deeper than its container.  Both write members in
the order of the value.
-/

namespace PagedCache.Json

namespace Quoted

/-- A lowercase hexadecimal digit. -/
def hexDigit (value : Nat) : Char :=
  Nat.digitChar value

/-- One character inside quotes.  Quotes, backslashes, and control characters are
escaped, everything else stands for itself. -/
def escape (char : Char) : List Char :=
  match char with
  | '"' => ['\\', '"']
  | '\\' => ['\\', '\\']
  | '\x08' => ['\\', 'b']
  | '\x0c' => ['\\', 'f']
  | '\n' => ['\\', 'n']
  | '\r' => ['\\', 'r']
  | '\t' => ['\\', 't']
  | char =>
    if char.toNat < 0x20 then
      ['\\', 'u', '0', '0', hexDigit (char.toNat / 16), hexDigit (char.toNat % 16)]
    else [char]

/-- The text in quotes. -/
def encode (chars : List Char) : List Char :=
  '"' :: chars.flatMap escape ++ ['"']

/-- The text of a string. -/
def ofString (text : String) : List Char :=
  encode text.toList

end Quoted

namespace Value

mutual

/-- The compact text of a value. -/
def render : Value → List Char
  | .null => ['n', 'u', 'l', 'l']
  | .bool true => ['t', 'r', 'u', 'e']
  | .bool false => ['f', 'a', 'l', 's', 'e']
  | .number value => value.text
  | .string text => Quoted.ofString text
  | .array items => '[' :: renderItems items ++ [']']
  | .object members => '{' :: renderMembers members ++ ['}']

/-- Items with commas between them. -/
def renderItems : List Value → List Char
  | [] => []
  | [item] => item.render
  | item :: rest => item.render ++ ',' :: renderItems rest

/-- Members with commas between them. -/
def renderMembers : List (String × Value) → List Char
  | [] => []
  | [(name, value)] => Quoted.ofString name ++ ':' :: value.render
  | (name, value) :: rest =>
    Quoted.ofString name ++ ':' :: value.render ++ ',' :: renderMembers rest

end

/-- The compact text of a value. -/
def compact (value : Value) : String :=
  String.ofList value.render

/-- A new line at the given depth. -/
def newLine (depth : Nat) : List Char :=
  '\n' :: List.replicate (2 * depth) ' '

mutual

/-- The indented text of a value inside `depth` containers. -/
def renderIndented (depth : Nat) : Value → List Char
  | .array [] => ['[', ']']
  | .array (first :: rest) =>
    '[' :: newLine (depth + 1) ++ renderIndented (depth + 1) first ++
      renderIndentedItems (depth + 1) rest ++ newLine depth ++ [']']
  | .object [] => ['{', '}']
  | .object ((name, value) :: rest) =>
    '{' :: newLine (depth + 1) ++ Quoted.ofString name ++ ':' :: ' ' ::
      renderIndented (depth + 1) value ++
      renderIndentedMembers (depth + 1) rest ++ newLine depth ++ ['}']
  | value => value.render

/-- The items after the first one. -/
def renderIndentedItems (depth : Nat) : List Value → List Char
  | [] => []
  | item :: rest =>
    ',' :: newLine depth ++ renderIndented depth item ++ renderIndentedItems depth rest

/-- The members after the first one. -/
def renderIndentedMembers (depth : Nat) : List (String × Value) → List Char
  | [] => []
  | (name, value) :: rest =>
    ',' :: newLine depth ++ Quoted.ofString name ++ ':' :: ' ' ::
      renderIndented depth value ++ renderIndentedMembers depth rest

end

/-- The indented text of a value. -/
def indented (value : Value) : String :=
  String.ofList (renderIndented 0 value)

end Value

end PagedCache.Json
