import PagedCache.Settings

/-!
# Log records

A record is a message with a level.  Records are written to the error output in one of
two formats; a record in JSON is one line, a record in text has as many lines as its
message.
-/

namespace PagedCache

/-- How important a record is. -/
inductive LogLevel where
  | error
  | warn
  | info
  | debug
  | trace
  deriving DecidableEq, Repr

namespace LogLevel

def all : List LogLevel :=
  [error, warn, info, debug, trace]

/-- How much a log at this level tells. -/
def verbosity : LogLevel → Nat
  | error => 1
  | warn => 2
  | info => 3
  | debug => 4
  | trace => 5

def name : LogLevel → String
  | error => "ERROR"
  | warn => "WARN"
  | info => "INFO"
  | debug => "DEBUG"
  | trace => "TRACE"

/-- The level with this name in upper or lower case. -/
def ofName? (text : String) : Option LogLevel :=
  all.find? fun level => level.name == text.toUpper

/-- The number of the colour that the level is written in. -/
def colour : LogLevel → Nat
  | error => 31
  | warn => 33
  | info => 32
  | debug => 34
  | trace => 35

end LogLevel

structure LogRecord where
  level : LogLevel
  message : String
  deriving DecidableEq, Repr

namespace LogRecord

/-- Whether a log at the given level has the record. -/
def shownAt (record : LogRecord) (level : LogLevel) : Bool :=
  record.level.verbosity ≤ level.verbosity

/-- The starting mark of a command to a terminal. -/
def escapeChar : Char := '\x1b'

/-- One character of a message.  What could steer a terminal is written by its number;
line ends, tabs, and carriage returns stand for themselves. -/
def safe (char : Char) : List Char :=
  if char = escapeChar || char = '\x07' || char = '\x08' || char = '\x0c' || char = '\x7f' then
    ['\\', 'x', Nat.digitChar (char.toNat / 16), Nat.digitChar (char.toNat % 16)]
  else if 0x80 ≤ char.toNat && char.toNat ≤ 0x9f then
    ['\\', 'u', '{', Nat.digitChar (char.toNat / 16), Nat.digitChar (char.toNat % 16), '}']
  else [char]

/-- A text that the terminal shows in a style. -/
def styled (style : Nat) (text : String) : String :=
  s!"{escapeChar}[{style}m{text}{escapeChar}[0m"

/-- The style of less important parts. -/
def dim : Nat := 2

/-- The record as text; it begins with the escape character. -/
def text (time : String) (record : LogRecord) : String :=
  let name := record.level.name
  let level := String.ofList (List.replicate (5 - name.length) ' ') ++ name
  let message := String.ofList (record.message.toList.flatMap safe)
  styled dim time ++ " " ++ styled record.level.colour level ++ " " ++ message ++ "\n"

/-- The record as an object on a line. -/
def json (time : String) (record : LogRecord) : String :=
  (Json.Value.object
    [("timestamp", .string time),
     ("level", .string record.level.name),
     ("fields", .object [("message", .string record.message)])]).compact ++ "\n"

/-- The record in a format. -/
def write (format : LogFormat) (time : String) (record : LogRecord) : String :=
  match format with
  | .text => record.text time
  | .json => record.json time

end LogRecord

end PagedCache
