import PagedCache.Settings.Record
import PagedCache.Toml.Document
import PagedCache.Toml.Writer

/-!
# Settings as text

Settings are kept in TOML.  The written text has the tables `cache` and `logging`
and between them a table for every policy; without policies it begins with an empty
list.  Only limits below `2 ^ 63` can be written.
-/

namespace PagedCache.Settings

/-- Read settings. -/
def ofText? (text : String) : Option Settings :=
  (Toml.parse? text).bind fun value => Settings.decode .toml value.toJson

/-- A line with the header of a table. -/
def header (name : String) : List Char :=
  '[' :: name.toList ++ [']', '\n']

def limitLines? (limits : Limits) : Option (List Char) := do
  let maxSnapshots ← Toml.Writer.integer? limits.maxSnapshots
  let maxWindowEnd ← Toml.Writer.integer? limits.maxWindowEnd
  return header "cache" ++ Toml.Writer.assignment "max_snapshots" maxSnapshots ++
    Toml.Writer.assignment "max_window_end" maxWindowEnd

def policyLines (entry : PolicyEntry) : List Char :=
  header "[policies]" ++
    Toml.Writer.assignment "type" (Toml.Writer.string entry.typeName) ++
    Toml.Writer.assignment "field" (Toml.Writer.string entry.field) ++
    Toml.Writer.assignment "field_name" (Toml.Writer.string entry.listProperty) ++
    Toml.Writer.assignment "count_name" (Toml.Writer.string entry.countProperty) ++
    Toml.Writer.assignment "key_args" (Toml.Writer.strings entry.keyArguments)

def loggingLines (logging : Logging) : List Char :=
  header "logging" ++
    Toml.Writer.assignment "level" (Toml.Writer.string logging.level) ++
    Toml.Writer.assignment "format" (Toml.Writer.string logging.format.name)

/-- Blocks of lines with an empty line between them. -/
def separate : List (List Char) → List Char
  | [] => []
  | [block] => block
  | block :: rest => block ++ '\n' :: separate rest

/-- Write settings. -/
def toText? (settings : Settings) : Option String :=
  (limitLines? settings.limits).map fun limits =>
    let blocks :=
      limits :: settings.policies.map policyLines ++ [loggingLines settings.logging]
    String.ofList (separate
      (if settings.policies.isEmpty then
        Toml.Writer.assignment "policies" (Toml.Writer.strings []) :: blocks
      else blocks))

end PagedCache.Settings
