import PagedCache.Json.Value
import PagedCache.Settings

/-!
# Settings as records

Settings are records of named properties.  A record may also be given as a list of
its values in order.  A missing property has its default, if there is one; a
property that is there has to have the right shape; others are ignored.
-/

namespace PagedCache

/-- What differs between the formats that settings are written in. -/
structure Convention where
  /-- Whether a list may have more values than the record has properties. -/
  allowsSurplus : Bool
  /-- The values that say nothing besides the name that they stand under. -/
  isBare : Json.Value → Bool

namespace Convention

/-- In JSON a list fits the record, and a bare name has null. -/
def json : Convention where
  allowsSurplus := false
  isBare
    | .null => true
    | _ => false

/-- In TOML a list may be too long, and a bare name has an empty container. -/
def toml : Convention where
  allowsSurplus := true
  isBare
    | .object [] => true
    | .array [] => true
    | _ => false

end Convention

namespace Record

/-- The properties of a record, looked up by name. -/
def properties? (convention : Convention) (names : List String) :
    Json.Value → Option (String → Option Json.Value)
  | .object members => some fun name => Json.Members.find? members name
  | .array items =>
    if convention.allowsSurplus || items.length ≤ names.length then
      some fun name => (names.zip items).lookup name
    else none
  | _ => none

/-- A property that may be missing. -/
def optional {β : Type} (properties : String → Option Json.Value) (name : String)
    (decode : Json.Value → Option β) (default : β) : Option β :=
  match properties name with
  | none => some default
  | some value => decode value

/-- A property that has to be there. -/
def required {β : Type} (properties : String → Option Json.Value) (name : String)
    (decode : Json.Value → Option β) : Option β :=
  (properties name).bind decode

def text? : Json.Value → Option String
  | .string text => some text
  | _ => none

/-- A list of values of one shape. -/
def list? {β : Type} (decode : Json.Value → Option β) : Json.Value → Option (List β)
  | .array items => items.mapM decode
  | _ => none

end Record

namespace Limits

def names : List String :=
  ["max_snapshots", "max_window_end"]

def decode (convention : Convention) (value : Json.Value) : Option Limits := do
  let properties ← Record.properties? convention names value
  let maxSnapshots ←
    Record.optional properties "max_snapshots" Json.Value.toWord? default.maxSnapshots
  let maxWindowEnd ←
    Record.optional properties "max_window_end" Json.Value.toWord? default.maxWindowEnd
  return ⟨maxSnapshots, maxWindowEnd⟩

def encode (limits : Limits) : Json.Value :=
  .object
    [("max_snapshots", .ofNat limits.maxSnapshots),
     ("max_window_end", .ofNat limits.maxWindowEnd)]

end Limits

namespace PolicyEntry

def names : List String :=
  ["type", "field", "field_name", "count_name", "key_args"]

def decode (convention : Convention) (value : Json.Value) : Option PolicyEntry := do
  let properties ← Record.properties? convention names value
  let typeName ← Record.required properties "type" Record.text?
  let field ← Record.required properties "field" Record.text?
  let listProperty ← Record.required properties "field_name" Record.text?
  let countProperty ← Record.required properties "count_name" Record.text?
  let keyArguments ← Record.optional properties "key_args" (Record.list? Record.text?) []
  return ⟨typeName, field, listProperty, countProperty, keyArguments⟩

def encode (entry : PolicyEntry) : Json.Value :=
  .object
    [("type", .string entry.typeName),
     ("field", .string entry.field),
     ("field_name", .string entry.listProperty),
     ("count_name", .string entry.countProperty),
     ("key_args", .array (entry.keyArguments.map .string))]

end PolicyEntry

namespace LogFormat

/-- A format is its name, or a record with nothing but that name. -/
def decode (convention : Convention) : Json.Value → Option LogFormat
  | .string name => ofName? name
  | .object [(name, value)] => if convention.isBare value then ofName? name else none
  | _ => none

end LogFormat

namespace Logging

def names : List String :=
  ["level", "format"]

def decode (convention : Convention) (value : Json.Value) : Option Logging := do
  let properties ← Record.properties? convention names value
  let level ← Record.optional properties "level" Record.text? default.level
  let format ← Record.optional properties "format" (LogFormat.decode convention) default.format
  return ⟨level, format⟩

def encode (logging : Logging) : Json.Value :=
  .object [("level", .string logging.level), ("format", .string logging.format.name)]

end Logging

namespace Settings

def names : List String :=
  ["cache", "policies", "logging"]

def decode (convention : Convention) (value : Json.Value) : Option Settings := do
  let properties ← Record.properties? convention names value
  let limits ← Record.optional properties "cache" (Limits.decode convention) default.limits
  let policies ←
    Record.optional properties "policies" (Record.list? (PolicyEntry.decode convention)) []
  let logging ← Record.optional properties "logging" (Logging.decode convention) default.logging
  return ⟨limits, policies, logging⟩

def encode (settings : Settings) : Json.Value :=
  .object
    [("cache", settings.limits.encode),
     ("policies", .array (settings.policies.map PolicyEntry.encode)),
     ("logging", settings.logging.encode)]

end Settings

end PagedCache
