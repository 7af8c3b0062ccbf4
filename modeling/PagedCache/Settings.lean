import PagedCache.Cache
import PagedCache.Console

/-!
# Settings

What can be configured: the bounds of the cache, further list policies, and logging.
Settings come in layers; a later layer wins wherever it differs from the defaults.
-/

namespace PagedCache

/-- The bounds of the cache. -/
structure Limits where
  maxSnapshots : Nat
  maxWindowEnd : Nat
  deriving DecidableEq, Repr

/-- A list policy for a field. -/
structure PolicyEntry where
  typeName : String
  field : String
  listProperty : String
  countProperty : String
  keyArguments : List String
  deriving DecidableEq, Repr

inductive LogFormat where
  | text
  | json
  deriving DecidableEq, Repr

structure Logging where
  level : String
  format : LogFormat
  deriving DecidableEq, Repr

structure Settings where
  limits : Limits
  policies : List PolicyEntry
  logging : Logging
  deriving DecidableEq, Repr

/-- Why settings cannot be used. -/
inductive SettingsFault where
  | zeroLimit (setting : String)
  | unknownLevel (level : String)
  | unknownFormat (text : String)
  | namelessPolicy (typeName field : String)
  | invalidPolicy (typeName field : String) (fault : PolicyFault)
  deriving DecidableEq, Repr

namespace SettingsFault

def invalidValue (setting message : String) : String :=
  s!"invalid configuration value for '{setting}': {message}"

def invalidPolicyText (typeName field message : String) : String :=
  s!"invalid field policy '{typeName}.{field}': {message}"

def message : SettingsFault → String
  | zeroLimit setting => invalidValue setting "must be greater than 0"
  | unknownLevel level => invalidValue "logging.level" s!"unknown level '{level}'"
  | unknownFormat text =>
    invalidValue "logging.format" s!"unknown log format '{text}'. Valid values: text, json"
  | namelessPolicy typeName field =>
    invalidPolicyText typeName field "type and field must not be empty"
  | invalidPolicy typeName field fault => invalidPolicyText typeName field fault.message

end SettingsFault

namespace Limits

def default : Limits :=
  ⟨Cache.defaultMaxSnapshots, Cache.defaultMaxWindowEnd⟩

/-- The limits of the overlay, where they are not the defaults. -/
def merge (base overlay : Limits) : Limits where
  maxSnapshots :=
    if overlay.maxSnapshots = default.maxSnapshots then base.maxSnapshots
    else overlay.maxSnapshots
  maxWindowEnd :=
    if overlay.maxWindowEnd = default.maxWindowEnd then base.maxWindowEnd
    else overlay.maxWindowEnd

end Limits

namespace PolicyEntry

/-- The policy that the entry describes. -/
def policy (entry : PolicyEntry) : ListPolicy :=
  ⟨entry.listProperty, entry.countProperty, entry.keyArguments⟩

/-- The field that the policy is for. -/
def target (entry : PolicyEntry) : TypeField :=
  ⟨entry.typeName, entry.field⟩

/-- Why the entry cannot be used. -/
def fault? (entry : PolicyEntry) : Option SettingsFault :=
  if entry.typeName.isEmpty || entry.field.isEmpty then
    some (.namelessPolicy entry.typeName entry.field)
  else entry.policy.fault?.map (.invalidPolicy entry.typeName entry.field)

/-- Replace the first entry for the same field, or come last. -/
def insert (entry : PolicyEntry) : List PolicyEntry → List PolicyEntry
  | [] => [entry]
  | first :: rest =>
    if first.target = entry.target then entry :: rest else first :: insert entry rest

/-- Insert the entries of the overlay one after another. -/
def merge (base overlay : List PolicyEntry) : List PolicyEntry :=
  overlay.foldl (fun entries entry => entry.insert entries) base

end PolicyEntry

namespace LogFormat

def name : LogFormat → String
  | text => "text"
  | json => "json"

/-- The format with exactly this name. -/
def ofName? : String → Option LogFormat
  | "text" => some text
  | "json" => some json
  | _ => none

/-- The format with this name in upper or lower case.  Only ASCII letters have the
letters of a name as their lowercase, so lowering ASCII is enough. -/
def parse (input : String) : Except SettingsFault LogFormat :=
  match ofName? input.toLower with
  | some format => .ok format
  | none => .error (.unknownFormat input)

end LogFormat

namespace Logging

/-- The level without a setting. -/
def defaultLevel : String := "info"

def default : Logging :=
  ⟨defaultLevel, .text⟩

/-- The level names, which may be written in upper or lower case. -/
def levels : List String :=
  ["trace", "debug", "info", "warn", "error"]

/-- The logging settings of the overlay, where they are not the defaults. -/
def merge (base overlay : Logging) : Logging where
  level := if overlay.level = default.level then base.level else overlay.level
  format := if overlay.format = default.format then base.format else overlay.format

end Logging

/-- Settings given for one run, which win over all others. -/
structure Overrides where
  maxSnapshots : Option Nat
  maxWindowEnd : Option Nat
  logLevel : Option String
  logFormat : Option LogFormat
  deriving DecidableEq, Repr

namespace Overrides

def none : Overrides :=
  ⟨.none, .none, .none, .none⟩

end Overrides

namespace Settings

def default : Settings :=
  ⟨.default, [], .default⟩

/-- The settings with the overlay on top. -/
def merge (base overlay : Settings) : Settings where
  limits := base.limits.merge overlay.limits
  policies := PolicyEntry.merge base.policies overlay.policies
  logging := base.logging.merge overlay.logging

def applyOverrides (settings : Settings) (overrides : Overrides) : Settings where
  limits :=
    ⟨overrides.maxSnapshots.getD settings.limits.maxSnapshots,
     overrides.maxWindowEnd.getD settings.limits.maxWindowEnd⟩
  policies := settings.policies
  logging :=
    ⟨overrides.logLevel.getD settings.logging.level,
     overrides.logFormat.getD settings.logging.format⟩

/-- The first reason why the settings cannot be used. -/
def fault? (settings : Settings) : Option SettingsFault :=
  if settings.limits.maxSnapshots = 0 then some (.zeroLimit "cache.max_snapshots")
  else if settings.limits.maxWindowEnd = 0 then some (.zeroLimit "cache.max_window_end")
  else if !Logging.levels.contains settings.logging.level.toLower then
    some (.unknownLevel settings.logging.level)
  else settings.policies.findSome? PolicyEntry.fault?

def validate (settings : Settings) : Except SettingsFault Unit :=
  match settings.fault? with
  | some fault => .error fault
  | none => .ok ()

/-- The settings that result from the layers, from the lowest to the highest. -/
def ofLayers (layers : List Settings) (overrides : Overrides) : Settings :=
  (layers.foldl merge default).applyOverrides overrides

/-- A registration that failed, and why. -/
structure RegistrationError where
  entry : PolicyEntry
  cause : CacheError

/-- Register the configured policies one after another. -/
def registerEntries (registry : Registry) :
    List PolicyEntry → Except RegistrationError Registry
  | [] => .ok registry
  | entry :: rest =>
    match registry.register entry.typeName entry.field entry.policy with
    | .error cause => .error ⟨entry, cause⟩
    | .ok next => registerEntries next rest

end Settings

end PagedCache
