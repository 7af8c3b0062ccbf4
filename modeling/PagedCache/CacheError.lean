import PagedCache.Json.Printer

/-!
# Errors of the cache

Each error is a cause; `CacheError.message` is its text.
-/

namespace PagedCache

/-- Why a list policy cannot be registered. -/
inductive PolicyFault where
  | emptyProperty
  | sharedProperty (property : String)
  | paginationKeyArgument (argument : String)
  deriving DecidableEq, Repr

def PolicyFault.message : PolicyFault → String
  | emptyProperty => "list and count property names must not be empty"
  | sharedProperty property => s!"list and count both use property '{property}'"
  | paginationKeyArgument argument =>
    s!"pagination argument '{argument}' cannot be a key argument"

/-- What a response property should have been. -/
inductive ResponseFault where
  | notObject (kind : String)
  | notArray (kind : String)
  | notCount (text : String)
  deriving DecidableEq, Repr

def ResponseFault.message : ResponseFault → String
  | notObject kind => s!"expected an object, got {kind}"
  | notArray kind => s!"expected an array, got {kind}"
  | notCount text => s!"expected a non-negative integer, got {text}"

inductive CacheError where
  /-- No policy is registered for the field. -/
  | noFieldPolicy (typeName field : String)
  /-- The policy was refused at registration. -/
  | invalidPolicy (typeName field : String) (fault : PolicyFault)
  /-- A pagination argument is not a natural number of 64 bits. -/
  | invalidArgument (name value : String)
  /-- The page would extend a snapshot beyond the bound of the cache. -/
  | windowTooLarge (stop max : Nat)
  /-- The end of the page is no position. -/
  | windowOverflow (offset length : Nat)
  /-- A response property has the wrong shape. -/
  | malformedResponse (property : String) (fault : ResponseFault)
  /-- A list item names neither its type nor an entity. -/
  | missingTypename
  /-- An entity lacks a part of its identity. -/
  | missingKeyField (typeName path : String)
  deriving DecidableEq, Repr

def CacheError.message : CacheError → String
  | noFieldPolicy typeName field =>
    s!"no field policy registered for '{typeName}.{field}'"
  | invalidPolicy typeName field fault =>
    s!"invalid field policy for '{typeName}.{field}': {fault.message}"
  | invalidArgument name value =>
    s!"invalid pagination argument '{name}': expected a non-negative integer, got {value}"
  | windowTooLarge stop max =>
    s!"page ends at position {stop}, beyond the maximum of {max}"
  | windowOverflow offset length =>
    s!"page of {length} items at offset {offset} has no representable end position"
  | malformedResponse property fault =>
    s!"malformed response property '{property}': {fault.message}"
  | missingTypename => "list item has neither '__typename' nor '__ref'"
  | missingKeyField typeName path =>
    s!"cannot identify '{typeName}' entity: missing key field '{path}'"

end PagedCache
