import PagedCache.CacheError

/-!
# Windows

A window asks for `limit` items from position `offset` on.  Positions are
natural numbers up to `maxPosition`.
-/

namespace PagedCache

-- Powers are those of the core library, whatever else is loaded.
attribute [local instance (high)] instPowNat

/-- Call arguments of a field. -/
abbrev Arguments := Json.Members

structure Window where
  offset : Nat
  limit : Nat
  deriving DecidableEq, Repr

namespace Window

/-- The name of the argument that gives the offset. -/
def offsetArgument : String := "offset"

/-- The name of the argument that gives the limit. -/
def limitArgument : String := "limit"

/-- The last position. -/
def maxPosition : Nat := 2 ^ (64 : Nat) - 1

/-- The end of the window, no later than the last position. -/
def stop (window : Window) : Nat :=
  min (window.offset + window.limit) maxPosition

/-- The end of a page of `length` items at the offset of the window. -/
def pageStop (window : Window) (length : Nat) : Except CacheError Nat :=
  if window.offset + length ≤ maxPosition then .ok (window.offset + length)
  else .error (.windowOverflow window.offset length)

/-- The argument `name`, where an absent or null argument is zero. -/
def readArgument (arguments : Arguments) (name : String) : Except CacheError Nat :=
  match arguments.find? name with
  | none => .ok 0
  | some .null => .ok 0
  | some value =>
    match value.toWord? with
    | some position => .ok position
    | none => .error (.invalidArgument name value.compact)

/-- The window that the arguments of a call ask for. -/
def ofArguments (arguments : Arguments) : Except CacheError Window :=
  match readArgument arguments offsetArgument with
  | .error error => .error error
  | .ok offset =>
    match readArgument arguments limitArgument with
    | .error error => .error error
    | .ok limit => .ok ⟨offset, limit⟩

end Window

end PagedCache
