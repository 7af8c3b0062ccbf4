import PagedCache.Json.Number
import PagedCache.OrderedEntries

/-!
# JSON values

Values with objects as lists of members.  The objects that this library reads
or builds have strictly increasing names; `SortedNames` says so of a whole value.
-/

namespace PagedCache.Json

inductive Value where
  | null
  | bool (flag : Bool)
  | number (number : Number)
  | string (text : String)
  | array (items : List Value)
  | object (members : List (String × Value))
  deriving Repr, Inhabited

/-- The members of an object. -/
abbrev Members := List (String × Value)

namespace Members

/-- The value of the member `name`. -/
def find? (members : Members) (name : String) : Option Value :=
  OrderedEntries.find? name members

/-- Set the member `name`. -/
def insert (members : Members) (name : String) (value : Value) : Members :=
  OrderedEntries.insert name value members

end Members

namespace Value

mutual

/-- Every object in the value has strictly increasing member names. -/
def SortedNames : Value → Prop
  | array items => AllSortedNames items
  | object members => OrderedEntries.Ascending members ∧ MembersSortedNames members
  | _ => True

def AllSortedNames : List Value → Prop
  | [] => True
  | item :: rest => item.SortedNames ∧ AllSortedNames rest

def MembersSortedNames : List (String × Value) → Prop
  | [] => True
  | (_, value) :: rest => value.SortedNames ∧ MembersSortedNames rest

end

/-- An integer. -/
def ofNat (value : Nat) : Value :=
  .number (.integer value)

/-- The integer as a natural number of 64 bits. -/
def toWord? : Value → Option Nat
  | .number value => value.toWord?
  | _ => none

/-- The kind of the value, as error messages name it. -/
def kind : Value → String
  | .null => "null"
  | .bool _ => "boolean"
  | .number _ => "number"
  | .string _ => "string"
  | .array _ => "array"
  | .object _ => "object"

end Value

end PagedCache.Json
