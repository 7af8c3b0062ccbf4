import PagedCache.Json.Value

/-!
# TOML values

Tables remember how they were begun, because that decides whether a document may
still extend them.
-/

namespace PagedCache.Toml

/-- How a table was begun. -/
inductive Origin where
  /-- By a header of its own, or as the document itself. -/
  | header
  /-- By the header of a table inside it. -/
  | implied
  /-- By a dotted key. -/
  | dotted
  /-- By braces. -/
  | inline
  /-- By a dotted key between braces. -/
  | inlineDotted
  deriving DecidableEq, Repr

/-- Whether a dotted key began the table. -/
def Origin.isDotted : Origin → Bool
  | dotted => true
  | inlineDotted => true
  | _ => false

inductive Value where
  | string (text : String)
  | integer (value : Int)
  | float (bits : UInt64)
  | boolean (flag : Bool)
  | datetime (text : String)
  | array (items : List Value)
  /-- An array of tables that headers in double brackets extend. -/
  | tables (items : List Value)
  | table (origin : Origin) (entries : List (String × Value))
  deriving Repr, Inhabited

abbrev Entries := List (String × Value)

/-- The member name under which a date or time stands as an object. -/
def datetimeProperty : String := "datetime"

mutual

/-- The value without the marks of its origin. -/
def Value.toJson : Value → Json.Value
  | .string text => .string text
  | .integer value => .number (.integer value)
  | .float bits => .number (.binary64 bits)
  | .boolean flag => .bool flag
  | .datetime text => .object [(datetimeProperty, .string text)]
  | .array items => .array (Value.itemsToJson items)
  | .tables items => .array (Value.itemsToJson items)
  | .table _ entries => .object (OrderedEntries.ofList (Value.entriesToJson entries))

def Value.itemsToJson : List Value → List Json.Value
  | [] => []
  | item :: rest => item.toJson :: Value.itemsToJson rest

def Value.entriesToJson : List (String × Value) → Json.Members
  | [] => []
  | (name, value) :: rest => (name, value.toJson) :: Value.entriesToJson rest

end

end PagedCache.Toml
