import PagedCache.Identity
import PagedCache.ListPolicy

/-!
# The policy registry

Policies by type and field, and identity rules by type, both in key order.
Policies are validated when they are registered.
-/

namespace PagedCache

/-- A field of a type. -/
structure TypeField where
  typeName : String
  field : String
  deriving DecidableEq, Repr

namespace TypeField

/-- Fields are ordered by type, then by name. -/
instance : LT TypeField where
  lt left right :=
    left.typeName < right.typeName ∨
      (left.typeName = right.typeName ∧ left.field < right.field)

instance : DecidableLT TypeField := fun left right =>
  inferInstanceAs (Decidable (left.typeName < right.typeName ∨
    (left.typeName = right.typeName ∧ left.field < right.field)))

end TypeField

structure Registry where
  policies : List (TypeField × ListPolicy)
  keyRules : List (String × KeyRule)

namespace Registry

/-- The registry without entries. -/
def empty : Registry :=
  ⟨[], []⟩

/-- The number of registered policies. -/
def size (registry : Registry) : Nat :=
  registry.policies.length

def isEmpty (registry : Registry) : Bool :=
  registry.policies.isEmpty

def get? (registry : Registry) (typeName field : String) : Option ListPolicy :=
  OrderedEntries.find? ⟨typeName, field⟩ registry.policies

/-- The policy of a field, which has to be registered. -/
def require (registry : Registry) (typeName field : String) :
    Except CacheError ListPolicy :=
  match registry.get? typeName field with
  | some policy => .ok policy
  | none => .error (.noFieldPolicy typeName field)

/-- Attach a valid policy to a field, replacing an earlier one. -/
def register (registry : Registry) (typeName field : String) (policy : ListPolicy) :
    Except CacheError Registry :=
  match policy.validate typeName field with
  | .error error => .error error
  | .ok () =>
    .ok { registry with
      policies := OrderedEntries.insert ⟨typeName, field⟩ policy registry.policies }

/-- Register a list of policies in order, up to the first refusal. -/
def registerAll (registry : Registry) (entries : List (TypeField × ListPolicy)) :
    Except CacheError Registry :=
  entries.foldlM
    (fun registry entry => registry.register entry.1.typeName entry.1.field entry.2) registry

/-- Declare how the entities of a type are identified. -/
def setKeyRule (registry : Registry) (typeName : String) (rule : KeyRule) : Registry :=
  { registry with keyRules := OrderedEntries.insert typeName rule registry.keyRules }

/-- How the entities of a type are identified. -/
def keyRule (registry : Registry) (typeName : String) : KeyRule :=
  (OrderedEntries.find? typeName registry.keyRules).getD .id

/-- Take over all entries of another registry. -/
def extend (registry other : Registry) : Registry where
  policies := OrderedEntries.insertAll registry.policies other.policies
  keyRules := OrderedEntries.insertAll registry.keyRules other.keyRules

/-- The key of a list item: the one that it refers to, or the one of the object
that it is. -/
def identify (registry : Registry) : Json.Value → Except CacheError EntityKey
  | .object members =>
    match Json.Members.find? members referenceProperty with
    | some (.string text) => .ok ⟨text⟩
    | _ =>
      match Json.Members.find? members typenameProperty with
      | some (.string typeName) => (registry.keyRule typeName).identify typeName members
      | _ => .error .missingTypename
  | _ => .error .missingTypename

end Registry

end PagedCache
