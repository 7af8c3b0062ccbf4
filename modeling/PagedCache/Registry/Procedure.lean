import PagedCache.Console

/-!
# Building registries

What is done to a registry while it is being built, one change after the other.  A
procedure that is refused stops where it stands, and what it changed before stays.
-/

namespace PagedCache.Registry

/-- Procedures on a registry. -/
abbrev Procedure := EStateM CacheError Registry

/-- The registry after a procedure, which may have stopped early. -/
def after (registry : Registry) (procedure : Procedure Unit) : Registry :=
  match procedure.run registry with
  | .ok _ next => next
  | .error _ next => next

namespace Procedure

/-- Attach a policy to a field once it has been checked. -/
def register (typeName field : String) (policy : ListPolicy) : Procedure Unit := do
  match policy.validate typeName field with
  | .error error => throw error
  | .ok () =>
    modify fun registry => { registry with
      policies := OrderedEntries.insert ⟨typeName, field⟩ policy registry.policies }

/-- Register policies one after the other, up to the first refusal. -/
def registerAll (entries : List (TypeField × ListPolicy)) : Procedure Unit :=
  entries.forM fun entry => register entry.1.typeName entry.1.field entry.2

/-- Declare how the entities of a type are identified. -/
def setKeyRule (typeName : String) (rule : KeyRule) : Procedure Unit :=
  modify fun registry => registry.setKeyRule typeName rule

/-- Take over all entries of another registry. -/
def extend (other : Registry) : Procedure Unit :=
  modify fun registry => registry.extend other

/-- Set up the lists of the console. -/
def console : Procedure Unit := do
  registerAll Console.policies
  setKeyRule "DataMapRow" Console.dataMapRow

end Procedure

end PagedCache.Registry
