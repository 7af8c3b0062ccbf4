import PagedCache.Snapshot

/-!
# List policies

A policy says how the responses of one paginated field are read: which property
holds the list, which one its length, and which call arguments select a list of
their own.
-/

namespace PagedCache

structure ListPolicy where
  /-- The response property with the items. -/
  listProperty : String
  /-- The response property with the length of the whole list. -/
  countProperty : String
  /-- The call arguments that select a list. -/
  keyArguments : List String
  deriving DecidableEq, Repr

namespace ListPolicy

/-- The first reason why the policy is unusable. -/
def fault? (policy : ListPolicy) : Option PolicyFault :=
  if policy.listProperty.isEmpty || policy.countProperty.isEmpty then
    some .emptyProperty
  else if policy.listProperty = policy.countProperty then
    some (.sharedProperty policy.listProperty)
  else
    (policy.keyArguments.find? fun argument =>
      argument == Window.offsetArgument || argument == Window.limitArgument).map
        .paginationKeyArgument

/-- Check the policy before it is attached to a field. -/
def validate (policy : ListPolicy) (typeName field : String) : Except CacheError Unit :=
  match policy.fault? with
  | some fault => .error (.invalidPolicy typeName field fault)
  | none => .ok ()

/-- The key arguments that a call gives, in declared order. -/
def givenArguments (policy : ListPolicy) (arguments : Arguments) :
    List (String × Json.Value) :=
  policy.keyArguments.filterMap fun name =>
    (arguments.find? name).map fun value => (name, value)

/-- The name under which the list of one call is kept: the field, and the given
key arguments as an object if the policy has any. -/
def slotName (policy : ListPolicy) (field : String) (arguments : Arguments) : String :=
  if policy.keyArguments.isEmpty then field
  else
    String.ofList (field.toList ++
      ':' :: (Json.Value.object (policy.givenArguments arguments)).render)

/-- The window of a snapshot that the arguments ask for. -/
def read {α : Type} (_policy : ListPolicy) (existing : Option (Snapshot α))
    (arguments : Arguments) : Except CacheError (Option (Snapshot α)) :=
  (Window.ofArguments arguments).map fun window => Snapshot.read existing window

/-- The snapshot after a page that was fetched with the arguments. -/
def merge {α : Type} (_policy : ListPolicy) (existing : Option (Snapshot α))
    (incoming : Option (Page α)) (arguments : Arguments) :
    Except CacheError (Option (Snapshot α)) := do
  let window ← Window.ofArguments arguments
  match incoming.bind Page.items with
  | none => pure ()
  | some items => discard (window.pageStop items.length)
  return Snapshot.merge existing incoming window

end ListPolicy

end PagedCache
