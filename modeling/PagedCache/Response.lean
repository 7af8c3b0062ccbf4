import PagedCache.Registry

/-!
# Responses

A response is an object with the items of a page under the list property of its
policy and the length of the list under the count property.  Either may be
absent; one that is present has to have the right shape.
-/

namespace PagedCache.Response

/-- The keys of the items under the list property. -/
def decodeItems (registry : Registry) (policy : ListPolicy) (members : Json.Members) :
    Except CacheError (Option (List EntityKey)) :=
  match members.find? policy.listProperty with
  | none => .ok none
  | some .null => .ok none
  | some (.array values) => (values.mapM registry.identify).map some
  | some other =>
    .error (.malformedResponse policy.listProperty (.notArray other.kind))

/-- The number under the count property. -/
def decodeTotal (policy : ListPolicy) (members : Json.Members) :
    Except CacheError (Option Nat) :=
  match members.find? policy.countProperty with
  | none => .ok none
  | some .null => .ok none
  | some value =>
    match value.toWord? with
    | some total => .ok (some total)
    | none => .error (.malformedResponse policy.countProperty (.notCount value.compact))

/-- The properties that the policy does not read. -/
def otherMembers (policy : ListPolicy) (members : Json.Members) : Json.Members :=
  members.filter fun entry =>
    entry.1 != policy.listProperty && entry.1 != policy.countProperty

/-- The page in a response; an absent or null response has none. -/
def decode (registry : Registry) (policy : ListPolicy) (response : Option Json.Value) :
    Except CacheError (Option (Page EntityKey)) :=
  match response with
  | none => .ok none
  | some .null => .ok none
  | some (.object members) => do
    let items ← decodeItems registry policy members
    let total ← decodeTotal policy members
    return some ⟨items, total, otherMembers policy members⟩
  | some other =>
    .error (.malformedResponse policy.listProperty (.notObject other.kind))

/-- One position of a list: a reference, or null for a hole. -/
def encodeItem : Option EntityKey → Json.Value
  | some key => key.toJson
  | none => .null

/-- A list in the shape of a response. -/
def encode (policy : ListPolicy) (list : Snapshot EntityKey) : Json.Value :=
  let counted :=
    match list.total with
    | some total => list.passthrough.insert policy.countProperty (.ofNat total)
    | none => list.passthrough
  .object (counted.insert policy.listProperty (.array (list.items.map encodeItem)))

end PagedCache.Response
