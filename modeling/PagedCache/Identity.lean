import PagedCache.Window

/-!
# Entity identity

List items are kept as keys of the entities they are.  A key is the type name, a
colon, and either the `id` of the entity or an object of its key fields.
-/

namespace PagedCache

/-- The property with the type name of an object. -/
def typenameProperty : String := "__typename"

/-- The property with the key of an entity. -/
def referenceProperty : String := "__ref"

/-- The key of an entity. -/
structure EntityKey where
  text : String
  deriving DecidableEq, Repr

namespace EntityKey

/-- What precedes the first colon. -/
def typeName (key : EntityKey) : String :=
  String.ofList (key.text.toList.takeWhile (· ≠ ':'))

/-- The key as an object. -/
def toJson (key : EntityKey) : Json.Value :=
  .object [(referenceProperty, .string key.text)]

/-- The key of an entity of type `typeName` with the given identity. -/
def ofIdentity (typeName : String) (identity : List Char) : EntityKey :=
  ⟨String.ofList (typeName.toList ++ ':' :: identity)⟩

/-- Read a key back: an object with a text at the reference property, or a list of
just that text. -/
def ofJson? : Json.Value → Option EntityKey
  | .object members =>
    match Json.Members.find? members referenceProperty with
    | some (.string text) => some ⟨text⟩
    | _ => none
  | .array [.string text] => some ⟨text⟩
  | _ => none

end EntityKey

/-- A part of a composite identity: a property, or some parts of the object that
it holds. -/
inductive KeyField where
  | mk (name : String) (nested : List KeyField)
  deriving Repr, Inhabited

namespace KeyField

def scalar (name : String) : KeyField :=
  mk name []

def name : KeyField → String
  | mk name _ => name

def nested : KeyField → List KeyField
  | mk _ nested => nested

/-- The place of `name` inside the property at `parent`. -/
def path (parent name : String) : String :=
  if parent.isEmpty then name else s!"{parent}.{name}"

mutual

/-- The text of one key field: its name, and its value or the object of its
nested fields. -/
def encode (typeName parent : String) (members : Json.Members) :
    KeyField → Except CacheError (List Char)
  | mk name nested =>
    match members.find? name with
    | none => .error (.missingKeyField typeName (path parent name))
    | some .null => .error (.missingKeyField typeName (path parent name))
    | some value =>
      match nested with
      | [] => .ok (Json.Quoted.ofString name ++ ':' :: value.render)
      | first :: rest =>
        match value with
        | .object inner =>
          match encode typeName (path parent name) inner first with
          | .error error => .error error
          | .ok head =>
            match encodeRest typeName (path parent name) inner rest with
            | .error error => .error error
            | .ok tail =>
              .ok (Json.Quoted.ofString name ++ ':' :: '{' :: head ++ tail ++ ['}'])
        | _ => .error (.missingKeyField typeName (path parent name))

/-- The texts of further key fields, each after a comma. -/
def encodeRest (typeName parent : String) (members : Json.Members) :
    List KeyField → Except CacheError (List Char)
  | [] => .ok []
  | field :: rest =>
    match encode typeName parent members field with
    | .error error => .error error
    | .ok head =>
      match encodeRest typeName parent members rest with
      | .error error => .error error
      | .ok tail => .ok (',' :: head ++ tail)

end

/-- The object of the key fields, in declared order. -/
def encodeAll (typeName : String) (members : Json.Members) :
    List KeyField → Except CacheError (List Char)
  | [] => .ok ['{', '}']
  | first :: rest => do
    let head ← encode typeName "" members first
    let tail ← encodeRest typeName "" members rest
    return '{' :: head ++ tail ++ ['}']

end KeyField

/-- How the entities of a type are identified. -/
inductive KeyRule where
  /-- By the property `id`. -/
  | id
  /-- By several fields. -/
  | composite (fields : List KeyField)
  deriving Repr, Inhabited

namespace KeyRule

/-- The property that identifies entities without a declaration. -/
def idProperty : String := "id"

/-- The key of an object of the given type. -/
def identify (rule : KeyRule) (typeName : String) (members : Json.Members) :
    Except CacheError EntityKey :=
  match rule with
  | id =>
    match members.find? idProperty with
    | some (.string text) => .ok (EntityKey.ofIdentity typeName text.toList)
    | some (.number value) => .ok (EntityKey.ofIdentity typeName value.text)
    | _ => .error (.missingKeyField typeName idProperty)
  | composite fields =>
    (KeyField.encodeAll typeName members fields).map (EntityKey.ofIdentity typeName)

end KeyRule

end PagedCache
