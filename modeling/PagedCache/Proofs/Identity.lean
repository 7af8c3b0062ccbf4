import PagedCache.Registry
import PagedCache.Proofs.Json.Documents
import PagedCache.Proofs.Json.MemberOrder

/-!
# Keys tell entities apart

A composite key is the text of an object: the part of the entity that the key fields
select, in declared order.  The text determines that part, and the part is determined by
the values at the ends of the key fields.
-/

namespace PagedCache

namespace Json.Value

/-- The value at a path of property names, each inside the object at the one before. -/
def at? : Value → List String → Option Value
  | value, [] => some value
  | .object members, name :: path => (Members.find? members name).bind fun inner => inner.at? path
  | _, _ :: _ => none

theorem sortedNames_of_at? {value inner : Value} {path : List String}
    (hsorted : value.SortedNames) (hinner : value.at? path = some inner) :
    inner.SortedNames := by
  induction path generalizing value with
  | nil =>
      rw [at?, Option.some.injEq] at hinner
      exact hinner ▸ hsorted
  | cons name path ih =>
      cases value with
      | object members =>
          obtain ⟨middle, hmiddle, hinner⟩ := Option.bind_eq_some_iff.mp hinner
          exact ih (sortedNames_of_find? hsorted hmiddle) hinner
      | _ => cases hinner

/-- The text of one member. -/
def memberText (member : String × Value) : List Char :=
  Quoted.ofString member.1 ++ ':' :: member.2.render

theorem renderMembers_cons (member : String × Value) (rest : List (String × Value)) :
    renderMembers (member :: rest) =
      memberText member ++ rest.flatMap fun next => ',' :: memberText next := by
  induction rest generalizing member with
  | nil => simp [renderMembers, memberText]
  | cons next rest ih =>
      rw [List.flatMap_cons, List.cons_append, ← ih next]
      simp [renderMembers, memberText]

end Json.Value

namespace KeyField

open Json (Value)
open Json.Value (memberText)

/-! ## What key fields select -/

mutual

/-- What a key field selects of an object: a property that is not null, with the part of
it that the nested fields select if there are any. -/
def select? (members : Json.Members) : KeyField → Option (String × Value)
  | mk name nested =>
    match members.find? name with
    | none => none
    | some .null => none
    | some value =>
      if nested.isEmpty then some (name, value)
      else
        match value with
        | .object inner =>
          (selectAll? inner nested).map fun selected => (name, .object selected)
        | _ => none

/-- What several key fields select, in declared order. -/
def selectAll? (members : Json.Members) : List KeyField → Option Json.Members
  | [] => some []
  | field :: rest =>
    (select? members field).bind fun selected =>
      (selectAll? members rest).map (selected :: ·)

end

mutual

/-- The paths to the properties at the ends of a key field. -/
def paths : KeyField → List (List String)
  | mk name nested => if nested.isEmpty then [[name]] else (pathsAll nested).map (name :: ·)

/-- The paths to the properties at the ends of several key fields. -/
def pathsAll : List KeyField → List (List String)
  | [] => []
  | field :: rest => paths field ++ pathsAll rest

end

/-! ## What key fields are written as -/

theorem toOption_encode_object (typeName parent : String) {members inner : Json.Members}
    {name : String} (hfind : members.find? name = some (.object inner)) (first : KeyField)
    (rest : List KeyField) :
    (encode typeName parent members (mk name (first :: rest))).toOption =
      (encode typeName (path parent name) inner first).toOption.bind fun head =>
        (encodeRest typeName (path parent name) inner rest).toOption.map fun tail =>
          Json.Quoted.ofString name ++ ':' :: '{' :: head ++ tail ++ ['}'] := by
  rw [encode, hfind]
  dsimp only
  cases encode typeName (path parent name) inner first <;>
    cases encodeRest typeName (path parent name) inner rest <;> rfl

theorem toOption_encodeRest_cons (typeName parent : String) (members : Json.Members)
    (field : KeyField) (rest : List KeyField) :
    (encodeRest typeName parent members (field :: rest)).toOption =
      (encode typeName parent members field).toOption.bind fun head =>
        (encodeRest typeName parent members rest).toOption.map fun tail =>
          ',' :: head ++ tail := by
  rw [encodeRest]
  cases encode typeName parent members field <;>
    cases encodeRest typeName parent members rest <;> rfl

theorem toOption_encodeAll_cons (typeName : String) (members : Json.Members)
    (first : KeyField) (rest : List KeyField) :
    (encodeAll typeName members (first :: rest)).toOption =
      (encode typeName "" members first).toOption.bind fun head =>
        (encodeRest typeName "" members rest).toOption.map fun tail =>
          '{' :: head ++ tail ++ ['}'] := by
  rw [encodeAll]
  cases encode typeName "" members first <;>
    cases encodeRest typeName "" members rest <;> rfl

mutual

/-- The text of a key field is that of the member that it selects. -/
theorem toOption_encode (typeName parent : String) (members : Json.Members)
    (field : KeyField) :
    (encode typeName parent members field).toOption =
      (select? members field).map memberText := by
  match field with
  | mk name nested =>
      cases hfind : members.find? name with
      | none => simp only [encode, select?, hfind, Except.toOption, Option.map_none]
      | some value =>
          match nested, value with
          | [], value =>
              rw [encode, select?, hfind]
              cases value <;> rfl
          | first :: rest, .object inner =>
              -- the place in the object is for the messages of errors only
              have hfirst := toOption_encode typeName (path parent name) inner first
              have hrest := toOption_encodeRest typeName (path parent name) inner rest
              rw [toOption_encode_object typeName parent hfind, hfirst, hrest, select?, hfind]
              simp only [List.isEmpty_cons, Bool.false_eq_true, if_false, selectAll?]
              cases select? inner first <;> cases selectAll? inner rest <;>
                simp [memberText, Json.Value.render, Json.Value.renderMembers_cons]
          | _ :: _, .null | _ :: _, .bool _ | _ :: _, .number _ | _ :: _, .string _
          | _ :: _, .array _ =>
              rw [encode, select?, hfind]
              rfl

/-- The texts of further key fields are those of the members that they select. -/
theorem toOption_encodeRest (typeName parent : String) (members : Json.Members)
    (fields : List KeyField) :
    (encodeRest typeName parent members fields).toOption =
      (selectAll? members fields).map
        (·.flatMap fun selected => ',' :: memberText selected) := by
  match fields with
  | [] => rfl
  | field :: rest =>
      have hfield := toOption_encode typeName parent members field
      have hrest := toOption_encodeRest typeName parent members rest
      rw [toOption_encodeRest_cons, hfield, hrest, selectAll?]
      cases select? members field <;> cases selectAll? members rest <;> simp

end

/-- **A composite identity is the text of what the key fields select.** -/
theorem toOption_encodeAll (typeName : String) (members : Json.Members)
    (fields : List KeyField) :
    (encodeAll typeName members fields).toOption =
      (selectAll? members fields).map fun selected => (Value.object selected).render := by
  cases fields with
  | nil => rfl
  | cons first rest =>
      rw [toOption_encodeAll_cons, toOption_encode, toOption_encodeRest, selectAll?]
      cases select? members first <;> cases selectAll? members rest <;>
        simp [Json.Value.render, Json.Value.renderMembers_cons]

/-! ## Values at the ends of key fields -/

theorem select?_scalar_eq_some_iff {members : Json.Members} {name : String}
    {member : String × Value} :
    select? members (mk name []) = some member ↔
      ∃ value, members.find? name = some value ∧ value ≠ .null ∧ member = (name, value) := by
  rw [select?]
  cases members.find? name with
  | none => simp
  | some value => cases value <;> simp [eq_comm]

theorem select?_nested_eq_some_iff {members : Json.Members} {name : String}
    {first : KeyField} {rest : List KeyField} {member : String × Value} :
    select? members (mk name (first :: rest)) = some member ↔
      ∃ inner selected, members.find? name = some (.object inner) ∧
        selectAll? inner (first :: rest) = some selected ∧
          member = (name, .object selected) := by
  rw [select?]
  cases members.find? name with
  | none => simp
  | some value => cases value <;> simp [eq_comm]

mutual

/-- What a key field selects of two objects is the same exactly if they have the same
values at the ends of the field. -/
theorem select?_eq_iff {left right : Json.Members} {field : KeyField}
    {leftMember rightMember : String × Value}
    (hleft : select? left field = some leftMember)
    (hright : select? right field = some rightMember) :
    leftMember = rightMember ↔
      ∀ path ∈ field.paths, (Value.object left).at? path = (Value.object right).at? path := by
  match field with
  | mk name [] =>
      obtain ⟨leftValue, hleftFind, -, rfl⟩ := select?_scalar_eq_some_iff.mp hleft
      obtain ⟨rightValue, hrightFind, -, rfl⟩ := select?_scalar_eq_some_iff.mp hright
      simp [paths, Value.at?, hleftFind, hrightFind]
  | mk name (first :: rest) =>
      obtain ⟨leftInner, leftPart, hleftFind, hleftPart, rfl⟩ :=
        select?_nested_eq_some_iff.mp hleft
      obtain ⟨rightInner, rightPart, hrightFind, hrightPart, rfl⟩ :=
        select?_nested_eq_some_iff.mp hright
      have hparts := selectAll?_eq_iff hleftPart hrightPart
      simp [paths, Value.at?, hleftFind, hrightFind, hparts]

/-- What several key fields select is the same exactly if the values at all of their ends
are. -/
theorem selectAll?_eq_iff {left right : Json.Members} {fields : List KeyField}
    {leftMembers rightMembers : Json.Members}
    (hleft : selectAll? left fields = some leftMembers)
    (hright : selectAll? right fields = some rightMembers) :
    leftMembers = rightMembers ↔
      ∀ path ∈ pathsAll fields,
        (Value.object left).at? path = (Value.object right).at? path := by
  match fields with
  | [] =>
      cases hleft
      cases hright
      simp [pathsAll]
  | field :: rest =>
      simp only [selectAll?, Option.bind_eq_some_iff, Option.map_eq_some_iff] at hleft hright
      obtain ⟨leftFirst, hleftFirst, leftRest, hleftRest, rfl⟩ := hleft
      obtain ⟨rightFirst, hrightFirst, rightRest, hrightRest, rfl⟩ := hright
      have hfirst := select?_eq_iff hleftFirst hrightFirst
      have hrest := selectAll?_eq_iff hleftRest hrightRest
      simp only [pathsAll, List.mem_append, or_imp, forall_and, List.cons.injEq, hfirst, hrest]

end

/-- **Composite identities tell apart what differs at the end of a key field.** -/
theorem encodeAll_eq_iff {typeName otherName : String} {left right : Json.Members}
    {fields : List KeyField} {leftText rightText : List Char}
    (hleft : encodeAll typeName left fields = .ok leftText)
    (hright : encodeAll otherName right fields = .ok rightText) :
    leftText = rightText ↔
      ∀ path ∈ pathsAll fields,
        (Value.object left).at? path = (Value.object right).at? path := by
  have hleftText := toOption_encodeAll typeName left fields
  have hrightText := toOption_encodeAll otherName right fields
  rw [hleft] at hleftText
  rw [hright] at hrightText
  obtain ⟨leftPart, hleftPart, rfl⟩ := Option.map_eq_some_iff.mp hleftText.symm
  obtain ⟨rightPart, hrightPart, rfl⟩ := Option.map_eq_some_iff.mp hrightText.symm
  rw [Json.Value.render_injective.eq_iff, Value.object.injEq,
    selectAll?_eq_iff hleftPart hrightPart]

end KeyField

namespace EntityKey

/-- The type is read back from a key. -/
theorem typeName_ofIdentity {typeName : String} (htype : ':' ∉ typeName.toList)
    (identity : List Char) : (ofIdentity typeName identity).typeName = typeName := by
  have hletters : ∀ char ∈ typeName.toList, decide (char ≠ ':') = true := by
    intro char hchar
    exact decide_eq_true (ne_of_mem_of_not_mem hchar htype)
  rw [EntityKey.typeName, ofIdentity, String.toList_ofList,
    List.takeWhile_append_of_pos hletters]
  simp

theorem ofIdentity_eq_iff {leftType rightType : String} {leftIdentity rightIdentity : List Char}
    (hleft : ':' ∉ leftType.toList) (hright : ':' ∉ rightType.toList) :
    ofIdentity leftType leftIdentity = ofIdentity rightType rightIdentity ↔
      leftType = rightType ∧ leftIdentity = rightIdentity := by
  constructor
  · intro hkey
    have htype : leftType = rightType := by
      rw [← typeName_ofIdentity hleft leftIdentity, hkey, typeName_ofIdentity hright]
    subst htype
    have htext := congrArg (fun key => key.text.toList) hkey
    simp only [ofIdentity, String.toList_ofList, List.append_cancel_left_eq,
      List.cons.injEq, true_and] at htext
    exact ⟨rfl, htext⟩
  · rintro ⟨rfl, rfl⟩
    rfl

end EntityKey

namespace KeyRule

open Json (Value)

/-- The text of an identifier: a string is its own text, and a number has its JSON text. -/
def idText? (members : Json.Members) : Option (List Char) :=
  match members.find? idProperty with
  | some (.string text) => some text.toList
  | some (.number value) => some value.text
  | _ => none

/-- Two objects are the same entity under a rule: their identifiers have the same text, or
they have the same values at the ends of all key fields. -/
def SameEntity (left right : Json.Members) : KeyRule → Prop
  | id => idText? left = idText? right
  | composite fields =>
    ∀ path ∈ KeyField.pathsAll fields,
      Option.Rel Value.Reordered ((Value.object left).at? path) ((Value.object right).at? path)

theorem identify_id_eq_ok_iff {typeName : String} {members : Json.Members} {key : EntityKey} :
    id.identify typeName members = .ok key ↔
      ∃ text, idText? members = some text ∧ key = EntityKey.ofIdentity typeName text := by
  rw [identify, idText?]
  cases members.find? idProperty with
  | none => simp
  | some value => cases value <;> simp [eq_comm]

theorem identify_composite_eq_ok_iff {typeName : String} {members : Json.Members}
    {fields : List KeyField} {key : EntityKey} :
    (composite fields).identify typeName members = .ok key ↔
      ∃ text, KeyField.encodeAll typeName members fields = .ok text ∧
        key = EntityKey.ofIdentity typeName text := by
  rw [identify]
  cases KeyField.encodeAll typeName members fields <;> simp [Except.map, eq_comm]

/-- A key is the type and an identity. -/
theorem exists_eq_ofIdentity {rule : KeyRule} {typeName : String} {members : Json.Members}
    {key : EntityKey} (hkey : rule.identify typeName members = .ok key) :
    ∃ identity, key = EntityKey.ofIdentity typeName identity := by
  cases rule with
  | id =>
      obtain ⟨text, -, rfl⟩ := identify_id_eq_ok_iff.mp hkey
      exact ⟨text, rfl⟩
  | composite fields =>
      obtain ⟨text, -, rfl⟩ := identify_composite_eq_ok_iff.mp hkey
      exact ⟨text, rfl⟩

/-- Entities of one type have the same key exactly if they are the same. -/
theorem identify_eq_iff_sameEntity {rule : KeyRule} {typeName : String} {left right : Json.Members}
    {leftKey rightKey : EntityKey} (htype : ':' ∉ typeName.toList)
    (hleftSorted : (Value.object left).SortedNames)
    (hrightSorted : (Value.object right).SortedNames)
    (hleft : rule.identify typeName left = .ok leftKey)
    (hright : rule.identify typeName right = .ok rightKey) :
    leftKey = rightKey ↔ rule.SameEntity left right := by
  cases rule with
  | id =>
      obtain ⟨leftText, hleftText, rfl⟩ := identify_id_eq_ok_iff.mp hleft
      obtain ⟨rightText, hrightText, rfl⟩ := identify_id_eq_ok_iff.mp hright
      rw [EntityKey.ofIdentity_eq_iff htype htype, SameEntity, hleftText, hrightText]
      simp
  | composite fields =>
      obtain ⟨leftText, hleftText, rfl⟩ := identify_composite_eq_ok_iff.mp hleft
      obtain ⟨rightText, hrightText, rfl⟩ := identify_composite_eq_ok_iff.mp hright
      rw [EntityKey.ofIdentity_eq_iff htype htype, SameEntity,
        KeyField.encodeAll_eq_iff hleftText hrightText]
      have hvalue : ∀ path, Option.Rel Value.Reordered ((Value.object left).at? path)
          ((Value.object right).at? path) ↔
            (Value.object left).at? path = (Value.object right).at? path := by
        intro path
        exact Value.rel_reordered_iff_eq
          (fun value hvalue => Value.sortedNames_of_at? hleftSorted hvalue)
          (fun value hvalue => Value.sortedNames_of_at? hrightSorted hvalue)
      simp only [hvalue, true_and]

end KeyRule

namespace Registry

open Json (Value)

/-- The members of an object that names its type and is no reference. -/
structure ObjectOf (typeName : String) (members : Json.Members) : Prop where
  typename : members.find? typenameProperty = some (.string typeName)
  noReference : ∀ text, members.find? referenceProperty ≠ some (.string text)

/-- An object is identified by the rule of its type. -/
theorem identify_of_objectOf {registry : Registry} {typeName : String} {members : Json.Members}
    (hobject : ObjectOf typeName members) :
    registry.identify (.object members) =
      (registry.keyRule typeName).identify typeName members := by
  rw [identify]
  split
  · rename_i text htext
    exact absurd htext (hobject.noReference text)
  · simp only [hobject.typename]

/-- **Keys tell entities apart, and nothing else.**  Let two list items be objects that name
their types.  They have the same key if and only if they have the same type and are the
same entity under its key rule, whatever else they hold.  The type can be read off the
key. -/
theorem identify_eq_iff {registry : Registry} {leftType rightType : String}
    {left right : Json.Members} {leftKey rightKey : EntityKey}
    (hleftObject : ObjectOf leftType left) (hrightObject : ObjectOf rightType right)
    (hleftType : ':' ∉ leftType.toList) (hrightType : ':' ∉ rightType.toList)
    (hleftSorted : (Value.object left).SortedNames)
    (hrightSorted : (Value.object right).SortedNames)
    (hleft : registry.identify (.object left) = .ok leftKey)
    (hright : registry.identify (.object right) = .ok rightKey) :
    (leftKey = rightKey ↔
        leftType = rightType ∧ (registry.keyRule leftType).SameEntity left right) ∧
      leftKey.typeName = leftType ∧ rightKey.typeName = rightType := by
  rw [identify_of_objectOf hleftObject] at hleft
  rw [identify_of_objectOf hrightObject] at hright
  have hleftName : leftKey.typeName = leftType := by
    obtain ⟨identity, rfl⟩ := KeyRule.exists_eq_ofIdentity hleft
    exact EntityKey.typeName_ofIdentity hleftType identity
  have hrightName : rightKey.typeName = rightType := by
    obtain ⟨identity, rfl⟩ := KeyRule.exists_eq_ofIdentity hright
    exact EntityKey.typeName_ofIdentity hrightType identity
  refine ⟨?_, hleftName, hrightName⟩
  constructor
  · intro hkey
    have htype : leftType = rightType := by rw [← hleftName, hkey, hrightName]
    subst htype
    exact ⟨rfl, (KeyRule.identify_eq_iff_sameEntity hleftType hleftSorted hrightSorted hleft
      hright).mp hkey⟩
  · rintro ⟨rfl, hsame⟩
    exact (KeyRule.identify_eq_iff_sameEntity hleftType hleftSorted hrightSorted hleft
      hright).mpr hsame

/-- A row is what a silo and a name identify. -/
def rowRegistry : Registry :=
  ⟨[], [("Row", .composite [.mk "silo" [.scalar "id"], .scalar "name"])]⟩

/-- Two states of one row, with a name that looks like a further key field. -/
theorem identify_eq_iff_relabelledRow :
    let left : Json.Members :=
      [("__typename", .string "Row"), ("name", .string "a\",\"id\":\"b"), ("rank", .ofNat 1),
       ("silo", .object [("id", .ofNat 7), ("label", .string "old")])]
    let right : Json.Members :=
      [("__typename", .string "Row"), ("name", .string "a\",\"id\":\"b"),
       ("silo", .object [("id", .ofNat 7), ("label", .string "new")])]
    ∃ leftKey rightKey, rowRegistry.identify (.object left) = .ok leftKey ∧
      rowRegistry.identify (.object right) = .ok rightKey ∧ leftKey = rightKey ∧
        leftKey.typeName = "Row" := by
  intro left right
  have hleftObject : ObjectOf "Row" left := ⟨rfl, fun _ => nofun⟩
  have hrightObject : ObjectOf "Row" right := ⟨rfl, fun _ => nofun⟩
  have htype : ':' ∉ "Row".toList := by decide
  have hleftSorted : (Value.object left).SortedNames := by decide
  have hrightSorted : (Value.object right).SortedNames := by decide
  have hleft : rowRegistry.identify (.object left) = .ok _ := rfl
  have hright : rowRegistry.identify (.object right) = .ok _ := rfl
  obtain ⟨hiff, hname, -⟩ := identify_eq_iff hleftObject hrightObject htype htype hleftSorted
    hrightSorted hleft hright
  refine ⟨_, _, hleft, hright, hiff.mpr ⟨rfl, ?_⟩, hname⟩
  -- the name and the number of the silo are all that counts
  have hends : ∀ path ∈ [["silo", "id"], ["name"]], Option.Rel Value.Reordered
      ((Value.object left).at? path) ((Value.object right).at? path) := by
    simp only [List.forall_mem_cons]
    exact ⟨.some (.refl (.ofNat 7)), .some (.refl _), nofun⟩
  exact hends

end Registry

end PagedCache
