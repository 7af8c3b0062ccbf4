import PagedCache.Proofs.Identity

/-!
# What an entity lacks

A key rule needs certain values at certain places of an entity.  They are looked for one after
the other, and the first place without one is the fault of the entity.
-/

namespace PagedCache

section FirstFailing

variable {β γ ε : Type}

/-- An element is the first one of a list that fails to have a property. -/
def FirstFailing (holds : β → Prop) (list : List β) (failing : β) : Prop :=
  ∃ before after, list = before ++ failing :: after ∧ (∀ earlier ∈ before, holds earlier) ∧
    ¬holds failing

variable {holds : β → Prop} {first failing : β} {front list rest : List β}

theorem not_firstFailing_nil : ¬FirstFailing holds [] failing := by
  rintro ⟨before, after, hlist, -⟩
  simp at hlist

theorem firstFailing_cons :
    FirstFailing holds (first :: rest) failing ↔
      (failing = first ∧ ¬holds first) ∨ (holds first ∧ FirstFailing holds rest failing) := by
  constructor
  · rintro ⟨before, after, hlist, hbefore, hfailing⟩
    cases before with
    | nil =>
        obtain ⟨rfl, rfl⟩ := List.cons.inj hlist
        exact .inl ⟨rfl, hfailing⟩
    | cons head before =>
        obtain ⟨rfl, rfl⟩ := List.cons.inj hlist
        obtain ⟨hfirst, hbefore⟩ := List.forall_mem_cons.mp hbefore
        exact .inr ⟨hfirst, before, after, rfl, hbefore, hfailing⟩
  · rintro (⟨rfl, hfailing⟩ | ⟨hfirst, before, after, rfl, hbefore, hfailing⟩)
    · exact ⟨[], rest, rfl, nofun, hfailing⟩
    · exact ⟨first :: before, after, rfl, List.forall_mem_cons.mpr ⟨hfirst, hbefore⟩, hfailing⟩

theorem firstFailing_append :
    FirstFailing holds (front ++ rest) failing ↔
      FirstFailing holds front failing ∨
        ((∀ element ∈ front, holds element) ∧ FirstFailing holds rest failing) := by
  induction front with
  | nil => simp [not_firstFailing_nil]
  | cons first front ih =>
      rw [List.cons_append, firstFailing_cons, firstFailing_cons, ih, List.forall_mem_cons]
      tauto

theorem firstFailing_map {place : γ → β} {list : List γ} :
    FirstFailing holds (list.map place) failing ↔
      ∃ origin, FirstFailing (holds ∘ place) list origin ∧ failing = place origin := by
  induction list with
  | nil => simp [not_firstFailing_nil]
  | cons first rest ih =>
      simp only [List.map_cons, firstFailing_cons, ih, Function.comp_apply]
      constructor
      · rintro (⟨rfl, hfirst⟩ | ⟨hfirst, origin, horigin, rfl⟩)
        · exact ⟨first, .inl ⟨rfl, hfirst⟩, rfl⟩
        · exact ⟨origin, .inr ⟨hfirst, horigin⟩, rfl⟩
      · rintro ⟨origin, ⟨rfl, hfirst⟩ | ⟨hfirst, horigin⟩, rfl⟩
        · exact .inl ⟨rfl, hfirst⟩
        · exact .inr ⟨hfirst, origin, horigin, rfl⟩

/-- The first failure of two lists is one of the first list, or one of the second list if
there is none in the first. -/
theorem exists_firstFailing_append {claim : β → Prop} :
    (∃ failing, FirstFailing holds (front ++ rest) failing ∧ claim failing) ↔
      (∃ failing, FirstFailing holds front failing ∧ claim failing) ∨
        ((∀ element ∈ front, holds element) ∧
          ∃ failing, FirstFailing holds rest failing ∧ claim failing) := by
  simp only [firstFailing_append, or_and_right, exists_or, and_assoc, exists_and_left]

theorem forall_holds_iff :
    (∀ element ∈ list, holds element) ↔ ∀ failing, ¬FirstFailing holds list failing := by
  induction list with
  | nil => simp [not_firstFailing_nil]
  | cons first rest ih =>
      simp only [List.forall_mem_cons, ih, firstFailing_cons, not_or, not_and, not_not]
      constructor
      · rintro ⟨hfirst, hrest⟩ failing
        exact ⟨fun _ => hfirst, fun _ => hrest failing⟩
      · intro hall
        have hfirst : holds first := (hall first).1 rfl
        exact ⟨hfirst, fun failing => (hall failing).2 hfirst⟩

/-- What is refused for the first failing element is accepted if there is none. -/
theorem exists_ok_iff {result : Except ε γ} {error : β → ε}
    (hresult : ∀ cause, result = .error cause ↔
      ∃ failing, FirstFailing holds list failing ∧ cause = error failing) :
    (∃ value, result = .ok value) ↔ ∀ element ∈ list, holds element := by
  rw [forall_holds_iff]
  cases result with
  | ok value =>
      simp only [Except.ok.injEq, exists_eq', true_iff]
      intro failing hfailing
      exact nomatch (hresult (error failing)).mpr ⟨failing, hfailing, rfl⟩
  | error cause =>
      obtain ⟨failing, hfailing, -⟩ := (hresult cause).mp rfl
      simp only [reduceCtorEq, exists_false, false_iff, not_forall, not_not]
      exact ⟨failing, hfailing⟩

/-- A list is not translated if an item is not, and the first such item says why. -/
theorem mapM_eq_error_iff {translate : β → Except ε γ} {error : ε} :
    list.mapM translate = .error error ↔
      ∃ failing, FirstFailing (fun value => ∃ result, translate value = .ok result) list failing ∧
        translate failing = .error error := by
  induction list with
  | nil => simp [not_firstFailing_nil, pure, Except.pure]
  | cons first rest ih =>
      rw [List.mapM_cons]
      simp only [firstFailing_cons]
      cases hfirst : translate first with
      | error cause => simp [bind, Except.bind, hfirst]
      | ok result =>
          simp only [Except.ok.injEq, exists_eq', not_true_eq_false, and_false, true_and,
            false_or, ← ih]
          cases rest.mapM translate <;> simp [bind, Except.bind, pure, Except.pure]

theorem exists_mapM_eq_ok_iff {translate : β → Except ε γ} :
    (∃ results, list.mapM translate = .ok results) ↔
      ∀ value ∈ list, ∃ result, translate value = .ok result := by
  induction list with
  | nil => simp [pure, Except.pure]
  | cons first rest ih =>
      rw [List.mapM_cons, List.forall_mem_cons, ← ih]
      cases translate first with
      | error cause => simp [bind, Except.bind]
      | ok result =>
          cases rest.mapM translate <;> simp [bind, Except.bind, pure, Except.pure]

end FirstFailing

namespace KeyField

open Json (Value)

/-- A place that has to hold a value: an object if fields of it are asked for, and otherwise
anything but null. -/
structure Demand where
  path : List String
  isInner : Bool

namespace Demand

/-- The demand on an object whose property `name` is under the demand. -/
def within (name : String) (demand : Demand) : Demand :=
  { demand with path := name :: demand.path }

/-- The value has what is demanded. -/
def Met (value : Value) (demand : Demand) : Prop :=
  ∃ found, value.at? demand.path = some found ∧ found ≠ .null ∧
    (demand.isInner → ∃ members, found = .object members)

variable {members inner : Json.Members} {name : String}

theorem met_mk_iff {isInner : Bool} :
    (mk [name] isInner).Met (.object members) ↔
      ∃ found, members.find? name = some found ∧ found ≠ .null ∧
        (isInner → ∃ inner, found = .object inner) := by
  simp [Met, Value.at?]

theorem met_within_iff (hfind : members.find? name = some (.object inner)) (demand : Demand) :
    (demand.within name).Met (.object members) ↔ demand.Met (.object inner) := by
  simp [Met, within, Value.at?, hfind]

end Demand

mutual

/-- The demands of a key field, each before those on its parts. -/
def demands : KeyField → List Demand
  | mk name nested => ⟨[name], !nested.isEmpty⟩ :: (demandsAll nested).map (.within name)

/-- The demands of several key fields, in declared order. -/
def demandsAll : List KeyField → List Demand
  | [] => []
  | field :: rest => demands field ++ demandsAll rest

end

/-- The names along a path with dots between them. -/
def dotted (names : List String) : String :=
  ".".intercalate names

theorem path_dotted {parent : List String} (hparent : "" ∉ parent) (name : String) :
    path (dotted parent) name = dotted (parent ++ [name]) := by
  cases parent with
  | nil => simp [path, dotted]
  | cons first rest =>
      have hfirst : first ≠ "" := fun hempty => hparent (hempty ▸ List.mem_cons_self)
      have hdotted : (dotted (first :: rest)).isEmpty = false := by
        cases rest <;> simp [dotted, String.intercalate_cons_cons, hfirst]
      rw [path, hdotted, if_neg (by decide), dotted, dotted,
        String.intercalate_append_of_ne_nil (by simp) (by simp), String.intercalate_singleton]
      rfl

section Encode

variable {typeName : String} {parent : List String} {members inner : Json.Members}
  {name : String} {first field : KeyField} {nested rest : List KeyField} {error : CacheError}

theorem encode_of_not_met
    (hlacks : ¬(Demand.mk [name] !nested.isEmpty).Met (.object members)) (parent : String) :
    encode typeName parent members (mk name nested) =
      .error (.missingKeyField typeName (path parent name)) := by
  rw [Demand.met_mk_iff] at hlacks
  cases hfind : members.find? name with
  | none => simp only [encode, hfind]
  | some value =>
      cases nested <;> cases value <;> simp_all [encode]

theorem encode_scalar_ne_error (hmet : (Demand.mk [name] false).Met (.object members))
    (parent : String) : encode typeName parent members (mk name []) ≠ .error error := by
  obtain ⟨found, hfind, hnull, -⟩ := Demand.met_mk_iff.mp hmet
  cases found <;> simp_all [encode]

theorem encode_object_eq_error_iff (hfind : members.find? name = some (.object inner))
    (parent : String) :
    encode typeName parent members (mk name (first :: rest)) = .error error ↔
      encode typeName (path parent name) inner first = .error error ∨
        ((∃ text, encode typeName (path parent name) inner first = .ok text) ∧
          encodeRest typeName (path parent name) inner rest = .error error) := by
  rw [encode, hfind]
  dsimp only
  cases encode typeName (path parent name) inner first <;>
    cases encodeRest typeName (path parent name) inner rest <;> simp

theorem encodeRest_cons_eq_error_iff (parent : String) :
    encodeRest typeName parent members (field :: rest) = .error error ↔
      encode typeName parent members field = .error error ∨
        ((∃ text, encode typeName parent members field = .ok text) ∧
          encodeRest typeName parent members rest = .error error) := by
  rw [encodeRest]
  cases encode typeName parent members field <;>
    cases encodeRest typeName parent members rest <;> simp

theorem encodeAll_cons_eq_error_iff :
    encodeAll typeName members (first :: rest) = .error error ↔
      encode typeName "" members first = .error error ∨
        ((∃ text, encode typeName "" members first = .ok text) ∧
          encodeRest typeName "" members rest = .error error) := by
  rw [encodeAll]
  cases encode typeName "" members first <;>
    cases encodeRest typeName "" members rest <;> simp [bind, Except.bind, pure, Except.pure]

theorem firstFailing_demands_iff (hfind : members.find? name = some (.object inner))
    {demand : Demand} :
    FirstFailing (Demand.Met (.object members)) (demands (mk name (first :: rest))) demand ↔
      ∃ origin,
        FirstFailing (Demand.Met (.object inner)) (demands first ++ demandsAll rest) origin ∧
          demand = origin.within name := by
  have hmet : (Demand.mk [name] true).Met (.object members) :=
    Demand.met_mk_iff.mpr ⟨_, hfind, nofun, fun _ => ⟨inner, rfl⟩⟩
  have hwithin : Demand.Met (.object members) ∘ Demand.within name = Demand.Met (.object inner) :=
    funext fun demand => propext (Demand.met_within_iff hfind demand)
  rw [demands, firstFailing_cons, firstFailing_map, hwithin, demandsAll]
  simp [hmet]

mutual

/-- A key field cannot be written if the object lacks something that it demands, and the first
such place is named. -/
theorem encode_eq_error_iff (typeName : String) {parent : List String} (hparent : "" ∉ parent)
    (members : Json.Members) {field : KeyField}
    (hnames : ∀ demand ∈ demands field, "" ∉ demand.path) (error : CacheError) :
    encode typeName (dotted parent) members field = .error error ↔
      ∃ demand, FirstFailing (Demand.Met (.object members)) (demands field) demand ∧
        error = .missingKeyField typeName (dotted (parent ++ demand.path)) := by
  match field with
  | mk name nested =>
      by_cases hmet : (Demand.mk [name] !nested.isEmpty).Met (.object members)
      · match nested with
        | [] =>
            have hscalar : (Demand.mk [name] false).Met (.object members) := hmet
            simp [encode_scalar_ne_error hscalar, demands, demandsAll, firstFailing_cons, hscalar,
              not_firstFailing_nil]
        | first :: rest =>
            obtain ⟨found, hfind, -, hobject⟩ := Demand.met_mk_iff.mp hmet
            obtain ⟨inner, rfl⟩ := hobject rfl
            have hname : "" ∉ parent ++ [name] := by
              have hhere := hnames ⟨[name], true⟩ (by simp [demands])
              simpa [hparent] using hhere
            have hinner : ∀ demand ∈ demands first ++ demandsAll rest, "" ∉ demand.path := by
              intro demand hdemand hempty
              refine hnames (demand.within name) ?_ (List.mem_cons_of_mem _ hempty)
              exact List.mem_cons_of_mem _ (List.mem_map_of_mem hdemand)
            obtain ⟨hfirstNames, hrestNames⟩ := List.forall_mem_append.mp hinner
            have hfirst := encode_eq_error_iff typeName hname inner hfirstNames
            have hrest := encodeRest_eq_error_iff typeName hname inner hrestNames error
            rw [encode_object_eq_error_iff hfind, path_dotted hparent, hfirst,
              exists_ok_iff hfirst, hrest, ← exists_firstFailing_append]
            simp [firstFailing_demands_iff hfind, Demand.within]
      · rw [encode_of_not_met hmet, path_dotted hparent]
        simp [demands, firstFailing_cons, hmet, eq_comm]

theorem encodeRest_eq_error_iff (typeName : String) {parent : List String}
    (hparent : "" ∉ parent) (members : Json.Members) {fields : List KeyField}
    (hnames : ∀ demand ∈ demandsAll fields, "" ∉ demand.path) (error : CacheError) :
    encodeRest typeName (dotted parent) members fields = .error error ↔
      ∃ demand, FirstFailing (Demand.Met (.object members)) (demandsAll fields) demand ∧
        error = .missingKeyField typeName (dotted (parent ++ demand.path)) := by
  match fields with
  | [] => simp [encodeRest, demandsAll, not_firstFailing_nil]
  | field :: rest =>
      obtain ⟨hfieldNames, hrestNames⟩ := List.forall_mem_append.mp hnames
      have hfield := encode_eq_error_iff typeName hparent members hfieldNames
      have hrest := encodeRest_eq_error_iff typeName hparent members hrestNames error
      rw [encodeRest_cons_eq_error_iff, hfield, exists_ok_iff hfield, hrest,
        ← exists_firstFailing_append]
      rfl

end

/-- **The first place where an entity lacks something is named.**  The places are those of the
key fields, in declared order, each before those inside it. -/
theorem encodeAll_eq_error_iff (typeName : String) (members : Json.Members)
    {fields : List KeyField} (hnames : ∀ demand ∈ demandsAll fields, "" ∉ demand.path)
    (error : CacheError) :
    encodeAll typeName members fields = .error error ↔
      ∃ demand, FirstFailing (Demand.Met (.object members)) (demandsAll fields) demand ∧
        error = .missingKeyField typeName (dotted demand.path) := by
  cases fields with
  | nil => simp [encodeAll, demandsAll, not_firstFailing_nil]
  | cons first rest =>
      obtain ⟨hfirstNames, hrestNames⟩ := List.forall_mem_append.mp hnames
      have hempty : "" ∉ ([] : List String) := List.not_mem_nil
      have hfirst := encode_eq_error_iff typeName hempty members hfirstNames
      have hrest := encodeRest_eq_error_iff typeName hempty members hrestNames error
      have hroot : "" = dotted [] := rfl
      rw [encodeAll_cons_eq_error_iff, hroot, hfirst, exists_ok_iff hfirst, hrest,
        ← exists_firstFailing_append]
      rfl

end Encode

end KeyField

namespace KeyRule

open Json (Value)

/-- The object has what the rule needs. -/
def Fits (members : Json.Members) : KeyRule → Prop
  | id =>
    (∃ text, members.find? idProperty = some (.string text)) ∨
      ∃ number, members.find? idProperty = some (.number number)
  | composite fields =>
    ∀ demand ∈ KeyField.demandsAll fields, demand.Met (.object members)

/-- The path leads to the first place where the object lacks what the rule needs. -/
def Lacks (members : Json.Members) (path : List String) : KeyRule → Prop
  | id => ¬id.Fits members ∧ path = [idProperty]
  | composite fields =>
    ∃ demand, FirstFailing (KeyField.Demand.Met (.object members)) (KeyField.demandsAll fields)
      demand ∧ path = demand.path

/-- No field on the way to a demand is without a name. -/
def NamesFields : KeyRule → Prop
  | id => True
  | composite fields => ∀ demand ∈ KeyField.demandsAll fields, "" ∉ demand.path

variable {rule : KeyRule} {members : Json.Members}

theorem identify_eq_error_iff (hnames : rule.NamesFields) (typeName : String)
    (error : CacheError) :
    rule.identify typeName members = .error error ↔
      ∃ path, rule.Lacks members path ∧
        error = .missingKeyField typeName (KeyField.dotted path) := by
  cases rule with
  | id =>
      have hid : KeyField.dotted [idProperty] = idProperty := rfl
      simp only [identify, Lacks, Fits]
      cases members.find? idProperty with
      | none => simp [hid, eq_comm]
      | some value => cases value <;> simp [hid, eq_comm]
  | composite fields =>
      have hmap : (composite fields).identify typeName members = .error error ↔
          KeyField.encodeAll typeName members fields = .error error := by
        rw [identify]
        cases KeyField.encodeAll typeName members fields <;> simp [Except.map]
      rw [hmap, KeyField.encodeAll_eq_error_iff typeName members hnames]
      simp only [Lacks]
      constructor
      · rintro ⟨demand, hdemand, rfl⟩
        exact ⟨demand.path, ⟨demand, hdemand, rfl⟩, rfl⟩
      · rintro ⟨path, ⟨demand, hdemand, rfl⟩, rfl⟩
        exact ⟨demand, hdemand, rfl⟩

theorem exists_lacks_iff : (∃ path, rule.Lacks members path) ↔ ¬rule.Fits members := by
  cases rule with
  | id => simp [Lacks]
  | composite fields =>
      simp only [Fits, forall_holds_iff, not_forall, not_not, Lacks]
      constructor
      · rintro ⟨path, demand, hdemand, -⟩
        exact ⟨demand, hdemand⟩
      · rintro ⟨demand, hdemand⟩
        exact ⟨demand.path, demand, hdemand, rfl⟩

end KeyRule

namespace Registry

open Json (Value)

/-- The key fields that are declared have names. -/
def NamesKeyFields (registry : Registry) : Prop :=
  ∀ typeName, (registry.keyRule typeName).NamesFields

/-- A value can be the item of a list: it is an object that refers to an entity, or that names
its type and has what the key rule of the type needs. -/
def Identifiable (registry : Registry) (item : Value) : Prop :=
  ∃ members : Json.Members, item = .object members ∧
    ((∃ text, members.find? referenceProperty = some (.string text)) ∨
      ∃ typeName, members.find? typenameProperty = some (.string typeName) ∧
        (registry.keyRule typeName).Fits members)

/-- A value neither refers to an entity nor names its type. -/
structure Nameless (item : Value) : Prop where
  noReference : ∀ (members : Json.Members) (text : String), item = .object members →
    members.find? referenceProperty ≠ some (.string text)
  noTypename : ∀ (members : Json.Members) (typeName : String), item = .object members →
    members.find? typenameProperty ≠ some (.string typeName)

/-- Why a value cannot be the item of a list. -/
inductive ItemFault (registry : Registry) : Value → CacheError → Prop where
  | nameless {item : Value} (hnameless : Nameless item) :
      ItemFault registry item .missingTypename
  | lacking {typeName : String} {members : Json.Members} {path : List String}
      (hobject : ObjectOf typeName members)
      (hlacks : (registry.keyRule typeName).Lacks members path) :
      ItemFault registry (.object members)
        (.missingKeyField typeName (KeyField.dotted path))

section

variable {registry : Registry} {item : Value} {members : Json.Members} {typeName : String}

/-- A value is a reference, an object that names its type, or nameless. -/
theorem reference_or_objectOf_or_nameless (item : Value) :
    (∃ (members : Json.Members) (text : String), item = .object members ∧
        members.find? referenceProperty = some (.string text)) ∨
      (∃ typeName members, item = .object members ∧ ObjectOf typeName members) ∨
        Nameless item := by
  by_cases hreference : ∃ (members : Json.Members) (text : String), item = .object members ∧
      members.find? referenceProperty = some (.string text)
  · exact .inl hreference
  by_cases htypename : ∃ (members : Json.Members) (typeName : String), item = .object members ∧
      members.find? typenameProperty = some (.string typeName)
  · obtain ⟨members, typeName, rfl, htypename⟩ := htypename
    refine .inr (.inl ⟨typeName, members, rfl, htypename, fun text htext => ?_⟩)
    exact hreference ⟨members, text, rfl, htext⟩
  · refine .inr (.inr ⟨fun members text hitem htext => ?_, fun members name hitem hname => ?_⟩)
    · exact hreference ⟨members, text, hitem, htext⟩
    · exact htypename ⟨members, name, hitem, hname⟩

theorem identify_of_reference {text : String}
    (htext : members.find? referenceProperty = some (.string text)) :
    registry.identify (.object members) = .ok ⟨text⟩ := by
  simp only [identify, htext]

theorem identify_of_nameless (hnameless : Nameless item) :
    registry.identify item = .error .missingTypename := by
  cases item with
  | object members =>
      rw [identify]
      split
      · rename_i text htext
        exact absurd htext (hnameless.noReference members text rfl)
      · split
        · rename_i typeName htypename
          exact absurd htypename (hnameless.noTypename members typeName rfl)
        · rfl
  | _ => rfl

theorem itemFault_object_iff (hobject : ObjectOf typeName members) {error : CacheError} :
    registry.ItemFault (.object members) error ↔
      ∃ path, (registry.keyRule typeName).Lacks members path ∧
        error = .missingKeyField typeName (KeyField.dotted path) := by
  constructor
  · rintro (hnameless | ⟨hother, hlacks⟩)
    · exact absurd hobject.typename (hnameless.noTypename members typeName rfl)
    · obtain rfl : typeName = _ := by simpa [hobject.typename] using hother.typename
      exact ⟨_, hlacks, rfl⟩
  · rintro ⟨path, hlacks, rfl⟩
    exact .lacking hobject hlacks

/-- **Why an item has no key.** -/
theorem identify_eq_error_iff (hnames : registry.NamesKeyFields) (item : Value)
    (error : CacheError) :
    registry.identify item = .error error ↔ registry.ItemFault item error := by
  obtain ⟨members, text, rfl, htext⟩ | ⟨typeName, members, rfl, hobject⟩ | hnameless :=
    reference_or_objectOf_or_nameless item
  · rw [identify_of_reference htext]
    simp only [reduceCtorEq, false_iff]
    rintro (hnameless | ⟨hobject, -⟩)
    · exact hnameless.noReference members text rfl htext
    · exact hobject.noReference text htext
  · rw [identify_of_objectOf hobject, itemFault_object_iff hobject,
      KeyRule.identify_eq_error_iff (hnames typeName)]
  · rw [identify_of_nameless hnameless, Except.error.injEq]
    constructor
    · rintro rfl
      exact .nameless hnameless
    · rintro (- | ⟨hobject, -⟩)
      · rfl
      · exact absurd hobject.typename (hnameless.noTypename _ _ rfl)

/-- An item has a key exactly if nothing is wrong with it. -/
theorem identifiable_iff_not_itemFault :
    registry.Identifiable item ↔ ∀ error, ¬registry.ItemFault item error := by
  obtain ⟨members, text, rfl, htext⟩ | ⟨typeName, members, rfl, hobject⟩ | hnameless :=
    reference_or_objectOf_or_nameless item
  · refine iff_of_true ⟨members, rfl, .inl ⟨text, htext⟩⟩ ?_
    rintro error (hnameless | ⟨hobject, -⟩)
    · exact hnameless.noReference members text rfl htext
    · exact hobject.noReference text htext
  · have hfits : registry.Identifiable (.object members) ↔
        (registry.keyRule typeName).Fits members := by
      simp [Identifiable, hobject.typename, hobject.noReference]
    rw [hfits, ← not_iff_not, ← KeyRule.exists_lacks_iff]
    simp [itemFault_object_iff hobject]
  · refine iff_of_false ?_ fun hnone => hnone _ (.nameless hnameless)
    rintro ⟨members, rfl, ⟨text, htext⟩ | ⟨typeName, htypename, -⟩⟩
    · exact hnameless.noReference members text rfl htext
    · exact hnameless.noTypename members typeName rfl htypename

theorem exists_identify_eq_ok_iff (hnames : registry.NamesKeyFields) (item : Value) :
    (∃ key, registry.identify item = .ok key) ↔ registry.Identifiable item := by
  simp only [identifiable_iff_not_itemFault, ← identify_eq_error_iff hnames]
  cases registry.identify item <;> simp

end

end Registry

end PagedCache
