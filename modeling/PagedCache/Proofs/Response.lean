import PagedCache.Response
import PagedCache.Proofs.Cache.Step
import PagedCache.Proofs.OrderedEntries

/-!
# Responses and pages

What a page takes from a response, and what a response shows of a list.  A list without
holes is a page in the shape of a response: the page is read back from it.
-/

namespace PagedCache

open Json (Value Members)

/-- A list is translated if every item is. -/
theorem mapM_eq_ok_iff {β γ : Type} {translate : β → Except CacheError γ} {values : List β}
    {results : List γ} :
    values.mapM translate = .ok results ↔
      List.Forall₂ (fun value result => translate value = .ok result) values results := by
  induction values generalizing results with
  | nil => cases results <;> simp [pure, Except.pure]
  | cons value rest ih =>
      rw [List.mapM_cons]
      cases hvalue : translate value with
      | error error => cases results <;> simp [bind, Except.bind, hvalue]
      | ok result =>
          cases hrest : rest.mapM translate with
          | error error =>
              cases results <;> simp [bind, Except.bind, ← ih, hrest, hvalue]
          | ok later =>
              cases results <;>
                simp [bind, Except.bind, pure, Except.pure, ← ih, hrest, hvalue]

namespace Json.Value

theorem toWord?_eq_some_iff {value : Value} {word : Nat} :
    value.toWord? = some word ↔ value = ofNat word ∧ word < Literal.wordBound := by
  constructor
  · intro hword
    cases value with
    | number number =>
        cases number with
        | integer whole =>
            cases whole with
            | ofNat found =>
                simp only [toWord?, Number.toWord?] at hword
                split at hword <;> cases hword
                exact ⟨rfl, ‹_›⟩
            | negSucc => cases hword
        | binary64 => cases hword
    | null | bool | string | array | object => cases hword
  · rintro ⟨rfl, hbound⟩
    exact if_pos hbound

end Json.Value

/-- A reference is the key that it names. -/
theorem Registry.identify_toJson (registry : Registry) (key : EntityKey) :
    registry.identify key.toJson = .ok key :=
  rfl

namespace Response

variable {registry : Registry} {policy : ListPolicy} {members : Members}

/-! ## Decoding -/

/-- What a response says of the length of the list. -/
def givenCount? (policy : ListPolicy) (members : Members) : Option Value :=
  match members.find? policy.countProperty with
  | none | some .null => none
  | some value => some value

theorem decodeTotal_eq (policy : ListPolicy) (members : Members) :
    decodeTotal policy members =
      match givenCount? policy members with
      | none => .ok none
      | some value =>
        match value.toWord? with
        | some total => .ok (some total)
        | none => .error (.malformedResponse policy.countProperty (.notCount value.compact)) := by
  unfold decodeTotal givenCount?
  cases members.find? policy.countProperty with
  | none => rfl
  | some value => cases value <;> rfl

theorem decodeTotal_eq_ok_iff {total : Option Nat} :
    decodeTotal policy members = .ok total ↔
      givenCount? policy members = total.map Value.ofNat ∧
        ∀ count ∈ total, count < Json.Literal.wordBound := by
  rw [decodeTotal_eq]
  cases hgiven : givenCount? policy members with
  | none => cases total <;> simp
  | some value =>
      cases total with
      | none => cases hword : value.toWord? <;> simp [hword]
      | some count =>
          simp only [Option.map_some, Option.some.injEq, Option.mem_def, forall_eq']
          rw [← Value.toWord?_eq_some_iff]
          cases value.toWord? <;> simp

/-- The items of a response with a list are the keys of the list. -/
theorem decodeItems_eq_ok_iff {values : List Value} {items : Option (List EntityKey)}
    (hvalues : members.find? policy.listProperty = some (.array values)) :
    decodeItems registry policy members = .ok items ↔
      ∃ keys, items = some keys ∧
        List.Forall₂ (fun value key => registry.identify value = .ok key) values keys := by
  simp only [decodeItems, hvalues, ← mapM_eq_ok_iff]
  cases values.mapM registry.identify <;> simp [Except.map, eq_comm]

theorem decode_object_eq_ok_iff {incoming : Option (Page EntityKey)} :
    decode registry policy (some (.object members)) = .ok incoming ↔
      ∃ items total, decodeItems registry policy members = .ok items ∧
        decodeTotal policy members = .ok total ∧
          incoming = some ⟨items, total, otherMembers policy members⟩ := by
  simp only [decode]
  cases decodeItems registry policy members with
  | error error => simp [bind, Except.bind]
  | ok items =>
      cases decodeTotal policy members with
      | error error => simp [bind, Except.bind]
      | ok total => simp [bind, Except.bind, pure, Except.pure, eq_comm]

theorem find?_otherMembers (policy : ListPolicy) (members : Members) (name : String) :
    (otherMembers policy members).find? name =
      if name ≠ policy.listProperty ∧ name ≠ policy.countProperty then members.find? name
      else none := by
  have hlookup := lookup_filter_key
    (fun other => other != policy.listProperty && other != policy.countProperty) members name
  simp only [Bool.and_eq_true, bne_iff_ne] at hlookup
  exact hlookup

theorem otherMembers_otherMembers (policy : ListPolicy) (members : Members) :
    otherMembers policy (otherMembers policy members) = otherMembers policy members :=
  List.filter_filter .. |>.trans (by simp only [Bool.and_self]; rfl)

/-! ## Encoding -/

/-- The members of a list in the shape of a response. -/
def encodedMembers (policy : ListPolicy) (list : Snapshot EntityKey) : Members :=
  let counted :=
    match list.total with
    | some total => list.passthrough.insert policy.countProperty (.ofNat total)
    | none => list.passthrough
  counted.insert policy.listProperty (.array (list.items.map encodeItem))

theorem encode_eq (policy : ListPolicy) (list : Snapshot EntityKey) :
    encode policy list = .object (encodedMembers policy list) :=
  rfl

theorem find?_encodedMembers_list (policy : ListPolicy) (list : Snapshot EntityKey) :
    (encodedMembers policy list).find? policy.listProperty =
      some (.array (list.items.map encodeItem)) :=
  OrderedEntries.find?_insert_self _ _ _

theorem find?_encodedMembers_count (list : Snapshot EntityKey)
    (hdistinct : policy.listProperty ≠ policy.countProperty) :
    (encodedMembers policy list).find? policy.countProperty =
      (list.total.map Value.ofNat).or (list.passthrough.find? policy.countProperty) := by
  refine (OrderedEntries.find?_insert_of_ne hdistinct.symm _ _).trans ?_
  cases list.total with
  | none => rfl
  | some total => exact OrderedEntries.find?_insert_self _ _ _

theorem find?_encodedMembers_of_ne (list : Snapshot EntityKey) {name : String}
    (hlist : name ≠ policy.listProperty) (hcount : name ≠ policy.countProperty) :
    (encodedMembers policy list).find? name = list.passthrough.find? name := by
  refine (OrderedEntries.find?_insert_of_ne hlist _ _).trans ?_
  cases list.total with
  | none => rfl
  | some total => exact OrderedEntries.find?_insert_of_ne hcount _ _

theorem ascending_encodedMembers (policy : ListPolicy) {list : Snapshot EntityKey}
    (hothers : OrderedEntries.Ascending list.passthrough) :
    OrderedEntries.Ascending (encodedMembers policy list) := by
  apply OrderedEntries.ascending_insert
  cases list.total with
  | none => exact hothers
  | some total => exact OrderedEntries.ascending_insert hothers _ _

theorem otherMembers_encodedMembers (policy : ListPolicy) (list : Snapshot EntityKey) :
    otherMembers policy (encodedMembers policy list) = otherMembers policy list.passthrough := by
  refine (OrderedEntries.filter_insert (by simp) _ _).trans ?_
  cases list.total with
  | none => rfl
  | some total => exact OrderedEntries.filter_insert (by simp) _ _

/-! ## Decoding what was encoded -/

/-- **A list without holes is its own page.**  Decoding its encoding gives back its keys,
its length, and the other properties, provided that these could be other properties. -/
theorem decode_encode (registry : Registry) {list : Snapshot EntityKey}
    {keys : List EntityKey} (hdistinct : policy.listProperty ≠ policy.countProperty)
    (hkeys : list.items = keys.map some)
    (htotal : ∀ total ∈ list.total, total < Json.Literal.wordBound)
    (hothers : otherMembers policy list.passthrough = list.passthrough) :
    decode registry policy (some (encode policy list)) =
      .ok (some ⟨some keys, list.total, list.passthrough⟩) := by
  have hitems : decodeItems registry policy (encodedMembers policy list) = .ok (some keys) := by
    refine (decodeItems_eq_ok_iff (find?_encodedMembers_list policy list)).mpr ⟨keys, rfl, ?_⟩
    rw [hkeys, List.map_map, List.forall₂_map_left_iff]
    exact List.forall₂_same.mpr fun key _ => registry.identify_toJson key
  have hcount : givenCount? policy (encodedMembers policy list) = list.total.map Value.ofNat := by
    have hnone : list.passthrough.find? policy.countProperty = none := by
      rw [← hothers, find?_otherMembers]
      simp
    rw [givenCount?, find?_encodedMembers_count list hdistinct, hnone, Option.or_none]
    cases list.total <;> rfl
  rw [encode_eq, decode_object_eq_ok_iff]
  refine ⟨_, _, hitems, decodeTotal_eq_ok_iff.mpr ⟨hcount, htotal⟩, ?_⟩
  rw [otherMembers_encodedMembers, hothers]

end Response

end PagedCache
