import PagedCache.Proofs.Identity.Demands
import PagedCache.Proofs.Response

/-!
# Well-formed responses

Which responses have a page, what is in it, and why the others have none.  The list is looked at
before the count, and of the items the first one without a key is the fault.
-/

namespace PagedCache.Response

open Json (Value Members)

/-- A property that is not there, or null. -/
def Missing (members : Members) (name : String) : Prop :=
  ∀ value, members.find? name = some value → value = .null

/-- If a response has a list, that is an array of items with keys. -/
def ListFits (registry : Registry) (policy : ListPolicy) (members : Members) : Prop :=
  Missing members policy.listProperty ∨
    ∃ items, members.find? policy.listProperty = some (.array items) ∧
      ∀ item ∈ items, registry.Identifiable item

/-- If a response has a count, that is a natural number of 64 bits. -/
def CountFits (policy : ListPolicy) (members : Members) : Prop :=
  Missing members policy.countProperty ∨
    ∃ count < 2 ^ 64, members.find? policy.countProperty = some (.ofNat count)

/-- A response from which a page can be read. -/
def WellFormed (registry : Registry) (policy : ListPolicy) (response : Value) : Prop :=
  ∃ members, response = .object members ∧ ListFits registry policy members ∧
    CountFits policy members

/-- What is wrong with the list of a response. -/
inductive ListFault (registry : Registry) (policy : ListPolicy) (members : Members) :
    CacheError → Prop where
  | notArray {value : Value} (hvalue : members.find? policy.listProperty = some value)
      (hnull : value ≠ .null) (harray : ∀ items, value ≠ .array items) :
      ListFault registry policy members
        (.malformedResponse policy.listProperty (.notArray value.kind))
  | item {items : List Value} {item : Value} {error : CacheError}
      (hitems : members.find? policy.listProperty = some (.array items))
      (hfirst : FirstFailing registry.Identifiable items item)
      (hfault : registry.ItemFault item error) : ListFault registry policy members error

/-- What is wrong with the count of a response. -/
inductive CountFault (policy : ListPolicy) (members : Members) : CacheError → Prop where
  | notCount {value : Value} (hvalue : members.find? policy.countProperty = some value)
      (hnull : value ≠ .null) (hcount : ∀ count < 2 ^ 64, value ≠ .ofNat count) :
      CountFault policy members
        (.malformedResponse policy.countProperty (.notCount value.compact))

/-- The first thing that is wrong with a response. -/
inductive Fault (registry : Registry) (policy : ListPolicy) : Value → CacheError → Prop where
  | notObject {response : Value} (hobject : ∀ members, response ≠ .object members) :
      Fault registry policy response
        (.malformedResponse policy.listProperty (.notObject response.kind))
  | list {members : Members} {error : CacheError}
      (hlist : ListFault registry policy members error) :
      Fault registry policy (.object members) error
  | count {members : Members} {error : CacheError} (hlist : ListFits registry policy members)
      (hcount : CountFault policy members error) :
      Fault registry policy (.object members) error

/-- What a page has of a response. -/
structure Shows (registry : Registry) (policy : ListPolicy) (members : Members)
    (page : Page EntityKey) : Prop where
  /-- The keys have the number and the order of the items. -/
  items : ∀ values, members.find? policy.listProperty = some (.array values) →
    ∃ keys, page.items = some keys ∧
      List.Forall₂ (fun value key => registry.identify value = .ok key) values keys
  noItems : Missing members policy.listProperty → page.items = none
  total : ∀ count, members.find? policy.countProperty = some (.ofNat count) →
    page.total = some count
  noTotal : Missing members policy.countProperty → page.total = none
  /-- All other properties are there, and nothing else. -/
  others : page.passthrough.Sublist members ∧ ∀ entry, entry ∈ page.passthrough ↔
    entry ∈ members ∧ entry.1 ≠ policy.listProperty ∧ entry.1 ≠ policy.countProperty

variable {registry : Registry} {policy : ListPolicy} {members : Members}

/-! ## The list -/

theorem decodeItems_of_missing (hmissing : Missing members policy.listProperty) :
    decodeItems registry policy members = .ok none := by
  unfold decodeItems
  cases hvalue : members.find? policy.listProperty with
  | none => rfl
  | some value => rw [hmissing value hvalue]

theorem decodeItems_of_array {items : List Value}
    (hitems : members.find? policy.listProperty = some (.array items)) :
    decodeItems registry policy members = (items.mapM registry.identify).map some := by
  rw [decodeItems, hitems]

theorem decodeItems_of_other {value : Value}
    (hvalue : members.find? policy.listProperty = some value) (hnull : value ≠ .null)
    (harray : ∀ items, value ≠ .array items) :
    decodeItems registry policy members =
      .error (.malformedResponse policy.listProperty (.notArray value.kind)) := by
  rw [decodeItems, hvalue]
  cases value with
  | null => exact absurd rfl hnull
  | array items => exact absurd rfl (harray items)
  | _ => rfl

theorem missing_or_array_or_other (members : Members) (name : String) :
    Missing members name ∨ (∃ items, members.find? name = some (.array items)) ∨
      ∃ value, members.find? name = some value ∧ value ≠ .null ∧ ∀ items, value ≠ .array items := by
  cases hvalue : members.find? name with
  | none => exact .inl fun value hother => nomatch hvalue.symm.trans hother
  | some value =>
      cases value with
      | null => exact .inl fun value hother => Option.some.inj (hother.symm.trans hvalue)
      | array items => exact .inr (.inl ⟨items, rfl⟩)
      | _ => exact .inr (.inr ⟨_, rfl, nofun, nofun⟩)

theorem decodeItems_eq_error_iff (hnames : registry.NamesKeyFields) (error : CacheError) :
    decodeItems registry policy members = .error error ↔
      ListFault registry policy members error := by
  obtain hmissing | ⟨items, hitems⟩ | ⟨value, hvalue, hnull, harray⟩ :=
    missing_or_array_or_other members policy.listProperty
  · rw [decodeItems_of_missing hmissing]
    simp only [reduceCtorEq, false_iff]
    rintro (⟨hvalue, hnull, -⟩ | ⟨hitems, -, -⟩)
    · exact hnull (hmissing _ hvalue)
    · exact nomatch hmissing _ hitems
  · have hmap : decodeItems registry policy members = .error error ↔
        items.mapM registry.identify = .error error := by
      rw [decodeItems_of_array hitems]
      cases items.mapM registry.identify <;> simp [Except.map]
    simp only [hmap, mapM_eq_error_iff, Registry.exists_identify_eq_ok_iff hnames,
      Registry.identify_eq_error_iff hnames]
    constructor
    · rintro ⟨item, hfirst, hfault⟩
      exact .item hitems hfirst hfault
    · rintro (⟨hvalue, -, harray⟩ | ⟨hothers, hfirst, hfault⟩)
      · exact absurd (Option.some.inj (hvalue.symm.trans hitems)) (harray items)
      · obtain rfl : items = _ := by simpa [hitems] using hothers
        exact ⟨_, hfirst, hfault⟩
  · rw [decodeItems_of_other hvalue hnull harray, Except.error.injEq]
    constructor
    · rintro rfl
      exact .notArray hvalue hnull harray
    · rintro (⟨hother, -, -⟩ | ⟨hitems, -, -⟩)
      · rw [Option.some.inj (hvalue.symm.trans hother)]
      · exact absurd (Option.some.inj (hvalue.symm.trans hitems)) (harray _)

theorem exists_decodeItems_eq_ok_iff (hnames : registry.NamesKeyFields) :
    (∃ items, decodeItems registry policy members = .ok items) ↔
      ListFits registry policy members := by
  obtain hmissing | ⟨items, hitems⟩ | ⟨value, hvalue, hnull, harray⟩ :=
    missing_or_array_or_other members policy.listProperty
  · rw [decodeItems_of_missing hmissing]
    exact iff_of_true ⟨none, rfl⟩ (.inl hmissing)
  · have hmissing : ¬Missing members policy.listProperty := fun hnull =>
      nomatch hnull _ hitems
    have hfits : ListFits registry policy members ↔
        ∀ item ∈ items, registry.Identifiable item := by
      simp [ListFits, hmissing, hitems]
    have hmap : (∃ found, decodeItems registry policy members = .ok found) ↔
        ∃ keys, items.mapM registry.identify = .ok keys := by
      rw [decodeItems_of_array hitems]
      cases items.mapM registry.identify <;> simp [Except.map]
    rw [hfits, hmap, exists_mapM_eq_ok_iff]
    simp only [Registry.exists_identify_eq_ok_iff hnames]
  · rw [decodeItems_of_other hvalue hnull harray]
    refine iff_of_false nofun ?_
    rintro (hmissing | ⟨items, hitems, -⟩)
    · exact hnull (hmissing value hvalue)
    · exact harray items (Option.some.inj (hvalue.symm.trans hitems))

/-! ## The count -/

theorem decodeTotal_of_missing (hmissing : Missing members policy.countProperty) :
    decodeTotal policy members = .ok none := by
  unfold decodeTotal
  cases hvalue : members.find? policy.countProperty with
  | none => rfl
  | some value => rw [hmissing value hvalue]

theorem decodeTotal_of_count {count : Nat}
    (hvalue : members.find? policy.countProperty = some (.ofNat count)) (hbound : count < 2 ^ 64) :
    decodeTotal policy members = .ok (some count) := by
  rw [decodeTotal_eq_ok_iff, givenCount?, hvalue]
  exact ⟨rfl, fun total htotal => Option.some.inj htotal ▸ hbound⟩

theorem decodeTotal_of_other {value : Value}
    (hvalue : members.find? policy.countProperty = some value) (hnull : value ≠ .null)
    (hcount : ∀ count < 2 ^ 64, value ≠ .ofNat count) :
    decodeTotal policy members =
      .error (.malformedResponse policy.countProperty (.notCount value.compact)) := by
  have hword : value.toWord? = none := by
    rw [Option.eq_none_iff_forall_ne_some]
    intro count hword
    obtain ⟨rfl, hbound⟩ := Value.toWord?_eq_some_iff.mp hword
    exact hcount count hbound rfl
  unfold decodeTotal
  rw [hvalue]
  cases value with
  | null => exact absurd rfl hnull
  | _ => simp only [hword]

theorem missing_or_count_or_other (members : Members) (name : String) :
    Missing members name ∨ (∃ count < 2 ^ 64, members.find? name = some (.ofNat count)) ∨
      ∃ value, members.find? name = some value ∧ value ≠ .null ∧
        ∀ count < 2 ^ 64, value ≠ .ofNat count := by
  by_cases hmissing : Missing members name
  · exact .inl hmissing
  by_cases hcount : ∃ count < 2 ^ 64, members.find? name = some (.ofNat count)
  · exact .inr (.inl hcount)
  simp only [Missing, not_forall] at hmissing
  obtain ⟨value, hvalue, hnull⟩ := hmissing
  refine .inr (.inr ⟨value, hvalue, hnull, fun count hbound hsame => hcount ?_⟩)
  exact ⟨count, hbound, hsame ▸ hvalue⟩

theorem decodeTotal_eq_error_iff (error : CacheError) :
    decodeTotal policy members = .error error ↔ CountFault policy members error := by
  obtain hmissing | ⟨count, hbound, hvalue⟩ | ⟨value, hvalue, hnull, hcount⟩ :=
    missing_or_count_or_other members policy.countProperty
  · rw [decodeTotal_of_missing hmissing]
    simp only [reduceCtorEq, false_iff]
    rintro ⟨hvalue, hnull, -⟩
    exact hnull (hmissing _ hvalue)
  · rw [decodeTotal_of_count hvalue hbound]
    simp only [reduceCtorEq, false_iff]
    rintro ⟨hother, -, hcount⟩
    exact hcount count hbound (Option.some.inj (hother.symm.trans hvalue))
  · rw [decodeTotal_of_other hvalue hnull hcount, Except.error.injEq]
    constructor
    · rintro rfl
      exact .notCount hvalue hnull hcount
    · rintro ⟨hother, -, -⟩
      rw [Option.some.inj (hvalue.symm.trans hother)]

theorem exists_decodeTotal_eq_ok_iff :
    (∃ total, decodeTotal policy members = .ok total) ↔ CountFits policy members := by
  obtain hmissing | ⟨count, hbound, hvalue⟩ | ⟨value, hvalue, hnull, hcount⟩ :=
    missing_or_count_or_other members policy.countProperty
  · rw [decodeTotal_of_missing hmissing]
    exact iff_of_true ⟨none, rfl⟩ (.inl hmissing)
  · rw [decodeTotal_of_count hvalue hbound]
    exact iff_of_true ⟨some count, rfl⟩ (.inr ⟨count, hbound, hvalue⟩)
  · rw [decodeTotal_of_other hvalue hnull hcount]
    refine iff_of_false nofun ?_
    rintro (hmissing | ⟨count, hbound, hother⟩)
    · exact hnull (hmissing value hvalue)
    · exact hcount count hbound (Option.some.inj (hvalue.symm.trans hother))

/-! ## The response -/

theorem decode_of_not_object {response : Value} (hnull : response ≠ .null)
    (hobject : ∀ members, response ≠ .object members) :
    decode registry policy (some response) =
      .error (.malformedResponse policy.listProperty (.notObject response.kind)) := by
  cases response with
  | null => exact absurd rfl hnull
  | object members => exact absurd rfl (hobject members)
  | _ => rfl

theorem decode_object_eq_error_iff {error : CacheError} :
    decode registry policy (some (.object members)) = .error error ↔
      decodeItems registry policy members = .error error ∨
        ((∃ items, decodeItems registry policy members = .ok items) ∧
          decodeTotal policy members = .error error) := by
  simp only [decode]
  cases decodeItems registry policy members with
  | error cause => simp [bind, Except.bind]
  | ok items => cases decodeTotal policy members <;> simp [bind, Except.bind, pure, Except.pure]

theorem decode_object_eq_error_iff_fault (hnames : registry.NamesKeyFields)
    (error : CacheError) :
    decode registry policy (some (.object members)) = .error error ↔
      Fault registry policy (.object members) error := by
  rw [decode_object_eq_error_iff, decodeItems_eq_error_iff hnames,
    exists_decodeItems_eq_ok_iff hnames, decodeTotal_eq_error_iff]
  constructor
  · rintro (hlist | ⟨hlist, hcount⟩)
    · exact .list hlist
    · exact .count hlist hcount
  · rintro (hobject | hlist | ⟨hlist, hcount⟩)
    · exact absurd rfl (hobject members)
    · exact .inl hlist
    · exact .inr ⟨hlist, hcount⟩

theorem exists_decode_object_eq_ok_iff (hnames : registry.NamesKeyFields) :
    (∃ incoming, decode registry policy (some (.object members)) = .ok incoming) ↔
      ListFits registry policy members ∧ CountFits policy members := by
  rw [← exists_decodeItems_eq_ok_iff hnames, ← exists_decodeTotal_eq_ok_iff]
  simp only [decode_object_eq_ok_iff]
  constructor
  · rintro ⟨incoming, items, total, hitems, htotal, -⟩
    exact ⟨⟨items, hitems⟩, total, htotal⟩
  · rintro ⟨⟨items, hitems⟩, total, htotal⟩
    exact ⟨_, items, total, hitems, htotal, rfl⟩

theorem shows_of_decode {page : Page EntityKey}
    (hdecode : decode registry policy (some (.object members)) = .ok (some page)) :
    Shows registry policy members page := by
  obtain ⟨items, total, hitems, htotal, hpage⟩ := decode_object_eq_ok_iff.mp hdecode
  obtain rfl := Option.some.inj hpage
  constructor
  · intro values hvalues
    exact (decodeItems_eq_ok_iff hvalues).mp hitems
  · intro hmissing
    exact (Except.ok.inj ((decodeItems_of_missing hmissing).symm.trans hitems)).symm
  · intro count hcount
    obtain ⟨hgiven, -⟩ := decodeTotal_eq_ok_iff.mp htotal
    rw [givenCount?, hcount] at hgiven
    obtain ⟨found, rfl, hsame⟩ := Option.map_eq_some_iff.mp hgiven.symm
    obtain rfl : found = count := by simpa [Value.ofNat] using hsame
    rfl
  · intro hmissing
    exact (Except.ok.inj ((decodeTotal_of_missing hmissing).symm.trans htotal)).symm
  · refine ⟨List.filter_sublist, fun entry => ?_⟩
    simp [otherMembers]

/-- **A response is decoded exactly if it is well-formed, and otherwise its first fault is
reported.**  A missing response, or null, has no page.  Of any other response the page is read
exactly if it is well-formed, and the page shows what the response says; the error is the first
of its faults. -/
theorem decode_wellFormed_or_first_fault (registry : Registry) (hnames : registry.NamesKeyFields)
    (policy : ListPolicy) :
    decode registry policy none = .ok none ∧ decode registry policy (some .null) = .ok none ∧
      ∀ response, response ≠ .null →
        ((∃ incoming, decode registry policy (some response) = .ok incoming) ↔
          WellFormed registry policy response) ∧
        (∀ incoming, decode registry policy (some response) = .ok incoming →
          ∃ members page, response = .object members ∧ incoming = some page ∧
            Shows registry policy members page) ∧
        ∀ error, decode registry policy (some response) = .error error ↔
          Fault registry policy response error := by
  refine ⟨rfl, rfl, fun response hnull => ?_⟩
  by_cases hobject : ∃ members, response = .object members
  · obtain ⟨members, rfl⟩ := hobject
    refine ⟨?_, ?_, fun error => decode_object_eq_error_iff_fault hnames error⟩
    · rw [exists_decode_object_eq_ok_iff hnames]
      simp [WellFormed]
    · intro incoming hdecode
      obtain ⟨items, total, -, -, rfl⟩ := decode_object_eq_ok_iff.mp hdecode
      exact ⟨members, _, rfl, rfl, shows_of_decode hdecode⟩
  · have hobject : ∀ members, response ≠ .object members := not_exists.mp hobject
    rw [decode_of_not_object hnull hobject]
    refine ⟨iff_of_false nofun ?_, nofun, fun error => ?_⟩
    · rintro ⟨members, hresponse, -⟩
      exact hobject members hresponse
    · rw [Except.error.injEq]
      constructor
      · rintro rfl
        exact .notObject hobject
      · rintro (- | - | -)
        · rfl
        · exact absurd rfl (hobject _)
        · exact absurd rfl (hobject _)

/-- The second of three rows lacks the number of its silo, which counts before its missing name,
the row that is no object, and a count in words.  A list without these faults is read. -/
theorem decode_wellFormed_or_first_fault_nestedField :
    let policy : ListPolicy := ⟨"rows", "numRows", []⟩
    let reference : Value := .object [("__ref", .string "Row:1")]
    let row : Value := .object [("__typename", .string "Row"), ("name", .null),
      ("silo", .object [("label", .string "old")])]
    let faulty : Value := .object [("numRows", .string "three"),
      ("rows", .array [reference, row, .ofNat 5])]
    let sound : Value := .object [("numRows", .ofNat (2 ^ 64 - 1)), ("rows", .array [reference])]
    Registry.rowRegistry.NamesKeyFields ∧ faulty ≠ .null ∧ sound ≠ .null ∧
      decode Registry.rowRegistry policy (some faulty) =
        .error (.missingKeyField "Row" "silo.id") ∧
      ∃ incoming, decode Registry.rowRegistry policy (some sound) = .ok incoming := by
  intro policy reference row faulty sound
  have hrule : Registry.rowRegistry.keyRule "Row" =
      .composite [.mk "silo" [.scalar "id"], .scalar "name"] := rfl
  have hdemands : KeyField.demandsAll [.mk "silo" [.scalar "id"], .scalar "name"] =
      [⟨["silo"], true⟩, ⟨["silo", "id"], false⟩, ⟨["name"], false⟩] := rfl
  have hnames : Registry.rowRegistry.NamesKeyFields := by
    intro typeName
    by_cases hrow : typeName = "Row"
    · rw [hrow, hrule, KeyRule.NamesFields, hdemands]
      simp
    · have hrule : Registry.rowRegistry.keyRule typeName = .id := by
        rw [Registry.keyRule, Registry.rowRegistry, OrderedEntries.find?_cons_of_ne hrow]
        rfl
      rw [hrule]
      trivial
  have hreference : Registry.rowRegistry.Identifiable reference := ⟨_, rfl, .inl ⟨_, rfl⟩⟩
  have hrow : Registry.rowRegistry.ItemFault row (.missingKeyField "Row" "silo.id") := by
    have hobject : Registry.ObjectOf "Row" [("__typename", .string "Row"), ("name", .null),
      ("silo", .object [("label", .string "old")])] := by
      refine ⟨rfl, ?_⟩
      rintro reference ⟨⟩
    have hlacks : (Registry.rowRegistry.keyRule "Row").Lacks [("__typename", .string "Row"),
        ("name", .null), ("silo", .object [("label", .string "old")])] ["silo", "id"] := by
      rw [hrule, KeyRule.Lacks, hdemands]
      refine ⟨⟨["silo", "id"], false⟩, ⟨[⟨["silo"], true⟩], [⟨["name"], false⟩], rfl, ?_, ?_⟩,
        rfl⟩
      · exact List.forall_mem_singleton.mpr ⟨_, rfl, by simp, fun _ => ⟨_, rfl⟩⟩
      · rintro ⟨found, hfound, -⟩
        cases hfound
    exact .lacking hobject hlacks
  have hunidentifiable : ¬Registry.rowRegistry.Identifiable row := fun hrowKey =>
    Registry.identifiable_iff_not_itemFault.mp hrowKey _ hrow
  have hfirst : FirstFailing Registry.rowRegistry.Identifiable [reference, row, .ofNat 5] row :=
    ⟨[reference], [.ofNat 5], rfl, List.forall_mem_singleton.mpr hreference, hunidentifiable⟩
  obtain ⟨-, -, hdecode⟩ := decode_wellFormed_or_first_fault Registry.rowRegistry hnames policy
  have hfaulty : faulty ≠ .null := by simp [faulty]
  have hsound : sound ≠ .null := by simp [sound]
  refine ⟨hnames, hfaulty, hsound, ?_, ?_⟩
  · exact ((hdecode faulty hfaulty).2.2 _).mpr (.list (.item rfl hfirst hrow))
  · refine (hdecode sound hsound).1.mpr ⟨_, rfl, .inr ⟨_, rfl, ?_⟩, .inr ⟨_, ?_, rfl⟩⟩
    · exact List.forall_mem_singleton.mpr hreference
    · norm_num

end PagedCache.Response
