import PagedCache.Replay
import PagedCache.Proofs.Json.Documents
import PagedCache.Proofs.Json.MemberOrder

/-!
# Keys tell lists apart

Two calls have the same key exactly when they are calls of the same field of the same
entity and give the same key arguments.
-/

namespace PagedCache

namespace ListPolicy

theorem mem_givenArguments {policy : ListPolicy} {arguments : Arguments} {name : String}
    {value : Json.Value} :
    (name, value) ∈ policy.givenArguments arguments ↔
      name ∈ policy.keyArguments ∧ arguments.find? name = some value := by
  simp only [givenArguments, List.mem_filterMap, Option.map_eq_some_iff, Prod.mk.injEq]
  constructor
  · rintro ⟨_, hname, _, hfind, rfl, rfl⟩
    exact ⟨hname, hfind⟩
  · rintro ⟨hname, hfind⟩
    exact ⟨name, hname, value, hfind, rfl, rfl⟩

/-- The given arguments are those that they are found from. -/
theorem givenArguments_eq_iff {policy : ListPolicy} {left right : Arguments} :
    policy.givenArguments left = policy.givenArguments right ↔
      ∀ name ∈ policy.keyArguments, left.find? name = right.find? name := by
  constructor
  · intro hgiven name hname
    apply Option.ext
    intro value
    have hmem : (name, value) ∈ policy.givenArguments left ↔
        (name, value) ∈ policy.givenArguments right := by rw [hgiven]
    rw [mem_givenArguments, mem_givenArguments] at hmem
    simpa [hname] using hmem
  · intro hfind
    apply List.filterMap_congr
    intro name hname
    rw [hfind name hname]

/-- **Slots of one field are told apart by the key arguments.** -/
theorem slotName_eq_iff {policy : ListPolicy} {field : String} {left right : Arguments} :
    policy.slotName field left = policy.slotName field right ↔
      ∀ name ∈ policy.keyArguments, left.find? name = right.find? name := by
  rw [← givenArguments_eq_iff]
  unfold slotName
  split
  · rename_i hempty
    have hnone : policy.keyArguments = [] := List.isEmpty_iff.mp hempty
    simp [givenArguments, hnone]
  · constructor
    · intro hslot
      have htext := congrArg String.toList hslot
      rw [String.toList_ofList, String.toList_ofList, List.append_cancel_left_eq,
        List.cons.injEq] at htext
      have hobject := Json.Value.render_injective htext.2
      exact Json.Value.object.inj hobject
    · intro hgiven
      rw [hgiven]

/-- The field stands in front of the first colon. -/
theorem takeWhile_slotName (policy : ListPolicy) {field : String}
    (hfield : ':' ∉ field.toList) (arguments : Arguments) :
    (policy.slotName field arguments).toList.takeWhile (· != ':') = field.toList := by
  have hletters : ∀ char ∈ field.toList, (char != ':') = true := by
    intro char hchar
    exact bne_iff_ne.mpr (ne_of_mem_of_not_mem hchar hfield)
  unfold slotName
  split
  · have hall : (field.toList ++ []).takeWhile (· != ':') =
        field.toList ++ [].takeWhile (· != ':') := List.takeWhile_append_of_pos hletters
    rwa [List.append_nil, List.takeWhile_nil, List.append_nil] at hall
  · rw [String.toList_ofList, List.takeWhile_append_of_pos hletters]
    simp

theorem field_eq_of_slotName_eq {left right : ListPolicy} {leftField rightField : String}
    {leftArguments rightArguments : Arguments} (hleft : ':' ∉ leftField.toList)
    (hright : ':' ∉ rightField.toList)
    (hslot : left.slotName leftField leftArguments =
      right.slotName rightField rightArguments) : leftField = rightField := by
  rw [← String.toList_inj, ← takeWhile_slotName left hleft leftArguments, hslot,
    takeWhile_slotName right hright]

end ListPolicy

namespace Cache

variable {α : Type}

theorem locate_eq_ok_iff {cache : Cache α} {call : Call} {policy : ListPolicy}
    {key : SnapshotKey} :
    cache.locate call = .ok (policy, key) ↔
      cache.registry.require call.typeName call.field = .ok policy ∧
        key = ⟨call.typeName, call.entityId, policy.slotName call.field call.arguments⟩ := by
  unfold locate
  cases cache.registry.require call.typeName call.field with
  | error error => simp
  | ok found =>
      simp only [Except.ok.injEq, Prod.mk.injEq]
      constructor
      · rintro ⟨rfl, rfl⟩
        exact ⟨rfl, rfl⟩
      · rintro ⟨rfl, rfl⟩
        exact ⟨rfl, rfl⟩

/-- **Keys tell apart what has to be told apart, and nothing else.**  The keys of two
calls are the same if and only if type, entity, and field are, and each key argument of
the field is missing in both calls or has the same value in both, be it with the members
of its objects in another order. -/
theorem key_eq_iff {cache : Cache α} {left right : Call} {leftPolicy rightPolicy : ListPolicy}
    {leftKey rightKey : SnapshotKey}
    (hleft : cache.locate left = .ok (leftPolicy, leftKey))
    (hright : cache.locate right = .ok (rightPolicy, rightKey))
    (hleftField : ':' ∉ left.field.toList) (hrightField : ':' ∉ right.field.toList)
    (hleftSorted : (Json.Value.object left.arguments).SortedNames)
    (hrightSorted : (Json.Value.object right.arguments).SortedNames) :
    leftKey = rightKey ↔
      left.typeName = right.typeName ∧ left.entityId = right.entityId ∧
        left.field = right.field ∧
          ∀ name ∈ leftPolicy.keyArguments, Option.Rel Json.Value.Reordered
            (left.arguments.find? name) (right.arguments.find? name) := by
  obtain ⟨hleftPolicy, rfl⟩ := locate_eq_ok_iff.mp hleft
  obtain ⟨hrightPolicy, rfl⟩ := locate_eq_ok_iff.mp hright
  have hargument : ∀ name, Option.Rel Json.Value.Reordered
      (left.arguments.find? name) (right.arguments.find? name) ↔
        left.arguments.find? name = right.arguments.find? name := by
    intro name
    exact Json.Value.rel_reordered_iff_eq
      (fun value hfind => Json.Value.sortedNames_of_find? hleftSorted hfind)
      (fun value hfind => Json.Value.sortedNames_of_find? hrightSorted hfind)
  have hpolicy : left.typeName = right.typeName → left.field = right.field →
      leftPolicy = rightPolicy := by
    intro htype hfield
    rw [htype, hfield, hrightPolicy] at hleftPolicy
    exact (Except.ok.inj hleftPolicy).symm
  simp only [hargument, SnapshotKey.mk.injEq]
  constructor
  · rintro ⟨htype, hentity, hslot⟩
    have hfield := ListPolicy.field_eq_of_slotName_eq hleftField hrightField hslot
    rw [← hpolicy htype hfield, ← hfield] at hslot
    exact ⟨htype, hentity, hfield, ListPolicy.slotName_eq_iff.mp hslot⟩
  · rintro ⟨htype, hentity, hfield, hsame⟩
    refine ⟨htype, hentity, ?_⟩
    rw [← hpolicy htype hfield, ← hfield]
    exact ListPolicy.slotName_eq_iff.mpr hsame

/-- One filter whose text looks like two, and the two filters. -/
theorem key_eq_iff_quotedFilter :
    let policy : ListPolicy := ⟨"list", "count", ["status", "owner"]⟩
    let cache : Cache EntityKey := .fresh ⟨[(⟨"Workspace", "requests"⟩, policy)], []⟩ 8 100
    let left : Call :=
      ⟨"Workspace", "w", "requests", [("status", .string "open\",\"owner\":\"me")]⟩
    let right : Call :=
      ⟨"Workspace", "w", "requests", [("owner", .string "me"), ("status", .string "open")]⟩
    ∃ leftKey rightKey, cache.locate left = .ok (policy, leftKey) ∧
      cache.locate right = .ok (policy, rightKey) ∧ leftKey ≠ rightKey := by
  intro policy cache left right
  have hleft : cache.locate left =
      .ok (policy, ⟨"Workspace", "w", policy.slotName "requests" left.arguments⟩) := rfl
  have hright : cache.locate right =
      .ok (policy, ⟨"Workspace", "w", policy.slotName "requests" right.arguments⟩) := rfl
  have hfield : ':' ∉ "requests".toList := by decide
  have hleftSorted : (Json.Value.object left.arguments).SortedNames :=
    ⟨List.pairwise_singleton _ _, trivial, trivial⟩
  have hrightSorted : (Json.Value.object right.arguments).SortedNames :=
    ⟨List.pairwise_pair.mpr (by decide), trivial, trivial, trivial⟩
  refine ⟨_, _, hleft, hright, fun hsame => ?_⟩
  obtain ⟨-, -, -, harguments⟩ :=
    (key_eq_iff hleft hright hfield hfield hleftSorted hrightSorted).mp hsame
  -- the owner is missing on the left only
  cases harguments "owner" (by decide)

end Cache

/-! ## Calls that are read -/

namespace Replay

theorem sortedNames_of_properties? {members : DocumentMembers} {names : List String}
    {properties : Properties} (hproperties : properties? members names = some properties)
    {name : String} {value : Json.Value} (hvalue : properties name = some value) :
    value.SortedNames := by
  unfold properties? at hproperties
  split at hproperties
  · cases hproperties
  · cases hproperties
    dsimp only at hvalue
    split at hvalue
    · exact Json.Document.sortedNames_of_evaluate hvalue
    · cases hvalue

/-- **The arguments of a call that is read are in order.** -/
theorem sortedNames_of_call? {members : DocumentMembers} {names : List String}
    {properties : Properties} (hproperties : properties? members names = some properties)
    {call : Call} (hcall : call? properties = some call) :
    (Json.Value.object call.arguments).SortedNames := by
  simp only [call?, Option.bind_eq_bind, Option.bind_eq_some_iff] at hcall
  obtain ⟨typeName, -, entityId, -, field, -, arguments, harguments, hcall⟩ := hcall
  cases hcall
  unfold arguments? at harguments
  split at harguments
  · cases harguments
    exact ⟨List.Pairwise.nil, trivial⟩
  · rename_i members hmembers
    cases harguments
    exact sortedNames_of_properties? hproperties hmembers
  · cases harguments

end Replay

end PagedCache
