import PagedCache.Json.Document
import PagedCache.Proofs.OrderedEntries
import Mathlib.Data.String.Basic

/-!
# The order of members

A value stays the same value if the members of its objects are written in another order.
Values whose objects have their members in order, as all that are read have, are equal
when they differ in this order only.
-/

namespace PagedCache.Json

namespace Value

mutual

def decidableSortedNames : (value : Value) → Decidable value.SortedNames
  | .null | .bool _ | .number _ | .string _ => inferInstanceAs (Decidable True)
  | .array items => decidableAllSortedNames items
  | .object members =>
    have := decidableMembersSortedNames members
    inferInstanceAs (Decidable (OrderedEntries.Ascending members ∧ MembersSortedNames members))

def decidableAllSortedNames : (items : List Value) → Decidable (AllSortedNames items)
  | [] => inferInstanceAs (Decidable True)
  | item :: rest =>
    have := decidableSortedNames item
    have := decidableAllSortedNames rest
    inferInstanceAs (Decidable (item.SortedNames ∧ AllSortedNames rest))

def decidableMembersSortedNames :
    (members : List (String × Value)) → Decidable (MembersSortedNames members)
  | [] => inferInstanceAs (Decidable True)
  | (_, value) :: rest =>
    have := decidableSortedNames value
    have := decidableMembersSortedNames rest
    inferInstanceAs (Decidable (value.SortedNames ∧ MembersSortedNames rest))

end

instance : DecidablePred SortedNames :=
  decidableSortedNames

/-- The right value is the left one with the members of some objects in another order. -/
inductive Reordered : Value → Value → Prop where
  | refl (value : Value) : Reordered value value
  | trans {first second third : Value} (hfirst : Reordered first second)
      (hsecond : Reordered second third) : Reordered first third
  | members {left right : List (String × Value)} (hnames : (left.map Prod.fst).Nodup)
      (hperm : left.Perm right) : Reordered (.object left) (.object right)
  | item {left right : Value} (before after : List Value) (hitem : Reordered left right) :
      Reordered (.array (before ++ left :: after)) (.array (before ++ right :: after))
  | member {left right : Value} (name : String) (before after : List (String × Value))
      (hmember : Reordered left right) :
      Reordered (.object (before ++ (name, left) :: after))
        (.object (before ++ (name, right) :: after))

mutual

/-- The value with the members of all objects in order. -/
def ordered : Value → Value
  | .array items => .array (orderedItems items)
  | .object members => .object (OrderedEntries.ofList (orderedMembers members))
  | value => value

def orderedItems : List Value → List Value
  | [] => []
  | item :: rest => item.ordered :: orderedItems rest

def orderedMembers : List (String × Value) → List (String × Value)
  | [] => []
  | (name, value) :: rest => (name, value.ordered) :: orderedMembers rest

end

theorem orderedItems_eq_map (items : List Value) : orderedItems items = items.map ordered := by
  induction items with
  | nil => rfl
  | cons item rest ih => rw [orderedItems, ih, List.map_cons]

theorem orderedMembers_eq_map (members : List (String × Value)) :
    orderedMembers members = members.map fun member => (member.1, member.2.ordered) := by
  induction members with
  | nil => rfl
  | cons member rest ih => rw [orderedMembers, ih, List.map_cons]

mutual

theorem ordered_eq_self {value : Value} (hvalue : value.SortedNames) :
    value.ordered = value := by
  match value with
  | .null | .bool _ | .number _ | .string _ => rfl
  | .array items => rw [ordered, orderedItems_eq_self hvalue]
  | .object members =>
      rw [ordered, orderedMembers_eq_self hvalue.2, OrderedEntries.ofList_eq_self hvalue.1]

theorem orderedItems_eq_self {items : List Value} (hitems : AllSortedNames items) :
    orderedItems items = items := by
  match items with
  | [] => rfl
  | item :: rest => rw [orderedItems, ordered_eq_self hitems.1, orderedItems_eq_self hitems.2]

theorem orderedMembers_eq_self {members : List (String × Value)}
    (hmembers : MembersSortedNames members) : orderedMembers members = members := by
  match members with
  | [] => rfl
  | (name, value) :: rest =>
      rw [orderedMembers, ordered_eq_self hmembers.1, orderedMembers_eq_self hmembers.2]

end

theorem ordered_eq_of_reordered {left right : Value} (hreordered : Reordered left right) :
    left.ordered = right.ordered := by
  induction hreordered with
  | refl => rfl
  | trans _ _ hfirst hsecond => exact hfirst.trans hsecond
  | members hnames hperm =>
      rename_i left right
      have hkeys : ((orderedMembers left).map Prod.fst).Nodup := by
        rw [orderedMembers_eq_map, List.map_map]
        exact hnames
      have hordered : (orderedMembers left).Perm (orderedMembers right) := by
        rw [orderedMembers_eq_map, orderedMembers_eq_map]
        exact hperm.map _
      rw [ordered, ordered, OrderedEntries.ofList_eq_of_perm hkeys hordered]
  | item before after _ hitem =>
      simp only [ordered, orderedItems_eq_map, List.map_append, List.map_cons, hitem]
  | member name before after _ hmember =>
      simp only [ordered, orderedMembers_eq_map, List.map_append, List.map_cons, hmember]

/-- **Among values with their members in order, the order is no difference.** -/
theorem reordered_iff_eq {left right : Value} (hleft : left.SortedNames)
    (hright : right.SortedNames) : Reordered left right ↔ left = right := by
  constructor
  · intro hreordered
    have hordered := ordered_eq_of_reordered hreordered
    rwa [ordered_eq_self hleft, ordered_eq_self hright] at hordered
  · rintro rfl
    exact .refl left

theorem rel_reordered_iff_eq {left right : Option Value}
    (hleft : ∀ value, left = some value → value.SortedNames)
    (hright : ∀ value, right = some value → value.SortedNames) :
    Option.Rel Reordered left right ↔ left = right := by
  constructor
  · rintro (hreordered | _)
    · rw [(reordered_iff_eq (hleft _ rfl) (hright _ rfl)).mp hreordered]
    · rfl
  · rintro rfl
    cases left with
    | none => exact .none
    | some value => exact .some (.refl value)

/-! ## Values that are read -/

theorem membersSortedNames_iff {members : List (String × Value)} :
    MembersSortedNames members ↔ ∀ member ∈ members, member.2.SortedNames := by
  induction members with
  | nil => simp [MembersSortedNames]
  | cons member rest ih => simp [MembersSortedNames, ih]

theorem sortedNames_of_find? {members : Members} {name : String} {value : Value}
    (hmembers : (Value.object members).SortedNames) (hfind : members.find? name = some value) :
    value.SortedNames := by
  obtain ⟨before, after, hsplit, -⟩ := List.lookup_eq_some_iff.mp hfind
  refine membersSortedNames_iff.mp hmembers.2 (name, value) ?_
  rw [hsplit]
  exact List.mem_append_right _ List.mem_cons_self

end Value

namespace Document

open Value

mutual

/-- **Every value that is read has its members in order.** -/
theorem sortedNames_of_evaluate {document : Document} {value : Value}
    (hvalue : document.evaluate = some value) : value.SortedNames := by
  match document with
  | .null | .bool _ =>
      cases hvalue
      trivial
  | .number literal =>
      obtain ⟨number, -, rfl⟩ := Option.map_eq_some_iff.mp hvalue
      trivial
  | .string text =>
      obtain ⟨text, -, rfl⟩ := Option.map_eq_some_iff.mp hvalue
      trivial
  | .array items =>
      obtain ⟨values, hvalues, rfl⟩ := Option.map_eq_some_iff.mp hvalue
      exact allSortedNames_of_evaluateItems hvalues
  | .object members =>
      obtain ⟨values, hvalues, rfl⟩ := Option.map_eq_some_iff.mp hvalue
      have hsorted := membersSortedNames_of_evaluateMembers hvalues
      refine ⟨OrderedEntries.ascending_ofList values, membersSortedNames_iff.mpr ?_⟩
      intro member hmember
      exact membersSortedNames_iff.mp hsorted member (OrderedEntries.mem_of_mem_ofList hmember)

theorem allSortedNames_of_evaluateItems {items : List Document} {values : List Value}
    (hvalues : evaluateItems items = some values) : AllSortedNames values := by
  match items with
  | [] =>
      cases hvalues
      trivial
  | item :: rest =>
      rw [evaluateItems] at hvalues
      split at hvalues
      · rename_i value others hvalue hothers
        cases hvalues
        exact ⟨sortedNames_of_evaluate hvalue, allSortedNames_of_evaluateItems hothers⟩
      · cases hvalues

theorem membersSortedNames_of_evaluateMembers {members : List (Option String × Document)}
    {values : List (String × Value)} (hvalues : evaluateMembers members = some values) :
    MembersSortedNames values := by
  match members with
  | [] =>
      cases hvalues
      trivial
  | (name, document) :: rest =>
      unfold evaluateMembers at hvalues
      split at hvalues
      · rename_i value others hvalue hothers
        cases hvalues
        exact ⟨sortedNames_of_evaluate hvalue, membersSortedNames_of_evaluateMembers hothers⟩
      · cases hvalues

end

end Document

end PagedCache.Json
