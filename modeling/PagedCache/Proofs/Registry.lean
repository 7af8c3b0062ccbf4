import PagedCache.Registry
import PagedCache.Proofs.OrderedEntries

/-!
# Registries

A registry is built by registering policies, declaring key rules, and taking over other
registries.  Every policy in it was checked.
-/

namespace PagedCache

namespace Registry

/-- The registries that can be built. -/
inductive Reachable : Registry → Prop where
  | empty : Reachable .empty
  | register {registry next : Registry} {typeName field : String} {policy : ListPolicy}
      (hregistry : Reachable registry)
      (hregister : registry.register typeName field policy = .ok next) : Reachable next
  | setKeyRule {registry : Registry} (typeName : String) (rule : KeyRule)
      (hregistry : Reachable registry) : Reachable (registry.setKeyRule typeName rule)
  | extend {registry other : Registry} (hregistry : Reachable registry)
      (hother : Reachable other) : Reachable (registry.extend other)

theorem validate_eq_ok_iff {policy : ListPolicy} {typeName field : String} :
    policy.validate typeName field = .ok () ↔ policy.fault? = none := by
  unfold ListPolicy.validate
  cases policy.fault? <;> simp

theorem register_eq_ok_iff {registry next : Registry} {typeName field : String}
    {policy : ListPolicy} :
    registry.register typeName field policy = .ok next ↔
      policy.fault? = none ∧ next = { registry with
        policies := OrderedEntries.insert ⟨typeName, field⟩ policy registry.policies } := by
  rw [← @validate_eq_ok_iff policy typeName field, register]
  cases policy.validate typeName field <;> simp [eq_comm]

theorem get?_register {registry next : Registry} {typeName field : String} {policy : ListPolicy}
    (hregister : registry.register typeName field policy = .ok next)
    (otherType otherField : String) :
    next.get? otherType otherField =
      if (⟨typeName, field⟩ : TypeField) = ⟨otherType, otherField⟩ then some policy
      else registry.get? otherType otherField := by
  obtain ⟨-, rfl⟩ := register_eq_ok_iff.mp hregister
  unfold get?
  split_ifs with htarget
  · rw [htarget, OrderedEntries.find?_insert_self]
  · rw [OrderedEntries.find?_insert_of_ne (Ne.symm htarget)]

/-- **Every policy of a registry that can be built is valid.** -/
theorem Reachable.fault?_eq_none {registry : Registry} (hreachable : registry.Reachable) :
    ∀ entry ∈ registry.policies, entry.2.fault? = none := by
  induction hreachable with
  | empty => simp [Registry.empty]
  | register hregistry hregister ih =>
      obtain ⟨hvalid, rfl⟩ := register_eq_ok_iff.mp hregister
      intro entry hentry
      obtain rfl | hearlier := OrderedEntries.mem_insert hentry
      · exact hvalid
      · exact ih entry hearlier
  | setKeyRule typeName rule hregistry ih => exact ih
  | extend hregistry hother ih ihOther =>
      intro entry hentry
      exact (OrderedEntries.mem_insertAll hentry).elim (ihOther entry) (ih entry)

/-- A policy that is found was registered for the field. -/
theorem mem_policies_of_require {registry : Registry} {typeName field : String}
    {policy : ListPolicy} (hpolicy : registry.require typeName field = .ok policy) :
    (⟨typeName, field⟩, policy) ∈ registry.policies := by
  unfold require at hpolicy
  split at hpolicy
  · rename_i found hfound
    cases hpolicy
    exact OrderedEntries.mem_of_find?_eq_some hfound
  · cases hpolicy

end Registry

/-- A valid policy keeps the list and its length under different properties. -/
theorem ListPolicy.listProperty_ne_countProperty {policy : ListPolicy}
    (hvalid : policy.fault? = none) : policy.listProperty ≠ policy.countProperty := by
  intro hsame
  simp only [fault?, hsame, if_true] at hvalid
  split at hvalid <;> cases hvalid

end PagedCache
