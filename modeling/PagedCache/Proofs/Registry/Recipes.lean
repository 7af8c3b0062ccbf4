import PagedCache.Registry.Procedure
import PagedCache.Proofs.ByteOrder
import PagedCache.Proofs.Cache.Refusal
import PagedCache.Proofs.Cache.SlotName
import PagedCache.Proofs.Registry
import Mathlib.Data.Prod.Lex

/-!
# How a registry was built

A recipe says how a registry was built.  The policies of the registry are those that were
registered last, and each of them keeps the pages of one list under one key.
-/

namespace PagedCache

/-! ## Usable policies -/

/-- The arguments differ at most in the page that they ask for. -/
def AgreeButForPage (left right : Arguments) : Prop :=
  ∀ name, name ≠ Window.offsetArgument → name ≠ Window.limitArgument →
    left.find? name = right.find? name

namespace ListPolicy

/-- The policy tells the properties of a response apart, and no key depends on which page
is asked for. -/
structure Usable (policy : ListPolicy) : Prop where
  listProperty_ne_empty : policy.listProperty ≠ ""
  countProperty_ne_empty : policy.countProperty ≠ ""
  properties_ne : policy.listProperty ≠ policy.countProperty
  offset_notMem : Window.offsetArgument ∉ policy.keyArguments
  limit_notMem : Window.limitArgument ∉ policy.keyArguments

theorem fault?_eq_none_iff {policy : ListPolicy} : policy.fault? = none ↔ policy.Usable := by
  have hkeys : (policy.keyArguments.find? fun argument =>
      argument == Window.offsetArgument || argument == Window.limitArgument) = none ↔
        Window.offsetArgument ∉ policy.keyArguments ∧
          Window.limitArgument ∉ policy.keyArguments := by
    simp only [List.find?_eq_none, Bool.or_eq_true, beq_iff_eq, not_or]
    constructor
    · exact fun h => ⟨fun hmem => (h _ hmem).1 rfl, fun hmem => (h _ hmem).2 rfl⟩
    · rintro ⟨hoffset, hlimit⟩ argument hmem
      exact ⟨ne_of_mem_of_not_mem hmem hoffset, ne_of_mem_of_not_mem hmem hlimit⟩
  unfold fault?
  split_ifs with hempty hsame
  · refine iff_of_false nofun fun husable => ?_
    simp [husable.listProperty_ne_empty, husable.countProperty_ne_empty] at hempty
  · exact iff_of_false nofun fun husable => husable.properties_ne hsame
  · simp only [Bool.or_eq_true, String.isEmpty_iff, not_or] at hempty
    rw [Option.map_eq_none_iff, hkeys]
    exact ⟨fun ⟨hoffset, hlimit⟩ => ⟨hempty.1, hempty.2, hsame, hoffset, hlimit⟩,
      fun husable => ⟨husable.offset_notMem, husable.limit_notMem⟩⟩

instance (policy : ListPolicy) : Decidable policy.Usable :=
  decidable_of_iff (policy.fault? = none) fault?_eq_none_iff

/-- **All pages of a list have one slot.** -/
theorem Usable.slotName_eq {policy : ListPolicy} (husable : policy.Usable) (field : String)
    {left right : Arguments} (hagree : AgreeButForPage left right) :
    policy.slotName field left = policy.slotName field right := by
  apply slotName_eq_iff.mpr
  intro name hname
  exact hagree name (ne_of_mem_of_not_mem hname husable.offset_notMem)
    (ne_of_mem_of_not_mem hname husable.limit_notMem)

end ListPolicy

/-- **All pages of a list have one key.** -/
theorem Cache.locate_eq_of_agree {α : Type} {cache : Cache α}
    (husable : ∀ entry ∈ cache.registry.policies, entry.2.Usable) {call : Call}
    {arguments : Arguments} (hagree : AgreeButForPage arguments call.arguments) :
    cache.locate { call with arguments := arguments } = cache.locate call := by
  unfold locate
  cases hpolicy : cache.registry.require call.typeName call.field with
  | error error => rfl
  | ok policy =>
      have hkept : policy.Usable := husable _ (Registry.mem_policies_of_require hpolicy)
      simp only [hkept.slotName_eq call.field hagree]

/-! ## Fields in order -/

namespace TypeField

/-- Comparing bytes, the type comes first, or the types are the same and the field does. -/
def BytesBefore (left right : TypeField) : Prop :=
  utf8Bytes left.typeName < utf8Bytes right.typeName ∨
    left.typeName = right.typeName ∧ utf8Bytes left.field < utf8Bytes right.field

theorem bytesBefore_iff_lt {left right : TypeField} : left.BytesBefore right ↔ left < right := by
  rw [BytesBefore, utf8Bytes_lt_iff, utf8Bytes_lt_iff]
  rfl

/-- The type and the field, compared one after the other. -/
def lexicographic : ((· < ·) : TypeField → TypeField → Prop) ↪r
    ((· < ·) : String ×ₗ String → String ×ₗ String → Prop) where
  toFun target := toLex (target.typeName, target.field)
  inj' := by
    rintro ⟨leftType, leftField⟩ ⟨rightType, rightField⟩ hsame
    cases hsame
    rfl
  map_rel_iff' := Prod.Lex.toLex_lt_toLex

instance : IsStrictTotalOrder TypeField (· < ·) :=
  lexicographic.isStrictTotalOrder

end TypeField

namespace Registry

/-! ## Single changes -/

namespace Procedure

/-- The procedure does what `Registry.register` says, and nothing if that is an error. -/
theorem run_register_eq (registry : Registry) (typeName field : String) (policy : ListPolicy) :
    (register typeName field policy).run registry =
      match registry.register typeName field policy with
      | .ok next => .ok () next
      | .error error => .error error registry := by
  unfold register Registry.register
  cases policy.validate typeName field <;> rfl

theorem run_register_of_usable {policy : ListPolicy} (husable : policy.Usable)
    (typeName field : String) (registry : Registry) :
    (register typeName field policy).run registry = .ok () { registry with
      policies := OrderedEntries.insert ⟨typeName, field⟩ policy registry.policies } := by
  have hvalid := ListPolicy.fault?_eq_none_iff.mpr husable
  rw [run_register_eq, register_eq_ok_iff.mpr ⟨hvalid, rfl⟩]

theorem run_register_of_fault {policy : ListPolicy} {fault : PolicyFault}
    (hfault : policy.fault? = some fault) (typeName field : String) (registry : Registry) :
    (register typeName field policy).run registry =
      .error (.invalidPolicy typeName field fault) registry := by
  have hrefused : registry.register typeName field policy =
      .error (.invalidPolicy typeName field fault) := by
    simp only [Registry.register, ListPolicy.validate, hfault]
  rw [run_register_eq, hrefused]

/-- **Usable policies are all registered.** -/
theorem run_registerAll {entries : List (TypeField × ListPolicy)}
    (husable : ∀ entry ∈ entries, entry.2.Usable) (registry : Registry) :
    (registerAll entries).run registry = .ok () { registry with
      policies := OrderedEntries.insertAll registry.policies entries } := by
  induction entries generalizing registry with
  | nil => rfl
  | cons entry rest ih =>
      obtain ⟨hentry, hrest⟩ := List.forall_mem_cons.mp husable
      have hfirst := run_register_of_usable hentry entry.1.typeName entry.1.field registry
      have hbind : (registerAll (entry :: rest)).run registry =
          (registerAll rest).run { registry with
            policies := OrderedEntries.insert entry.1 entry.2 registry.policies } :=
        PagedCache.Procedure.run_bind_of_ok hfirst
      rw [hbind, ih hrest]
      rfl

theorem usable_console : ∀ entry ∈ Console.policies, entry.2.Usable := by
  decide

theorem run_console (registry : Registry) :
    console.run registry = .ok () { registry with
      policies := OrderedEntries.insertAll registry.policies Console.policies
      keyRules := OrderedEntries.insert "DataMapRow" Console.dataMapRow registry.keyRules } := by
  rw [console, PagedCache.Procedure.run_bind_of_ok (run_registerAll usable_console registry)]
  rfl

end Procedure

theorem Reachable.insertAll {registry : Registry} (hreachable : registry.Reachable)
    {entries : List (TypeField × ListPolicy)} (husable : ∀ entry ∈ entries, entry.2.Usable) :
    Reachable { registry with
      policies := OrderedEntries.insertAll registry.policies entries } := by
  induction entries generalizing registry with
  | nil => exact hreachable
  | cons entry rest ih =>
      obtain ⟨hentry, hrest⟩ := List.forall_mem_cons.mp husable
      have hvalid := ListPolicy.fault?_eq_none_iff.mpr hentry
      exact ih (hreachable.register (register_eq_ok_iff.mpr ⟨hvalid, rfl⟩)) hrest

/-! ## Recipes -/

/-- How a registry was built. -/
inductive Recipe where
  /-- From nothing. -/
  | new
  /-- As the registry of the console. -/
  | console
  /-- By an attempt to register a policy. -/
  | register (base : Recipe) (typeName field : String) (policy : ListPolicy)
  /-- By a declaration how the entities of a type are identified. -/
  | setKeyRule (base : Recipe) (typeName : String) (rule : KeyRule)
  /-- By taking over another registry, as it is then. -/
  | extend (base other : Recipe)

namespace Recipe

/-- The registry that is built. -/
def build : Recipe → Registry
  | new => .empty
  | console => Registry.empty.after Procedure.console
  | register base typeName field policy =>
    base.build.after (Procedure.register typeName field policy)
  | setKeyRule base typeName rule => base.build.after (Procedure.setKeyRule typeName rule)
  | extend base other => base.build.after (Procedure.extend other.build)

/-- The registrations that succeeded, the latest one last.  To take over a registry is to
register all its policies. -/
def registrations : Recipe → List (TypeField × ListPolicy)
  | new => []
  | console => Console.policies
  | register base typeName field policy =>
    match (Procedure.register typeName field policy).run base.build with
    | .ok _ _ => base.registrations ++ [(⟨typeName, field⟩, policy)]
    | .error _ _ => base.registrations
  | setKeyRule base _ _ => base.registrations
  | extend base other => base.registrations ++ other.build.policies

theorem build_console : console.build = ⟨OrderedEntries.insertAll [] Console.policies,
    OrderedEntries.insert "DataMapRow" Console.dataMapRow []⟩ := by
  rw [build, after, Procedure.run_console]
  rfl

/-- The console's registry is complete. -/
theorem console_registry_eq : Console.registry = .ok console.build := by
  rw [build_console]
  rfl

/-- All that an attempt to register a policy can lead to. -/
theorem register_cases (base : Recipe) (typeName field : String) (policy : ListPolicy) :
    (policy.Usable ∧
      (base.register typeName field policy).build = { base.build with
        policies := OrderedEntries.insert ⟨typeName, field⟩ policy base.build.policies } ∧
      (base.register typeName field policy).registrations =
        base.registrations ++ [(⟨typeName, field⟩, policy)]) ∨
    (¬policy.Usable ∧
      (base.register typeName field policy).build = base.build ∧
      (base.register typeName field policy).registrations = base.registrations) := by
  rw [build, registrations, after, ← ListPolicy.fault?_eq_none_iff]
  cases hfault : policy.fault? with
  | none =>
      have husable := ListPolicy.fault?_eq_none_iff.mp hfault
      rw [Procedure.run_register_of_usable husable]
      exact .inl ⟨rfl, rfl, rfl⟩
  | some fault =>
      rw [Procedure.run_register_of_fault hfault]
      exact .inr ⟨nofun, rfl, rfl⟩

/-- **A registry holds what its registrations left.** -/
theorem policies_build (recipe : Recipe) :
    recipe.build.policies = OrderedEntries.insertAll [] recipe.registrations := by
  induction recipe with
  | new => rfl
  | console => rw [build_console, registrations]
  | register base typeName field policy ih =>
      obtain ⟨-, hbuild, hregistered⟩ | ⟨-, hbuild, hregistered⟩ :=
        base.register_cases typeName field policy
      · rw [hbuild, hregistered, OrderedEntries.insertAll_append, ← ih]
        rfl
      · rw [hbuild, hregistered, ih]
  | setKeyRule base typeName rule ih => exact ih
  | extend base other ihBase ihOther =>
      rw [registrations, OrderedEntries.insertAll_append, ← ihBase]
      rfl

theorem reachable_build (recipe : Recipe) : recipe.build.Reachable := by
  induction recipe with
  | new => exact .empty
  | console =>
      rw [build_console]
      exact .setKeyRule _ _ (Reachable.empty.insertAll Procedure.usable_console)
  | register base typeName field policy ih =>
      obtain ⟨husable, hbuild, -⟩ | ⟨-, hbuild, -⟩ := base.register_cases typeName field policy
      · have hvalid := ListPolicy.fault?_eq_none_iff.mpr husable
        rw [hbuild]
        exact ih.register (register_eq_ok_iff.mpr ⟨hvalid, rfl⟩)
      · rw [hbuild]
        exact ih
  | setKeyRule base typeName rule ih => exact .setKeyRule typeName rule ih
  | extend base other ihBase ihOther => exact .extend ihBase ihOther

/-- Whatever can be built has a recipe. -/
theorem reachable_iff_exists {registry : Registry} :
    registry.Reachable ↔ ∃ recipe : Recipe, recipe.build = registry := by
  constructor
  · intro hreachable
    induction hreachable with
    | empty => exact ⟨.new, rfl⟩
    | @register registry next typeName field policy hregistry hregister ih =>
        obtain ⟨base, rfl⟩ := ih
        obtain ⟨hvalid, rfl⟩ := register_eq_ok_iff.mp hregister
        have husable := ListPolicy.fault?_eq_none_iff.mp hvalid
        obtain ⟨-, hbuild, -⟩ | ⟨hrefused, -⟩ := base.register_cases typeName field policy
        · exact ⟨.register base typeName field policy, hbuild⟩
        · exact absurd husable hrefused
    | setKeyRule typeName rule hregistry ih =>
        obtain ⟨base, rfl⟩ := ih
        exact ⟨.setKeyRule base typeName rule, rfl⟩
    | extend hregistry hother ih ihOther =>
        obtain ⟨base, rfl⟩ := ih
        obtain ⟨other, rfl⟩ := ihOther
        exact ⟨.extend base other, rfl⟩
  · rintro ⟨recipe, rfl⟩
    exact recipe.reachable_build

theorem usable_of_mem_policies (recipe : Recipe) :
    ∀ entry ∈ recipe.build.policies, entry.2.Usable := fun entry hentry =>
  ListPolicy.fault?_eq_none_iff.mp (recipe.reachable_build.fault?_eq_none entry hentry)

theorem ascending_policies (recipe : Recipe) :
    OrderedEntries.Ascending recipe.build.policies := by
  rw [policies_build]
  exact OrderedEntries.ascending_insertAll .nil recipe.registrations

theorem get?_build (recipe : Recipe) (typeName field : String) :
    recipe.build.get? typeName field =
      recipe.registrations.reverse.lookup ⟨typeName, field⟩ := by
  rw [get?, policies_build, OrderedEntries.find?_insertAll]
  exact Option.or_none

/-- A policy is registered if it is usable; if it is refused, nothing changes. -/
theorem run_register (recipe : Recipe) (typeName field : String) (policy : ListPolicy) :
    if policy.Usable then
      (Procedure.register typeName field policy).run recipe.build =
        .ok () (recipe.register typeName field policy).build
    else
      ∃ fault, policy.fault? = some fault ∧
        (Procedure.register typeName field policy).run recipe.build =
          .error (.invalidPolicy typeName field fault) recipe.build := by
  split_ifs with husable
  · rw [build, after, Procedure.run_register_of_usable husable]
  · rw [← ListPolicy.fault?_eq_none_iff, ← ne_eq, Option.ne_none_iff_exists'] at husable
    obtain ⟨fault, hfault⟩ := husable
    exact ⟨fault, hfault, Procedure.run_register_of_fault hfault typeName field _⟩

/-- **What was registered last is what counts.**  However a registry was built, its
policies are usable; a field has the policy of the last registration that succeeded, where
taking over a registry registers what is in it; a policy is registered if it is usable, and
otherwise nothing changes.  The policies are listed once each, in byte order.  So calls
that differ in the page only have the same key. -/
theorem build_latest_registrations {α : Type} (recipe : Recipe) :
    let registry := recipe.build
    (∀ entry ∈ registry.policies,
        entry.2.validate entry.1.typeName entry.1.field = .ok () ∧ entry.2.Usable) ∧
      (∀ typeName field, registry.get? typeName field =
        recipe.registrations.reverse.lookup ⟨typeName, field⟩) ∧
      (∀ (typeName field : String) (policy : ListPolicy),
        if policy.Usable then
          (Procedure.register typeName field policy).run registry =
            .ok () (recipe.register typeName field policy).build
        else
          ∃ fault, policy.fault? = some fault ∧
            (Procedure.register typeName field policy).run registry =
              .error (.invalidPolicy typeName field fault) registry) ∧
      (∀ other : Recipe, (Procedure.registerAll other.build.policies).run registry =
        .ok () { (recipe.extend other).build with keyRules := registry.keyRules }) ∧
      registry.policies.Pairwise (fun left right => left.1.BytesBefore right.1) ∧
      (∀ target policy, (target, policy) ∈ registry.policies ↔
        registry.get? target.typeName target.field = some policy) ∧
      ∀ (cache : Cache α) (call : Call) (arguments : Arguments), cache.registry = registry →
        AgreeButForPage arguments call.arguments →
        cache.locate { call with arguments := arguments } = cache.locate call := by
  intro registry
  have husable := recipe.usable_of_mem_policies
  have hascending := recipe.ascending_policies
  refine ⟨?_, recipe.get?_build, recipe.run_register, ?_, ?_, ?_, ?_⟩
  · intro entry hentry
    have hvalid := ListPolicy.fault?_eq_none_iff.mpr (husable entry hentry)
    exact ⟨validate_eq_ok_iff.mpr hvalid, husable entry hentry⟩
  · intro other
    exact Procedure.run_registerAll other.usable_of_mem_policies registry
  · exact hascending.imp TypeField.bytesBefore_iff_lt.mpr
  · intro target policy
    exact (OrderedEntries.find?_eq_some_iff_mem hascending).symm
  · intro cache call arguments hcache hagree
    exact Cache.locate_eq_of_agree (hcache ▸ husable) hagree

/-- The console's registry, with a policy that is replaced, one that is refused, and one
that comes with another registry. -/
def contested : Recipe :=
  .extend
    (.register
      (.register .console "Workspace" "requests" ⟨"requests", "numRequests", ["owner"]⟩)
      "Workspace" "jobs" ⟨"jobs", "numJobs", ["offset"]⟩)
    (.register .new "Workspace" "requests" ⟨"rows", "numRows", ["status"]⟩)

theorem build_latest_registrations_contested :
    let registry := contested.build
    let cache : Cache EntityKey := .fresh registry 8 100
    let status : String × Json.Value := ("status", .string "open")
    let first : Arguments := [status]
    let later : Arguments := [("limit", .null), ("offset", .null), status]
    registry.get? "Workspace" "requests" = some ⟨"rows", "numRows", ["status"]⟩ ∧
      registry.get? "Workspace" "jobs" = some Console.jobs ∧ registry.size = 6 ∧
      registry.policies.Pairwise (fun left right => left.1.BytesBefore right.1) ∧
      cache.locate ⟨"Workspace", "w", "requests", later⟩ =
        cache.locate ⟨"Workspace", "w", "requests", first⟩ := by
  intro registry cache status first later
  obtain ⟨-, hlatest, -, -, horder, -, hkeys⟩ :=
    @build_latest_registrations EntityKey contested
  have hagree : AgreeButForPage later first := by
    intro name hoffset hlimit
    exact (OrderedEntries.find?_cons_of_ne hlimit _ _).trans
      (OrderedEntries.find?_cons_of_ne hoffset _ _)
  refine ⟨(hlatest _ _).trans ?_, (hlatest _ _).trans ?_, ?_, horder, ?_⟩
  · decide
  · decide
  · decide
  · exact hkeys cache ⟨"Workspace", "w", "requests", first⟩ later rfl hagree

end Recipe

end Registry

end PagedCache
