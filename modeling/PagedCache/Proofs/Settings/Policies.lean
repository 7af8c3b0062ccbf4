import Mathlib.Data.List.Nodup
import PagedCache.CommandLine.Commands
import PagedCache.Proofs.Registry
import PagedCache.Proofs.Settings.Layers

/-!
# Configured policies

The policies of the files are put together one after another, and each replaces the one for
the same field.  So no field has two of them, and registering them upon the console's
policies gives every field its last one.
-/

namespace PagedCache

namespace PolicyEntry

variable {entry : PolicyEntry} {entries base overlay : List PolicyEntry} {target : TypeField}

/-- The last entry for a field. -/
def last? (target : TypeField) (entries : List PolicyEntry) : Option PolicyEntry :=
  entries.reverse.find? fun entry => entry.target = target

theorem last?_cons :
    last? target (entry :: entries) =
      (last? target entries).or (if entry.target = target then some entry else none) := by
  rw [last?, List.reverse_cons, List.find?_append, last?]
  congr 1
  split_ifs with htarget <;> simp [htarget]

theorem mem_target_insert {other : TypeField}
    (hother : other ∈ (insert entry entries).map PolicyEntry.target) :
    other = entry.target ∨ other ∈ entries.map PolicyEntry.target := by
  induction entries with
  | nil => exact .inl (List.mem_singleton.mp hother)
  | cons first rest ih =>
      unfold insert at hother
      split_ifs at hother with hsame
      · exact (List.mem_cons.mp hother).imp_right (List.mem_cons_of_mem _)
      · obtain rfl | hrest := List.mem_cons.mp hother
        · exact .inr List.mem_cons_self
        · exact (ih hrest).imp_right (List.mem_cons_of_mem _)

theorem nodup_insert (hentries : (entries.map PolicyEntry.target).Nodup) :
    ((insert entry entries).map PolicyEntry.target).Nodup := by
  induction entries with
  | nil => exact List.nodup_singleton _
  | cons first rest ih =>
      obtain ⟨hfirst, hrest⟩ := List.nodup_cons.mp hentries
      unfold insert
      split_ifs with hsame
      · exact List.nodup_cons.mpr ⟨hsame ▸ hfirst, hrest⟩
      · refine List.nodup_cons.mpr ⟨fun hmem => ?_, ih hrest⟩
        exact (mem_target_insert hmem).elim hsame hfirst

theorem nodup_merge (hbase : (base.map PolicyEntry.target).Nodup) (overlay : List PolicyEntry) :
    ((merge base overlay).map PolicyEntry.target).Nodup := by
  induction overlay generalizing base with
  | nil => exact hbase
  | cons entry rest ih => exact ih (nodup_insert hbase)

/-- No field has two entries in policies that were put together from nothing. -/
theorem nodup_merge_nil (overlay : List PolicyEntry) :
    ((merge [] overlay).map PolicyEntry.target).Nodup := by
  have hempty : (([] : List PolicyEntry).map PolicyEntry.target).Nodup := List.nodup_nil
  exact nodup_merge hempty overlay

theorem find?_insert :
    (insert entry entries).find? (·.target = target) =
      if entry.target = target then some entry else entries.find? (·.target = target) := by
  induction entries with
  | nil => split_ifs with htarget <;> simp [insert, htarget]
  | cons first rest ih =>
      unfold insert
      split_ifs with hsame htarget htarget
      · simp [htarget]
      · simp [hsame, htarget]
      · have hfirst : first.target ≠ target := htarget ▸ hsame
        rw [List.find?_cons_of_neg (by simpa using hfirst), ih, if_pos htarget]
      · rw [List.find?_cons, List.find?_cons, ih, if_neg htarget]

theorem find?_merge (base overlay : List PolicyEntry) :
    (merge base overlay).find? (·.target = target) =
      (last? target overlay).or (base.find? (·.target = target)) := by
  induction overlay generalizing base with
  | nil => rfl
  | cons entry rest ih =>
      have hstep : merge base (entry :: rest) = merge (entry.insert base) rest := rfl
      rw [hstep, ih, find?_insert, last?_cons, Option.or_assoc]
      split_ifs <;> rfl

theorem last?_eq_find? (hentries : (entries.map PolicyEntry.target).Nodup) :
    last? target entries = entries.find? (·.target = target) := by
  induction entries with
  | nil => rfl
  | cons first rest ih =>
      obtain ⟨hfirst, hrest⟩ := List.nodup_cons.mp hentries
      rw [last?_cons, ih hrest]
      by_cases htarget : first.target = target
      · have hnone : rest.find? (·.target = target) = none := by
          refine List.find?_eq_none.mpr fun other hother hsame => hfirst ?_
          rw [htarget, ← of_decide_eq_true hsame]
          exact List.mem_map_of_mem hother
        rw [hnone, if_pos htarget, List.find?_cons_of_pos (by simpa using htarget)]
        rfl
      · rw [if_neg htarget, Option.or_none, List.find?_cons_of_neg (by simpa using htarget)]

theorem last?_merge (hbase : (base.map PolicyEntry.target).Nodup)
    (overlay : List PolicyEntry) :
    last? target (merge base overlay) = (last? target overlay).or (last? target base) := by
  rw [last?_eq_find? (nodup_merge hbase overlay), last?_eq_find? hbase, find?_merge]

theorem last?_merge_nil (overlay : List PolicyEntry) :
    last? target (merge [] overlay) = last? target overlay := by
  rw [last?_eq_find? (nodup_merge_nil overlay), find?_merge, List.find?_nil, Option.or_none]

end PolicyEntry

namespace Settings

variable {settings : Settings} {registry : Registry} {entries : List PolicyEntry}

theorem fault?_eq_none_of_mem (hfault : settings.fault? = none) {entry : PolicyEntry}
    (hentry : entry ∈ settings.policies) : entry.policy.fault? = none := by
  unfold fault? at hfault
  split_ifs at hfault
  have hnone := List.findSome?_eq_none_iff.mp hfault entry hentry
  unfold PolicyEntry.fault? at hnone
  split_ifs at hnone
  exact Option.map_eq_none_iff.mp hnone

theorem maxSnapshots_pos (hfault : settings.fault? = none) :
    0 < settings.limits.maxSnapshots := by
  unfold fault? at hfault
  split_ifs at hfault with hzero
  exact Nat.pos_of_ne_zero hzero

/-- **Valid entries can be registered, and each field gets its last one.** -/
theorem exists_registerEntries
    (hentries : ∀ entry ∈ entries, entry.policy.fault? = none) (registry : Registry) :
    ∃ next, registerEntries registry entries = .ok next ∧
      next.keyRules = registry.keyRules ∧
      ∀ typeName field, next.get? typeName field =
        ((PolicyEntry.last? ⟨typeName, field⟩ entries).map PolicyEntry.policy).or
          (registry.get? typeName field) := by
  induction entries generalizing registry with
  | nil => exact ⟨registry, rfl, rfl, fun _ _ => rfl⟩
  | cons entry rest ih =>
      obtain ⟨hentry, hrest⟩ := List.forall_mem_cons.mp hentries
      obtain ⟨middle, hmiddle⟩ :
          ∃ middle, registry.register entry.typeName entry.field entry.policy = .ok middle :=
        ⟨_, Registry.register_eq_ok_iff.mpr ⟨hentry, rfl⟩⟩
      obtain ⟨next, hnext, hrules, hfound⟩ := ih hrest middle
      refine ⟨next, ?_, ?_, fun typeName field => ?_⟩
      · rw [registerEntries, hmiddle]
        exact hnext
      · obtain ⟨-, rfl⟩ := Registry.register_eq_ok_iff.mp hmiddle
        exact hrules
      · rw [hfound, Registry.get?_register hmiddle, PolicyEntry.last?_cons,
          PolicyEntry.target]
        split_ifs <;> cases PolicyEntry.last? ⟨typeName, field⟩ rest <;> rfl

/-- Settings that are fit for use build a cache, whose registry is the console's with the
configured policies. -/
theorem exists_cacheFor (hfault : settings.fault? = none) :
    ∃ console registry, Console.registry = .ok console ∧
      CommandLine.cacheFor settings =
        .ok (.fresh registry settings.limits.maxSnapshots settings.limits.maxWindowEnd) ∧
      registry.keyRules = console.keyRules ∧
      ∀ typeName field, registry.get? typeName field =
        ((PolicyEntry.last? ⟨typeName, field⟩ settings.policies).map PolicyEntry.policy).or
          (console.get? typeName field) := by
  obtain ⟨console, hconsole⟩ : ∃ console, Console.registry = .ok console := ⟨_, rfl⟩
  obtain ⟨registry, hregistry, hrules, hfound⟩ := exists_registerEntries
    (fun entry hentry => fault?_eq_none_of_mem hfault hentry) console
  refine ⟨console, registry, hconsole, ?_, hrules, hfound⟩
  simp only [CommandLine.cacheFor, CommandLine.registryFor, hconsole, hregistry,
    Except.mapError, bind, Except.bind, Except.map]

end Settings

namespace SettingsFiles

variable {tree : FileTree} {files : SettingsFiles} {root : String} {overrides : Overrides}
  {settings : Settings}

theorem policies_of_load (hfresh : files.remembered = none)
    (hload : ((files.load root overrides : StateM FileTree _).run tree).1.1 = .ok settings) :
    settings.policies = PolicyEntry.merge (PolicyEntry.merge [] (files.globalPolicies tree))
      (tree.policies (localPath root)) := by
  rw [eq_layer_of_load hfresh hload]
  rfl

/-- The last entry for a field is the project's, or else the global one. -/
theorem last?_policies_of_load (hfresh : files.remembered = none)
    (hload : ((files.load root overrides : StateM FileTree _).run tree).1.1 = .ok settings)
    (target : TypeField) :
    PolicyEntry.last? target settings.policies =
      (PolicyEntry.last? target (tree.policies (localPath root))).or
        (PolicyEntry.last? target (files.globalPolicies tree)) := by
  rw [policies_of_load hfresh hload, PolicyEntry.last?_merge (PolicyEntry.nodup_merge_nil _),
    PolicyEntry.last?_merge_nil]

/-- **A cache can be built from the settings that are loaded.**  Its policies are the last
ones of the project, of the global file, and of the console, in this order. -/
theorem cacheFor_of_load (hfresh : files.remembered = none)
    (hload : ((files.load root overrides : StateM FileTree _).run tree).1.1 = .ok settings) :
    (settings.policies.map PolicyEntry.target).Nodup ∧
      ∃ console cache, Console.registry = .ok console ∧
        CommandLine.cacheFor settings = .ok cache ∧
        cache.capacity = settings.limits.maxSnapshots ∧
        cache.maxWindowEnd = settings.limits.maxWindowEnd ∧
        cache.registry.keyRules = console.keyRules ∧
        ∀ typeName field, cache.registry.get? typeName field =
          (((PolicyEntry.last? ⟨typeName, field⟩ (tree.policies (localPath root))).or
            (PolicyEntry.last? ⟨typeName, field⟩ (files.globalPolicies tree))).map
              PolicyEntry.policy).or (console.get? typeName field) := by
  have hpolicies := policies_of_load hfresh hload
  obtain ⟨-, -, -, hfault⟩ := (load_eq_ok_iff hfresh).mp hload
  obtain ⟨console, registry, hconsole, hcache, hrules, hfound⟩ := Settings.exists_cacheFor hfault
  refine ⟨?_, console, _, hconsole, hcache, ?_, rfl, hrules, fun typeName field => ?_⟩
  · rw [hpolicies]
    exact PolicyEntry.nodup_merge (PolicyEntry.nodup_merge_nil _) _
  · exact Nat.max_eq_left (Settings.maxSnapshots_pos hfault)
  · rw [← last?_policies_of_load hfresh hload]
    exact hfound typeName field

/-- A project that writes two policies for a field of the console. -/
theorem cacheFor_of_load_repeatedField :
    let files := ofGlobalDirectory "global"
    let tree := treeOfTexts
      "policies = [['Workspace', 'jobs', 'rows', 'total'], ['Silo', 'tags', 'tags', 'size']]"
      "policies = [['Workspace', 'jobs', 'old', 'total'], ['Workspace', 'jobs', 'new', 'total']]"
    let settings : Settings := ⟨.default,
      [⟨"Workspace", "jobs", "new", "total", []⟩, ⟨"Silo", "tags", "tags", "size", []⟩],
      .default⟩
    ((files.load "work" .none : StateM FileTree _).run tree).1.1 = .ok settings ∧
      ∃ cache, CommandLine.cacheFor settings = .ok cache ∧
        cache.capacity = 4096 ∧
        cache.registry.get? "Workspace" "jobs" = some ⟨"new", "total", []⟩ ∧
        cache.registry.get? "Silo" "tags" = some ⟨"tags", "size", []⟩ ∧
        cache.registry.get? "Workspace" "requests" = some Console.requests := by
  intro files tree settings
  have hglobal : files.globalSettings? tree = some ⟨.default,
      [⟨"Workspace", "jobs", "rows", "total", []⟩, ⟨"Silo", "tags", "tags", "size", []⟩],
      .default⟩ := by decide +kernel
  have hproject : tree.settings? (localPath "work") = some ⟨.default,
      [⟨"Workspace", "jobs", "old", "total", []⟩, ⟨"Workspace", "jobs", "new", "total", []⟩],
      .default⟩ := by decide +kernel
  have hload : ((files.load "work" .none : StateM FileTree _).run tree).1.1 = .ok settings :=
    load_of_settings rfl hglobal hproject (by decide +kernel)
  obtain ⟨-, console, cache, hconsole, hcache, hcapacity, -, -, hfound⟩ :=
    cacheFor_of_load rfl hload
  have hrequests : console.get? "Workspace" "requests" = some Console.requests := by
    cases hconsole
    decide +kernel
  refine ⟨hload, cache, hcache, hcapacity, ?_, ?_, ?_⟩
  all_goals rw [hfound, FileTree.policies, hproject, globalPolicies, hglobal]
  · rfl
  · rfl
  · rw [hrequests]
    rfl

end SettingsFiles

end PagedCache
