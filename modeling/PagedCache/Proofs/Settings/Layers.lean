import Mathlib.Logic.Basic
import PagedCache.Proofs.Settings.Loading

/-!
# Layers of settings

What a file writes is a partial choice of settings, as the overrides of a run are.  A layer
of settings is such a choice upon the defaults, and putting it on top of other layers chooses
what it writes, except for what it writes as it is by default.
-/

namespace PagedCache

namespace Overrides

/-- The choice of `first`, and of `second` where `first` has none. -/
def or (first second : Overrides) : Overrides where
  maxSnapshots := first.maxSnapshots.or second.maxSnapshots
  maxWindowEnd := first.maxWindowEnd.or second.maxWindowEnd
  logLevel := first.logLevel.or second.logLevel
  logFormat := first.logFormat.or second.logFormat

@[simp]
theorem or_none (chosen : Overrides) : chosen.or .none = chosen := by
  simp [or, none]

/-- The choice without what is so by default. -/
def withoutDefaults (chosen : Overrides) : Overrides where
  maxSnapshots := chosen.maxSnapshots.filter (· ≠ Limits.default.maxSnapshots)
  maxWindowEnd := chosen.maxWindowEnd.filter (· ≠ Limits.default.maxWindowEnd)
  logLevel := chosen.logLevel.filter (· ≠ Logging.default.level)
  logFormat := chosen.logFormat.filter (· ≠ Logging.default.format)

end Overrides

namespace Record

variable {β : Type} {properties : String → Option Json.Value} {name : String}
  {decode : Json.Value → Option β} {default value : β}

theorem optional_eq_some_iff :
    optional properties name decode default = some value ↔
      (properties name = none ∧ value = default) ∨
        ∃ given, properties name = some given ∧ decode given = some value := by
  unfold optional
  cases properties name <;> simp [eq_comm]

theorem eq_getD_of_optional (hvalue : optional properties name decode default = some value) :
    value = ((properties name).bind decode).getD default := by
  obtain ⟨hmissing, rfl⟩ | ⟨given, hgiven, hdecode⟩ := optional_eq_some_iff.mp hvalue
  · rw [hmissing]
    rfl
  · rw [hgiven, Option.bind_some, hdecode, Option.getD_some]

end Record

namespace Settings

/-- Settings with a choice upon the defaults, and policies. -/
def layer (chosen : Overrides) (policies : List PolicyEntry) : Settings :=
  (Settings.mk default.limits policies default.logging).applyOverrides chosen

/-- What a document gives for a name in a group. -/
def given? (document : Json.Value) (group : String) (members : List String) (name : String) :
    Option Json.Value := do
  let groups ← Record.properties? .toml names document
  let properties ← Record.properties? .toml members (← groups group)
  properties name

/-- The settings that a document writes. -/
def written (document : Json.Value) : Overrides where
  maxSnapshots :=
    (given? document "cache" Limits.names "max_snapshots").bind Json.Value.toWord?
  maxWindowEnd :=
    (given? document "cache" Limits.names "max_window_end").bind Json.Value.toWord?
  logLevel := (given? document "logging" Logging.names "level").bind Record.text?
  logFormat :=
    (given? document "logging" Logging.names "format").bind (LogFormat.decode .toml)

section Decode

variable {document value : Json.Value} {groups properties : String → Option Json.Value}
  {group : String} {members : List String}

theorem given?_of_missing (hgroups : Record.properties? .toml names document = some groups)
    (hmissing : groups group = none) (name : String) :
    given? document group members name = none := by
  simp [given?, hgroups, hmissing]

theorem given?_of_group (hgroups : Record.properties? .toml names document = some groups)
    (hvalue : groups group = some value)
    (hproperties : Record.properties? .toml members value = some properties) (name : String) :
    given? document group members name = properties name := by
  simp [given?, hgroups, hvalue, hproperties]

theorem limits_of_optional (hgroups : Record.properties? .toml names document = some groups)
    {limits : Limits}
    (hlimits : Record.optional groups "cache" (Limits.decode .toml) default.limits =
      some limits) :
    limits = (default.applyOverrides (written document)).limits := by
  obtain ⟨hmissing, rfl⟩ | ⟨value, hvalue, hdecode⟩ := Record.optional_eq_some_iff.mp hlimits
  · simp only [applyOverrides, written, given?_of_missing hgroups hmissing, Option.bind_none,
      Option.getD_none]
  · simp only [Limits.decode, Option.bind_eq_bind, Option.bind_eq_some_iff] at hdecode
    obtain ⟨properties, hproperties, maxSnapshots, hsnapshots, maxWindowEnd, hend, hdone⟩ :=
      hdecode
    cases hdone
    simp only [applyOverrides, written, given?_of_group hgroups hvalue hproperties,
      Record.eq_getD_of_optional hsnapshots, Record.eq_getD_of_optional hend]
    rfl

theorem logging_of_optional (hgroups : Record.properties? .toml names document = some groups)
    {logging : Logging}
    (hlogging : Record.optional groups "logging" (Logging.decode .toml) default.logging =
      some logging) :
    logging = (default.applyOverrides (written document)).logging := by
  obtain ⟨hmissing, rfl⟩ | ⟨value, hvalue, hdecode⟩ := Record.optional_eq_some_iff.mp hlogging
  · simp only [applyOverrides, written, given?_of_missing hgroups hmissing, Option.bind_none,
      Option.getD_none]
  · simp only [Logging.decode, Option.bind_eq_bind, Option.bind_eq_some_iff] at hdecode
    obtain ⟨properties, hproperties, level, hlevel, format, hformat, hdone⟩ := hdecode
    cases hdone
    simp only [applyOverrides, written, given?_of_group hgroups hvalue hproperties,
      Record.eq_getD_of_optional hlevel, Record.eq_getD_of_optional hformat]
    rfl

/-- Settings are a layer of what their document writes. -/
theorem eq_layer_of_decode {settings : Settings}
    (hdecode : decode .toml document = some settings) :
    settings = layer (written document) settings.policies := by
  simp only [decode, Option.bind_eq_bind, Option.bind_eq_some_iff] at hdecode
  obtain ⟨groups, hgroups, limits, hlimits, policies, -, logging, hlogging, hdone⟩ := hdecode
  cases hdone
  exact congrArg₂ (Settings.mk · policies ·) (limits_of_optional hgroups hlimits)
    (logging_of_optional hgroups hlogging)

end Decode

section Setting

variable {β : Type} [DecidableEq β]

theorem getD_filter_ne (default : β) (given : Option β) :
    (given.filter (· ≠ default)).getD default = given.getD default := by
  cases given with
  | none => rfl
  | some value => by_cases hvalue : value = default <;> simp [Option.filter, hvalue]

theorem getD_or_filter_ne (default : β) (above below : Option β) :
    ((above.filter (· ≠ default)).or below).getD default =
      if above.getD default = default then below.getD default else above.getD default := by
  cases above with
  | none => simp
  | some value => by_cases hvalue : value = default <;> simp [Option.filter, hvalue]

end Setting

section Layers

variable (chosen above below : Overrides) (policies : List PolicyEntry)

theorem layer_none : layer .none [] = default :=
  rfl

theorem applyOverrides_layer :
    (layer below policies).applyOverrides above = layer (above.or below) policies := by
  simp [layer, applyOverrides, Overrides.or, Option.getD_or]

theorem layer_withoutDefaults :
    layer chosen.withoutDefaults policies = layer chosen policies := by
  simp only [layer, applyOverrides, Overrides.withoutDefaults, default, getD_filter_ne]

/-- **A layer chooses what it writes, unless that is the default.** -/
theorem merge_layer (first second : List PolicyEntry) :
    (layer below first).merge (layer above second) =
      layer (above.withoutDefaults.or below) (PolicyEntry.merge first second) := by
  simp only [layer, merge, Limits.merge, Logging.merge, applyOverrides, Overrides.or,
    Overrides.withoutDefaults, default, getD_or_filter_ne]
  rfl

end Layers

/-- How a setting is settled.  A project that writes the default is passed over; the sources
are asked in order unless this lets another global value through. -/
structure Settles {β : Type} [DecidableEq β] (default : β) (override project global : Option β)
    (value : β) : Prop where
  eq_chosen : value = (override.or ((project.filter (· ≠ default)).or global)).getD default
  inOrder_iff : value = (override.or (project.or global)).getD default ↔
    ¬(override = none ∧ project = some default ∧ ∃ other ∈ global, other ≠ default)

theorem settles_of_eq {β : Type} [DecidableEq β] {default value : β}
    {override project global : Option β}
    (hvalue : value = (override.or ((project.filter (· ≠ default)).or global)).getD default) :
    Settles default override project global value where
  eq_chosen := hvalue
  inOrder_iff := by
    subst hvalue
    cases override with
    | some chosen => simp
    | none =>
        cases project with
        | none => simp
        | some written =>
            by_cases hdefault : written = default
            · cases global <;> simp [Option.filter, hdefault]
            · simp [Option.filter, hdefault]

/-- How the settings besides the policies are settled. -/
structure Settled (settings : Settings) (overrides project global : Overrides) : Prop where
  maxSnapshots : Settles Limits.default.maxSnapshots overrides.maxSnapshots
    project.maxSnapshots global.maxSnapshots settings.limits.maxSnapshots
  maxWindowEnd : Settles Limits.default.maxWindowEnd overrides.maxWindowEnd
    project.maxWindowEnd global.maxWindowEnd settings.limits.maxWindowEnd
  level : Settles Logging.default.level overrides.logLevel
    project.logLevel global.logLevel settings.logging.level
  format : Settles Logging.default.format overrides.logFormat
    project.logFormat global.logFormat settings.logging.format

theorem settled_layer (overrides project global : Overrides) (policies : List PolicyEntry) :
    (layer (overrides.or (project.withoutDefaults.or global)) policies).Settled
      overrides project global where
  maxSnapshots := settles_of_eq rfl
  maxWindowEnd := settles_of_eq rfl
  level := settles_of_eq rfl
  format := settles_of_eq rfl

end Settings

namespace FileTree

variable {tree : FileTree} {path : String}

/-- The settings that a file writes. -/
def written (tree : FileTree) (path : String) : Overrides :=
  (tree.document? path).elim .none fun document => Settings.written document.toJson

/-- The policies that a file writes. -/
def policies (tree : FileTree) (path : String) : List PolicyEntry :=
  (tree.settings? path).elim [] Settings.policies

theorem eq_layer_of_settings? {settings : Settings}
    (hsettings : tree.settings? path = some settings) :
    settings = Settings.layer (tree.written path) (tree.policies path) := by
  obtain ⟨document, hdocument, hdecode⟩ := Option.bind_eq_some_iff.mp hsettings
  rw [written, policies, hdocument, hsettings]
  exact Settings.eq_layer_of_decode hdecode

/-- Nothing is written in a file that is missing. -/
theorem written_eq_none_of_settings?_eq_none
    (hfound : tree.isPresent path → (tree.settings? path).isSome)
    (hnone : tree.settings? path = none) : tree.written path = .none := by
  have hmissing : ¬tree.isPresent path := fun hpresent =>
    absurd (hfound hpresent) (by simp [hnone])
  have hdocument : tree.document? path = none := by
    unfold document?
    split
    next text htext => exact absurd (isPresent_of_readText htext) hmissing
    next => rfl
  rw [written, hdocument]
  rfl

/-- A file is put upon other layers as what it writes. -/
theorem foldl_merge_layer (hfound : tree.isPresent path → (tree.settings? path).isSome)
    (below : Overrides) (entries : List PolicyEntry) :
    (tree.settings? path).toList.foldl Settings.merge (Settings.layer below entries) =
      Settings.layer ((tree.written path).withoutDefaults.or below)
        (PolicyEntry.merge entries (tree.policies path)) := by
  cases hsettings : tree.settings? path with
  | none =>
      rw [written_eq_none_of_settings?_eq_none hfound hsettings, policies, hsettings]
      rfl
  | some settings =>
      rw [eq_layer_of_settings? hsettings]
      exact Settings.merge_layer _ _ _ _

end FileTree

namespace SettingsFiles

variable {tree : FileTree} {files : SettingsFiles} {root : String} {overrides : Overrides}

/-- The settings that the global file writes. -/
def globalWritten (files : SettingsFiles) (tree : FileTree) : Overrides :=
  files.globalPath?.elim .none tree.written

/-- The policies that the global file writes. -/
def globalPolicies (files : SettingsFiles) (tree : FileTree) : List PolicyEntry :=
  (files.globalSettings? tree).elim [] Settings.policies

theorem foldl_merge_default
    (hfound : ∀ path ∈ files.globalPath?, tree.isPresent path →
      (files.globalSettings? tree).isSome) :
    (files.globalSettings? tree).toList.foldl Settings.merge .default =
      Settings.layer (files.globalWritten tree)
        (PolicyEntry.merge [] (files.globalPolicies tree)) := by
  unfold globalWritten globalPolicies globalSettings? at *
  cases hpath : files.globalPath? with
  | none => rfl
  | some path =>
      rw [hpath] at hfound
      rw [Option.bind_some, ← Settings.layer_none,
        FileTree.foldl_merge_layer (hfound path rfl), Overrides.or_none,
        Settings.layer_withoutDefaults]
      rfl

/-- **What is loaded.** -/
theorem eq_layer_of_load (hfresh : files.remembered = none) {settings : Settings}
    (hload : ((files.load root overrides : StateM FileTree _).run tree).1.1 = .ok settings) :
    settings = Settings.layer
      (overrides.or
        ((tree.written (localPath root)).withoutDefaults.or (files.globalWritten tree)))
      (PolicyEntry.merge (PolicyEntry.merge [] (files.globalPolicies tree))
        (tree.policies (localPath root))) := by
  obtain ⟨hglobal, hproject, rfl, -⟩ := (load_eq_ok_iff hfresh).mp hload
  rw [Settings.ofLayers, List.foldl_append, foldl_merge_default hglobal,
    FileTree.foldl_merge_layer hproject, Settings.applyOverrides_layer]

/-- **How the files and the overrides settle what is loaded.** -/
theorem settled_of_load (hfresh : files.remembered = none) {settings : Settings}
    (hload : ((files.load root overrides : StateM FileTree _).run tree).1.1 = .ok settings) :
    settings.Settled overrides (tree.written (localPath root)) (files.globalWritten tree) := by
  rw [eq_layer_of_load hfresh hload]
  exact Settings.settled_layer _ _ _ _

/-- A tree with a global settings file and one of the project `work`. -/
def treeOfTexts (global project : String) : FileTree where
  root := .directory
    [("global", .directory [("config.toml", .file global)]),
      ("work", .directory [(".monoid-cache", .directory [("config.toml", .file project)])])]
  workingDirectory := []

/-- A limit from each of the files, a format from the overrides, and the level by default. -/
theorem settled_of_load_everySource :
    let files := ofGlobalDirectory "global"
    let tree := treeOfTexts "[cache]\nmax_snapshots = 64\n" "[cache]\nmax_window_end = 500\n"
    let settings : Settings := ⟨⟨64, 500⟩, [], ⟨"info", .json⟩⟩
    ((files.load "work" ⟨none, none, none, some .json⟩ : StateM FileTree _).run tree).1.1 =
        .ok settings ∧
      settings.Settled ⟨none, none, none, some .json⟩ ⟨none, some 500, none, none⟩
        ⟨some 64, none, none, none⟩ := by
  intro files tree settings
  have hglobal : files.globalSettings? tree = some ⟨⟨64, 1000000⟩, [], .default⟩ := by
    decide +kernel
  have hproject : tree.settings? (localPath "work") = some ⟨⟨4096, 500⟩, [], .default⟩ := by
    decide +kernel
  have hload : ((files.load "work" ⟨none, none, none, some .json⟩ : StateM FileTree _).run
      tree).1.1 = .ok settings := load_of_settings rfl hglobal hproject (by decide +kernel)
  have hprojectWritten : tree.written (localPath "work") = ⟨none, some 500, none, none⟩ := by
    decide +kernel
  have hglobalWritten : files.globalWritten tree = ⟨some 64, none, none, none⟩ := by
    decide +kernel
  refine ⟨hload, ?_⟩
  rw [← hprojectWritten, ← hglobalWritten]
  exact settled_of_load rfl hload

/-- Later sources do not always win: a project that writes the default limit gets the one
that is written globally. -/
theorem not_forall_load_inOrder :
    ¬∀ (files : SettingsFiles) (tree : FileTree) (root : String) (overrides : Overrides)
        (settings : Settings), files.remembered = none →
      ((files.load root overrides : StateM FileTree _).run tree).1.1 = .ok settings →
        let inOrder := Settings.layer
          (overrides.or ((tree.written (localPath root)).or (files.globalWritten tree))) []
        settings.limits = inOrder.limits ∧ settings.logging = inOrder.logging := by
  intro hinOrder
  let files := ofGlobalDirectory "global"
  let tree := treeOfTexts "[cache]\nmax_snapshots = 64\n" "[cache]\nmax_snapshots = 4096\n"
  have hglobal : files.globalSettings? tree = some ⟨⟨64, 1000000⟩, [], .default⟩ := by
    decide +kernel
  have hproject : tree.settings? (localPath "work") = some .default := by decide +kernel
  have hload : ((files.load "work" .none : StateM FileTree _).run tree).1.1 =
      .ok ⟨⟨64, 1000000⟩, [], .default⟩ :=
    load_of_settings rfl hglobal hproject (by decide +kernel)
  have hlimits := (hinOrder files tree "work" .none _ rfl hload).1
  revert hlimits
  decide +kernel

end SettingsFiles

end PagedCache
