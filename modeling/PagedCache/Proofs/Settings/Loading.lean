import PagedCache.FileTree
import PagedCache.Settings.Files

/-!
# Loading settings

Settings are loaded from at most two files of a tree, and the tree stays as it is.  Each
file has to be missing or to have settings; the settings that are loaded are theirs, one
layer upon the other.
-/

namespace PagedCache

namespace FileTree

/-- The document in a file. -/
def document? (tree : FileTree) (path : String) : Option Toml.Value :=
  match tree.readText path with
  | .ok text => Toml.parse? text
  | .error _ => none

/-- The settings in a file. -/
def settings? (tree : FileTree) (path : String) : Option Settings :=
  (tree.document? path).bind fun document => Settings.decode .toml document.toJson

/-- What is read of the settings in a file. -/
def readSettings (tree : FileTree) (path : String) : Except SettingsError Settings :=
  match tree.readText path with
  | .error cause => .error (.unreadableFile path cause)
  | .ok text =>
    match Settings.ofText? text with
    | none => .error (.malformedFile path)
    | some settings => .ok settings

/-- What is read of the settings in a file that may be missing. -/
def readLayer (tree : FileTree) (path : String) : Except SettingsError (Option Settings) :=
  if tree.isPresent path then (tree.readSettings path).map some else .ok none

theorem isPresent_of_readText {tree : FileTree} {path text : String}
    (htext : tree.readText path = .ok text) : tree.isPresent path = true := by
  unfold readText at htext
  unfold isPresent
  cases hresolve : tree.resolve path with
  | error error => simp [hresolve] at htext
  | ok trail => rfl

theorem readSettings_eq_ok_iff {tree : FileTree} {path : String} {settings : Settings} :
    tree.readSettings path = .ok settings ↔ tree.settings? path = some settings := by
  unfold readSettings settings? document?
  cases tree.readText path with
  | error cause => simp
  | ok text =>
      simp only [Settings.ofText?]
      cases (Toml.parse? text).bind fun document => Settings.decode .toml document.toJson <;>
        simp

/-- Of a file that may be missing its settings are read.  If there are none, it is
missing. -/
theorem readLayer_eq_ok_iff {tree : FileTree} {path : String} {found : Option Settings} :
    tree.readLayer path = .ok found ↔
      found = tree.settings? path ∧ (tree.isPresent path → found.isSome) := by
  unfold readLayer
  by_cases hpresent : tree.isPresent path
  · cases found with
    | none => cases tree.readSettings path <;> simp [hpresent, Except.map]
    | some settings =>
        rw [if_pos hpresent, eq_comm (b := tree.settings? path), ← readSettings_eq_ok_iff]
        cases tree.readSettings path <;> simp [Except.map]
  · have hnone : tree.settings? path = none := by
      rw [Option.eq_none_iff_forall_ne_some]
      intro settings hsettings
      unfold settings? document? at hsettings
      split at hsettings
      next text htext => exact hpresent (isPresent_of_readText htext)
      next => cases hsettings
    rw [if_neg hpresent, hnone, Except.ok.injEq]
    exact ⟨fun hfound => ⟨hfound.symm, fun h => absurd h hpresent⟩, fun hfound => hfound.1.symm⟩

end FileTree

namespace SettingsFiles

variable {tree : FileTree} {files : SettingsFiles} {root : String} {overrides : Overrides}

/-- A step leaves its value and its tree to the next one. -/
theorem run_bind {β γ : Type} {step : StateM FileTree β} {value : β} {after : FileTree}
    (hstep : step.run tree = (value, after)) (next : β → StateM FileTree γ) :
    (step >>= next).run tree = (next value).run after := by
  rw [StateT.run_bind, hstep]
  rfl

theorem run_readSettings (tree : FileTree) (path : String) :
    (readSettings path : StateM FileTree _).run tree = (tree.readSettings path, tree) := by
  have htext : (FileAccess.readText path : StateM FileTree _).run tree =
      (tree.readText path, tree) := rfl
  rw [readSettings, run_bind htext, FileTree.readSettings]
  cases tree.readText path with
  | error cause => rfl
  | ok text =>
      simp only
      cases Settings.ofText? text <;> rfl

theorem run_readIfPresent (tree : FileTree) (path : String) :
    (readIfPresent path : StateM FileTree _).run tree = (tree.readLayer path, tree) := by
  have hpresent : (FileAccess.isPresent path : StateM FileTree _).run tree =
      (tree.isPresent path, tree) := rfl
  rw [readIfPresent, run_bind hpresent, FileTree.readLayer]
  cases tree.isPresent path with
  | false => rfl
  | true =>
      simp only [if_true]
      rw [run_bind (run_readSettings tree path)]
      rfl

/-- What is read of the global settings. -/
def readGlobal (files : SettingsFiles) (tree : FileTree) :
    Except SettingsError (Option Settings) :=
  match files.globalPath? with
  | none => .ok none
  | some path => tree.readLayer path

/-- The settings in the global file. -/
def globalSettings? (files : SettingsFiles) (tree : FileTree) : Option Settings :=
  files.globalPath?.bind tree.settings?

theorem run_loadGlobal (hfresh : files.remembered = none) (tree : FileTree) :
    ∃ next, (files.loadGlobal : StateM FileTree _).run tree =
      ((files.readGlobal tree, next), tree) := by
  unfold loadGlobal readGlobal
  rw [hfresh]
  cases files.globalPath? with
  | none => exact ⟨files, rfl⟩
  | some path =>
      simp only
      rw [run_bind (run_readIfPresent tree path)]
      cases tree.readLayer path <;> exact ⟨_, rfl⟩

/-- Loading goes on from what is found of the global settings. -/
theorem run_load_of_global {found : Except SettingsError (Option Settings)}
    {next : SettingsFiles}
    (hglobal : (files.loadGlobal : StateM FileTree _).run tree = ((found, next), tree))
    (root : String) (overrides : Overrides) :
    (files.load root overrides : StateM FileTree _).run tree =
      ((do
        let global ← found
        let project ← tree.readLayer (localPath root)
        checked (Settings.ofLayers (global.toList ++ project.toList) overrides), next),
        tree) := by
  rw [load, run_bind hglobal]
  cases found with
  | error error => rfl
  | ok global =>
      simp only
      rw [loadLocal, run_bind (run_readIfPresent tree (localPath root))]
      cases tree.readLayer (localPath root) <;> rfl

/-- **Loading puts the settings of the files upon each other.** -/
theorem run_load (hfresh : files.remembered = none) (tree : FileTree) (root : String)
    (overrides : Overrides) :
    ∃ next, (files.load root overrides : StateM FileTree _).run tree =
      ((do
        let global ← files.readGlobal tree
        let project ← tree.readLayer (localPath root)
        checked (Settings.ofLayers (global.toList ++ project.toList) overrides), next),
        tree) := by
  obtain ⟨next, hglobal⟩ := run_loadGlobal hfresh tree
  exact ⟨next, run_load_of_global hglobal root overrides⟩

theorem readGlobal_eq_ok_iff {found : Option Settings} :
    files.readGlobal tree = .ok found ↔
      found = files.globalSettings? tree ∧
        ∀ path ∈ files.globalPath?, tree.isPresent path → found.isSome := by
  unfold readGlobal globalSettings?
  cases files.globalPath? with
  | none =>
      rw [Except.ok.injEq, eq_comm]
      simp
  | some path => simp [FileTree.readLayer_eq_ok_iff]

theorem checked_eq_ok_iff {settings loaded : Settings} :
    checked settings = .ok loaded ↔ loaded = settings ∧ settings.fault? = none := by
  unfold checked
  cases settings.fault? <;> simp [eq_comm]

/-- **What settings are loaded.**  Loading succeeds exactly if both files are missing or
have settings, and if these settings under the overrides are fit for use. -/
theorem load_eq_ok_iff (hfresh : files.remembered = none) {settings : Settings} :
    ((files.load root overrides : StateM FileTree _).run tree).1.1 = .ok settings ↔
      (∀ path ∈ files.globalPath?, tree.isPresent path → (files.globalSettings? tree).isSome) ∧
      (tree.isPresent (localPath root) → (tree.settings? (localPath root)).isSome) ∧
      settings = Settings.ofLayers ((files.globalSettings? tree).toList ++
        (tree.settings? (localPath root)).toList) overrides ∧
      settings.fault? = none := by
  obtain ⟨next, hload⟩ := run_load hfresh tree root overrides
  rw [hload]
  constructor
  · intro hok
    cases hglobal : files.readGlobal tree with
    | error error => simp [hglobal, bind, Except.bind] at hok
    | ok global =>
        cases hproject : tree.readLayer (localPath root) with
        | error error => simp [hglobal, hproject, bind, Except.bind] at hok
        | ok project =>
            simp only [hglobal, hproject, bind, Except.bind] at hok
            obtain ⟨rfl, hfault⟩ := checked_eq_ok_iff.mp hok
            obtain ⟨rfl, hglobalFound⟩ := readGlobal_eq_ok_iff.mp hglobal
            obtain ⟨rfl, hprojectFound⟩ := FileTree.readLayer_eq_ok_iff.mp hproject
            exact ⟨hglobalFound, hprojectFound, rfl, hfault⟩
  · rintro ⟨hglobalFound, hprojectFound, rfl, hfault⟩
    have hglobal := readGlobal_eq_ok_iff.mpr ⟨rfl, hglobalFound⟩
    have hproject := FileTree.readLayer_eq_ok_iff.mpr ⟨rfl, hprojectFound⟩
    simp only [hglobal, hproject, bind, Except.bind]
    exact checked_eq_ok_iff.mpr ⟨rfl, hfault⟩

/-- What is loaded if both files are there. -/
theorem load_of_settings (hfresh : files.remembered = none) {global project : Settings}
    (hglobal : files.globalSettings? tree = some global)
    (hproject : tree.settings? (localPath root) = some project)
    (hfault : (Settings.ofLayers [global, project] overrides).fault? = none) :
    ((files.load root overrides : StateM FileTree _).run tree).1.1 =
      .ok (Settings.ofLayers [global, project] overrides) := by
  rw [load_eq_ok_iff hfresh, hglobal, hproject]
  exact ⟨fun _ _ _ => rfl, fun _ => rfl, rfl, hfault⟩

end SettingsFiles

end PagedCache
