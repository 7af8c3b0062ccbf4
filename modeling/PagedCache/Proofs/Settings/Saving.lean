import PagedCache.CommandLine.Commands
import PagedCache.Proofs.FileTree
import PagedCache.Proofs.Settings.Policies
import PagedCache.Proofs.Settings.Text

/-!
# Saved settings are loaded again

Loading puts layers upon the defaults, so it yields at most one policy for a field and only
settings that are fit for use.  Such settings are what they are as a layer, and as long as
they have a text they are loaded again from it.  The text is what is printed of settings, and
what is written when they are saved.
-/

namespace PagedCache

namespace PolicyEntry

theorem insert_eq_append {entry : PolicyEntry} {entries : List PolicyEntry}
    (hentry : entry.target ∉ entries.map PolicyEntry.target) :
    insert entry entries = entries ++ [entry] := by
  induction entries with
  | nil => rfl
  | cons first rest ih =>
      rw [List.map_cons, List.mem_cons, not_or] at hentry
      rw [insert, if_neg (Ne.symm hentry.1), ih hentry.2, List.cons_append]

/-- Policies for new fields are added in their order. -/
theorem merge_eq_append {base overlay : List PolicyEntry}
    (htargets : ((base ++ overlay).map PolicyEntry.target).Nodup) :
    merge base overlay = base ++ overlay := by
  induction overlay generalizing base with
  | nil => rw [List.append_nil]; rfl
  | cons entry rest ih =>
      have hsplit : base ++ entry :: rest = base ++ [entry] ++ rest := by simp
      have hentry : entry.target ∉ base.map PolicyEntry.target := by
        intro hmem
        rw [List.map_append] at htargets
        exact List.disjoint_of_nodup_append htargets hmem List.mem_cons_self
      have hstep : merge base (entry :: rest) = merge (entry.insert base) rest := rfl
      rw [hsplit] at htargets ⊢
      rw [hstep, insert_eq_append hentry, ih htargets]

theorem insert_of_mem {entry : PolicyEntry} {entries : List PolicyEntry}
    (htargets : (entries.map PolicyEntry.target).Nodup) (hentry : entry ∈ entries) :
    insert entry entries = entries := by
  induction entries with
  | nil => cases hentry
  | cons first rest ih =>
      obtain ⟨hfirst, hrest⟩ := List.nodup_cons.mp htargets
      rw [insert]
      obtain rfl | hlater := List.mem_cons.mp hentry
      · rw [if_pos rfl]
      · have hother : first.target ≠ entry.target := fun hsame =>
          hfirst (hsame ▸ List.mem_map_of_mem hlater)
        rw [if_neg hother, ih hrest hlater]

/-- Policies that are there already stay as they are. -/
theorem merge_of_subset {base overlay : List PolicyEntry}
    (htargets : (base.map PolicyEntry.target).Nodup) (hsubset : overlay ⊆ base) :
    merge base overlay = base := by
  induction overlay with
  | nil => rfl
  | cons entry rest ih =>
      obtain ⟨hentry, hrest⟩ := List.cons_subset.mp hsubset
      have hstep : merge base (entry :: rest) = merge (entry.insert base) rest := rfl
      rw [hstep, insert_of_mem htargets hentry, ih hrest]

end PolicyEntry

namespace Settings

variable {settings : Settings}

/-- Settings that layers can result in: no field has two policies. -/
def Layered (settings : Settings) : Prop :=
  (settings.policies.map PolicyEntry.target).Nodup

theorem layered_merge {base : Settings} (hbase : base.Layered) (overlay : Settings) :
    (base.merge overlay).Layered :=
  PolicyEntry.nodup_merge hbase overlay.policies

theorem layered_ofLayers (layers : List Settings) (overrides : Overrides) :
    (ofLayers layers overrides).Layered := by
  have hlayers : ∀ base : Settings, base.Layered → (layers.foldl merge base).Layered := by
    induction layers with
    | nil => exact fun base hbase => hbase
    | cons layer rest ih => exact fun base hbase => ih _ (layered_merge hbase layer)
  exact hlayers default List.nodup_nil

/-- **Upon the defaults, settings are what they are.** -/
theorem merge_default (hsettings : settings.Layered) : default.merge settings = settings := by
  have hpolicies : PolicyEntry.merge [] settings.policies = settings.policies :=
    PolicyEntry.merge_eq_append hsettings
  have hvalue : ∀ {β : Type} [DecidableEq β] (default value : β),
      (if value = default then default else value) = value := by
    intro β _ default value
    split_ifs with hsame
    · exact hsame.symm
    · rfl
  simp only [merge, default, Limits.merge, Logging.merge, hpolicies, hvalue]

/-- **Upon themselves, settings are what they are.** -/
theorem merge_self (hsettings : settings.Layered) : settings.merge settings = settings := by
  have hpolicies : PolicyEntry.merge settings.policies settings.policies = settings.policies :=
    PolicyEntry.merge_of_subset hsettings (List.Subset.refl _)
  simp only [merge, Limits.merge, Logging.merge, hpolicies, ite_self]

/-- **Settings are the result of layers that are all like them.** -/
theorem ofLayers_eq_self (hsettings : settings.Layered) {layers : List Settings}
    (hnonempty : layers ≠ []) (hlayers : ∀ layer ∈ layers, layer = settings) :
    ofLayers layers .none = settings := by
  have hfold : layers.foldl merge default = settings := by
    cases layers with
    | nil => exact absurd rfl hnonempty
    | cons first rest =>
        obtain ⟨rfl, hrest⟩ := List.forall_mem_cons.mp hlayers
        rw [List.foldl_cons, merge_default hsettings]
        clear hlayers hnonempty
        induction rest with
        | nil => rfl
        | cons second rest ih =>
            obtain ⟨rfl, hmore⟩ := List.forall_mem_cons.mp hrest
            rw [List.foldl_cons, merge_self hsettings]
            exact ih hmore
  rw [ofLayers, hfold]
  rfl

end Settings

namespace SettingsFiles

variable {tree next : FileTree} {files : SettingsFiles} {root path text : String}
  {overrides : Overrides} {settings : Settings}

/-! ## What loading yields -/

/-- The settings that loading yields: from whatever files and with whatever overrides, and
whether or not the global settings were read before. -/
inductive Effective (settings : Settings) : Prop where
  | load {files : SettingsFiles} {root : String} {overrides : Overrides} {tree : FileTree}
      (hload : ((files.load root overrides : StateM FileTree _).run tree).1.1 = .ok settings)
  | loadFile {path : String} {overrides : Overrides} {tree : FileTree}
      (hload : ((loadFile path overrides : StateM FileTree _).run tree).1 = .ok settings)

theorem run_loadFile (tree : FileTree) (path : String) (overrides : Overrides) :
    (loadFile path overrides : StateM FileTree _).run tree =
      ((tree.readSettings path).bind fun settings =>
        checked (Settings.ofLayers [settings] overrides), tree) := by
  rw [loadFile, run_bind (run_readSettings tree path)]
  cases tree.readSettings path <;> rfl

/-- Global settings that were read before are used without looking at the files. -/
theorem exists_run_loadGlobal (files : SettingsFiles) (tree : FileTree) :
    ∃ found next, (files.loadGlobal : StateM FileTree _).run tree = ((found, next), tree) := by
  cases hremembered : files.remembered with
  | none => exact ⟨_, run_loadGlobal hremembered tree⟩
  | some settings =>
      refine ⟨.ok (some settings), files, ?_⟩
      rw [loadGlobal, hremembered]
      rfl

theorem exists_layers_of_load
    (hload : ((files.load root overrides : StateM FileTree _).run tree).1.1 = .ok settings) :
    ∃ layers, checked (Settings.ofLayers layers overrides) = .ok settings := by
  obtain ⟨found, next, hglobal⟩ := exists_run_loadGlobal files tree
  rw [run_load_of_global hglobal] at hload
  cases found with
  | error error => cases hload
  | ok global =>
      cases hproject : tree.readLayer (localPath root) with
      | error error => simp [hproject, bind, Except.bind] at hload
      | ok project =>
          rw [hproject] at hload
          exact ⟨_, hload⟩

theorem exists_layers_of_loadFile
    (hload : ((loadFile path overrides : StateM FileTree _).run tree).1 = .ok settings) :
    ∃ layers, checked (Settings.ofLayers layers overrides) = .ok settings := by
  rw [run_loadFile] at hload
  cases hread : tree.readSettings path with
  | error error => simp [hread, Except.bind] at hload
  | ok found =>
      rw [hread] at hload
      exact ⟨[found], hload⟩

/-- **Settings that were loaded have no two policies for a field, and are fit for use.** -/
theorem Effective.layered (heffective : Effective settings) :
    settings.Layered ∧ settings.fault? = none := by
  have hchecked : ∃ overrides layers,
      checked (Settings.ofLayers layers overrides) = .ok settings := by
    cases heffective with
    | load hload => exact ⟨_, exists_layers_of_load hload⟩
    | loadFile hload => exact ⟨_, exists_layers_of_loadFile hload⟩
  obtain ⟨overrides, layers, hchecked⟩ := hchecked
  obtain ⟨rfl, hfault⟩ := checked_eq_ok_iff.mp hchecked
  exact ⟨Settings.layered_ofLayers layers overrides, hfault⟩

/-! ## What is saved -/

/-- The tree with the directory: it is there, or it is made with those above it. -/
def Provides (tree : FileTree) (directory : String) (ready : FileTree) : Prop :=
  if tree.isPresent directory then ready = tree
  else (FileAccess.makeDirectories directory : StateM FileTree _).run tree = (.ok (), ready)

/-- Saving writes the text into the settings file of the directory.  It succeeds in each tree
in which the directory is there or can be made and the file can be written, and in no other. -/
def Saves (save : StateM FileTree (Except SettingsError String)) (directory text : String) :
    Prop :=
  ∀ tree path next, save.run tree = (.ok path, next) ↔
    path = fileIn directory ∧
      ∃ ready, Provides tree directory ready ∧ ready.writeText path text = .ok next

/-- A step that has to succeed for what follows it. -/
theorem run_bind_eq_ok_iff {ε β γ : Type} {step : StateM FileTree (Except ε β)}
    {rest : Except ε β → StateM FileTree (Except SettingsError γ)} {value : γ}
    (hfailed : ∀ cause, ∃ error, rest (.error cause) = pure (.error error)) :
    (step >>= rest).run tree = (.ok value, next) ↔
      ∃ found middle, step.run tree = (.ok found, middle) ∧
        (rest (.ok found)).run middle = (.ok value, next) := by
  obtain ⟨⟨outcome, after⟩, hstep⟩ : ∃ result, step.run tree = result := ⟨_, rfl⟩
  rw [run_bind hstep, hstep]
  cases outcome with
  | error cause =>
      obtain ⟨error, herror⟩ := hfailed cause
      rw [herror]
      constructor
      · intro hrun
        cases hrun
      · rintro ⟨found, middle, hfound, -⟩
        cases hfound
  | ok found =>
      constructor
      · exact fun hrun => ⟨found, after, rfl, hrun⟩
      · rintro ⟨_, _, hfound, hrun⟩
        cases hfound
        exact hrun

theorem run_writeText_eq_ok_iff :
    (FileAccess.writeText path text : StateM FileTree _).run tree = (.ok (), next) ↔
      tree.writeText path text = .ok next := by
  have hrun : (FileAccess.writeText path text : StateM FileTree _).run tree =
      FileTree.attempt (fun tree => tree.writeText path text) tree := rfl
  rw [hrun, FileTree.attempt]
  cases tree.writeText path text with
  | error cause =>
      constructor
      · intro hattempt
        cases hattempt
      · intro hwrite
        cases hwrite
  | ok after =>
      constructor
      · intro hattempt
        cases hattempt
        rfl
      · intro hwrite
        cases hwrite
        rfl

theorem prepareDirectory_eq_ok_iff {directory : String} {ready : FileTree} :
    (prepareDirectory directory : StateM FileTree _).run tree = (.ok (), ready) ↔
      Provides tree directory ready := by
  have hpresent : (FileAccess.isPresent directory : StateM FileTree _).run tree =
      (tree.isPresent directory, tree) := rfl
  rw [prepareDirectory, run_bind hpresent, Provides]
  by_cases hthere : tree.isPresent directory = true
  · rw [if_pos hthere, if_pos hthere]
    exact ⟨fun hrun => (congrArg Prod.snd hrun).symm, fun hready => by rw [hready]; rfl⟩
  · rw [if_neg hthere, if_neg hthere, run_bind_eq_ok_iff]
    swap
    · exact fun cause => ⟨_, rfl⟩
    constructor
    · rintro ⟨_, middle, hmake, hrest⟩
      cases hrest
      exact hmake
    · exact fun hmake => ⟨(), ready, hmake, rfl⟩

/-- **Saving into a directory writes the text.** -/
theorem saves_saveIn (htext : settings.toText? = some text) (directory : String) :
    Saves (saveIn directory settings) directory text := by
  intro tree path next
  rw [saveIn, htext, run_bind_eq_ok_iff]
  swap
  · exact fun error => ⟨_, rfl⟩
  constructor
  · rintro ⟨_, ready, hprepare, hsave⟩
    dsimp only at hsave
    rw [run_bind_eq_ok_iff] at hsave
    swap
    · exact fun cause => ⟨_, rfl⟩
    obtain ⟨_, after, hwrite, hlast⟩ := hsave
    cases hlast
    exact ⟨rfl, ready, prepareDirectory_eq_ok_iff.mp hprepare, run_writeText_eq_ok_iff.mp hwrite⟩
  · rintro ⟨rfl, ready, hready, hwrite⟩
    refine ⟨(), ready, prepareDirectory_eq_ok_iff.mpr hready, ?_⟩
    dsimp only
    rw [run_bind_eq_ok_iff]
    swap
    · exact fun cause => ⟨_, rfl⟩
    exact ⟨(), next, run_writeText_eq_ok_iff.mpr hwrite, rfl⟩

theorem saves_saveGlobal (htext : settings.toText? = some text) {directory : String}
    (hdirectory : files.globalDirectory = some directory) :
    Saves (files.saveGlobal settings) directory text := by
  have hsave : (files.saveGlobal settings : StateM FileTree _) = saveIn directory settings := by
    rw [saveGlobal, hdirectory]
  rw [hsave]
  exact saves_saveIn htext directory

/-! ## What is shown -/

section Showing

open CommandLine

variable {surroundings : Surroundings} {options : Options}

/-- The text is what is printed of the settings: whenever they are the ones that are loaded,
from one file or for a project, the command prints the text and leaves the tree alone. -/
structure Shows (settings : Settings) (text : String) : Prop where
  printed : runConfigShow false settings = .ok (.printed text)
  ofFile : ∀ (surroundings : Surroundings) (options : Options) (path : String)
    (tree : FileTree), options.settingsFile = some path →
      ((loadFile path options.overrides : StateM FileTree _).run tree).1 = .ok settings →
        (runCommand surroundings options (.configShow false) : StateM FileTree _).run tree =
          (.printed text, tree)
  ofProject : ∀ (surroundings : Surroundings) (options : Options) (tree : FileTree),
    options.settingsFile = none →
      (((ofHome surroundings.home).load (projectDirectory surroundings options)
        options.overrides : StateM FileTree _).run tree).1.1 = .ok settings →
        (runCommand surroundings options (.configShow false) : StateM FileTree _).run tree =
          (.printed text, tree)

/-- Loading leaves the tree alone. -/
theorem exists_run_load (files : SettingsFiles) (root : String) (overrides : Overrides)
    (tree : FileTree) :
    ∃ result, (files.load root overrides : StateM FileTree _).run tree = (result, tree) := by
  obtain ⟨found, next, hglobal⟩ := exists_run_loadGlobal files tree
  exact ⟨_, run_load_of_global hglobal root overrides⟩

theorem run_configShow (htext : settings.toText? = some text)
    (hload : (loadSettings surroundings options : StateM FileTree _).run tree =
      (.ok settings, tree)) :
    (runCommand surroundings options (.configShow false) : StateM FileTree _).run tree =
      (.printed text, tree) := by
  rw [runCommand, withSettings, run_bind hload]
  simp only [runConfigShow, htext]
  rfl

/-- **The text of settings is what is printed of them.** -/
theorem shows_of_toText? (htext : settings.toText? = some text) : Shows settings text := by
  refine ⟨?_, ?_, ?_⟩
  · rw [runConfigShow, if_neg Bool.false_ne_true, htext]
  · intro surroundings options path tree hfile hload
    have hrun : (loadFile path options.overrides : StateM FileTree _).run tree =
        (.ok settings, tree) := by
      rw [run_loadFile] at hload ⊢
      exact Prod.ext hload rfl
    refine run_configShow htext ?_
    rw [loadSettings, hfile]
    exact run_bind hrun _
  · intro surroundings options tree hfile hload
    obtain ⟨⟨found, next⟩, hrun⟩ := exists_run_load (ofHome surroundings.home)
      (projectDirectory surroundings options) options.overrides tree
    obtain rfl : found = .ok settings := by
      rw [hrun] at hload
      exact hload
    refine run_configShow htext ?_
    rw [loadSettings, hfile]
    exact run_bind hrun _

end Showing

/-! ## What is loaded again -/

/-- The files that settings are loaded from. -/
def paths (files : SettingsFiles) (root : String) : List String :=
  files.globalPath?.toList ++ [localPath root]

theorem filterMap_paths (files : SettingsFiles) (root : String) (tree : FileTree) :
    (files.paths root).filterMap tree.settings? =
      (files.globalSettings? tree).toList ++ (tree.settings? (localPath root)).toList := by
  have hone : ∀ found : Option String,
      found.toList.filterMap tree.settings? = (found.bind tree.settings?).toList := by
    intro found
    cases found with
    | none => rfl
    | some path =>
        rw [Option.toList_some, List.filterMap_cons, List.filterMap_nil, Option.bind_some]
        cases tree.settings? path <;> rfl
  rw [paths, List.filterMap_append, hone]
  exact congrArg _ (hone (some (localPath root)))

/-- The file is the only source of settings: one of the files of a user and a project is
there, and the text of each that is there is the text of the file. -/
structure OnlySource (files : SettingsFiles) (root : String) (tree : FileTree) (path : String) :
    Prop where
  isPresent : ∃ other ∈ files.paths root, tree.isPresent other
  readText_eq : ∀ other ∈ files.paths root, tree.isPresent other →
    tree.readText other = tree.readText path

/-- The settings are what is loaded from the file, by itself and as the only source. -/
structure Restores (tree : FileTree) (path : String) (settings : Settings) : Prop where
  loadFile : ((loadFile path .none : StateM FileTree _).run tree).1 = .ok settings
  load : ∀ files : SettingsFiles, files.remembered = none → ∀ root,
    files.OnlySource root tree path →
      ((files.load root .none : StateM FileTree _).run tree).1.1 = .ok settings

theorem settings?_of_readText (hread : tree.readText path = .ok text) :
    tree.settings? path = Settings.ofText? text := by
  rw [FileTree.settings?, FileTree.document?, hread]
  rfl

theorem settings?_of_not_isPresent (hmissing : ¬tree.isPresent path) :
    tree.settings? path = none := by
  have hlayer : tree.readLayer path = .ok none := if_neg hmissing
  exact (FileTree.readLayer_eq_ok_iff.mp hlayer).1.symm

/-- **The text of settings that were loaded restores them**, from whatever file it is written
to. -/
theorem restores_of_writeText (heffective : Effective settings)
    (htext : settings.toText? = some text) (hwrite : tree.writeText path text = .ok next) :
    Restores next path settings := by
  have hread : next.readText path = .ok text := FileTree.readText_of_writeText hwrite
  obtain ⟨hlayered, hfault⟩ := heffective.layered
  have hfound : ∀ other, next.readText other = .ok text → next.settings? other = some settings :=
    fun other hother => (settings?_of_readText hother).trans (Settings.ofText?_of_toText? htext)
  refine ⟨?_, fun files hfresh root honly => ?_⟩
  · have hlayers : Settings.ofLayers [settings] .none = settings :=
      Settings.ofLayers_eq_self hlayered (by simp) (by simp)
    rw [run_loadFile, FileTree.readSettings_eq_ok_iff.mpr (hfound path hread)]
    exact checked_eq_ok_iff.mpr ⟨hlayers.symm, hlayers.symm ▸ hfault⟩
  · have hpresent : ∀ other ∈ files.paths root, next.isPresent other →
        next.settings? other = some settings :=
      fun other hother hthere =>
        hfound other ((honly.readText_eq other hother hthere).trans hread)
    have hlayers : ∀ layer ∈ (files.paths root).filterMap next.settings?, layer = settings := by
      intro layer hlayer
      obtain ⟨other, hother, hsettings⟩ := List.mem_filterMap.mp hlayer
      by_cases hthere : next.isPresent other
      · exact Option.some.inj (hsettings.symm.trans (hpresent other hother hthere))
      · rw [settings?_of_not_isPresent hthere] at hsettings
        cases hsettings
    have hnonempty : (files.paths root).filterMap next.settings? ≠ [] := by
      obtain ⟨other, hother, hthere⟩ := honly.isPresent
      exact List.ne_nil_of_mem
        (List.mem_filterMap.mpr ⟨other, hother, hpresent other hother hthere⟩)
    have hresult := Settings.ofLayers_eq_self hlayered hnonempty hlayers
    rw [load_eq_ok_iff hfresh, ← filterMap_paths]
    refine ⟨fun other hother hthere => ?_, fun hthere => ?_, hresult.symm, hfault⟩
    · rw [globalSettings?, hother, Option.bind_some, hpresent other ?_ hthere]
      · rfl
      · exact List.mem_append_left _ (Option.mem_toList.mpr hother)
    · rw [hpresent _ (by simp [paths]) hthere]
      rfl

/-- **What was loaded is printed and saved as one text, and is loaded again from it.** -/
theorem restores_of_effective (heffective : Effective settings)
    (htext : settings.toText? = some text) :
    Shows settings text ∧
      (∀ root, Saves (saveLocal root settings) (localDirectory root) text) ∧
      (∀ (files : SettingsFiles) (directory : String),
        files.globalDirectory = some directory →
          Saves (files.saveGlobal settings) directory text) ∧
      ∀ (tree : FileTree) (path : String) (next : FileTree),
        tree.writeText path text = .ok next → Restores next path settings :=
  ⟨shows_of_toText? htext, fun root => saves_saveIn htext (localDirectory root),
    fun _ _ hdirectory => saves_saveGlobal htext hdirectory,
    fun _ _ _ hwrite => restores_of_writeText heffective htext hwrite⟩

/-- Settings from both files and the overrides are shown, saved for the user over the file that
is there, and saved for another project in directories that are made.  The other project is then
loaded without a global file, and with the file of the user as well it is loaded from that.  The
key arguments need two notations. -/
theorem restores_of_effective_quotedArguments :
    let global := "policies = [['Workspace', 'jobs', 'rows', 'total', ['b\"c', '''a\"b'c''']]]"
    let tree : FileTree := ⟨.directory
      [("home", .directory [(".monoid-cache", .directory [("config.toml", .file global)])]),
        ("work", .directory [(".monoid-cache", .directory
          [("config.toml", .file "[cache]\nmax_window_end = 500\n")])])], []⟩
    let user := ofHome (some "home")
    let userPath := "home/.monoid-cache/config.toml"
    let projectPath := "other/.monoid-cache/config.toml"
    let surroundings : CommandLine.Surroundings := ⟨"work", some "home", fun _ => none, ""⟩
    let options : CommandLine.Options :=
      ⟨none, none, false, false, ⟨some 64, none, none, some .json⟩⟩
    let settings : Settings :=
      ⟨⟨64, 500⟩, [⟨"Workspace", "jobs", "rows", "total", ["b\"c", "a\"b'c"]⟩], ⟨"info", .json⟩⟩
    let text := "[cache]\nmax_snapshots = 64\nmax_window_end = 500\n\n" ++
      "[[policies]]\ntype = \"Workspace\"\nfield = \"jobs\"\n" ++
      "field_name = \"rows\"\ncount_name = \"total\"\n" ++
      "key_args = [\n    'b\"c',\n    \"\"\"a\"b'c\"\"\",\n]\n\n" ++
      "[logging]\nlevel = \"info\"\nformat = \"json\"\n"
    settings.toText? = some text ∧
      ((user.load "work" options.overrides : StateM FileTree _).run tree).1.1 = .ok settings ∧
      (CommandLine.runCommand surroundings options (.configShow false) :
        StateM FileTree _).run tree = (.printed text, tree) ∧
      (∃ next : FileTree,
        (user.saveGlobal settings : StateM FileTree _).run tree = (.ok userPath, next) ∧
          Restores next userPath settings ∧ user.OnlySource "other" next userPath) ∧
      ∃ next : FileTree,
        (saveLocal "other" settings : StateM FileTree _).run tree = (.ok projectPath, next) ∧
          Restores next projectPath settings ∧
          (ofHome none).OnlySource "other" next projectPath := by
  intro global tree user userPath projectPath surroundings options settings text
  have htext : settings.toText? = some text := by decide +kernel
  have hload : ((user.load "work" options.overrides : StateM FileTree _).run tree).1.1 =
      .ok settings := by decide +kernel
  obtain ⟨hshows, hproject, hglobal, hrestores⟩ := restores_of_effective (.load hload) htext
  refine ⟨htext, hload, hshows.ofProject surroundings options tree rfl hload, ?_, ?_⟩
  · have hsave : (user.saveGlobal settings : StateM FileTree _).run tree =
        (.ok userPath, ((user.saveGlobal settings : StateM FileTree _).run tree).2) :=
      Prod.ext (by decide +kernel) rfl
    obtain ⟨-, ready, -, hwrite⟩ := (hglobal user _ rfl tree _ _).mp hsave
    have hpaths : user.paths "other" = [userPath, projectPath] := by decide +kernel
    refine ⟨_, hsave, hrestores _ _ _ hwrite, ?_, ?_⟩
    · rw [hpaths]
      exact ⟨userPath, List.mem_cons_self, by decide +kernel⟩
    · rw [hpaths, List.forall_mem_cons, List.forall_mem_singleton]
      exact ⟨fun _ => rfl, fun hthere => absurd hthere (by decide +kernel)⟩
  · have hsave : (saveLocal "other" settings : StateM FileTree _).run tree =
        (.ok projectPath, ((saveLocal "other" settings : StateM FileTree _).run tree).2) :=
      Prod.ext (by decide +kernel) rfl
    obtain ⟨-, ready, -, hwrite⟩ := (hproject "other" tree _ _).mp hsave
    have hpaths : (ofHome none).paths "other" = [projectPath] := by decide +kernel
    refine ⟨_, hsave, hrestores _ _ _ hwrite, ?_, ?_⟩
    · rw [hpaths]
      exact ⟨projectPath, List.mem_singleton_self projectPath, by decide +kernel⟩
    · rw [hpaths, List.forall_mem_singleton]
      exact fun _ => rfl

end SettingsFiles

end PagedCache
