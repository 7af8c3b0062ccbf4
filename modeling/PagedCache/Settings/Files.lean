import PagedCache.Files
import PagedCache.Settings.Text

/-!
# Settings files

Settings are kept in two files: a global one in a directory of the user, and a local
one below a directory of the project.  The local file wins over the global one.
-/

namespace PagedCache

/-- Why settings could not be loaded or saved. -/
inductive SettingsError where
  | fault (fault : SettingsFault)
  | unreadableFile (path : String) (cause : FileError)
  | malformedFile (path : String)
  | unwritableFile (path : String) (cause : FileError)
  | missingDirectory (path : String) (cause : FileError)
  /-- A setting has no written form. -/
  | unwritableValue
  | noHomeDirectory
  deriving DecidableEq, Repr

namespace SettingsError

def message : SettingsError → String
  | fault cause => cause.message
  | unreadableFile path cause => s!"failed to read config file '{path}': {cause.message}"
  | malformedFile path => s!"failed to parse config file '{path}'"
  | unwritableFile path cause => s!"failed to write config file '{path}': {cause.message}"
  | missingDirectory path cause =>
    s!"failed to create config directory '{path}': {cause.message}"
  | unwritableValue => "failed to serialize config: out of range"
  | noHomeDirectory => "could not determine home directory"

/-- The error and what caused it, outermost first. -/
def chain (error : SettingsError) : List String :=
  match error with
  | unreadableFile _ cause => [error.message, cause.message]
  | unwritableFile _ cause => [error.message, cause.message]
  | missingDirectory _ cause => [error.message, cause.message]
  | _ => [error.message]

end SettingsError

/-- Where settings are kept, and the global settings once they were read. -/
structure SettingsFiles where
  globalDirectory : Option String
  remembered : Option Settings
  deriving Repr

namespace SettingsFiles

/-- The name of a settings file. -/
def fileName : String := "config.toml"

/-- The directory of a settings file below a home or a project. -/
def directoryName : String := ".monoid-cache"

/-- Files with the given global directory, of which nothing was read. -/
def ofGlobalDirectory (directory : String) : SettingsFiles :=
  ⟨some directory, none⟩

/-- The files of a user. -/
def ofHome (home : Option String) : SettingsFiles :=
  ⟨home.map fun directory => Path.join directory directoryName, none⟩

/-- A settings file by its directory. -/
def fileIn (directory : String) : String :=
  Path.join directory fileName

def globalPath? (files : SettingsFiles) : Option String :=
  files.globalDirectory.map fileIn

def localDirectory (root : String) : String :=
  Path.join root directoryName

def localPath (root : String) : String :=
  fileIn (localDirectory root)

/-- Forget the global settings. -/
def forget (files : SettingsFiles) : SettingsFiles :=
  { files with remembered := none }

variable {m : Type → Type} [Monad m] [FileAccess m]

/-- The settings in a file. -/
def readSettings (path : String) : m (Except SettingsError Settings) := do
  match ← FileAccess.readText path with
  | .error cause => return .error (.unreadableFile path cause)
  | .ok text =>
    match Settings.ofText? text with
    | none => return .error (.malformedFile path)
    | some settings => return .ok settings

/-- The settings in a file that may be missing. -/
def readIfPresent (path : String) : m (Except SettingsError (Option Settings)) := do
  if ← FileAccess.isPresent path then
    return (← readSettings path).map some
  else return .ok none

/-- The global settings.  Once read they are remembered. -/
def loadGlobal (files : SettingsFiles) :
    m (Except SettingsError (Option Settings) × SettingsFiles) := do
  match files.remembered, files.globalPath? with
  | some settings, _ => return (.ok (some settings), files)
  | none, none => return (.ok none, files)
  | none, some path =>
    match ← readIfPresent path with
    | .error error => return (.error error, files)
    | .ok found => return (.ok found, { files with remembered := found })

/-- The local settings of a project. -/
def loadLocal (root : String) : m (Except SettingsError (Option Settings)) :=
  readIfPresent (localPath root)

/-- Settings that are fit for use. -/
def checked (settings : Settings) : Except SettingsError Settings :=
  match settings.fault? with
  | some fault => .error (.fault fault)
  | none => .ok settings

/-- The effective settings for a project. -/
def load (files : SettingsFiles) (root : String) (overrides : Overrides) :
    m (Except SettingsError Settings × SettingsFiles) := do
  let (found, files) ← loadGlobal files
  match found with
  | .error error => return (.error error, files)
  | .ok global =>
    match ← loadLocal root with
    | .error error => return (.error error, files)
    | .ok project =>
      let layers := global.toList ++ project.toList
      return (checked (Settings.ofLayers layers overrides), files)

/-- The effective settings with one file instead of the usual two. -/
def loadFile (path : String) (overrides : Overrides) : m (Except SettingsError Settings) := do
  match ← readSettings path with
  | .error error => return .error error
  | .ok settings => return checked (Settings.ofLayers [settings] overrides)

/-- Make the directory of a settings file, unless something is there. -/
def prepareDirectory (directory : String) : m (Except SettingsError Unit) := do
  if ← FileAccess.isPresent directory then return .ok ()
  else
    match ← FileAccess.makeDirectories directory with
    | .error cause => return .error (.missingDirectory directory cause)
    | .ok () => return .ok ()

/-- Write settings into a directory, and give the path of the file. -/
def saveIn (directory : String) (settings : Settings) : m (Except SettingsError String) := do
  let path := fileIn directory
  match ← prepareDirectory directory with
  | .error error => return .error error
  | .ok () =>
    match settings.toText? with
    | none => return .error .unwritableValue
    | some text =>
      match ← FileAccess.writeText path text with
      | .error cause => return .error (.unwritableFile path cause)
      | .ok () => return .ok path

/-- Write the default settings into a directory, unless a settings file is there. -/
def initializeIn (directory : String) : m (Except SettingsError String) := do
  if ← FileAccess.isPresent (fileIn directory) then return .ok (fileIn directory)
  else saveIn directory .default

def saveGlobal (files : SettingsFiles) (settings : Settings) :
    m (Except SettingsError String) :=
  match files.globalDirectory with
  | none => return .error .noHomeDirectory
  | some directory => saveIn directory settings

def saveLocal (root : String) (settings : Settings) : m (Except SettingsError String) :=
  saveIn (localDirectory root) settings

def initializeGlobal (files : SettingsFiles) : m (Except SettingsError String) :=
  match files.globalDirectory with
  | none => return .error .noHomeDirectory
  | some directory => initializeIn directory

def initializeLocal (root : String) : m (Except SettingsError String) :=
  initializeIn (localDirectory root)

end SettingsFiles

end PagedCache
