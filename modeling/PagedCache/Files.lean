/-!
# Files

What the program needs of a file system.  Paths are texts with slashes; a path that
does not begin with one starts at the working directory.
-/

namespace PagedCache

/-- Why a file operation failed. -/
inductive FileError where
  | missing
  | isDirectory
  | notDirectory
  | alreadyExists
  | nameTooLong
  /-- The path contains the character that ends paths. -/
  | unexpectedNul
  | other (text : String)
  deriving DecidableEq, Repr

def FileError.message : FileError → String
  | missing => "No such file or directory (os error 2)"
  | isDirectory => "Is a directory (os error 21)"
  | notDirectory => "Not a directory (os error 20)"
  | alreadyExists => "File exists (os error 17)"
  | nameTooLong => "File name too long (os error 36)"
  | unexpectedNul => "file name contained an unexpected NUL byte"
  | other text => text

/-- The file operations of the program. -/
class FileAccess (m : Type → Type) where
  readText (path : String) : m (Except FileError String)
  /-- Whether a path leads anywhere. -/
  isPresent (path : String) : m Bool
  isDirectory (path : String) : m Bool
  /-- Make one directory in one that is there. -/
  makeDirectory (path : String) : m (Except FileError Unit)
  writeText (path text : String) : m (Except FileError Unit)

namespace Path

/-- The path of `name` below `base`; an absolute name is a path of its own. -/
def join (base name : String) : String :=
  if name.startsWith "/" || base.isEmpty then name
  else if base.endsWith "/" then base ++ name
  else base ++ "/" ++ name

def isAbsolute (path : String) : Bool :=
  path.startsWith "/"

/-- The names along a path, among them `.` and `..`; repeated slashes count as one. -/
def names (path : String) : List String :=
  let pieces := path.toList.splitBy fun left right => left != '/' && right != '/'
  (pieces.filter (· != ['/'])).map String.ofList

/-- A path that ends in a slash can only lead to a directory. -/
def endsInSlash (path : String) : Bool :=
  path.endsWith "/"

/-- The path along the given names. -/
def ofNames (absolute : Bool) (names : List String) : String :=
  (if absolute then "/" else "") ++ "/".intercalate names

/-- The paths above a path that has the given names in reverse order, nearest first;
where the path begins is not among them. -/
def above (absolute : Bool) : List String → List String
  | [] => []
  | [_] => []
  | _ :: next :: rest =>
    ofNames absolute (next :: rest).reverse :: above absolute (next :: rest)

/-- The path and those above it, nearest first.  A path above another one names no
directory by `.`. -/
def ancestors (path : String) : List String :=
  if path.isEmpty then []
  else path :: above (isAbsolute path) ((names path).filter (· ≠ ".")).reverse

/-- The path of the directory that a path leads into. -/
def parent (path : String) : String :=
  match ancestors path with
  | _ :: parent :: _ => parent
  | _ => if isAbsolute path then "/" else ""

end Path

namespace FileAccess

variable {m : Type → Type} [Monad m] [FileAccess m]

/-- Try to make the directories of a list of paths, each below the next, until one of
them is there.  The answer is the rest of the task: the paths that were passed over,
from the uppermost one on. -/
def makeUppermost (passed : List String) : List String → m (Except FileError (List String))
  | [] => return .ok passed
  | path :: rest => do
    match ← makeDirectory path with
    | .ok () => return .ok passed
    | .error .missing => makeUppermost (path :: passed) rest
    | .error .alreadyExists =>
      if ← isDirectory path then return .ok passed else return .error .alreadyExists
    | .error error => return .error error

/-- Make the directories of a list of paths in order, of which some may be there. -/
def makeEach : List String → m (Except FileError Unit)
  | [] => return .ok ()
  | path :: rest => do
    match ← makeDirectory path with
    | .ok () => makeEach rest
    | .error .alreadyExists =>
      if ← isDirectory path then makeEach rest else return .error .alreadyExists
    | .error error => return .error error

/-- Make a directory and those above it.  Directories that were made stay when a later
one fails. -/
def makeDirectories (path : String) : m (Except FileError Unit) := do
  match ← makeUppermost [] (Path.ancestors path) with
  | .error error => return .error error
  | .ok passed => makeEach passed

end FileAccess

end PagedCache
