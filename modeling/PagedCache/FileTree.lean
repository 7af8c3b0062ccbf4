import PagedCache.Files

/-!
# File trees

A file system that is a value: a directory, which holds files and directories by name.
Whatever has an entry in a tree therefore stands in a directory.

Paths are followed name by name.  Every name but the last has to lead to a directory,
also before `.` and `..`, and a name that is too long is found to be so only when it is
looked up.
-/

namespace PagedCache

/-- A file with its text, or a directory with what it holds. -/
inductive FileNode where
  | file (text : String)
  | directory (children : List (String × FileNode))
  deriving Repr

namespace FileNode

def isDirectory : FileNode → Bool
  | directory _ => true
  | file _ => false

/-- The node with `value` at a place, a place being a list of names downwards.
Directories that are missing above it are begun. -/
def put (node : FileNode) (value : FileNode) : List String → FileNode
  | [] => value
  | name :: rest =>
    match node with
    | file text => file text
    | directory children =>
      let child := ((children.lookup name).getD (directory [])).put value rest
      directory ((name, child) :: children.filter fun entry => entry.1 != name)

/-- The node without what a place holds. -/
def erase (node : FileNode) : List String → FileNode
  | [] => node
  | name :: rest =>
    match node with
    | file text => file text
    | directory children =>
      match rest, children.lookup name with
      | [], _ => directory (children.filter fun entry => entry.1 != name)
      | _, none => directory children
      | _, some child =>
        directory ((name, child.erase rest) :: children.filter fun entry => entry.1 != name)

end FileNode

/-- What a path has led to, and the way there. -/
structure Trail where
  node : FileNode
  /-- The directories above, nearest first, each with the name that led on from it. -/
  above : List (String × FileNode)
  deriving Repr

namespace Trail

/-- The place that the trail leads to. -/
def place (trail : Trail) : List String :=
  (trail.above.map Prod.fst).reverse

/-- A name has at most this many bytes. -/
def maxNameSize : Nat := 255

/-- One directory up; the uppermost one is above itself. -/
def up (trail : Trail) : Trail :=
  match trail.above with
  | [] => trail
  | (_, node) :: rest => ⟨node, rest⟩

/-- Follow one name. -/
def enter (trail : Trail) (name : String) : Except FileError Trail :=
  match trail.node with
  | .file _ => .error .notDirectory
  | .directory children =>
    if name = "." then .ok trail
    else if name = ".." then .ok trail.up
    else if maxNameSize < name.utf8ByteSize then .error .nameTooLong
    else
      match children.lookup name with
      | some child => .ok ⟨child, (name, trail.node) :: trail.above⟩
      | none => .error .missing

/-- Follow names one after another. -/
def follow (trail : Trail) : List String → Except FileError Trail
  | [] => .ok trail
  | name :: rest =>
    match trail.enter name with
    | .error error => .error error
    | .ok next => next.follow rest

end Trail

/-- A file system with a working directory. -/
structure FileTree where
  root : FileNode
  workingDirectory : List String
  deriving Repr

namespace FileTree

/-- A file system with nothing but its working directory. -/
def empty (workingDirectory : List String) : FileTree :=
  ⟨(FileNode.directory []).put (.directory []) workingDirectory, workingDirectory⟩

def put (tree : FileTree) (place : List String) (node : FileNode) : FileTree :=
  { tree with root := tree.root.put node place }

/-- A path has fewer bytes than this. -/
def pathSizeBound : Nat := 4096

/-- Why no file system has a path like this. -/
def pathFault? (path : String) : Option FileError :=
  if '\x00' ∈ path.toList then some .unexpectedNul
  else if path.isEmpty then some .missing
  else if pathSizeBound ≤ path.utf8ByteSize then some .nameTooLong
  else none

/-- Follow names from where a path begins. -/
def followFrom (tree : FileTree) (path : String) (names : List String) :
    Except FileError Trail :=
  let start : Trail := ⟨tree.root, []⟩
  if Path.isAbsolute path then start.follow names
  else start.follow (tree.workingDirectory ++ names)

/-- What a path leads to. -/
def resolve (tree : FileTree) (path : String) : Except FileError Trail :=
  match pathFault? path with
  | some fault => .error fault
  | none =>
    match tree.followFrom path (Path.names path) with
    | .error error => .error error
    | .ok trail =>
      if Path.endsInSlash path && !trail.node.isDirectory then .error .notDirectory
      else .ok trail

/-- What all names of a path but the last one lead to, and the last one. -/
def resolveLast (tree : FileTree) (path : String) : Except FileError (Trail × String) :=
  match pathFault? path with
  | some fault => .error fault
  | none =>
    match tree.followFrom path (Path.names path).dropLast with
    | .error error => .error error
    | .ok trail => .ok (trail, (Path.names path).getLastD ".")

def readText (tree : FileTree) (path : String) : Except FileError String :=
  match tree.resolve path with
  | .error error => .error error
  | .ok trail =>
    match trail.node with
    | .file text => .ok text
    | .directory _ => .error .isDirectory

def isPresent (tree : FileTree) (path : String) : Bool :=
  match tree.resolve path with
  | .error _ => false
  | .ok _ => true

def isDirectory (tree : FileTree) (path : String) : Bool :=
  match tree.resolve path with
  | .error _ => false
  | .ok trail => trail.node.isDirectory

def makeDirectory (tree : FileTree) (path : String) : Except FileError FileTree :=
  match tree.resolveLast path with
  | .error error => .error error
  | .ok (trail, name) =>
    match trail.enter name with
    | .ok _ => .error .alreadyExists
    | .error .missing => .ok (tree.put (trail.place ++ [name]) (.directory []))
    | .error error => .error error

/-- Write a file, which may be a new one.  A path that ends in a slash is taken for that
of a directory. -/
def writeText (tree : FileTree) (path text : String) : Except FileError FileTree :=
  match tree.resolveLast path with
  | .error error => .error error
  | .ok (trail, name) =>
    match trail.enter name with
    | .ok found =>
      if found.node.isDirectory || Path.endsInSlash path then .error .isDirectory
      else .ok (tree.put found.place (.file text))
    | .error .missing =>
      if Path.endsInSlash path then .error .isDirectory
      else .ok (tree.put (trail.place ++ [name]) (.file text))
    | .error error => .error error

/-- Remove a file. -/
def removeFile (tree : FileTree) (path : String) : Except FileError FileTree :=
  match tree.resolve path with
  | .error error => .error error
  | .ok trail =>
    if trail.node.isDirectory then .error .isDirectory
    else .ok { tree with root := tree.root.erase trail.place }

/-- Turn a step that may fail into one that keeps the tree on failure. -/
def attempt (step : FileTree → Except FileError FileTree) :
    StateM FileTree (Except FileError Unit) := fun tree =>
  match step tree with
  | .error error => (.error error, tree)
  | .ok next => (.ok (), next)

instance : FileAccess (StateM FileTree) where
  readText path := fun tree => (tree.readText path, tree)
  isPresent path := fun tree => (tree.isPresent path, tree)
  isDirectory path := fun tree => (tree.isDirectory path, tree)
  makeDirectory path := attempt fun tree => tree.makeDirectory path
  writeText path text := attempt fun tree => tree.writeText path text

end FileTree

end PagedCache
