import PagedCache.Toml.Statement

/-!
# TOML documents

The statements of a text build one table.  A header begins a section; the entries of
the section are collected and put into the document when the next section begins.
-/

namespace PagedCache.Toml

/-- The section that assignments go to. -/
inductive Section where
  /-- The document itself, before the first header. -/
  | root
  | table (path : List String) (name : String)
  | element (path : List String) (name : String)
  deriving DecidableEq, Repr

/-- A document that is being read. -/
structure Draft where
  /-- The entries outside the current section. -/
  document : Entries
  current : Section
  /-- The entries of the current section. -/
  entries : Entries
  deriving Repr

namespace Draft

/-- The document with nothing in it. -/
def empty : Draft :=
  ⟨[], .root, []⟩

/-- Put a finished table under its name, where an implied one may stand. -/
def placeTable (entries : Entries) (name : String) (inner : Entries) : Option Entries :=
  match entries.lookup name with
  | none => some ((name, .table .header inner) :: entries)
  | some (.table .implied _) => some (entries.replace name (.table .header inner))
  | some _ => none

/-- Put a finished table at the end of an array of tables. -/
def placeElement (entries : Entries) (name : String) (inner : Entries) : Option Entries :=
  match entries.lookup name with
  | none => some ((name, .tables [.table .header inner]) :: entries)
  | some (.tables items) =>
    some (entries.replace name (.tables (items ++ [.table .header inner])))
  | some _ => none

/-- The document with the current section in its place. -/
def finish (draft : Draft) : Option Entries :=
  match draft.current with
  | .root => some draft.entries
  | .table path name =>
    Entries.alter .header (fun _ inner => placeTable inner name draft.entries)
      path .header draft.document
  | .element path name =>
    Entries.alter .header (fun _ inner => placeElement inner name draft.entries)
      path .header draft.document

/-- What a table header finds under its name: nothing, or a table that earlier
headers implied and that it may now write out. -/
def implied? (entries : Entries) (name : String) : Option Entries :=
  match entries.lookup name with
  | none => some []
  | some (.table .implied inner) => some inner
  | some _ => none

/-- Check that a header in double brackets finds an array of tables, or nothing. -/
def openArray (entries : Entries) (name : String) : Option Entries :=
  match entries.lookup name with
  | none => some ((name, .tables []) :: entries)
  | some (.tables _) => some entries
  | some _ => none

/-- Carry out one statement. -/
def extend (draft : Draft) : Statement → Option Draft
  | .assign path name value =>
    (draft.entries.assign .dotted .header path name value).map fun entries =>
      { draft with entries := entries }
  | .table path name => do
    let document ← draft.finish
    let document ← Entries.alter .header (fun _ inner => some inner) path .header document
    let found ← implied? (← Entries.descend path document) name
    return ⟨document, .table path name, found⟩
  | .element path name => do
    let document ← draft.finish
    let document ← Entries.alter .header (fun _ inner => openArray inner name)
      path .header document
    return ⟨document, .element path name, []⟩

end Draft

/-- The table that the statements build. -/
def Entries.ofStatements? (statements : List Statement) : Option Entries :=
  (statements.foldlM Draft.extend .empty).bind Draft.finish

/-- A byte order mark may stand at the front of a text. -/
def skipByteOrderMark : List Char → List Char
  | '\ufeff' :: rest => rest
  | input => input

/-- The statements of a text. -/
def statements? (text : String) : Option (List Statement) :=
  let input := skipByteOrderMark text.toList
  Statement.scanAll (input.length + 1) input

/-- Read a document. -/
def parse? (text : String) : Option Value :=
  ((statements? text).bind Entries.ofStatements?).map (.table .header)

end PagedCache.Toml
