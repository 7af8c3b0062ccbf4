import PagedCache.Toml.Value

/-!
# TOML tables

Entries are added along paths of table names.  Who asks decides which tables a path
may enter: a table that was written out once is closed to dotted keys, and what
stands between braces is closed to everything outside.
-/

namespace PagedCache.Toml

/-- Who follows a path. -/
inductive Reach where
  /-- A header. -/
  | header
  /-- A dotted key. -/
  | dotted
  /-- A dotted key between braces. -/
  | inline
  deriving DecidableEq, Repr

namespace Reach

/-- The origin of tables that are missing on the path. -/
def begins : Reach → Origin
  | header => .implied
  | dotted => .dotted
  | inline => .inlineDotted

/-- Whether the path may enter a table. -/
def enters : Reach → Origin → Bool
  | header, origin => origin = .header || origin = .implied || origin = .dotted
  | dotted, origin => origin = .implied || origin = .dotted
  | inline, origin => origin = .inlineDotted

end Reach

namespace Entries

/-- Replace the value of an entry. -/
def replace (entries : Entries) (name : String) (value : Value) : Entries :=
  entries.map fun entry => if entry.1 = name then (name, value) else entry

/-- Edit the table at the end of a path.  Missing tables are begun; of an array of
tables the last one is entered. -/
def alter (reach : Reach) (edit : Origin → Entries → Option Entries) :
    List String → Origin → Entries → Option Entries
  | [], origin, entries => edit origin entries
  | first :: rest, _, entries =>
    match entries.lookup first with
    | none =>
      (alter reach edit rest reach.begins []).map fun inner =>
        (first, .table reach.begins inner) :: entries
    | some (.table origin inner) =>
      if reach.enters origin then
        (alter reach edit rest origin inner).map fun inner =>
          entries.replace first (.table origin inner)
      else none
    | some (.tables items) =>
      match items.reverse with
      | .table origin inner :: earlier =>
        (alter reach edit rest origin inner).map fun inner =>
          entries.replace first (.tables (earlier.reverse ++ [.table origin inner]))
      | _ => none
    | some _ => none

/-- The entries of the table at the end of a path. -/
def descend : List String → Entries → Option Entries
  | [], entries => some entries
  | first :: rest, entries =>
    match entries.lookup first with
    | some (.table _ inner) => descend rest inner
    | some (.tables items) =>
      match items.getLast? with
      | some (.table _ inner) => descend rest inner
      | _ => none
    | _ => none

/-- Add an entry that is not there yet; the order of entries tells nothing. -/
def add (entries : Entries) (name : String) (value : Value) : Option Entries :=
  if (entries.lookup name).isSome then none else some ((name, value) :: entries)

/-- Assign a value along a path.  A dotted key adds only to tables that dotted keys
began, a plain key only to others. -/
def assign (reach : Reach) (origin : Origin) (entries : Entries) (path : List String)
    (name : String) (value : Value) : Option Entries :=
  alter reach
    (fun target inner =>
      if target.isDotted = path.isEmpty then none else inner.add name value)
    path origin entries

end Entries

end PagedCache.Toml
