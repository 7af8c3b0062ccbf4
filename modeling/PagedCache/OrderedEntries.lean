/-!
# Entries in key order

A finite map kept as a list of entries whose keys strictly increase.  JSON
objects and the policy registry are such lists, so iterating over them is
iterating in key order.
-/

namespace PagedCache.OrderedEntries

/-- The keys of the entries strictly increase. -/
def Ascending {κ α : Type} [LT κ] (entries : List (κ × α)) : Prop :=
  entries.Pairwise fun left right => left.1 < right.1

variable {κ α : Type} [LT κ] [DecidableLT κ] [DecidableEq κ]

/-- The value at `key`. -/
def find? (key : κ) (entries : List (κ × α)) : Option α :=
  entries.lookup key

/-- Put `value` at `key`, replacing a value that is there. -/
def insert (key : κ) (value : α) : List (κ × α) → List (κ × α)
  | [] => [(key, value)]
  | (other, old) :: rest =>
    if key < other then (key, value) :: (other, old) :: rest
    else if key = other then (key, value) :: rest
    else (other, old) :: insert key value rest

/-- Put every entry of `overlay` into `base`; a later entry wins. -/
def insertAll (base overlay : List (κ × α)) : List (κ × α) :=
  overlay.foldl (fun entries entry => insert entry.1 entry.2 entries) base

/-- Of neighbours with the same key only the last. -/
def keepLast : List (κ × α) → List (κ × α)
  | [] => []
  | [entry] => [entry]
  | entry :: next :: rest =>
    if entry.1 = next.1 then keepLast (next :: rest) else entry :: keepLast (next :: rest)

/-- The map with the given entries, of which the last for a key wins: sorting leaves
entries with the same key in their order. -/
def ofList (entries : List (κ × α)) : List (κ × α) :=
  keepLast (entries.mergeSort fun left right => !decide (right.1 < left.1))

end PagedCache.OrderedEntries
