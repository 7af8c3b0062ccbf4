import PagedCache.Window

/-!
# Snapshots of paginated lists

A snapshot holds what is known of one list.  Pages are written at their absolute
positions, so a page that arrives before its predecessors lands where it belongs;
positions that no page has covered are holes.
-/

namespace PagedCache

/-- What is known of one list. -/
structure Snapshot (α : Type) where
  /-- Items by position, with `none` for a hole. -/
  items : List (Option α)
  /-- The length of the list, as last reported. -/
  total : Option Nat
  /-- The other properties of the latest response. -/
  passthrough : Json.Members

/-- One page of a list. -/
structure Page (α : Type) where
  /-- The items, unless the response left the list out. -/
  items : Option (List α)
  /-- The length of the whole list, when the response reports it. -/
  total : Option Nat
  /-- The other properties of the response. -/
  passthrough : Json.Members

namespace Snapshot

variable {α : Type}

/-- The snapshot without items. -/
def empty : Snapshot α :=
  ⟨[], none, []⟩

/-- The number of positions, holes included. -/
def length (snapshot : Snapshot α) : Nat :=
  snapshot.items.length

def isEmpty (snapshot : Snapshot α) : Bool :=
  snapshot.items.isEmpty

/-- The item at a position, if it is known. -/
def get? (snapshot : Snapshot α) (position : Nat) : Option α :=
  (snapshot.items[position]?).join

def holeCount (snapshot : Snapshot α) : Nat :=
  snapshot.items.countP Option.isNone

def hasHoles (snapshot : Snapshot α) : Bool :=
  snapshot.items.any Option.isNone

/-- The known items with their positions. -/
def present (snapshot : Snapshot α) : List (Nat × α) :=
  snapshot.items.zipIdx.filterMap fun entry => entry.1.map fun item => (entry.2, item)

/-- Whether the window reaches past the known positions into ones that the list
may have.  A known total bounds the list; without one it may always go on. -/
def missingTail (snapshot : Snapshot α) (window : Window) : Bool :=
  if window.limit = 0 ∨ window.stop ≤ snapshot.length then false
  else
    match snapshot.total with
    | some total => decide (snapshot.length < min window.stop total)
    | none => true

/-- The part of the snapshot inside a window. -/
def slice (snapshot : Snapshot α) (window : Window) : Snapshot α :=
  let start := min window.offset snapshot.length
  let stop := min window.stop snapshot.length
  { snapshot with items := (snapshot.items.drop start).take (stop - start) }

/-- The window of a snapshot that may be missing. -/
def read (snapshot : Option (Snapshot α)) (window : Window) : Option (Snapshot α) :=
  snapshot.map fun present => present.slice window

/-- Write a nonempty page at `offset`, with holes up to it where the items end
before; an empty page leaves the items alone. -/
def overlay (items : List (Option α)) (offset : Nat) (page : List α) : List (Option α) :=
  if page.isEmpty then items
  else
    items.take offset ++ List.replicate (offset - items.length) none ++
      page.map some ++ items.drop (offset + page.length)

/-- The items after a page that was asked for with `window`.  A page with fewer
items than asked for ends the list; a page without an end changes nothing. -/
def mergeItems (items : List (Option α)) (page : List α) (window : Window) :
    List (Option α) :=
  match window.pageStop page.length with
  | .error _ => items
  | .ok stop =>
    let written := overlay items window.offset page
    if page.length < window.limit then written.take stop else written

/-- The snapshot after a response that may be missing. -/
def merge (existing : Option (Snapshot α)) (incoming : Option (Page α)) (window : Window) :
    Option (Snapshot α) :=
  match incoming with
  | none => existing
  | some page =>
    let base := existing.getD empty
    some {
      items :=
        match page.items with
        | none => base.items
        | some pageItems => mergeItems base.items pageItems window
      total := page.total.or base.total
      passthrough := page.passthrough }

end Snapshot

end PagedCache
