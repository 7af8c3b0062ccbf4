import PagedCache.Cache.Operation

/-!
# Operations as procedures

What a cache does for an operation, one look or change after the other, in the order in
which they happen.  A procedure that is refused stops where it stands, and nothing that
it changed before is taken back.
-/

namespace PagedCache

/-- Procedures on a cache of items of type `α`. -/
abbrev Procedure (α : Type) := EStateM CacheError (Cache α)

namespace Procedure

variable {α : Type}

/-! ## Single steps -/

/-- Look at the cache, and stop if that shows an error. -/
def check {β : Type} (look : Cache α → Except CacheError β) : Procedure α β := fun cache =>
  match look cache with
  | .ok value => .ok value cache
  | .error error => .error error cache

/-- Take the snapshot under a key out. -/
def pop (key : SnapshotKey) : Procedure α (Option (Snapshot α)) :=
  modifyGet fun cache => (cache.find? key, { cache with snapshots := cache.others key })

/-- Put a snapshot in front.  It takes the place of the one under the same key, or of the
last one if all room is taken; the answer is the key of the snapshot that had to go. -/
def push (key : SnapshotKey) (snapshot : Snapshot α) : Procedure α (Option SnapshotKey) :=
  modifyGet fun cache =>
    if (cache.find? key).isSome then
      (some key, { cache with snapshots := (key, snapshot) :: cache.others key })
    else if cache.size < cache.capacity then
      (none, { cache with snapshots := (key, snapshot) :: cache.snapshots })
    else
      (cache.keys.getLast?,
        { cache with snapshots := (key, snapshot) :: cache.snapshots.dropLast })

/-- The snapshot under a key, which goes to the front. -/
def get (key : SnapshotKey) : Procedure α (Option (Snapshot α)) :=
  modifyGet fun cache => (cache.find? key, cache.touch key)

/-- Change the counts. -/
def count (change : Tally → Tally) : Procedure α Unit :=
  modify fun cache => { cache with tally := change cache.tally }

/-- Count the snapshot that had to go, if one had to. -/
def countEviction : Option SnapshotKey → Procedure α Unit
  | none => return
  | some _ => count fun tally => { tally with evictions := tally.evictions + 1 }

/-! ## Operations -/

/-- Put the snapshot that a page leads to under a key. -/
def merge (key : SnapshotKey) (window : Window) (page : Page α) : Procedure α Unit := do
  let existing ← pop key
  match Snapshot.merge existing (some page) window with
  | none => return
  | some merged =>
    count fun tally => { tally with merges := tally.merges + 1 }
    countEviction (← push key merged)

def write (call : Call) (incoming : Option (Page α)) : Procedure α Unit := do
  let (_, key) ← check fun cache => cache.locate call
  let window ← check fun _ => Window.ofArguments call.arguments
  match incoming with
  | none => count fun tally => { tally with noops := tally.noops + 1 }
  | some page =>
    match page.items with
    | none => merge key window page
    | some items =>
      check fun cache => cache.checkEnd window items
      merge key window page

def read (call : Call) : Procedure α (Reading (Snapshot α)) := do
  let (_, key) ← check fun cache => cache.locate call
  let window ← check fun _ => Window.ofArguments call.arguments
  match ← get key with
  | none =>
    count fun tally => { tally with misses := tally.misses + 1 }
    return .miss
  | some snapshot =>
    let part := snapshot.slice window
    if snapshot.missingTail window || part.hasHoles then
      count fun tally => { tally with partialHits := tally.partialHits + 1 }
      return .partialHit part
    else
      count fun tally => { tally with hits := tally.hits + 1 }
      return .complete part

def peek (call : Call) : Procedure α (Option (Snapshot α)) := do
  let (_, key) ← check fun cache => cache.locate call
  return (← getThe (Cache α)).find? key

def evict (call : Call) : Procedure α Bool := do
  let (_, key) ← check fun cache => cache.locate call
  let removed ← pop key
  return removed.isSome

/-- Take the snapshots under some keys out, one after the other. -/
def popAll : List SnapshotKey → Procedure α Unit
  | [] => return
  | key :: rest => do
    let _ ← pop key
    popAll rest

def evictEntity (typeName entityId : String) : Procedure α Nat := do
  let cache ← getThe (Cache α)
  let owned := cache.keys.filter (·.ownedBy typeName entityId)
  popAll owned
  return owned.length

def perform : Operation α → Procedure α (Outcome α)
  | .write call incoming => do
    write call incoming
    return .written
  | .read call => return .reading (← read call)
  | .peek call => return .peeked (← peek call)
  | .evict call => return .evicted (← evict call)
  | .evictEntity typeName entityId => return .evictedEntity (← evictEntity typeName entityId)
  | .clear => do
    modify Cache.clear
    return .cleared
  | .resetTally => do
    modify Cache.resetTally
    return .tallyReset

/-! ## Requests -/

def writeResponse (call : Call) (response : Option Json.Value) :
    Procedure EntityKey Unit := do
  let policy ← check fun cache => cache.registry.require call.typeName call.field
  let incoming ← check fun cache => Response.decode cache.registry policy response
  write call incoming

def readResponse (call : Call) : Procedure EntityKey (Reading Json.Value) := do
  let policy ← check fun cache => cache.registry.require call.typeName call.field
  let reading ← read call
  return reading.map (Response.encode policy)

def serve : Request → Procedure EntityKey Reply
  | .writeResponse call response => do
    writeResponse call response
    return .direct .written
  | .readResponse call => return .response (← readResponse call)
  | .direct operation => return .direct (← perform operation)

end Procedure

end PagedCache
