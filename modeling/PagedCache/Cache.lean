import PagedCache.Registry

/-!
# The cache

The cache holds one snapshot for each list that was fetched, most recently
touched first, and drops the snapshots at the end when it holds too many.

Every operation first checks its arguments; the checks depend on the registry and
on the bound for page ends only.  `write`, `read`, `peek`, and `evict` answer with
an error exactly when a check fails, and the cache changes only after all checks.
-/

namespace PagedCache

/-- A call of a paginated field. -/
structure Call where
  typeName : String
  entityId : String
  field : String
  arguments : Arguments

/-- Where a snapshot is kept. -/
structure SnapshotKey where
  typeName : String
  entityId : String
  /-- The field with its key arguments, see `ListPolicy.slotName`. -/
  slotName : String
  deriving DecidableEq, Repr

namespace SnapshotKey

def text (key : SnapshotKey) : String :=
  s!"{key.typeName}:{key.entityId}.{key.slotName}"

/-- Whether the snapshot belongs to an entity. -/
def ownedBy (key : SnapshotKey) (typeName entityId : String) : Bool :=
  key.typeName == typeName && key.entityId == entityId

end SnapshotKey

/-- The answer to a read. -/
inductive Reading (β : Type) where
  /-- Nothing is known of the list. -/
  | miss
  /-- A position of the window is unknown, or the list may go on inside it. -/
  | partialHit (value : β)
  /-- Every position of the window is known. -/
  | complete (value : β)

namespace Reading

variable {β γ : Type}

/-- Whether the window should be fetched. -/
def needsFetch : Reading β → Bool
  | complete _ => false
  | _ => true

def isComplete : Reading β → Bool
  | complete _ => true
  | _ => false

def status : Reading β → String
  | miss => "miss"
  | partialHit _ => "partial"
  | complete _ => "complete"

def value? : Reading β → Option β
  | miss => none
  | partialHit value => some value
  | complete value => some value

def map (transform : β → γ) : Reading β → Reading γ
  | miss => miss
  | partialHit value => partialHit (transform value)
  | complete value => complete (transform value)

end Reading

/-- Counts of what the cache did. -/
structure Tally where
  /-- Reads answered completely. -/
  hits : Nat
  /-- Reads answered in part. -/
  partialHits : Nat
  /-- Reads without a snapshot. -/
  misses : Nat
  /-- Pages merged. -/
  merges : Nat
  /-- Writes without a response. -/
  noops : Nat
  /-- Snapshots dropped for lack of room. -/
  evictions : Nat
  deriving DecidableEq, Repr

namespace Tally

def zero : Tally :=
  ⟨0, 0, 0, 0, 0, 0⟩

/-- The number of reads. -/
def reads (tally : Tally) : Nat :=
  tally.hits + tally.partialHits + tally.misses

/-- The share of complete answers among all reads, as a double; zero without
reads. -/
def hitRate (tally : Tally) : Nat :=
  if tally.reads = 0 then 0
  else Binary64.divide (Binary64.ofNat tally.hits) (Binary64.ofNat tally.reads)

end Tally

/-- A cache for lists of items of type `α`.

Limits of memory are left out: a list grows to the end of any page that the checks let
through, and the room for snapshots is only counted, never reserved, however large the two
settings are.  So no operation, and no making of a cache, fails for want of memory. -/
structure Cache (α : Type) where
  registry : Registry
  maxSnapshots : Nat
  /-- No page may end after this position. -/
  maxWindowEnd : Nat
  /-- The snapshots, most recently touched first. -/
  snapshots : List (SnapshotKey × Snapshot α)
  tally : Tally

namespace Cache

variable {α : Type}

/-- The number of snapshots without a setting. -/
def defaultMaxSnapshots : Nat := 4096

/-- The bound for page ends without a setting. -/
def defaultMaxWindowEnd : Nat := 1000000

/-- A cache that holds nothing. -/
def fresh (registry : Registry) (maxSnapshots maxWindowEnd : Nat) : Cache α where
  registry := registry
  maxSnapshots := maxSnapshots
  maxWindowEnd := maxWindowEnd
  snapshots := []
  tally := .zero

/-- The number of snapshots that the cache has room for. -/
def capacity (cache : Cache α) : Nat :=
  max cache.maxSnapshots 1

/-- The number of snapshots held. -/
def size (cache : Cache α) : Nat :=
  cache.snapshots.length

/-- The keys held, most recently touched first. -/
def keys (cache : Cache α) : List SnapshotKey :=
  cache.snapshots.map Prod.fst

/-- The snapshot held under a key. -/
def find? (cache : Cache α) (key : SnapshotKey) : Option (Snapshot α) :=
  cache.snapshots.lookup key

/-- The snapshots held under other keys. -/
def others (cache : Cache α) (key : SnapshotKey) : List (SnapshotKey × Snapshot α) :=
  cache.snapshots.filter fun entry => entry.1 != key

/-- The policy and the key for a call. -/
def locate (cache : Cache α) (call : Call) : Except CacheError (ListPolicy × SnapshotKey) :=
  match cache.registry.require call.typeName call.field with
  | .error error => .error error
  | .ok policy =>
    .ok (policy, ⟨call.typeName, call.entityId, policy.slotName call.field call.arguments⟩)

/-- The key and the window of a call. -/
def locateWindow (cache : Cache α) (call : Call) :
    Except CacheError (SnapshotKey × Window) :=
  match cache.locate call with
  | .error error => .error error
  | .ok (_, key) =>
    match Window.ofArguments call.arguments with
    | .error error => .error error
    | .ok window => .ok (key, window)

/-- Check that a page with the given items may be written. -/
def checkEnd (cache : Cache α) (window : Window) (items : List α) : Except CacheError Unit :=
  match window.pageStop items.length with
  | .error error => .error error
  | .ok stop =>
    if stop ≤ cache.maxWindowEnd then .ok ()
    else .error (.windowTooLarge stop cache.maxWindowEnd)

/-- All checks of a write, and where it goes. -/
def accept (cache : Cache α) (call : Call) (incoming : Option (Page α)) :
    Except CacheError (SnapshotKey × Window) :=
  match cache.locateWindow call with
  | .error error => .error error
  | .ok (key, window) =>
    match incoming.bind Page.items with
    | none => .ok (key, window)
    | some items =>
      match cache.checkEnd window items with
      | .error error => .error error
      | .ok () => .ok (key, window)

/-- Put a snapshot at the front; the last snapshots are dropped if there is no
room for all. -/
def put (cache : Cache α) (key : SnapshotKey) (snapshot : Snapshot α) : Cache α :=
  let others := cache.others key
  { cache with
    snapshots := (key, snapshot) :: others.take (cache.capacity - 1)
    tally := { cache.tally with
      evictions := cache.tally.evictions + (others.drop (cache.capacity - 1)).length } }

/-- Merge a page into the snapshot under a key. -/
def mergeAt (cache : Cache α) (key : SnapshotKey) (window : Window) (page : Page α) :
    Cache α :=
  match Snapshot.merge (cache.find? key) (some page) window with
  | none => cache
  | some merged =>
    { cache with tally := { cache.tally with merges := cache.tally.merges + 1 } }.put
      key merged

/-- Write a response for a call; one that is missing is only counted. -/
def write (cache : Cache α) (call : Call) (incoming : Option (Page α)) :
    Except CacheError (Cache α) :=
  match cache.accept call incoming with
  | .error error => .error error
  | .ok (key, window) =>
    match incoming with
    | none => .ok { cache with tally := { cache.tally with noops := cache.tally.noops + 1 } }
    | some page => .ok (cache.mergeAt key window page)

/-- What a snapshot says about a window. -/
def answer (snapshot : Snapshot α) (window : Window) : Reading (Snapshot α) :=
  let part := snapshot.slice window
  if snapshot.missingTail window || part.hasHoles then .partialHit part else .complete part

/-- Move a held key to the front. -/
def touch (cache : Cache α) (key : SnapshotKey) : Cache α :=
  match cache.find? key with
  | none => cache
  | some snapshot => { cache with snapshots := (key, snapshot) :: cache.others key }

/-- Count a read under its status. -/
def countReading {β : Type} (tally : Tally) : Reading β → Tally
  | .miss => { tally with misses := tally.misses + 1 }
  | .partialHit _ => { tally with partialHits := tally.partialHits + 1 }
  | .complete _ => { tally with hits := tally.hits + 1 }

/-- What the cache says about a window of the list under a key. -/
def readAt (cache : Cache α) (key : SnapshotKey) (window : Window) :
    Reading (Snapshot α) :=
  match cache.find? key with
  | none => .miss
  | some snapshot => answer snapshot window

/-- Read the window of a call. -/
def read (cache : Cache α) (call : Call) :
    Except CacheError (Reading (Snapshot α) × Cache α) :=
  match cache.locateWindow call with
  | .error error => .error error
  | .ok (key, window) =>
    let reading := cache.readAt key window
    .ok (reading, { cache.touch key with tally := countReading cache.tally reading })

/-- The whole snapshot for a call, which is not a touch. -/
def peek (cache : Cache α) (call : Call) : Except CacheError (Option (Snapshot α)) :=
  match cache.locate call with
  | .error error => .error error
  | .ok (_, key) => .ok (cache.find? key)

/-- Remove the snapshot for a call, and say whether there was one. -/
def evict (cache : Cache α) (call : Call) : Except CacheError (Bool × Cache α) :=
  match cache.locate call with
  | .error error => .error error
  | .ok (_, key) =>
    .ok ((cache.find? key).isSome, { cache with snapshots := cache.others key })

/-- Remove every snapshot of an entity, and say how many there were. -/
def evictEntity (cache : Cache α) (typeName entityId : String) : Nat × Cache α :=
  let (owned, rest) := cache.snapshots.partition fun entry => entry.1.ownedBy typeName entityId
  (owned.length, { cache with snapshots := rest })

/-- Remove every snapshot. -/
def clear (cache : Cache α) : Cache α :=
  { cache with snapshots := [] }

/-- Start counting anew. -/
def resetTally (cache : Cache α) : Cache α :=
  { cache with tally := .zero }

/-- A line that describes the cache. -/
def describe (cache : Cache α) : String :=
  s!"FieldCache \x7b policies: {cache.registry.size}, snapshots: {cache.size}, " ++
    s!"max_window_end: {cache.maxWindowEnd} \x7d"

end Cache

end PagedCache
