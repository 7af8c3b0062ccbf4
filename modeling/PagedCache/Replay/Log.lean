import PagedCache.Log
import PagedCache.Replay

/-!
# The log of a replay

What the cache does with the steps of a script, told in records.  A step that is refused
has no record.
-/

namespace PagedCache.Replay

/-- A count that may be unknown. -/
def countText : Option Nat → String
  | none => "None"
  | some count => s!"Some({count})"

def evictedRecord (key : SnapshotKey) : LogRecord :=
  ⟨.debug, s!"Evicted snapshot {key.text}"⟩

/-- The page that a response brings, and where it goes. -/
def acceptResponse (cache : Cache EntityKey) (call : Call) (response : Option Json.Value) :
    Except CacheError (Option (Page EntityKey) × SnapshotKey × Window) := do
  let policy ← cache.registry.require call.typeName call.field
  let incoming ← Response.decode cache.registry policy response
  let (key, window) ← cache.accept call incoming
  return (incoming, key, window)

/-- The records of a merge: one for the page, and one for every snapshot that has to make
room. -/
def mergeRecords (cache : Cache EntityKey) (key : SnapshotKey) (window : Window)
    (page : Page EntityKey) : List LogRecord :=
  match Snapshot.merge (cache.find? key) (some page) window with
  | none => []
  | some merged =>
    let total := countText merged.total
    ⟨.debug, s!"Merged page [{window.offset}, +{window.limit}) into {key.text} " ++
      s!"(len {merged.length}, total {total})"⟩ ::
      ((cache.others key).drop (cache.capacity - 1)).map fun entry => evictedRecord entry.1

def writeRecords (cache : Cache EntityKey) (call : Call) (response : Option Json.Value) :
    List LogRecord :=
  match acceptResponse cache call response with
  | .error _ => []
  | .ok (none, key, _) => [⟨.trace, s!"Skipping merge into {key.text}: no response"⟩]
  | .ok (some page, key, window) => mergeRecords cache key window page

def readRecords (cache : Cache EntityKey) (call : Call) : List LogRecord :=
  match cache.locateWindow call with
  | .error _ => []
  | .ok (key, window) =>
    let status := (cache.readAt key window).status
    [⟨.trace, s!"Read {key.text} [{window.offset}, +{window.limit}): {status}"⟩]

def evictRecords (cache : Cache EntityKey) (index : Nat) (call : Call) : List LogRecord :=
  match cache.locate call with
  | .error _ => []
  | .ok (_, key) =>
    let removed := (cache.find? key).isSome
    (if removed then [evictedRecord key] else []) ++
      [⟨.debug, s!"step {index}: evict {call.typeName}:{call.entityId}.{call.field} " ++
        s!"removed={removed}"⟩]

/-- The records of step number `index`. -/
def Step.records (cache : Cache EntityKey) (index : Nat) : Step → List LogRecord
  | .write call response => writeRecords cache call response
  | .read call => readRecords cache call
  | .evict call => evictRecords cache index call
  | .clear => []

/-- The cache after a step. -/
def Step.advance (cache : Cache EntityKey) : Step → Except CacheError (Cache EntityKey)
  | .write call response => cache.writeResponse call response
  | .read call => (cache.readResponse call).map Prod.snd
  | .evict call => (cache.evict call).map Prod.snd
  | .clear => .ok cache.clear

/-- The records of steps, of which the first is number `index`. -/
def recordsFrom (index : Nat) (cache : Cache EntityKey) : List Step → List LogRecord
  | [] => []
  | step :: rest =>
    match step.advance cache with
    | .error _ => []
    | .ok next => step.records cache index ++ recordsFrom (index + 1) next rest

/-- The log of a script from the file `path`.  Below `debug` it has no record of a step. -/
def Script.log (script : Script) (path : String) (cache : Cache EntityKey) (level : LogLevel) :
    List LogRecord :=
  let start : LogRecord := ⟨.info, s!"Replaying {script.steps.length} steps from {path}"⟩
  let steps :=
    if LogLevel.debug.verbosity ≤ level.verbosity then recordsFrom 0 cache script.steps else []
  (start :: steps).filter (·.shownAt level)

end PagedCache.Replay
