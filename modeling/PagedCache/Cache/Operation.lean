import PagedCache.Cache
import PagedCache.Response

/-!
# Operations on a cache

Everything that a client can ask of a cache, as data, so that a whole history of
a cache is a list of operations.  A refused operation leaves the cache as it is.
-/

namespace PagedCache

variable {α : Type}

/-- An operation on a cache of items of type `α`. -/
inductive Operation (α : Type) where
  | write (call : Call) (incoming : Option (Page α))
  | read (call : Call)
  | peek (call : Call)
  | evict (call : Call)
  | evictEntity (typeName entityId : String)
  | clear
  | resetTally

/-- The result of an operation. -/
inductive Outcome (α : Type) where
  | written
  | reading (reading : Reading (Snapshot α))
  | peeked (snapshot : Option (Snapshot α))
  | evicted (removed : Bool)
  | evictedEntity (count : Nat)
  | cleared
  | tallyReset

namespace Cache

/-- Turn the answer of a step that may be refused into a result and a cache. -/
def settle {β γ : Type} (cache : Cache α) (attempt : Except CacheError (β × Cache α))
    (wrap : β → γ) : Except CacheError γ × Cache α :=
  match attempt with
  | .error error => (.error error, cache)
  | .ok (result, next) => (.ok (wrap result), next)

/-- Carry out one operation. -/
def perform (cache : Cache α) : Operation α → Except CacheError (Outcome α) × Cache α
  | .write call incoming =>
    cache.settle ((cache.write call incoming).map fun next => ((), next)) fun _ => .written
  | .read call => cache.settle (cache.read call) .reading
  | .peek call => ((cache.peek call).map .peeked, cache)
  | .evict call => cache.settle (cache.evict call) .evicted
  | .evictEntity typeName entityId =>
    let (count, next) := cache.evictEntity typeName entityId
    (.ok (.evictedEntity count), next)
  | .clear => (.ok .cleared, cache.clear)
  | .resetTally => (.ok .tallyReset, cache.resetTally)

/-- The results of a history and the cache after it. -/
def run (cache : Cache α) :
    List (Operation α) → List (Except CacheError (Outcome α)) × Cache α
  | [] => ([], cache)
  | operation :: rest =>
    let (result, next) := cache.perform operation
    let (results, final) := run next rest
    (result :: results, final)

/-- Decode a response and write it. -/
def writeResponse (cache : Cache EntityKey) (call : Call) (response : Option Json.Value) :
    Except CacheError (Cache EntityKey) :=
  match cache.registry.require call.typeName call.field with
  | .error error => .error error
  | .ok policy =>
    match Response.decode cache.registry policy response with
    | .error error => .error error
    | .ok incoming => cache.write call incoming

/-- Read the window of a call in the shape of a response. -/
def readResponse (cache : Cache EntityKey) (call : Call) :
    Except CacheError (Reading Json.Value × Cache EntityKey) :=
  match cache.registry.require call.typeName call.field with
  | .error error => .error error
  | .ok policy =>
    match cache.read call with
    | .error error => .error error
    | .ok (reading, next) => .ok (reading.map (Response.encode policy), next)

end Cache

/-- An operation on a cache of entity keys: one in terms of responses, or one in
terms of pages. -/
inductive Request where
  | writeResponse (call : Call) (response : Option Json.Value)
  | readResponse (call : Call)
  | direct (operation : Operation EntityKey)

/-- The result of a request. -/
inductive Reply where
  | response (reading : Reading Json.Value)
  | direct (outcome : Outcome EntityKey)

namespace Cache

/-- Carry out one request. -/
def serve (cache : Cache EntityKey) : Request → Except CacheError Reply × Cache EntityKey
  | .writeResponse call response =>
    cache.settle ((cache.writeResponse call response).map fun next => ((), next))
      fun _ => .direct .written
  | .readResponse call => cache.settle (cache.readResponse call) .response
  | .direct operation =>
    let (result, next) := cache.perform operation
    (result.map .direct, next)

/-- The results of a list of requests and the cache after them. -/
def serveAll (cache : Cache EntityKey) :
    List Request → List (Except CacheError Reply) × Cache EntityKey
  | [] => ([], cache)
  | request :: rest =>
    let (result, next) := cache.serve request
    let (results, final) := serveAll next rest
    (result :: results, final)

end Cache

end PagedCache
