import PagedCache.Cache.Operation
import PagedCache.Json.Document
import PagedCache.Settings

/-!
# Replaying a script

A script is a list of steps for a fresh cache: writes, reads, and removals.  Reads
give results; the first step that is refused ends the run.
-/

namespace PagedCache.Replay

inductive Step where
  /-- Write a response. -/
  | write (call : Call) (response : Option Json.Value)
  /-- Read a window. -/
  | read (call : Call)
  /-- Remove one snapshot. -/
  | evict (call : Call)
  /-- Remove every snapshot. -/
  | clear

structure Script where
  steps : List Step

/-! ## Reading scripts -/

/-- Names and documents in the order of the text. -/
abbrev DocumentMembers := List (Option String × Json.Document)

/-- The document under a name that may be there once; the outer option is missing
when it is repeated. -/
def single? (members : DocumentMembers) (name : String) : Option (Option Json.Document) :=
  match members.filter fun member => member.1 == some name with
  | [] => some none
  | [(_, document)] => some (some document)
  | _ => none

/-- How the properties of a step are found. -/
abbrev Properties := String → Option Json.Value

/-- The properties of a step; those among `names` must not be repeated. -/
def properties? (members : DocumentMembers) (names : List String) : Option Properties :=
  if names.any fun name => (single? members name).isNone then none
  else
    some fun name =>
      match single? members name with
      | some (some document) => document.evaluate
      | _ => none

def text? (properties : Properties) (name : String) : Option String :=
  match properties name with
  | some (.string text) => some text
  | _ => none

/-- The arguments, which have to be an object if they are there. -/
def arguments? (properties : Properties) : Option Arguments :=
  match properties "args" with
  | none => some []
  | some (.object members) => some members
  | _ => none

def call? (properties : Properties) : Option Call := do
  let typeName ← text? properties "type"
  let entityId ← text? properties "id"
  let field ← text? properties "field"
  let arguments ← arguments? properties
  return ⟨typeName, entityId, field, arguments⟩

/-- The names of the properties that a kind of step reads; none for an unknown
kind. -/
def readNames? : String → Option (List String)
  | "write" => some ["type", "id", "field", "args", "response"]
  | "read" => some ["type", "id", "field", "args"]
  | "evict" => some ["type", "id", "field", "args"]
  | "clear" => some []
  | _ => none

/-- The step of a kind with the given properties. -/
def step? (kind : String) (properties : Properties) : Option Step :=
  match kind with
  | "write" => (call? properties).map fun call => .write call (properties "response")
  | "read" => (call? properties).map .read
  | "evict" => (call? properties).map .evict
  | "clear" => some .clear
  | _ => none

/-- Read a step: an object with its kind under `op`, or a list of its kind and of its
properties in order. -/
def stepOfDocument? (document : Json.Document) : Option Step :=
  match document.evaluate with
  | none => none
  | some _ =>
    match document with
    | .object members =>
      match single? members "op" with
      | some (some (.string (some kind))) => do
        let names ← readNames? kind
        let properties ← properties? members names
        step? kind properties
      | _ => none
    | .array (.string (some kind) :: items) => do
      let names ← readNames? kind
      if items.length ≤ names.length then
        let properties ← properties? ((names.map some).zip items) names
        step? kind properties
      else none
    | _ => none

/-- Values may be nested this deep inside the steps of a script. -/
def maxStepsDepth : Nat := Json.Document.maxDepth - 1

def stepsOfDocument? (document : Json.Document) : Option (List Step) :=
  if document.depth ≤ maxStepsDepth then
    match document with
    | .array items => items.mapM stepOfDocument?
    | _ => none
  else none

/-- Read a script: an object with the steps, or a list of just the steps. -/
def Script.ofDocument? (document : Json.Document) : Option Script :=
  match document with
  | .object members =>
    if members.any fun member => member.1.isNone then none
    else
      match single? members "steps" with
      | some (some steps) => (stepsOfDocument? steps).map Script.mk
      | _ => none
  | .array [steps] => (stepsOfDocument? steps).map Script.mk
  | _ => none

/-- Read a script. -/
def Script.parse? (text : String) : Option Script :=
  (Json.Document.parse? text).bind ofDocument?

/-! ## Running scripts -/

/-- The result of a read. -/
structure ReadResult where
  /-- The position of the step in the script. -/
  step : Nat
  reading : Reading Json.Value

namespace ReadResult

def toJson (result : ReadResult) : Json.Value :=
  .object
    [("step", .ofNat result.step),
     ("status", .string result.reading.status),
     ("data", result.reading.value?.getD .null)]

end ReadResult

/-- A step that was refused. -/
structure StepError where
  step : Nat
  action : String
  call : Call
  cause : CacheError

namespace StepError

def message (error : StepError) : String :=
  s!"step {error.step}: {error.action} {error.call.typeName}:{error.call.entityId}." ++
    error.call.field

/-- The error and what caused it, outermost first. -/
def chain (error : StepError) : List String :=
  [error.message, error.cause.message]

end StepError

/-- Run steps, of which the first is number `index`; the cache is that after the last
step that was carried out. -/
def runFrom (index : Nat) (cache : Cache EntityKey) :
    List Step → Except StepError (List ReadResult) × Cache EntityKey
  | [] => (.ok [], cache)
  | .write call response :: rest =>
    match cache.writeResponse call response with
    | .error cause => (.error ⟨index, "write", call, cause⟩, cache)
    | .ok next => runFrom (index + 1) next rest
  | .read call :: rest =>
    match cache.readResponse call with
    | .error cause => (.error ⟨index, "read", call, cause⟩, cache)
    | .ok (reading, next) =>
      let (results, final) := runFrom (index + 1) next rest
      (results.map (⟨index, reading⟩ :: ·), final)
  | .evict call :: rest =>
    match cache.evict call with
    | .error cause => (.error ⟨index, "evict", call, cause⟩, cache)
    | .ok (_, next) => runFrom (index + 1) next rest
  | .clear :: rest => runFrom (index + 1) cache.clear rest

/-- The results of a script and the cache after it. -/
def Script.run (script : Script) (cache : Cache EntityKey) :
    Except StepError (List ReadResult) × Cache EntityKey :=
  runFrom 0 cache script.steps

end PagedCache.Replay
