import PagedCache.Cache.Procedure
import PagedCache.Replay

/-!
# Scripts as procedures

A script carries out the procedures of its steps on one cache.
-/

namespace PagedCache.Replay

/-- A procedure as one step of a script: if it is refused, the error says which step
that was. -/
def atStep {β : Type} (index : Nat) (action : String) (call : Call)
    (procedure : Procedure EntityKey β) : EStateM StepError (Cache EntityKey) β :=
  procedure.adaptExcept fun cause => ⟨index, action, call, cause⟩

/-- Carry out step number `index`; only a read has a result. -/
def Step.procedure (index : Nat) :
    Step → EStateM StepError (Cache EntityKey) (Option ReadResult)
  | .write call response => do
    atStep index "write" call (Procedure.writeResponse call response)
    return none
  | .read call => do
    let reading ← atStep index "read" call (Procedure.readResponse call)
    return some ⟨index, reading⟩
  | .evict call => do
    let _ ← atStep index "evict" call (Procedure.evict call)
    return none
  | .clear => do
    modify Cache.clear
    return none

/-- Carry out steps, of which the first is number `index`. -/
def procedureFrom (index : Nat) :
    List Step → EStateM StepError (Cache EntityKey) (List ReadResult)
  | [] => return []
  | step :: rest => do
    let result ← step.procedure index
    let results ← procedureFrom (index + 1) rest
    return result.toList ++ results

def Script.procedure (script : Script) :
    EStateM StepError (Cache EntityKey) (List ReadResult) :=
  procedureFrom 0 script.steps

end PagedCache.Replay
