import PagedCache.Proofs.Cache.KeyHistory
import PagedCache.Proofs.Cache.Shelf
import PagedCache.Proofs.Response

/-!
# Requests as operations

A request comes down to one operation on pages, or to none if it is refused before.  What
holds of all runs of operations therefore holds of all runs of requests.
-/

namespace PagedCache

namespace Request

/-- The operation that a request comes down to.  A response that is not decoded leads to
none. -/
def operation? (registry : Registry) : Request → Option (Operation EntityKey)
  | writeResponse call response =>
    match registry.require call.typeName call.field with
    | .error _ => none
    | .ok policy =>
      match Response.decode registry policy response with
      | .error _ => none
      | .ok incoming => some (.write call incoming)
  | readResponse call => some (.read call)
  | direct operation => some operation

/-- The request gives a page as it is, and not in a response. -/
def givesPage : Request → Bool
  | direct (.write _ (some _)) => true
  | _ => false

end Request

namespace Cache

variable {cache : Cache EntityKey}

theorem writeResponse_eq_ok_iff {next : Cache EntityKey} {call : Call}
    {response : Option Json.Value} :
    cache.writeResponse call response = .ok next ↔
      ∃ policy incoming, cache.registry.require call.typeName call.field = .ok policy ∧
        Response.decode cache.registry policy response = .ok incoming ∧
          cache.write call incoming = .ok next := by
  unfold writeResponse
  cases cache.registry.require call.typeName call.field with
  | error error => simp
  | ok policy =>
      cases hdecode : Response.decode cache.registry policy response with
      | error error => simp [hdecode]
      | ok incoming => simp [hdecode]

theorem readResponse_eq_ok_iff {next : Cache EntityKey} {call : Call}
    {reading : Reading Json.Value} :
    cache.readResponse call = .ok (reading, next) ↔
      ∃ policy found, cache.registry.require call.typeName call.field = .ok policy ∧
        cache.read call = .ok (found, next) ∧
          reading = found.map (Response.encode policy) := by
  unfold readResponse
  cases cache.registry.require call.typeName call.field with
  | error error => simp
  | ok policy =>
      cases cache.read call with
      | error error => simp
      | ok answer =>
          obtain ⟨found, final⟩ := answer
          simp only [Except.ok.injEq, Prod.mk.injEq]
          constructor
          · rintro ⟨rfl, rfl⟩
            exact ⟨policy, found, rfl, ⟨rfl, rfl⟩, rfl⟩
          · rintro ⟨_, _, rfl, ⟨rfl, rfl⟩, rfl⟩
            exact ⟨rfl, rfl⟩

theorem serve_writeResponse (cache : Cache EntityKey) (call : Call)
    (response : Option Json.Value) :
    (cache.serve (.writeResponse call response)).2 =
      match cache.writeResponse call response with
      | .error _ => cache
      | .ok next => next := by
  simp only [serve, settle]
  cases cache.writeResponse call response <;> rfl

theorem serve_readResponse (cache : Cache EntityKey) (call : Call) :
    (cache.serve (.readResponse call)).2 = (cache.perform (.read call)).2 := by
  rw [perform_read]
  simp only [serve, settle, readResponse]
  cases hpolicy : cache.registry.require call.typeName call.field with
  | error error => simp only [read, locateWindow, locate, hpolicy]
  | ok policy => cases cache.read call <;> rfl

/-- **A request does what its operation does.** -/
theorem serve_eq_perform (cache : Cache EntityKey) (request : Request) :
    (cache.serve request).2 =
      match request.operation? cache.registry with
      | none => cache
      | some operation => (cache.perform operation).2 := by
  cases request with
  | writeResponse call response =>
      rw [serve_writeResponse]
      simp only [writeResponse, Request.operation?]
      cases cache.registry.require call.typeName call.field with
      | error error => rfl
      | ok policy =>
          cases hdecode : Response.decode cache.registry policy response with
          | error error => simp only [hdecode]
          | ok incoming =>
              simp only [hdecode, perform_write]
              cases cache.write call incoming <;> rfl
  | readResponse call => exact cache.serve_readResponse call
  | direct operation => rfl

theorem serveAll_eq_run (cache : Cache EntityKey) (requests : List Request) :
    (cache.serveAll requests).2 =
      (cache.run (requests.filterMap (Request.operation? cache.registry))).2 := by
  induction requests generalizing cache with
  | nil => rfl
  | cons request rest ih =>
      have hserve := cache.serve_eq_perform request
      change ((cache.serve request).2.serveAll rest).2 = _
      rw [ih, List.filterMap_cons]
      cases hoperation : request.operation? cache.registry with
      | none =>
          simp only [hoperation] at hserve
          rw [hserve]
      | some operation =>
          simp only [hoperation] at hserve
          rw [hserve, (sameRules_perform cache operation).registry]
          rfl

theorem sameRules_serveAll (cache : Cache EntityKey) (requests : List Request) :
    SameRules (cache.serveAll requests).2 cache := by
  rw [serveAll_eq_run]
  exact sameRules_run _ _

theorem sound_serveAll (hsound : cache.shelf.Sound cache.capacity) (requests : List Request) :
    (cache.serveAll requests).2.shelf.Sound (cache.serveAll requests).2.capacity := by
  rw [serveAll_eq_run]
  exact sound_run hsound _

end Cache

end PagedCache
