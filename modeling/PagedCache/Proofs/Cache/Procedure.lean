import PagedCache.Proofs.Cache.Shelf
import PagedCache.Proofs.Cache.Refusal

/-!
# What procedures do

Carried out step by step on a cache that holds no more than it has room for, a
procedure does to the cache what the operation says.
-/

namespace PagedCache

variable {α : Type}

namespace Procedure

/-- The answer of a procedure, which may be an error, and the cache after it. -/
def answer {ε σ β : Type} : EStateM.Result ε σ β → Except ε β × σ
  | .ok value final => (.ok value, final)
  | .error error final => (.error error, final)

/-- How a procedure ends if it changes the cache only when it is done. -/
def settled {ε σ β : Type} (start : σ) : Except ε (β × σ) → EStateM.Result ε σ β
  | .ok (value, final) => .ok value final
  | .error error => .error error start

theorem answer_run_bind_pure {β γ : Type} {procedure : Procedure α β} {cache : Cache α}
    {attempt : Except CacheError (β × Cache α)}
    (hrun : procedure.run cache = settled cache attempt) (wrap : β → γ) :
    answer ((procedure >>= fun value => pure (wrap value)).run cache) =
      cache.settle attempt wrap := by
  cases attempt with
  | error error => exact congrArg answer (run_bind_of_error hrun)
  | ok result => exact congrArg answer (run_bind_of_ok hrun)

/-- Where nothing is held under a key, a snapshot is put in front of all others, or of all
but the last one if there is no room. -/
theorem run_push {cache : Cache α} {key : SnapshotKey} (hkey : cache.find? key = none)
    (hroom : cache.size ≤ cache.capacity) (snapshot : Snapshot α) :
    ∃ evicted, (push key snapshot).run cache =
        .ok evicted { cache with
          snapshots := (key, snapshot) :: cache.snapshots.take (cache.capacity - 1) } ∧
      (evicted.isSome ↔ cache.size = cache.capacity) := by
  have hcapacity := cache.capacity_pos
  rw [Cache.size] at hroom ⊢
  by_cases hfree : cache.snapshots.length < cache.capacity
  · refine ⟨none, ?_, by simp [hfree.ne]⟩
    rw [List.take_of_length_le (by omega)]
    simp [push, modifyGet, MonadStateOf.modifyGet, EStateM.modifyGet, EStateM.run, hkey,
      Cache.size, hfree]
  · have hfull : cache.snapshots.length = cache.capacity := by omega
    have hheld : cache.keys ≠ [] := by
      rw [← List.length_pos_iff, Cache.keys, List.length_map]
      omega
    refine ⟨cache.keys.getLast?, ?_, by simp [hfull, hheld]⟩
    rw [← hfull, ← List.dropLast_eq_take]
    simp [push, modifyGet, MonadStateOf.modifyGet, EStateM.modifyGet, EStateM.run, hkey,
      Cache.size, hfull]

/-- A page is merged as `Cache.mergeAt` says: only if nothing was taken out can there be
no room. -/
theorem run_merge {cache : Cache α} (hroom : cache.size ≤ cache.capacity)
    (key : SnapshotKey) (window : Window) (page : Page α) :
    (merge key window page).run cache = .ok () (cache.mergeAt key window page) := by
  let merged := ((cache.find? key).getD .empty).absorb page window
  let rest : Cache α :=
    { cache with
      snapshots := cache.others key
      tally := { cache.tally with merges := cache.tally.merges + 1 } }
  have hsize : rest.size = (cache.others key).length := rfl
  have hcapacity : rest.capacity = cache.capacity := rfl
  have hothers : rest.find? key = none := by
    have hlookup := cache.lookup_others key key
    rwa [if_pos rfl] at hlookup
  have hrest : rest.size ≤ rest.capacity :=
    (List.length_filter_le _ _).trans hroom
  obtain ⟨evicted, hpush, hevicted⟩ := run_push hothers hrest merged
  have hdropped : ((cache.others key).drop (cache.capacity - 1)).length =
      if evicted.isSome then 1 else 0 := by
    have hpositive := cache.capacity_pos
    rw [hsize, hcapacity] at hrest hevicted
    rw [List.length_drop]
    by_cases hfull : (cache.others key).length = cache.capacity
    · rw [if_pos (hevicted.mpr hfull)]
      omega
    · rw [if_neg (mt hevicted.mp hfull)]
      omega
  have hput : cache.mergeAt key window page =
      { rest with
        snapshots := (key, merged) :: rest.snapshots.take (rest.capacity - 1)
        tally := { rest.tally with
          evictions := rest.tally.evictions + if evicted.isSome then 1 else 0 } } := by
    rw [Cache.mergeAt_eq_put, ← hdropped]
    rfl
  have hrun : (merge key window page).run cache =
      ((push key merged : Procedure α _) >>= countEviction).run rest := rfl
  rw [hrun, run_bind_of_ok hpush, hput]
  cases evicted <;> rfl

theorem run_write {cache : Cache α} (hroom : cache.size ≤ cache.capacity) (call : Call)
    (incoming : Option (Page α)) :
    (write call incoming).run cache =
      settled cache ((cache.write call incoming).map fun next => ((), next)) := by
  simp only [Cache.write, Cache.accept, Cache.locateWindow]
  cases hlocate : cache.locate call with
  | error error => exact run_check_bind_of_error hlocate
  | ok located =>
      obtain ⟨policy, key⟩ := located
      refine (run_check_bind_of_ok hlocate).trans ?_
      cases hwindow : Window.ofArguments call.arguments with
      | error error => exact run_check_bind_of_error rfl
      | ok window =>
          refine (run_check_bind_of_ok rfl).trans ?_
          have hmerge := fun page => run_merge hroom key window page
          cases incoming with
          | none => rfl
          | some page =>
              simp only [Option.bind_some]
              cases page.items with
              | none => exact hmerge page
              | some items =>
                  cases hend : cache.checkEnd window items with
                  | error error =>
                      simp only [hend]
                      exact run_check_bind_of_error hend
                  | ok _ =>
                      simp only [hend]
                      exact (run_check_bind_of_ok hend).trans (hmerge page)

theorem run_read (cache : Cache α) (call : Call) :
    (read call).run cache = settled cache (cache.read call) := by
  simp only [Cache.read, Cache.locateWindow]
  cases hlocate : cache.locate call with
  | error error => exact run_check_bind_of_error hlocate
  | ok located =>
      obtain ⟨policy, key⟩ := located
      refine (run_check_bind_of_ok hlocate).trans ?_
      cases hwindow : Window.ofArguments call.arguments with
      | error error => exact run_check_bind_of_error rfl
      | ok window =>
          refine (run_check_bind_of_ok rfl).trans ?_
          have hget : (get key).run cache = .ok (cache.find? key) (cache.touch key) := rfl
          rw [run_bind_of_ok hget]
          cases hheld : cache.find? key with
          | none =>
              simp only [Cache.readAt, Cache.touch, hheld]
              rfl
          | some snapshot =>
              simp only [Cache.readAt, Cache.touch, hheld, Cache.answer]
              split <;> rfl

theorem run_peek (cache : Cache α) (call : Call) :
    (peek call).run cache =
      settled cache ((cache.peek call).map fun snapshot => (snapshot, cache)) := by
  unfold Cache.peek
  cases hlocate : cache.locate call with
  | error error => exact run_check_bind_of_error hlocate
  | ok located => exact (run_check_bind_of_ok hlocate).trans rfl

theorem run_evict (cache : Cache α) (call : Call) :
    (evict call).run cache = settled cache (cache.evict call) := by
  unfold Cache.evict
  cases hlocate : cache.locate call with
  | error error => exact run_check_bind_of_error hlocate
  | ok located => exact (run_check_bind_of_ok hlocate).trans rfl

theorem run_popAll (keys : List SnapshotKey) (cache : Cache α) :
    (popAll keys).run cache =
      .ok () { cache with
        snapshots := cache.snapshots.filter fun entry => entry.1 ∉ keys } := by
  induction keys generalizing cache with
  | nil =>
      simp only [List.not_mem_nil, not_false_eq_true, decide_true, List.filter_true]
      rfl
  | cons key rest ih =>
      have hpop : (pop key).run cache =
          .ok (cache.find? key) { cache with snapshots := cache.others key } := rfl
      refine (run_bind_of_ok hpop).trans ?_
      rw [ih, Cache.others, List.filter_filter]
      have hkeep : ∀ entry : SnapshotKey × Snapshot α,
          (decide (entry.1 ∉ rest) && entry.1 != key) = decide (entry.1 ∉ key :: rest) := by
        intro entry
        rw [Bool.eq_iff_iff]
        simp [and_comm]
      simp only [hkeep]

/-- The keys of an entity, taken out one after the other, are the keys that belong to
it. -/
theorem run_evictEntity (cache : Cache α) (typeName entityId : String) :
    (evictEntity typeName entityId).run cache =
      .ok (cache.evictEntity typeName entityId).1 (cache.evictEntity typeName entityId).2 := by
  let owned := cache.keys.filter (·.ownedBy typeName entityId)
  have hpop := run_popAll owned cache
  have hkept : cache.snapshots.filter (fun entry => entry.1 ∉ owned) =
      cache.snapshots.filter fun entry => !entry.1.ownedBy typeName entityId := by
    apply List.filter_congr
    intro entry hentry
    have hkey : entry.1 ∈ cache.keys := List.mem_map_of_mem hentry
    simp [owned, hkey]
  have hcount : owned.length = (cache.evictEntity typeName entityId).1 := by
    simp only [owned, Cache.keys, List.filter_map, List.length_map, Cache.evictEntity,
      List.partition_eq_filter_filter]
    rfl
  rw [hkept] at hpop
  have hrest : ({ cache with
      snapshots := cache.snapshots.filter fun entry =>
        !entry.1.ownedBy typeName entityId } : Cache α) =
      (cache.evictEntity typeName entityId).2 := by
    simp only [Cache.evictEntity, List.partition_eq_filter_filter]
    rfl
  rw [hrest] at hpop
  rw [← hcount]
  exact (run_bind_of_ok hpop).trans rfl

/-- **Procedures do what operations say.** -/
theorem answer_run_perform {cache : Cache α} (hroom : cache.size ≤ cache.capacity)
    (operation : Operation α) :
    answer ((perform operation).run cache) = cache.perform operation := by
  cases operation with
  | write call incoming =>
      exact answer_run_bind_pure (run_write hroom call incoming) fun _ => Outcome.written
  | read call => exact answer_run_bind_pure (run_read cache call) Outcome.reading
  | peek call =>
      refine (answer_run_bind_pure (run_peek cache call) Outcome.peeked).trans ?_
      simp only [Cache.perform]
      cases cache.peek call <;> rfl
  | evict call => exact answer_run_bind_pure (run_evict cache call) Outcome.evicted
  | evictEntity typeName entityId =>
      have hrun := run_evictEntity cache typeName entityId
      exact congrArg answer (run_bind_of_ok hrun)
  | clear | resetTally => rfl

theorem run_writeResponse {cache : Cache EntityKey} (hroom : cache.size ≤ cache.capacity)
    (call : Call) (response : Option Json.Value) :
    (writeResponse call response).run cache =
      settled cache ((cache.writeResponse call response).map fun next => ((), next)) := by
  unfold Cache.writeResponse
  cases hrequire : cache.registry.require call.typeName call.field with
  | error error => exact run_check_bind_of_error hrequire
  | ok policy =>
      refine (run_check_bind_of_ok hrequire).trans ?_
      dsimp only
      cases hdecode : Response.decode cache.registry policy response with
      | error error => exact run_check_bind_of_error hdecode
      | ok incoming =>
          exact (run_check_bind_of_ok hdecode).trans (run_write hroom call incoming)

theorem run_readResponse (cache : Cache EntityKey) (call : Call) :
    (readResponse call).run cache = settled cache (cache.readResponse call) := by
  unfold Cache.readResponse
  cases hrequire : cache.registry.require call.typeName call.field with
  | error error => exact run_check_bind_of_error hrequire
  | ok policy =>
      refine (run_check_bind_of_ok hrequire).trans ?_
      have hread := run_read cache call
      cases hanswer : cache.read call with
      | error error =>
          rw [hanswer] at hread
          exact run_bind_of_error hread
      | ok answer =>
          rw [hanswer] at hread
          exact run_bind_of_ok hread

/-- **Procedures do what requests say.** -/
theorem answer_run_serve {cache : Cache EntityKey} (hroom : cache.size ≤ cache.capacity)
    (request : Request) : answer ((serve request).run cache) = cache.serve request := by
  cases request with
  | writeResponse call response =>
      exact answer_run_bind_pure (run_writeResponse hroom call response)
        fun _ => Reply.direct .written
  | readResponse call =>
      exact answer_run_bind_pure (run_readResponse cache call) Reply.response
  | direct operation =>
      have hperform := answer_run_perform hroom operation
      simp only [Cache.serve, ← hperform]
      cases hrun : (perform operation).run cache with
      | error error final => exact congrArg answer (run_bind_of_error hrun)
      | ok outcome final => exact congrArg answer (run_bind_of_ok hrun)

end Procedure

end PagedCache
