import PagedCache.Proofs.OrderedEntries
import PagedCache.Proofs.Snapshot.Merge
import PagedCache.Cache.Operation
import PagedCache.Console

/-!
# One operation

What an operation does to the snapshots by key, and when it is accepted.  Acceptance
depends on the registry and on the bound for page ends, which no operation changes.
-/

namespace PagedCache

variable {α : Type}

namespace Cache

/-! ## Snapshots by key -/

theorem lookup_others (cache : Cache α) (key other : SnapshotKey) :
    (cache.others key).lookup other = if other = key then none else cache.find? other := by
  rw [others, lookup_filter_key (fun entry => entry != key)]
  by_cases hsame : other = key <;> simp [hsame, find?]

theorem find?_put_self (cache : Cache α) (key : SnapshotKey) (snapshot : Snapshot α) :
    (cache.put key snapshot).find? key = some snapshot := by
  simp [put, find?]

theorem find?_put_of_ne (cache : Cache α) {key other : SnapshotKey}
    (snapshot : Snapshot α) (hother : other ≠ key) :
    (cache.put key snapshot).find? other = none ∨
      (cache.put key snapshot).find? other = cache.find? other := by
  have hlookup : (cache.put key snapshot).find? other =
      ((cache.others key).take (cache.capacity - 1)).lookup other :=
    lookup_cons_of_ne snapshot _ hother
  have hothers : (cache.others key).lookup other = cache.find? other := by
    rw [lookup_others, if_neg hother]
  rw [hlookup, ← hothers]
  exact lookup_take _ _ _

theorem find?_touch (cache : Cache α) (key other : SnapshotKey) :
    (cache.touch key).find? other = cache.find? other := by
  unfold touch
  cases hheld : cache.find? key with
  | none => rfl
  | some snapshot =>
      by_cases hsame : other = key
      · subst hsame
        rw [hheld]
        simp [find?]
      · have hothers := lookup_others cache key other
        rw [if_neg hsame] at hothers
        rw [← hothers]
        exact lookup_cons_of_ne snapshot _ hsame

/-! ## Acceptance -/

/-- Two caches whose checks agree, whatever they hold and however much they have room
for. -/
structure SameChecks (left right : Cache α) : Prop where
  registry : left.registry = right.registry
  maxWindowEnd : left.maxWindowEnd = right.maxWindowEnd

namespace SameChecks

variable {left middle right : Cache α}

theorem refl (cache : Cache α) : SameChecks cache cache :=
  ⟨rfl, rfl⟩

theorem symm (hchecks : SameChecks left right) : SameChecks right left :=
  ⟨hchecks.registry.symm, hchecks.maxWindowEnd.symm⟩

theorem trans (hleft : SameChecks left middle) (hright : SameChecks middle right) :
    SameChecks left right where
  registry := hleft.registry.trans hright.registry
  maxWindowEnd := hleft.maxWindowEnd.trans hright.maxWindowEnd

theorem locate_eq (hchecks : SameChecks left right) (call : Call) :
    left.locate call = right.locate call := by
  simp only [locate, hchecks.registry]

theorem locateWindow_eq (hchecks : SameChecks left right) (call : Call) :
    left.locateWindow call = right.locateWindow call := by
  simp only [locateWindow, hchecks.locate_eq]

theorem accept_eq (hchecks : SameChecks left right) (call : Call)
    (incoming : Option (Page α)) :
    left.accept call incoming = right.accept call incoming := by
  simp only [accept, hchecks.locateWindow_eq, checkEnd, hchecks.maxWindowEnd]

end SameChecks

/-- Two caches that accept the same operations. -/
structure SameRules (left right : Cache α) : Prop where
  registry : left.registry = right.registry
  maxSnapshots : left.maxSnapshots = right.maxSnapshots
  maxWindowEnd : left.maxWindowEnd = right.maxWindowEnd

namespace SameRules

variable {left middle right : Cache α}

theorem refl (cache : Cache α) : SameRules cache cache :=
  ⟨rfl, rfl, rfl⟩

theorem trans (hleft : SameRules left middle) (hright : SameRules middle right) :
    SameRules left right where
  registry := hleft.registry.trans hright.registry
  maxSnapshots := hleft.maxSnapshots.trans hright.maxSnapshots
  maxWindowEnd := hleft.maxWindowEnd.trans hright.maxWindowEnd

theorem sameChecks (hrules : SameRules left right) : SameChecks left right :=
  ⟨hrules.registry, hrules.maxWindowEnd⟩

theorem locateWindow_eq (hrules : SameRules left right) (call : Call) :
    left.locateWindow call = right.locateWindow call :=
  hrules.sameChecks.locateWindow_eq call

theorem accept_eq (hrules : SameRules left right) (call : Call)
    (incoming : Option (Page α)) :
    left.accept call incoming = right.accept call incoming :=
  hrules.sameChecks.accept_eq call incoming

end SameRules

theorem sameRules_put (cache : Cache α) (key : SnapshotKey) (snapshot : Snapshot α) :
    SameRules (cache.put key snapshot) cache :=
  ⟨rfl, rfl, rfl⟩

theorem sameRules_touch (cache : Cache α) (key : SnapshotKey) :
    SameRules (cache.touch key) cache := by
  unfold touch
  split <;> exact ⟨rfl, rfl, rfl⟩

theorem locateWindow_eq_ok_iff {cache : Cache α} {call : Call} {key : SnapshotKey}
    {window : Window} :
    cache.locateWindow call = .ok (key, window) ↔
      ∃ policy, cache.locate call = .ok (policy, key) ∧
        Window.ofArguments call.arguments = .ok window := by
  unfold locateWindow
  cases cache.locate call with
  | error error => simp
  | ok located =>
      cases Window.ofArguments call.arguments with
      | error error => simp
      | ok found => simp [Prod.ext_iff]

theorem checkEnd_eq_ok_iff {cache : Cache α} {window : Window} {items : List α} :
    cache.checkEnd window items = .ok () ↔
      window.offset + items.length ≤ Window.maxPosition ∧
        window.offset + items.length ≤ cache.maxWindowEnd := by
  unfold checkEnd Window.pageStop
  by_cases hposition : window.offset + items.length ≤ Window.maxPosition
  · by_cases hbound : window.offset + items.length ≤ cache.maxWindowEnd <;>
      simp [hposition, hbound]
  · simp [hposition]

/-- A write is accepted for the list that its call names if its page, should it have
one, ends where pages may. -/
theorem accept_eq_ok_iff {cache : Cache α} {call : Call} {incoming : Option (Page α)}
    {key : SnapshotKey} {window : Window} :
    cache.accept call incoming = .ok (key, window) ↔
      cache.locateWindow call = .ok (key, window) ∧
        ∀ items ∈ incoming.bind Page.items,
          window.offset + items.length ≤ Window.maxPosition ∧
            window.offset + items.length ≤ cache.maxWindowEnd := by
  unfold accept
  cases hlocate : cache.locateWindow call with
  | error error => simp
  | ok located =>
      obtain ⟨locatedKey, locatedWindow⟩ := located
      cases hitems : incoming.bind Page.items with
      | none => simp
      | some items =>
          simp only [Option.mem_def, Option.some.injEq, forall_eq']
          rw [← checkEnd_eq_ok_iff]
          cases hcheck : cache.checkEnd locatedWindow items with
          | error error =>
              simp only [reduceCtorEq, false_iff, Except.ok.injEq, Prod.mk.injEq, not_and]
              rintro ⟨-, rfl⟩
              simp [hcheck]
          | ok _ =>
              simp only [Except.ok.injEq, Prod.mk.injEq, iff_self_and]
              rintro ⟨-, rfl⟩
              exact hcheck

/-! ## Effects -/

theorem mergeAt_eq_put (cache : Cache α) (key : SnapshotKey) (window : Window)
    (page : Page α) :
    cache.mergeAt key window page =
      { cache with tally := { cache.tally with merges := cache.tally.merges + 1 } }.put key
        (((cache.find? key).getD .empty).absorb page window) :=
  rfl

theorem write_some_eq_ok_iff {cache next : Cache α} {call : Call} {page : Page α} :
    cache.write call (some page) = .ok next ↔
      ∃ key window, cache.accept call (some page) = .ok (key, window) ∧
        next = cache.mergeAt key window page := by
  unfold write
  cases cache.accept call (some page) with
  | error error => simp
  | ok accepted => simp [Prod.ext_iff, eq_comm]

theorem read_eq_of_locateWindow {cache : Cache α} {call : Call} {key : SnapshotKey}
    {window : Window} (hlocate : cache.locateWindow call = .ok (key, window)) :
    cache.read call =
      .ok (cache.readAt key window,
        { cache.touch key with
          tally := countReading cache.tally (cache.readAt key window) }) := by
  simp only [read, hlocate]

theorem read_eq_ok_iff {cache next : Cache α} {call : Call}
    {reading : Reading (Snapshot α)} :
    cache.read call = .ok (reading, next) ↔
      ∃ key window, cache.locateWindow call = .ok (key, window) ∧
        reading = cache.readAt key window ∧
          next = { cache.touch key with tally := countReading cache.tally reading } := by
  unfold read
  cases cache.locateWindow call with
  | error error => simp
  | ok located =>
      simp only [Except.ok.injEq, Prod.ext_iff]
      constructor
      · rintro ⟨rfl, rfl⟩
        exact ⟨_, _, ⟨rfl, rfl⟩, rfl, rfl⟩
      · rintro ⟨key, window, ⟨rfl, rfl⟩, rfl, rfl⟩
        exact ⟨rfl, rfl⟩

theorem write_none_eq_ok {cache next : Cache α} {call : Call}
    (hwrite : cache.write call none = .ok next) :
    next = { cache with tally := { cache.tally with noops := cache.tally.noops + 1 } } := by
  unfold write at hwrite
  cases haccept : cache.accept call none with
  | error error => simp [haccept] at hwrite
  | ok accepted => simpa [haccept] using hwrite.symm

theorem evict_eq_ok_iff {cache next : Cache α} {call : Call} {removed : Bool} :
    cache.evict call = .ok (removed, next) ↔
      ∃ policy key, cache.locate call = .ok (policy, key) ∧
        removed = (cache.find? key).isSome ∧
          next = { cache with snapshots := cache.others key } := by
  unfold evict
  cases cache.locate call with
  | error error => simp
  | ok located => simp [Prod.ext_iff, eq_comm]

theorem find?_evictEntity (cache : Cache α) (typeName entityId : String)
    (key : SnapshotKey) :
    (cache.evictEntity typeName entityId).2.find? key =
      if key.ownedBy typeName entityId then none else cache.find? key := by
  have hrest : (cache.evictEntity typeName entityId).2.snapshots =
      cache.snapshots.filter fun entry => !entry.1.ownedBy typeName entityId := by
    simp [evictEntity, List.partition_eq_filter_filter, Function.comp_def]
  have hlookup := lookup_filter_key
    (fun held : SnapshotKey => !held.ownedBy typeName entityId) cache.snapshots key
  rw [find?, hrest]
  refine hlookup.trans ?_
  cases key.ownedBy typeName entityId <;> simp [find?]

/-! ## Carrying out operations -/

theorem perform_write (cache : Cache α) (call : Call) (incoming : Option (Page α)) :
    (cache.perform (.write call incoming)).2 =
      match cache.write call incoming with
      | .error _ => cache
      | .ok next => next := by
  simp only [perform, settle]
  cases cache.write call incoming <;> rfl

theorem perform_read (cache : Cache α) (call : Call) :
    (cache.perform (.read call)).2 =
      match cache.read call with
      | .error _ => cache
      | .ok (_, next) => next := by
  simp only [perform, settle]
  cases cache.read call <;> rfl

theorem perform_evict (cache : Cache α) (call : Call) :
    (cache.perform (.evict call)).2 =
      match cache.evict call with
      | .error _ => cache
      | .ok (_, next) => next := by
  simp only [perform, settle]
  cases cache.evict call <;> rfl

theorem run_cons (cache : Cache α) (operation : Operation α) (rest : List (Operation α)) :
    (cache.run (operation :: rest)).2 = ((cache.perform operation).2.run rest).2 :=
  rfl

theorem sameRules_write {cache next : Cache α} {call : Call} {incoming : Option (Page α)}
    (hwrite : cache.write call incoming = .ok next) : SameRules next cache := by
  cases incoming with
  | none =>
      rw [write_none_eq_ok hwrite]
      exact ⟨rfl, rfl, rfl⟩
  | some page =>
      obtain ⟨key, window, -, rfl⟩ := write_some_eq_ok_iff.mp hwrite
      rw [mergeAt_eq_put]
      exact (sameRules_put _ _ _).trans ⟨rfl, rfl, rfl⟩

theorem sameRules_read {cache next : Cache α} {call : Call} {reading : Reading (Snapshot α)}
    (hread : cache.read call = .ok (reading, next)) : SameRules next cache := by
  obtain ⟨key, window, -, -, rfl⟩ := read_eq_ok_iff.mp hread
  have htouch := sameRules_touch cache key
  exact ⟨htouch.registry, htouch.maxSnapshots, htouch.maxWindowEnd⟩

theorem find?_of_read {cache next : Cache α} {call : Call} {reading : Reading (Snapshot α)}
    (hread : cache.read call = .ok (reading, next)) (key : SnapshotKey) :
    next.find? key = cache.find? key := by
  obtain ⟨located, window, -, -, rfl⟩ := read_eq_ok_iff.mp hread
  exact find?_touch cache located key

theorem sameRules_perform (cache : Cache α) (operation : Operation α) :
    SameRules (cache.perform operation).2 cache := by
  cases operation with
  | write call incoming =>
      rw [perform_write]
      cases hwrite : cache.write call incoming with
      | error error => exact .refl cache
      | ok next => exact sameRules_write hwrite
  | read call =>
      rw [perform_read]
      cases hread : cache.read call with
      | error error => exact .refl cache
      | ok answer => exact sameRules_read hread
  | evict call =>
      rw [perform_evict]
      cases hevict : cache.evict call with
      | error error => exact .refl cache
      | ok answer =>
          obtain ⟨policy, key, -, -, hnext⟩ := evict_eq_ok_iff.mp hevict
          simp only [hnext]
          exact ⟨rfl, rfl, rfl⟩
  | peek | evictEntity | clear | resetTally => exact ⟨rfl, rfl, rfl⟩

theorem sameRules_run (cache : Cache α) (operations : List (Operation α)) :
    SameRules (cache.run operations).2 cache := by
  induction operations generalizing cache with
  | nil => exact .refl cache
  | cons operation rest ih =>
      exact (ih (cache.perform operation).2).trans (sameRules_perform cache operation)

end Cache

/-! ## The requests of a workspace -/

namespace Console

/-- A registry that knows the requests of workspaces only. -/
def requestsRegistry : Registry :=
  ⟨[(⟨"Workspace", "requests"⟩, requests)], []⟩

/-- Ask for a window of the requests of a workspace. -/
def requestsCall (workspace : String) (offset limit : Nat) : Call :=
  ⟨"Workspace", workspace, "requests", [("limit", .ofNat limit), ("offset", .ofNat offset)]⟩

def requestsKey (workspace : String) : SnapshotKey :=
  ⟨"Workspace", workspace, "requests"⟩

/-- The requests of a workspace have one snapshot for all windows. -/
theorem locateWindow_requestsCall {cache : Cache α}
    (hregistry : cache.registry = requestsRegistry) (workspace : String)
    {offset limit : Nat} (hoffset : offset ≤ Window.maxPosition)
    (hlimit : limit ≤ Window.maxPosition) :
    cache.locateWindow (requestsCall workspace offset limit) =
      .ok (requestsKey workspace, ⟨offset, limit⟩) := by
  have hword : ∀ position ≤ Window.maxPosition,
      (Json.Value.ofNat position).toWord? = some position := by
    intro position hposition
    have hbound : position < Json.Literal.wordBound := Nat.lt_of_le_pred (by decide) hposition
    exact if_pos hbound
  have hargument : ∀ name position, position ≤ Window.maxPosition →
      (requestsCall workspace offset limit).arguments.find? name = some (.ofNat position) →
        Window.readArgument (requestsCall workspace offset limit).arguments name =
          .ok position := by
    intro name position hposition hfind
    simp only [Window.readArgument, hfind, Json.Value.ofNat]
    rw [← Json.Value.ofNat, hword position hposition]
  have hwindow : Window.ofArguments (requestsCall workspace offset limit).arguments =
      .ok ⟨offset, limit⟩ := by
    simp only [Window.ofArguments, hargument Window.offsetArgument offset hoffset rfl,
      hargument Window.limitArgument limit hlimit rfl]
  have hlocate : cache.locate (requestsCall workspace offset limit) =
      .ok (requests, requestsKey workspace) := by
    simp only [Cache.locate, hregistry]
    rfl
  simp only [Cache.locateWindow, hlocate, hwindow]

end Console

end PagedCache
