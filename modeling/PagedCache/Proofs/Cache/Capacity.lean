import PagedCache.Proofs.Cache.Shelf

/-!
# More room

Two caches that see the same operations and differ in their room only do not stay in
step: a key that the smaller one dropped is missed there without coming back, while the
larger one finds it and moves it to the front.  The smaller cache still holds a part of
the keys of the larger one, in the same order, because the keys that it lacks are never
more than the room that it lacks.
-/

namespace PagedCache

variable {α : Type}

section Sublists

variable {κ : Type} {fewer more : List κ}

/-- A filter takes no more from a part of a list than from the list. -/
theorem length_filter_gap (hsublist : fewer.Sublist more) (keep : κ → Bool) :
    (more.filter keep).length + fewer.length ≤ more.length + (fewer.filter keep).length := by
  have hmore := more.length_eq_countP_add_countP keep
  have hfewer := fewer.length_eq_countP_add_countP keep
  have hgone := hsublist.countP_le (p := fun value => decide ¬keep value = true)
  simp only [← List.countP_eq_length_filter]
  omega

/-- A part of a list that is cut by no less than the list stays a part of it. -/
theorem sublist_take_of_gap (hsublist : fewer.Sublist more) {small large : Nat}
    (hgap : more.length + small ≤ fewer.length + large) :
    (fewer.take small).Sublist (more.take large) := by
  rw [← List.reverse_sublist, List.reverse_take, List.reverse_take]
  have hcut : (fewer.reverse.drop (fewer.length - small)).Sublist
      (more.reverse.drop (fewer.length - small)) :=
    (List.reverse_sublist.mpr hsublist).drop _
  exact hcut.trans (List.drop_sublist_drop_left _ (by omega))

end Sublists

namespace Shelf

/-- `fewer` lags behind `more`, which has seen the same events with room for `large`
keys in place of `small`. -/
structure Lags (small large : Nat) (fewer more : Shelf) : Prop where
  sublist : fewer.keys.Sublist more.keys
  gap : more.keys.length + small ≤ fewer.keys.length + large
  misses : more.misses ≤ fewer.misses
  evictions : more.evictions ≤ fewer.evictions

namespace Lags

variable {small large : Nat} {fewer more : Shelf}

theorem others_sublist (hlags : Lags small large fewer more) (key : SnapshotKey) :
    (fewer.others key).Sublist (more.others key) :=
  hlags.sublist.filter _

theorem others_gap (hlags : Lags small large fewer more) (key : SnapshotKey) :
    (more.others key).length + small ≤ (fewer.others key).length + large := by
  have hfilter := length_filter_gap hlags.sublist (· != key)
  have hgap := hlags.gap
  simp only [others]
  omega

theorem stored (hlags : Lags small large fewer more) (hsmall : 0 < small)
    (hle : small ≤ large) (key : SnapshotKey) :
    Lags small large (fewer.step small (.stored key)) (more.step large (.stored key)) := by
  have hsublist := hlags.others_sublist key
  have hgap := hlags.others_gap key
  have hevictions := hlags.evictions
  constructor
  · exact (sublist_take_of_gap hsublist (by omega)).cons_cons key
  · simp only [step, List.length_cons, List.length_take]
    omega
  · exact hlags.misses
  · simp only [step]
    omega

/-- The two part company here: the key may be one that only `more` still holds. -/
theorem lookedUp (hlags : Lags small large fewer more) (key : SnapshotKey) :
    Lags small large (fewer.step small (.lookedUp key))
      (more.step large (.lookedUp key)) := by
  have hsublist := hlags.others_sublist key
  have hgap := hlags.others_gap key
  have hmisses := hlags.misses
  by_cases hfewer : key ∈ fewer.keys
  · have hmore : key ∈ more.keys := hlags.sublist.subset hfewer
    simp only [step, if_pos hfewer, if_pos hmore]
    refine ⟨hsublist.cons_cons key, ?_, hmisses, hlags.evictions⟩
    simp only [List.length_cons]
    omega
  · by_cases hmore : key ∈ more.keys
    · simp only [step, if_neg hfewer, if_pos hmore]
      rw [others_eq_keys hfewer] at hsublist
      have hremoved := more.length_others_lt hmore
      refine ⟨hsublist.cons key, ?_, Nat.le_succ_of_le hmisses, hlags.evictions⟩
      have hkeys := hlags.gap
      simp only [List.length_cons]
      omega
    · simp only [step, if_neg hfewer, if_neg hmore]
      exact ⟨hlags.sublist, hlags.gap, Nat.succ_le_succ hmisses, hlags.evictions⟩

theorem dropped (hlags : Lags small large fewer more) (gone : SnapshotKey → Bool) :
    Lags small large (fewer.step small (.dropped gone)) (more.step large (.dropped gone)) := by
  have hfilter := length_filter_gap hlags.sublist fun key => !gone key
  have hgap := hlags.gap
  refine ⟨hlags.sublist.filter _, ?_, hlags.misses, hlags.evictions⟩
  simp only [step]
  omega

theorem step (hlags : Lags small large fewer more) (hsmall : 0 < small)
    (hle : small ≤ large) (event : KeyEvent) :
    Lags small large (fewer.step small event) (more.step large event) := by
  cases event with
  | stored key => exact hlags.stored hsmall hle key
  | lookedUp key => exact hlags.lookedUp key
  | dropped gone => exact hlags.dropped gone
  | recounted => exact ⟨hlags.sublist, hlags.gap, Nat.le_refl 0, Nat.le_refl 0⟩
  | ignored => exact hlags

end Lags

end Shelf

namespace Cache

/-- Only a read misses, and only a key that is not held. -/
theorem perform_eq_miss_iff {cache : Cache α} {operation : Operation α} :
    (cache.perform operation).1 = .ok (.reading .miss) ↔
      ∃ key, cache.keyEvent operation = .lookedUp key ∧ key ∉ cache.keys := by
  cases operation with
  | read call =>
      simp only [perform, keyEvent, settle, read]
      cases cache.locateWindow call with
      | error error => simp
      | ok located => simp [readAt_eq_miss_iff]
  | write call incoming =>
      have hwritten : (cache.perform (.write call incoming)).1 ≠ .ok (.reading .miss) := by
        simp only [perform, settle]
        cases cache.write call incoming <;> simp [Except.map]
      have hevent : ∀ key, cache.keyEvent (.write call incoming) ≠ .lookedUp key := by
        intro key
        cases incoming with
        | none => simp [keyEvent]
        | some page =>
            simp only [keyEvent]
            cases cache.accept call (some page) <;> simp
      simp [hwritten, hevent]
  | evict call =>
      simp only [perform, keyEvent, settle, evict]
      cases cache.locate call <;> simp
  | peek call =>
      simp only [perform, keyEvent, peek]
      cases cache.locate call <;> simp [Except.map]
  | evictEntity | clear | resetTally => simp [perform, keyEvent]

/-- `fewer` lags behind `more`, which has seen the same operations with more room. -/
structure Lags (fewer more : Cache α) : Prop where
  checks : SameChecks fewer more
  capacity_le : fewer.capacity ≤ more.capacity
  shelf : Shelf.Lags fewer.capacity more.capacity fewer.shelf more.shelf

namespace Lags

variable {fewer more : Cache α}

theorem perform (hlags : Lags fewer more) (operation : Operation α) :
    Lags (fewer.perform operation).2 (more.perform operation).2 := by
  have hpositive : 0 < fewer.capacity := Nat.le_max_right _ _
  have hfewer := (sameRules_perform fewer operation).sameChecks
  have hmore := (sameRules_perform more operation).sameChecks
  constructor
  · exact hfewer.trans (hlags.checks.trans hmore.symm)
  · rw [capacity_perform, capacity_perform]
    exact hlags.capacity_le
  · rw [capacity_perform, capacity_perform, shelf_perform, shelf_perform,
      hlags.checks.keyEvent_eq operation]
    exact hlags.shelf.step hpositive hlags.capacity_le _

/-- What is missed with more room is missed with less. -/
theorem perform_eq_miss (hlags : Lags fewer more) {operation : Operation α}
    (hmiss : (more.perform operation).1 = .ok (.reading .miss)) :
    (fewer.perform operation).1 = .ok (.reading .miss) := by
  rw [perform_eq_miss_iff] at hmiss ⊢
  obtain ⟨key, hevent, hkey⟩ := hmiss
  refine ⟨key, ?_, fun hheld => hkey (hlags.shelf.sublist.subset hheld)⟩
  rw [hlags.checks.keyEvent_eq operation, hevent]

theorem run (hlags : Lags fewer more) (operations : List (Operation α)) :
    Lags (fewer.run operations).2 (more.run operations).2 := by
  induction operations generalizing fewer more with
  | nil => exact hlags
  | cons operation rest ih => exact ih (hlags.perform operation)

theorem run_eq_miss (hlags : Lags fewer more) (operations : List (Operation α))
    {index : Nat} (hmiss : (more.run operations).1[index]? = some (.ok (.reading .miss))) :
    (fewer.run operations).1[index]? = some (.ok (.reading .miss)) := by
  induction operations generalizing fewer more index with
  | nil => simp [Cache.run] at hmiss
  | cons operation rest ih =>
      cases index with
      | zero =>
          simp only [Cache.run, List.getElem?_cons_zero, Option.some.injEq] at hmiss ⊢
          exact hlags.perform_eq_miss hmiss
      | succ index => exact ih (hlags.perform operation) hmiss

end Lags

theorem lags_fresh (registry : Registry) (maxWindowEnd : Nat) {small large : Nat}
    (hle : small ≤ large) :
    Lags (fresh registry small maxWindowEnd : Cache α)
      (fresh registry large maxWindowEnd) where
  checks := ⟨rfl, rfl⟩
  capacity_le := max_le_max_right 1 hle
  shelf :=
    { sublist := .refl _
      gap := Nat.add_le_add_left (max_le_max_right 1 hle) 0
      misses := Nat.le_refl 0
      evictions := Nat.le_refl 0 }

/-- **More room loses no key.**  Run the same operations on two fresh caches with the
same rules.  The one with less room then holds a part of the keys of the other one, in
the same order; it missed wherever the other one did, and it counts no fewer misses and
no fewer evictions.  As `operations` may be any run, this holds after every step of one. -/
theorem keys_sublist_of_more_room (registry : Registry) (maxWindowEnd : Nat)
    {small large : Nat} (hle : small ≤ large) (operations : List (Operation α)) :
    let fewer := (fresh registry small maxWindowEnd).run operations
    let more := (fresh registry large maxWindowEnd).run operations
    fewer.2.keys.Sublist more.2.keys ∧
      (∀ index : Nat, more.1[index]? = some (.ok (.reading .miss)) →
        fewer.1[index]? = some (.ok (.reading .miss))) ∧
      more.2.tally.misses ≤ fewer.2.tally.misses ∧
      more.2.tally.evictions ≤ fewer.2.tally.evictions := by
  intro fewer more
  have hstart : Lags (fresh registry small maxWindowEnd : Cache α)
      (fresh registry large maxWindowEnd) := lags_fresh registry maxWindowEnd hle
  have hfinal := (hstart.run operations).shelf
  exact ⟨hfinal.sublist, fun _ hmiss => hstart.run_eq_miss operations hmiss,
    hfinal.misses, hfinal.evictions⟩

/-- Two workspaces, the first one again, and one that was never written. -/
def rereading : List (Operation Nat) :=
  [.write (Console.requestsCall "ws1" 0 1) (some ⟨some [1], none, []⟩),
   .write (Console.requestsCall "ws2" 0 1) (some ⟨some [2], none, []⟩),
   .read (Console.requestsCall "ws1" 0 1),
   .read (Console.requestsCall "ws3" 0 1)]

theorem keys_sublist_of_more_room_rereading :
    let fewer := (fresh Console.requestsRegistry 1 100).run rereading
    let more := (fresh Console.requestsRegistry 2 100).run rereading
    1 ≤ 2 ∧ fewer.2.keys = [Console.requestsKey "ws2"] ∧
      more.2.keys = [Console.requestsKey "ws1", Console.requestsKey "ws2"] ∧
      fewer.2.keys.Sublist more.2.keys ∧
      more.1[3]? = some (.ok (.reading .miss)) ∧ fewer.1[3]? = some (.ok (.reading .miss)) ∧
      more.2.tally.misses ≤ fewer.2.tally.misses ∧
      more.2.tally.evictions ≤ fewer.2.tally.evictions := by
  intro fewer more
  have hle : 1 ≤ 2 := by decide
  obtain ⟨hkeys, hmiss, hcounts⟩ :=
    keys_sublist_of_more_room Console.requestsRegistry 100 hle rereading
  exact ⟨hle, rfl, rfl, hkeys, rfl, hmiss 3 rfl, hcounts⟩

end Cache

end PagedCache
