import PagedCache.Proofs.Cache.Step

/-!
# The order of the keys

Which keys a cache holds, in which order, and how often it missed or evicted, does not
depend on the snapshots.  Every operation is one event for these, and what an event
does follows from the capacity alone.
-/

namespace PagedCache

variable {α : Type}

/-- What an operation means for the keys of a cache. -/
inductive KeyEvent where
  /-- A snapshot is put under the key. -/
  | stored (key : SnapshotKey)
  /-- The key is looked up. -/
  | lookedUp (key : SnapshotKey)
  /-- Some keys have to go. -/
  | dropped (gone : SnapshotKey → Bool)
  /-- The counts start anew. -/
  | recounted
  | ignored

/-- The keys of a cache, most recently touched first, and the counts that depend on
them. -/
structure Shelf where
  keys : List SnapshotKey
  misses : Nat
  evictions : Nat

namespace Shelf

/-- The keys other than a given one. -/
def others (shelf : Shelf) (key : SnapshotKey) : List SnapshotKey :=
  shelf.keys.filter (· != key)

/-- What an event does when there is room for `capacity` keys. -/
def step (capacity : Nat) (shelf : Shelf) : KeyEvent → Shelf
  | .stored key =>
    { shelf with
      keys := key :: (shelf.others key).take (capacity - 1)
      evictions := shelf.evictions + ((shelf.others key).length - (capacity - 1)) }
  | .lookedUp key =>
    if key ∈ shelf.keys then { shelf with keys := key :: shelf.others key }
    else { shelf with misses := shelf.misses + 1 }
  | .dropped gone => { shelf with keys := shelf.keys.filter fun key => !gone key }
  | .recounted => ⟨shelf.keys, 0, 0⟩
  | .ignored => shelf

/-- No key stands twice, and there is room for all of them. -/
structure Sound (capacity : Nat) (shelf : Shelf) : Prop where
  nodup : shelf.keys.Nodup
  length_le : shelf.keys.length ≤ capacity

theorem not_mem_others (shelf : Shelf) (key : SnapshotKey) : key ∉ shelf.others key := by
  simp [others]

theorem mem_others {shelf : Shelf} {key other : SnapshotKey} :
    other ∈ shelf.others key ↔ other ∈ shelf.keys ∧ other ≠ key := by
  simp [others]

theorem others_eq_keys {shelf : Shelf} {key : SnapshotKey} (hkey : key ∉ shelf.keys) :
    shelf.others key = shelf.keys := by
  rw [others, List.filter_eq_self]
  intro other hother
  simpa using ne_of_mem_of_not_mem hother hkey

theorem others_sublist (shelf : Shelf) (key : SnapshotKey) :
    (shelf.others key).Sublist shelf.keys :=
  List.filter_sublist

/-- Taking a key out makes room for one. -/
theorem length_others_lt (shelf : Shelf) {key : SnapshotKey} (hkey : key ∈ shelf.keys) :
    (shelf.others key).length < shelf.keys.length := by
  rw [others, List.length_filter_lt_length_iff_exists]
  exact ⟨key, hkey, by simp⟩

/-- A new key needs room only if there is none. -/
theorem step_stored_of_lt {capacity : Nat} (shelf : Shelf) {key : SnapshotKey}
    (hkey : key ∉ shelf.keys) (hroom : shelf.keys.length < capacity) :
    shelf.step capacity (.stored key) = { shelf with keys := key :: shelf.keys } := by
  simp only [Shelf.step, others_eq_keys hkey]
  rw [List.take_of_length_le (by omega), Nat.sub_eq_zero_of_le (by omega), Nat.add_zero]

/-- A new key without room costs the last one its place. -/
theorem step_stored_of_full {capacity : Nat} (hcapacity : 0 < capacity) (shelf : Shelf)
    {key : SnapshotKey}
    (hkey : key ∉ shelf.keys) (hfull : shelf.keys.length = capacity) :
    shelf.step capacity (.stored key) =
      { shelf with
        keys := key :: shelf.keys.dropLast, evictions := shelf.evictions + 1 } := by
  simp only [Shelf.step, others_eq_keys hkey, List.dropLast_eq_take, hfull]
  rw [Nat.sub_sub_self hcapacity]

/-- There is room for all keys again after every event. -/
theorem length_keys_step_le {capacity : Nat} (hcapacity : 0 < capacity) {shelf : Shelf}
    (hroom : shelf.keys.length ≤ capacity) (event : KeyEvent) :
    (shelf.step capacity event).keys.length ≤ capacity := by
  cases event with
  | stored key =>
      simp only [Shelf.step, List.length_cons, List.length_take]
      omega
  | lookedUp key =>
      by_cases hkey : key ∈ shelf.keys
      · simp only [Shelf.step, if_pos hkey]
        exact (shelf.length_others_lt hkey).trans_le hroom
      · simpa only [Shelf.step, if_neg hkey] using hroom
  | dropped gone => exact (List.length_filter_le _ _).trans hroom
  | recounted | ignored => exact hroom

namespace Sound

variable {capacity : Nat} {shelf : Shelf}

theorem length_others_lt (hsound : Sound capacity shelf) {key : SnapshotKey}
    (hkey : key ∈ shelf.keys) : (shelf.others key).length < capacity :=
  (shelf.length_others_lt hkey).trans_le hsound.length_le

theorem step (hcapacity : 0 < capacity) (hsound : Sound capacity shelf)
    (event : KeyEvent) : Sound capacity (shelf.step capacity event) := by
  refine ⟨?_, length_keys_step_le hcapacity hsound.length_le event⟩
  cases event with
  | stored key =>
      have hkept := List.take_sublist (capacity - 1) (shelf.others key)
      refine List.nodup_cons.mpr ⟨fun hmem => ?_, ?_⟩
      · exact shelf.not_mem_others key (hkept.subset hmem)
      · exact (hkept.trans (shelf.others_sublist key)).nodup hsound.nodup
  | lookedUp key =>
      by_cases hkey : key ∈ shelf.keys
      · simp only [Shelf.step, if_pos hkey]
        exact List.nodup_cons.mpr
          ⟨shelf.not_mem_others key, (shelf.others_sublist key).nodup hsound.nodup⟩
      · simpa only [Shelf.step, if_neg hkey] using hsound.nodup
  | dropped gone => exact List.filter_sublist.nodup hsound.nodup
  | recounted | ignored => exact hsound.nodup

/-- A key that is held makes room for itself. -/
theorem step_stored_of_mem (hsound : Sound capacity shelf) {key : SnapshotKey}
    (hkey : key ∈ shelf.keys) :
    shelf.step capacity (.stored key) = { shelf with keys := key :: shelf.others key } := by
  have hroom := hsound.length_others_lt hkey
  simp only [Shelf.step]
  rw [List.take_of_length_le (by omega), Nat.sub_eq_zero_of_le (by omega), Nat.add_zero]

end Sound

end Shelf

namespace Cache

/-- The keys and the counts that depend on them. -/
def shelf (cache : Cache α) : Shelf :=
  ⟨cache.keys, cache.tally.misses, cache.tally.evictions⟩

/-- What an operation means for the keys; one that is refused means nothing. -/
def keyEvent (cache : Cache α) : Operation α → KeyEvent
  | .write call (some page) =>
    match cache.accept call (some page) with
    | .ok (key, _) => .stored key
    | .error _ => .ignored
  | .read call =>
    match cache.locateWindow call with
    | .ok (key, _) => .lookedUp key
    | .error _ => .ignored
  | .evict call =>
    match cache.locate call with
    | .ok (_, key) => .dropped (· == key)
    | .error _ => .ignored
  | .evictEntity typeName entityId => .dropped (·.ownedBy typeName entityId)
  | .clear => .dropped fun _ => true
  | .resetTally => .recounted
  | .write _ none | .peek _ => .ignored

theorem SameChecks.keyEvent_eq {left right : Cache α} (hchecks : SameChecks left right)
    (operation : Operation α) : left.keyEvent operation = right.keyEvent operation := by
  cases operation with
  | write call incoming =>
      cases incoming with
      | none => rfl
      | some page => simp only [keyEvent, hchecks.accept_eq]
  | read call => simp only [keyEvent, hchecks.locateWindow_eq]
  | evict call => simp only [keyEvent, hchecks.locate_eq]
  | peek | evictEntity | clear | resetTally => rfl

theorem map_fst_others (cache : Cache α) (key : SnapshotKey) :
    (cache.others key).map Prod.fst = cache.shelf.others key := by
  rw [others, Shelf.others, shelf, keys, List.filter_map]
  rfl

theorem mem_keys_iff {cache : Cache α} {key : SnapshotKey} :
    key ∈ cache.keys ↔ (cache.find? key).isSome := by
  rw [keys, find?, List.lookup_isSome_iff, List.mem_map]
  simp only [beq_iff_eq, eq_comm (a := key)]

theorem keys_put (cache : Cache α) (key : SnapshotKey) (snapshot : Snapshot α) :
    (cache.put key snapshot).keys =
      key :: (cache.shelf.others key).take (cache.capacity - 1) := by
  rw [← map_fst_others, ← List.map_take]
  rfl

theorem shelf_put (cache : Cache α) (key : SnapshotKey) (snapshot : Snapshot α) :
    (cache.put key snapshot).shelf = cache.shelf.step cache.capacity (.stored key) := by
  have hdropped : ((cache.others key).drop (cache.capacity - 1)).length =
      (cache.shelf.others key).length - (cache.capacity - 1) := by
    rw [← map_fst_others, List.length_map, List.length_drop]
  rw [shelf, keys_put, put, hdropped]
  rfl

theorem keys_touch (cache : Cache α) (key : SnapshotKey) :
    (cache.touch key).keys =
      if key ∈ cache.keys then key :: cache.shelf.others key else cache.keys := by
  unfold touch
  cases hheld : cache.find? key with
  | none =>
      have hkey : key ∉ cache.keys := by simp [mem_keys_iff, hheld]
      rw [if_neg hkey]
  | some snapshot =>
      have hkey : key ∈ cache.keys := by simp [mem_keys_iff, hheld]
      rw [if_pos hkey, ← map_fst_others]
      rfl

/-- A snapshot that is there gives an answer. -/
theorem answer_ne_miss (snapshot : Snapshot α) (window : Window) :
    answer snapshot window ≠ .miss := by
  intro hmiss
  simp only [answer] at hmiss
  split at hmiss <;> cases hmiss

theorem readAt_eq_miss_iff {cache : Cache α} {key : SnapshotKey} {window : Window} :
    cache.readAt key window = .miss ↔ key ∉ cache.keys := by
  unfold readAt
  cases hheld : cache.find? key with
  | none => simp [mem_keys_iff, hheld]
  | some snapshot => simp [mem_keys_iff, hheld, answer_ne_miss]

theorem misses_countReading (tally : Tally) {reading : Reading (Snapshot α)}
    (hanswered : reading ≠ .miss) :
    (countReading tally reading).misses = tally.misses := by
  cases reading with
  | miss => exact absurd rfl hanswered
  | partialHit | complete => rfl

theorem evictions_countReading (tally : Tally) (reading : Reading (Snapshot α)) :
    (countReading tally reading).evictions = tally.evictions := by
  cases reading <;> rfl

theorem shelf_read {cache next : Cache α} {call : Call} {reading : Reading (Snapshot α)}
    {key : SnapshotKey} {window : Window}
    (hlocate : cache.locateWindow call = .ok (key, window))
    (hread : cache.read call = .ok (reading, next)) :
    next.shelf = cache.shelf.step cache.capacity (.lookedUp key) := by
  rw [read_eq_of_locateWindow hlocate] at hread
  cases hread
  have hkeys := cache.keys_touch key
  have hevictions := evictions_countReading cache.tally (cache.readAt key window)
  by_cases hkey : key ∈ cache.keys
  · have hanswered : cache.readAt key window ≠ .miss :=
      fun hmiss => readAt_eq_miss_iff.mp hmiss hkey
    have hmisses := misses_countReading cache.tally hanswered
    rw [if_pos hkey] at hkeys
    have hstep : cache.shelf.step cache.capacity (.lookedUp key) =
        ⟨key :: cache.shelf.others key, cache.tally.misses, cache.tally.evictions⟩ :=
      if_pos hkey
    rw [hstep, ← hkeys, ← hmisses, ← hevictions]
    rfl
  · have hmiss : cache.readAt key window = .miss := readAt_eq_miss_iff.mpr hkey
    rw [if_neg hkey] at hkeys
    have hstep : cache.shelf.step cache.capacity (.lookedUp key) =
        ⟨cache.keys, cache.tally.misses + 1, cache.tally.evictions⟩ :=
      if_neg hkey
    rw [hstep, ← hkeys, hmiss]
    rfl

theorem shelf_perform_write (cache : Cache α) (call : Call)
    (incoming : Option (Page α)) :
    (cache.perform (.write call incoming)).2.shelf =
      cache.shelf.step cache.capacity (cache.keyEvent (.write call incoming)) := by
  rw [perform_write]
  cases incoming with
  | none =>
      cases hwrite : cache.write call none with
      | error error => rfl
      | ok next =>
          rw [write_none_eq_ok hwrite]
          rfl
  | some page =>
      simp only [keyEvent]
      cases haccept : cache.accept call (some page) with
      | error error =>
          have hwrite : cache.write call (some page) = .error error := by
            simp only [write, haccept]
          rw [hwrite]
          rfl
      | ok accepted =>
          obtain ⟨key, window⟩ := accepted
          rw [write_some_eq_ok_iff.mpr ⟨key, window, haccept, rfl⟩]
          simp only [mergeAt_eq_put, shelf_put]
          rfl

theorem shelf_perform_read (cache : Cache α) (call : Call) :
    (cache.perform (.read call)).2.shelf =
      cache.shelf.step cache.capacity (cache.keyEvent (.read call)) := by
  rw [perform_read]
  simp only [keyEvent]
  cases hlocate : cache.locateWindow call with
  | error error =>
      have hread : cache.read call = .error error := by simp only [read, hlocate]
      rw [hread]
      rfl
  | ok located =>
      obtain ⟨key, window⟩ := located
      have hread := read_eq_of_locateWindow hlocate
      rw [hread]
      exact shelf_read hlocate hread

theorem shelf_perform_evict (cache : Cache α) (call : Call) :
    (cache.perform (.evict call)).2.shelf =
      cache.shelf.step cache.capacity (cache.keyEvent (.evict call)) := by
  rw [perform_evict]
  simp only [keyEvent]
  cases hlocate : cache.locate call with
  | error error =>
      have hevict : cache.evict call = .error error := by simp only [evict, hlocate]
      rw [hevict]
      rfl
  | ok located =>
      obtain ⟨policy, key⟩ := located
      rw [evict_eq_ok_iff.mpr ⟨policy, key, hlocate, rfl, rfl⟩]
      have hkept := cache.map_fst_others key
      simp only [shelf, keys, Shelf.step]
      rw [hkept]
      rfl

theorem keys_evictEntity (cache : Cache α) (typeName entityId : String) :
    (cache.evictEntity typeName entityId).2.keys =
      cache.keys.filter fun key => !key.ownedBy typeName entityId := by
  simp only [evictEntity, List.partition_eq_filter_filter, keys, List.filter_map]
  rfl

/-- **The keys keep to themselves.**  Whatever an operation does, to the keys and to the
counts of misses and evictions it does what its event does. -/
theorem shelf_perform (cache : Cache α) (operation : Operation α) :
    (cache.perform operation).2.shelf =
      cache.shelf.step cache.capacity (cache.keyEvent operation) := by
  cases operation with
  | write call incoming => exact cache.shelf_perform_write call incoming
  | read call => exact cache.shelf_perform_read call
  | evict call => exact cache.shelf_perform_evict call
  | evictEntity typeName entityId =>
      simp only [perform, keyEvent, Shelf.step]
      rw [shelf, keys_evictEntity]
      rfl
  | clear =>
      simp only [perform, keyEvent, Shelf.step, Bool.not_true, List.filter_false]
      rfl
  | peek | resetTally => rfl

theorem capacity_perform (cache : Cache α) (operation : Operation α) :
    (cache.perform operation).2.capacity = cache.capacity := by
  rw [capacity, capacity, (sameRules_perform cache operation).maxSnapshots]

theorem capacity_pos (cache : Cache α) : 0 < cache.capacity :=
  Nat.le_max_right _ _

theorem size_eq_length_keys (cache : Cache α) : cache.size = cache.keys.length :=
  List.length_map _ |>.symm

/-- No operation puts more into a cache than it has room for. -/
theorem size_perform_le {cache : Cache α} (hroom : cache.size ≤ cache.capacity)
    (operation : Operation α) :
    (cache.perform operation).2.size ≤ (cache.perform operation).2.capacity := by
  rw [size_eq_length_keys] at hroom
  have hkeys : cache.shelf.keys.length ≤ cache.capacity := hroom
  have hnext := Shelf.length_keys_step_le cache.capacity_pos hkeys
    (cache.keyEvent operation)
  rw [← shelf_perform] at hnext
  rw [size_eq_length_keys, capacity_perform]
  exact hnext

theorem run_append (cache : Cache α) (earlier later : List (Operation α)) :
    (cache.run (earlier ++ later)).2 = ((cache.run earlier).2.run later).2 := by
  induction earlier generalizing cache with
  | nil => rfl
  | cons operation rest ih => exact ih (cache.perform operation).2

theorem capacity_run (cache : Cache α) (operations : List (Operation α)) :
    (cache.run operations).2.capacity = cache.capacity := by
  rw [capacity, capacity, (sameRules_run cache operations).maxSnapshots]

theorem sound_run {cache : Cache α} (hsound : cache.shelf.Sound cache.capacity)
    (operations : List (Operation α)) :
    (cache.run operations).2.shelf.Sound (cache.run operations).2.capacity := by
  induction operations generalizing cache with
  | nil => exact hsound
  | cons operation rest ih =>
      have hnext := hsound.step cache.capacity_pos (cache.keyEvent operation)
      rw [← shelf_perform, ← capacity_perform cache operation] at hnext
      exact ih hnext

theorem sound_read {cache next : Cache α} (hsound : cache.shelf.Sound cache.capacity)
    {call : Call} {reading : Reading (Snapshot α)}
    (hread : cache.read call = .ok (reading, next)) : next.shelf.Sound next.capacity := by
  have hrun := sound_run hsound [.read call]
  rwa [run_cons, perform_read, hread] at hrun

theorem sound_fresh (registry : Registry) (maxSnapshots maxWindowEnd : Nat) :
    (fresh registry maxSnapshots maxWindowEnd : Cache α).shelf.Sound
      (fresh registry maxSnapshots maxWindowEnd : Cache α).capacity :=
  ⟨List.nodup_nil, Nat.zero_le _⟩

/-! ## Room for a key -/

/-- A snapshot can be put under the key without the loss of another one. -/
def HasRoom (cache : Cache α) (key : SnapshotKey) : Prop :=
  (cache.others key).length < cache.capacity

/-- A key that is held has room. -/
theorem hasRoom_of_find? {cache : Cache α} (hsound : cache.shelf.Sound cache.capacity)
    {key : SnapshotKey} {snapshot : Snapshot α} (hheld : cache.find? key = some snapshot) :
    cache.HasRoom key := by
  have hkey : key ∈ cache.keys := by simp [mem_keys_iff, hheld]
  rw [HasRoom, ← List.length_map Prod.fst, map_fst_others]
  exact hsound.length_others_lt hkey

theorem put_of_hasRoom {cache : Cache α} {key : SnapshotKey} (hroom : cache.HasRoom key)
    (snapshot : Snapshot α) :
    cache.put key snapshot =
      { cache with snapshots := (key, snapshot) :: cache.others key } := by
  have hall : (cache.others key).length ≤ cache.capacity - 1 := Nat.le_sub_one_of_lt hroom
  simp only [put, List.take_of_length_le hall, List.drop_of_length_le hall, List.length_nil,
    Nat.add_zero]

/-- With room for its key, a page changes one snapshot and the count of merges. -/
theorem mergeAt_of_hasRoom {cache : Cache α} {key : SnapshotKey} (hroom : cache.HasRoom key)
    (window : Window) (page : Page α) :
    cache.mergeAt key window page =
      { cache with
        snapshots := (key, ((cache.find? key).getD .empty).absorb page window) ::
          cache.others key
        tally := { cache.tally with merges := cache.tally.merges + 1 } } := by
  have hcounted : HasRoom
      { cache with tally := { cache.tally with merges := cache.tally.merges + 1 } } key := hroom
  exact put_of_hasRoom hcounted _

theorem find?_mergeAt_self (cache : Cache α) (key : SnapshotKey) (window : Window)
    (page : Page α) :
    (cache.mergeAt key window page).find? key =
      some (((cache.find? key).getD .empty).absorb page window) :=
  find?_put_self _ key _

theorem find?_mergeAt_of_ne {cache : Cache α} {key other : SnapshotKey}
    (hroom : cache.HasRoom key) (hother : other ≠ key) (window : Window) (page : Page α) :
    (cache.mergeAt key window page).find? other = cache.find? other := by
  have hothers : (cache.others key).lookup other = cache.find? other := by
    rw [lookup_others, if_neg hother]
  rw [mergeAt_of_hasRoom hroom]
  exact (lookup_cons_of_ne _ _ hother).trans hothers

end Cache

end PagedCache
