import PagedCache.Proofs.Cache.Recency
import PagedCache.Proofs.Snapshot.Deliveries

/-!
# The history of one key

A cache keeps many snapshots in one bounded store, but each of them depends on the
deliveries to its own key only.  A history of a key can be told by the operations: it is
ended by a removal of the key, and by a write that takes the room of the key for a new
one.  It can also be told by what the cache holds: it is ended when the key is not held.
Both ways give the same deliveries, and the snapshot is the replay of them.
-/

namespace PagedCache

variable {α : Type}

namespace Cache

/-- What an operation delivers to `key`: the response of a write that names the key
and succeeds. -/
def delivery? (cache : Cache α) (key : SnapshotKey) : Operation α → Option (Delivery α)
  | .write call (some page) =>
    match cache.locateWindow call, cache.write call (some page) with
    | .ok (located, window), .ok _ => if located = key then some ⟨window, page⟩ else none
    | _, _ => none
  | _ => none

/-- Whether an operation ends the history of `key`: it removes the key, or it is a write
that succeeds with a response for a key that is not held, while all room is taken, and
`key` is the last one, which was touched longest ago. -/
def endsHistory (cache : Cache α) (key : SnapshotKey) : Operation α → Bool
  | .write call (some page) =>
    match cache.locateWindow call, cache.write call (some page) with
    | .ok (located, _), .ok _ =>
      cache.size == cache.capacity && !cache.keys.contains located &&
        cache.keys.getLast? == some key
    | _, _ => false
  | .evict call =>
    match cache.locate call with
    | .ok (_, located) => located == key
    | .error _ => false
  | .evictEntity typeName entityId => key.ownedBy typeName entityId
  | .clear => true
  | _ => false

/-- The deliveries to `key` behind the last operation of a run that ended its history.
The ones before the run are given as `earlier`. -/
def history (key : SnapshotKey) :
    Cache α → List (Delivery α) → List (Operation α) → List (Delivery α)
  | _, earlier, [] => earlier
  | cache, earlier, operation :: rest =>
    let kept := if cache.endsHistory key operation then [] else earlier
    history key (cache.perform operation).2
      (kept ++ (cache.delivery? key operation).toList) rest

/-- The deliveries to `key` since it was last not held, after a run.  The ones before
the run are given as `earlier`; an operation after which the key is not held ends what
was collected so far. -/
def deliveriesSince (key : SnapshotKey) :
    Cache α → List (Delivery α) → List (Operation α) → List (Delivery α)
  | _, earlier, [] => earlier
  | cache, earlier, operation :: rest =>
    let next := (cache.perform operation).2
    let collected := earlier ++ (cache.delivery? key operation).toList
    deliveriesSince key next (if (next.find? key).isSome then collected else []) rest

theorem delivery?_eq_some_iff {cache : Cache α} {key : SnapshotKey}
    {operation : Operation α} {delivery : Delivery α} :
    cache.delivery? key operation = some delivery ↔
      ∃ call, operation = .write call (some delivery.page) ∧
        cache.accept call (some delivery.page) = .ok (key, delivery.window) := by
  constructor
  · intro hdelivery
    unfold delivery? at hdelivery
    split at hdelivery
    · split at hdelivery
      next call page _ _ located window next hlocate hwrite =>
        split at hdelivery
        next hkey =>
          cases hdelivery
          obtain ⟨acceptedKey, acceptedWindow, haccept, -⟩ := write_some_eq_ok_iff.mp hwrite
          have hsame := (accept_eq_ok_iff.mp haccept).1
          rw [hlocate, Except.ok.injEq, Prod.mk.injEq] at hsame
          obtain ⟨rfl, rfl⟩ := hsame
          exact ⟨call, rfl, hkey ▸ haccept⟩
        next => cases hdelivery
      next => cases hdelivery
    · cases hdelivery
  · rintro ⟨call, rfl, haccept⟩
    have hlocate := (accept_eq_ok_iff.mp haccept).1
    have hwrite := write_some_eq_ok_iff.mpr ⟨_, _, haccept, rfl⟩
    simp [delivery?, hlocate, hwrite]

/-! ## One operation -/

/-- A delivery to a key is merged into its snapshot. -/
theorem find?_perform_of_delivery {cache : Cache α} {key : SnapshotKey}
    {operation : Operation α} {delivery : Delivery α}
    (hdelivery : cache.delivery? key operation = some delivery) :
    (cache.perform operation).2.find? key =
      Snapshot.merge (cache.find? key) (some delivery.page) delivery.window := by
  obtain ⟨call, rfl, haccept⟩ := delivery?_eq_some_iff.mp hdelivery
  have hwrite := write_some_eq_ok_iff.mpr ⟨_, _, haccept, rfl⟩
  rw [perform_write, hwrite, mergeAt_eq_put]
  exact find?_put_self _ key _

/-- An operation that delivers nothing to a key leaves its snapshot alone or removes
it. -/
theorem find?_perform_of_no_delivery {cache : Cache α} {key : SnapshotKey}
    {operation : Operation α} (hnone : cache.delivery? key operation = none) :
    (cache.perform operation).2.find? key = none ∨
      (cache.perform operation).2.find? key = cache.find? key := by
  cases operation with
  | write call incoming =>
      rw [perform_write]
      cases hwrite : cache.write call incoming with
      | error error => exact .inr rfl
      | ok next =>
          cases incoming with
          | none =>
              rw [write_none_eq_ok hwrite]
              exact .inr rfl
          | some page =>
              obtain ⟨located, window, haccept, rfl⟩ := write_some_eq_ok_iff.mp hwrite
              have hother : key ≠ located := by
                rintro rfl
                have hsome : cache.delivery? key (.write call (some page)) =
                    some ⟨window, page⟩ := delivery?_eq_some_iff.mpr ⟨call, rfl, haccept⟩
                rw [hnone] at hsome
                cases hsome
              simp only [mergeAt_eq_put]
              exact find?_put_of_ne _ _ hother
  | read call =>
      rw [perform_read]
      cases hread : cache.read call with
      | error error => exact .inr rfl
      | ok answer =>
          obtain ⟨located, window, -, -, hnext⟩ := read_eq_ok_iff.mp hread
          simp only [hnext]
          exact .inr (find?_touch cache located key)
  | evict call =>
      rw [perform_evict]
      cases hevict : cache.evict call with
      | error error => exact .inr rfl
      | ok answer =>
          obtain ⟨policy, located, -, -, hnext⟩ := evict_eq_ok_iff.mp hevict
          have hothers := lookup_others cache located key
          simp only [hnext]
          by_cases hsame : key = located
          · exact .inl (by rwa [if_pos hsame] at hothers)
          · exact .inr (by rwa [if_neg hsame] at hothers)
  | evictEntity typeName entityId =>
      have hfind := find?_evictEntity cache typeName entityId key
      by_cases howned : key.ownedBy typeName entityId = true
      · exact .inl (by rwa [if_pos howned] at hfind)
      · exact .inr (by rwa [if_neg howned] at hfind)
  | clear => exact .inl rfl
  | peek | resetTally => exact .inr rfl

theorem endsHistory_iff {cache : Cache α} {key : SnapshotKey} {operation : Operation α} :
    cache.endsHistory key operation = true ↔
      cache.Removes key operation ∨
        cache.Overflows operation ∧ cache.keys.getLast? = some key := by
  cases operation with
  | write call incoming =>
      cases incoming with
      | none => simp [endsHistory, Removes, Overflows]
      | some page =>
          cases hlocate : cache.locateWindow call with
          | error error => simp [endsHistory, Removes, Overflows, touched?, hlocate]
          | ok located =>
              cases hwrite : cache.write call (some page) <;>
                simp [endsHistory, Removes, Overflows, touched?, hlocate, hwrite, and_assoc]
  | evict call =>
      cases hlocate : cache.locate call with
      | error error => simp [endsHistory, Removes, Overflows, hlocate]
      | ok located => simp [endsHistory, Removes, Overflows, hlocate, Prod.ext_iff]
  | read | peek | evictEntity | clear | resetTally =>
      simp [endsHistory, Removes, Overflows]

/-- A delivery does not end the history that it belongs to. -/
theorem endsHistory_of_delivery {cache : Cache α} {key : SnapshotKey}
    {operation : Operation α} {delivery : Delivery α}
    (hdelivery : cache.delivery? key operation = some delivery) :
    cache.endsHistory key operation = false := by
  obtain ⟨call, rfl, haccept⟩ := delivery?_eq_some_iff.mp hdelivery
  have hstored : cache.keyEvent (.write call (some delivery.page)) = .stored key := by
    simp only [keyEvent, haccept]
  rw [Bool.eq_false_iff, ne_eq, endsHistory_iff]
  rintro (hremoves | ⟨hoverflows, hlast⟩)
  · exact hremoves
  · obtain ⟨located, hlocated, hnew, -⟩ := overflows_iff.mp hoverflows
    obtain rfl : key = located := KeyEvent.stored.inj (hstored.symm.trans hlocated)
    exact hnew (List.mem_of_getLast? hlast)

/-- An operation that ends the history of a key takes the key out. -/
theorem not_mem_keys_of_endsHistory {cache : Cache α} {key : SnapshotKey}
    {operation : Operation α} (hsound : cache.shelf.Sound cache.capacity)
    (hends : cache.endsHistory key operation = true) :
    key ∉ (cache.perform operation).2.keys := by
  rcases endsHistory_iff.mp hends with hremoves | ⟨hoverflows, hlast⟩
  · obtain ⟨gone, hevent, hgone⟩ := removes_iff.mp hremoves
    rw [keys_perform, hevent, Shelf.step, List.mem_filter]
    simp [hgone]
  · have hheld : cache.keys ≠ [] := List.ne_nil_of_mem (List.mem_of_getLast? hlast)
    have hkey : key = cache.keys.getLast hheld := by
      rw [List.getLast?_eq_some_getLast hheld] at hlast
      exact (Option.some.inj hlast).symm
    exact ((displaces_iff_getLast hsound hoverflows hheld key).mpr hkey).2.1

/-- A key is taken out only by an operation that ends its history. -/
theorem endsHistory_of_lost {cache : Cache α} {key : SnapshotKey} {operation : Operation α}
    (hsound : cache.shelf.Sound cache.capacity) (hheld : key ∈ cache.keys)
    (hlost : key ∉ (cache.perform operation).2.keys) :
    cache.endsHistory key operation = true := by
  rw [endsHistory_iff]
  by_cases hremoves : cache.Removes key operation
  · exact .inl hremoves
  · have hdisplaced : cache.Displaces operation key := ⟨hheld, hlost, hremoves⟩
    by_cases hoverflows : cache.Overflows operation
    · have hnonempty : cache.keys ≠ [] := List.ne_nil_of_mem hheld
      have hkey := (displaces_iff_getLast hsound hoverflows hnonempty key).mp hdisplaced
      rw [hkey, List.getLast?_eq_some_getLast hnonempty]
      exact .inr ⟨hoverflows, rfl⟩
    · exact absurd hdisplaced ((perform_of_not_overflows hsound hoverflows).1 key)

/-- **An operation that delivers nothing to a key** leaves its snapshot alone, unless it
ends the history of the key, and then the snapshot is gone. -/
theorem find?_perform_eq_ite {cache : Cache α} {key : SnapshotKey} {operation : Operation α}
    (hsound : cache.shelf.Sound cache.capacity)
    (hnone : cache.delivery? key operation = none) :
    (cache.perform operation).2.find? key =
      if cache.endsHistory key operation then none else cache.find? key := by
  by_cases hends : cache.endsHistory key operation = true
  · have hgone := not_mem_keys_of_endsHistory hsound hends
    rw [mem_keys_iff, Option.not_isSome_iff_eq_none] at hgone
    rw [if_pos hends, hgone]
  · rw [if_neg hends]
    rcases find?_perform_of_no_delivery hnone with hgone | hkept
    · have hlost : key ∉ (cache.perform operation).2.keys := by simp [mem_keys_iff, hgone]
      have hmissing : key ∉ cache.keys :=
        fun hheld => hends (endsHistory_of_lost hsound hheld hlost)
      rw [mem_keys_iff, Option.not_isSome_iff_eq_none] at hmissing
      rw [hgone, hmissing]
    · exact hkept

/-! ## Runs -/

/-- What a key holds after a run is the replay of its deliveries, if that was so
before the run. -/
theorem find?_run (key : SnapshotKey) {cache : Cache α} (earlier : List (Delivery α))
    (hearlier : cache.find? key = Snapshot.replay none earlier)
    (operations : List (Operation α)) :
    (cache.run operations).2.find? key =
      Snapshot.replay none (deliveriesSince key cache earlier operations) := by
  induction operations generalizing cache earlier with
  | nil => exact hearlier
  | cons operation rest ih =>
      rw [run_cons, deliveriesSince]
      apply ih
      cases hnext : (cache.perform operation).2.find? key with
      | none => rfl
      | some snapshot =>
          simp only [Option.isSome_some, if_true]
          rw [← hnext]
          cases hdelivery : cache.delivery? key operation with
          | none =>
              have hkept := find?_perform_of_no_delivery hdelivery
              simp only [hnext, reduceCtorEq, false_or] at hkept
              rw [hnext, hkept, hearlier, Option.toList_none, List.append_nil]
          | some delivery =>
              rw [find?_perform_of_delivery hdelivery, hearlier, Option.toList_some,
                Snapshot.replay_concat, Snapshot.merge_some]

/-- What a run delivers to a key was delivered by one of its operations, as it would
be at the start of the run. -/
theorem mem_deliveriesSince (key : SnapshotKey) {cache : Cache α}
    {earlier : List (Delivery α)} {operations : List (Operation α)} {delivery : Delivery α}
    (hmem : delivery ∈ deliveriesSince key cache earlier operations) :
    delivery ∈ earlier ∨
      ∃ operation ∈ operations, cache.delivery? key operation = some delivery := by
  induction operations generalizing cache earlier with
  | nil => exact .inl hmem
  | cons operation rest ih =>
      rcases ih hmem with hcollected | ⟨later, hlater, hdelivery⟩
      · split at hcollected
        · rw [List.mem_append, Option.mem_toList] at hcollected
          exact hcollected.imp_right fun hnow => ⟨operation, by simp, hnow⟩
        · cases hcollected
      · obtain ⟨call, hwrite, haccept⟩ := delivery?_eq_some_iff.mp hdelivery
        rw [(sameRules_perform cache operation).accept_eq] at haccept
        exact .inr ⟨later, by simp [hlater],
          delivery?_eq_some_iff.mpr ⟨call, hwrite, haccept⟩⟩

/-- After an operation the two ways to tell a history agree, if the earlier deliveries
are those that the snapshot was learned from. -/
theorem collected_eq_kept {cache : Cache α} {key : SnapshotKey}
    (hsound : cache.shelf.Sound cache.capacity) {earlier : List (Delivery α)}
    (hearlier : cache.find? key = Snapshot.replay none earlier) (operation : Operation α) :
    (if ((cache.perform operation).2.find? key).isSome then
        earlier ++ (cache.delivery? key operation).toList
      else []) =
      (if cache.endsHistory key operation then [] else earlier) ++
        (cache.delivery? key operation).toList := by
  cases hdelivery : cache.delivery? key operation with
  | some delivery =>
      rw [find?_perform_of_delivery hdelivery, endsHistory_of_delivery hdelivery,
        Snapshot.merge_some]
      rfl
  | none =>
      rw [find?_perform_eq_ite hsound hdelivery, Option.toList_none, List.append_nil,
        List.append_nil]
      by_cases hends : cache.endsHistory key operation = true
      · rw [if_pos hends, if_pos hends]
        rfl
      · rw [if_neg hends, if_neg hends, hearlier]
        cases hreplay : Snapshot.replay none earlier with
        | none => exact (Snapshot.replay_eq_none_iff.mp hreplay).symm
        | some snapshot => rfl

/-- **A history ends when the key is not held**, which happens by the operations that end
it and by no other. -/
theorem deliveriesSince_eq_history (key : SnapshotKey) {cache : Cache α}
    (hsound : cache.shelf.Sound cache.capacity) {earlier : List (Delivery α)}
    (hearlier : cache.find? key = Snapshot.replay none earlier)
    (operations : List (Operation α)) :
    deliveriesSince key cache earlier operations = history key cache earlier operations := by
  induction operations generalizing cache earlier with
  | nil => rfl
  | cons operation rest ih =>
      have hnext := find?_run key earlier hearlier [operation]
      rw [deliveriesSince, history, ← collected_eq_kept hsound hearlier operation]
      exact ih (sound_run hsound [operation]) hnext

/-- **Every key has a history of its own.**  After any run of a fresh cache, the
snapshot under a key is the replay of the deliveries to that key since its history was
last ended: by a removal of the key, or by a write that took its room.  One more delivery
to the key is merged into its snapshot.  Any other operation leaves the snapshot as it
is, unless it ends the history, and then there is no snapshot. -/
theorem find?_run_fresh (registry : Registry) (maxSnapshots maxWindowEnd : Nat)
    (operations : List (Operation α)) (key : SnapshotKey) :
    let start : Cache α := fresh registry maxSnapshots maxWindowEnd
    let cache := (start.run operations).2
    cache.find? key = Snapshot.replay none (history key start [] operations) ∧
      ∀ operation,
        (∀ delivery, cache.delivery? key operation = some delivery →
          (cache.perform operation).2.find? key =
            Snapshot.merge (cache.find? key) (some delivery.page) delivery.window) ∧
        (cache.delivery? key operation = none →
          (cache.perform operation).2.find? key =
            if cache.endsHistory key operation then none else cache.find? key) := by
  intro start cache
  have hstart : start.shelf.Sound start.capacity :=
    sound_fresh registry maxSnapshots maxWindowEnd
  have hsound : cache.shelf.Sound cache.capacity := sound_run hstart operations
  constructor
  · rw [← deliveriesSince_eq_history key hstart rfl]
    exact find?_run key [] rfl operations
  · intro operation
    exact ⟨fun _ hdelivery => find?_perform_of_delivery hdelivery,
      find?_perform_eq_ite hsound⟩

/-- Three pages of one workspace, with a page of another workspace behind the first. -/
def interruptedFetch : List (Operation Nat) :=
  [.write (Console.requestsCall "ws1" 0 2) (some ⟨some [1, 2], none, []⟩),
   .write (Console.requestsCall "ws2" 0 1) (some ⟨some [7], none, []⟩),
   .write (Console.requestsCall "ws1" 2 1) (some ⟨some [3], none, []⟩),
   .write (Console.requestsCall "ws1" 1 1) (some ⟨some [8], none, []⟩)]

/-- With room for one snapshot the first page is lost, and the two behind it are merged.
A fourth page is merged too; a read changes nothing, and another page of the other
workspace takes the room again. -/
theorem find?_run_fresh_interruptedFetch :
    let key := Console.requestsKey "ws1"
    let start : Cache Nat := fresh Console.requestsRegistry 1 100
    let cache := (start.run interruptedFetch).2
    let fourth : Delivery Nat := ⟨⟨0, 1⟩, ⟨some [9], none, []⟩⟩
    let first : Operation Nat := .write (Console.requestsCall "ws1" 0 1) (some fourth.page)
    let read : Operation Nat := .read (Console.requestsCall "ws1" 0 3)
    let other : Operation Nat :=
      .write (Console.requestsCall "ws2" 0 1) (some ⟨some [7], none, []⟩)
    history key start [] interruptedFetch =
        [⟨⟨2, 1⟩, ⟨some [3], none, []⟩⟩, ⟨⟨1, 1⟩, ⟨some [8], none, []⟩⟩] ∧
      cache.find? key = some ⟨[none, some 8, some 3], none, []⟩ ∧
      cache.delivery? key first = some fourth ∧
      (cache.perform first).2.find? key = some ⟨[some 9, some 8, some 3], none, []⟩ ∧
      cache.delivery? key read = none ∧
      (cache.perform read).2.find? key = some ⟨[none, some 8, some 3], none, []⟩ ∧
      cache.delivery? key other = none ∧ (cache.perform other).2.find? key = none := by
  intro key start cache fourth first read other
  obtain ⟨hreplay, hnext⟩ := find?_run_fresh Console.requestsRegistry 1 100
    interruptedFetch key
  have hheld : cache.find? key = some ⟨[none, some 8, some 3], none, []⟩ := hreplay
  refine ⟨rfl, hheld, rfl, ?_, rfl, ?_, rfl, ?_⟩
  · rw [(hnext first).1 fourth rfl, hheld]
    rfl
  · rw [(hnext read).2 rfl, hheld]
    rfl
  · exact (hnext other).2 rfl

end Cache

end PagedCache
