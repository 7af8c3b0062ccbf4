import PagedCache.Proofs.Cache.Shelf

/-!
# Least recently touched

The keys of a cache stand in the order of their last touches.  So the key that has to
make room for a new one is the one that was touched longest ago, and a key is safe
until as many other keys were touched after it as the cache has room for.
-/

namespace PagedCache

variable {α : Type}

/-! ## Ages -/

section Age

variable {κ : Type} [DecidableEq κ]

/-- How many entries of a history came after the last one that names the key. -/
def age (history : List (Option κ)) (key : κ) : Nat :=
  history.reverse.idxOf (some key)

theorem age_concat_self (history : List (Option κ)) (key : κ) :
    age (history ++ [some key]) key = 0 := by
  simp [age]

theorem age_concat_of_ne (history : List (Option κ)) {entry : Option κ} {key : κ}
    (hentry : entry ≠ some key) : age (history ++ [entry]) key = age history key + 1 := by
  rw [age, List.reverse_concat, List.idxOf_cons_ne _ hentry, age]

theorem age_le_of_named (earlier later : List (Option κ)) (key : κ) :
    age (earlier ++ some key :: later) key ≤ later.length := by
  have hsplit : (earlier ++ some key :: later).reverse =
      (later.reverse ++ [some key]) ++ earlier.reverse := by simp
  have hnamed : some key ∈ later.reverse ++ [some key] := by simp
  have hlast := List.idxOf_lt_length_iff.mpr hnamed
  rw [age, hsplit, List.idxOf_append_of_mem hnamed]
  simpa [Nat.lt_succ_iff] using hlast

theorem mem_of_age_lt {earlier later : List (Option κ)} {key : κ}
    (hage : age (earlier ++ later) key < later.length) : some key ∈ later := by
  by_contra habsent
  rw [age, List.reverse_append,
    List.idxOf_append_of_notMem (by simpa using habsent), List.length_reverse] at hage
  omega

/-- Keys in the order of their ages stay in order when none of them is named. -/
theorem pairwise_age_concat {history : List (Option κ)} {entry : Option κ} {keys : List κ}
    (hordered : keys.Pairwise fun newer older => age history newer < age history older)
    (hentry : ∀ key ∈ keys, entry ≠ some key) :
    keys.Pairwise fun newer older =>
      age (history ++ [entry]) newer < age (history ++ [entry]) older := by
  refine hordered.imp_of_mem ?_
  intro newer older hnewer holder hlt
  rw [age_concat_of_ne history (hentry newer hnewer),
    age_concat_of_ne history (hentry older holder)]
  exact Nat.succ_lt_succ hlt

/-- A key that is named goes to the front. -/
theorem pairwise_age_cons {history : List (Option κ)} {key : κ} {keys : List κ}
    (hordered : keys.Pairwise fun newer older => age history newer < age history older)
    (hkey : key ∉ keys) :
    (key :: keys).Pairwise fun newer older =>
      age (history ++ [some key]) newer < age (history ++ [some key]) older := by
  have hothers : ∀ other ∈ keys, some key ≠ some other := by
    intro other hother hsame
    exact hkey (Option.some.inj hsame ▸ hother)
  refine List.pairwise_cons.mpr ⟨fun other hother => ?_, pairwise_age_concat hordered hothers⟩
  rw [age_concat_self, age_concat_of_ne history (hothers other hother)]
  exact Nat.succ_pos _

end Age

namespace Cache

/-- The key that an operation touches: the key of a write that succeeds with a response,
or the key of a read that finds something. -/
def touched? (cache : Cache α) : Operation α → Option SnapshotKey
  | .write call (some page) =>
    match cache.locateWindow call, cache.write call (some page) with
    | .ok (key, _), .ok _ => some key
    | _, _ => none
  | .read call =>
    match cache.locateWindow call, cache.read call with
    | .ok (key, _), .ok (reading, _) => reading.value?.map fun _ => key
    | _, _ => none
  | _ => none

/-- What each operation of a run touches. -/
def touches (cache : Cache α) : List (Operation α) → List (Option SnapshotKey)
  | [] => []
  | operation :: rest => cache.touched? operation :: touches (cache.perform operation).2 rest

/-- The operation asks for the removal of the key. -/
def Removes (cache : Cache α) (key : SnapshotKey) : Operation α → Prop
  | .evict call => ∃ policy, cache.locate call = .ok (policy, key)
  | .evictEntity typeName entityId => key.ownedBy typeName entityId = true
  | .clear => True
  | _ => False

/-- The operation takes the key out without being asked to. -/
def Displaces (cache : Cache α) (operation : Operation α) (key : SnapshotKey) : Prop :=
  key ∈ cache.keys ∧ key ∉ (cache.perform operation).2.keys ∧ ¬cache.Removes key operation

/-- The operation stores a response under a key that is not held, and all room is
taken. -/
def Overflows (cache : Cache α) (operation : Operation α) : Prop :=
  cache.size = cache.capacity ∧ ∃ call page key, operation = .write call (some page) ∧
    cache.touched? operation = some key ∧ key ∉ cache.keys

/-! ## Touches and events -/

theorem value?_eq_none_iff {β : Type} {reading : Reading β} :
    reading.value? = none ↔ reading = .miss := by
  cases reading <;> simp [Reading.value?]

theorem touched?_eq_some_iff {cache : Cache α} {operation : Operation α}
    {key : SnapshotKey} :
    cache.touched? operation = some key ↔
      cache.keyEvent operation = .stored key ∨
        (cache.keyEvent operation = .lookedUp key ∧ key ∈ cache.keys) := by
  cases operation with
  | write call incoming =>
      cases incoming with
      | none => simp [touched?, keyEvent]
      | some page =>
          cases haccept : cache.accept call (some page) with
          | error error =>
              have hwrite : cache.write call (some page) = .error error := by
                simp only [write, haccept]
              cases hlocate : cache.locateWindow call <;>
                simp [touched?, keyEvent, haccept, hwrite, hlocate]
          | ok accepted =>
              obtain ⟨located, window⟩ := accepted
              have hlocate := (accept_eq_ok_iff.mp haccept).1
              have hwrite := write_some_eq_ok_iff.mpr ⟨located, window, haccept, rfl⟩
              simp [touched?, keyEvent, haccept, hwrite, hlocate]
  | read call =>
      cases hlocate : cache.locateWindow call with
      | error error => simp [touched?, keyEvent, hlocate]
      | ok located =>
          obtain ⟨located, window⟩ := located
          have hread := read_eq_of_locateWindow hlocate
          simp only [touched?, keyEvent, hlocate, hread]
          by_cases hheld : located ∈ cache.keys
          · have hanswered : (cache.readAt located window).value? ≠ none := by
              rw [ne_eq, value?_eq_none_iff, readAt_eq_miss_iff]
              exact not_not_intro hheld
            obtain ⟨part, hpart⟩ := Option.ne_none_iff_exists'.mp hanswered
            rw [hpart]
            simp only [Option.map_some, Option.some.injEq, reduceCtorEq, false_or,
              KeyEvent.lookedUp.injEq]
            exact ⟨fun hsame => ⟨hsame, hsame ▸ hheld⟩, And.left⟩
          · rw [readAt_eq_miss_iff.mpr hheld]
            simp only [Reading.value?, Option.map_none, reduceCtorEq, false_iff, false_or,
              KeyEvent.lookedUp.injEq, not_and]
            rintro rfl
            exact hheld
  | evict call =>
      simp only [touched?, keyEvent]
      cases cache.locate call <;> simp
  | peek | evictEntity | clear | resetTally => simp [touched?, keyEvent]

theorem removes_iff {cache : Cache α} {key : SnapshotKey} {operation : Operation α} :
    cache.Removes key operation ↔
      ∃ gone, cache.keyEvent operation = .dropped gone ∧ gone key = true := by
  cases operation with
  | write call incoming =>
      cases incoming with
      | none => simp [Removes, keyEvent]
      | some page =>
          simp only [Removes, keyEvent]
          cases cache.accept call (some page) <;> simp
  | read call =>
      simp only [Removes, keyEvent]
      cases cache.locateWindow call <;> simp
  | evict call =>
      simp only [Removes, keyEvent]
      cases cache.locate call with
      | error error => simp
      | ok located =>
          obtain ⟨policy, located⟩ := located
          constructor
          · rintro ⟨_, hsame⟩
            cases hsame
            exact ⟨_, rfl, beq_self_eq_true key⟩
          · rintro ⟨gone, hgone, hkey⟩
            cases hgone
            exact ⟨policy, by rw [eq_of_beq hkey]⟩
  | peek | evictEntity | clear | resetTally => simp [Removes, keyEvent]

/-- What touches a key is no removal. -/
theorem not_removes_of_touched {cache : Cache α} {operation : Operation α}
    {key : SnapshotKey} (htouched : cache.touched? operation = some key)
    (other : SnapshotKey) : ¬cache.Removes other operation := by
  rw [removes_iff]
  rintro ⟨gone, hgone, -⟩
  rcases touched?_eq_some_iff.mp htouched with hevent | ⟨hevent, -⟩ <;>
    cases hgone.symm.trans hevent

/-- Only a write with a response stores anything. -/
theorem exists_write_of_stored {cache : Cache α} {operation : Operation α}
    {key : SnapshotKey} (hstored : cache.keyEvent operation = .stored key) :
    ∃ call page, operation = .write call (some page) := by
  cases operation with
  | write call incoming =>
      cases incoming with
      | none => cases hstored
      | some page => exact ⟨call, page, rfl⟩
  | read call =>
      simp only [keyEvent] at hstored
      split at hstored <;> cases hstored
  | evict call =>
      simp only [keyEvent] at hstored
      split at hstored <;> cases hstored
  | peek | evictEntity | clear | resetTally => cases hstored

theorem overflows_iff {cache : Cache α} {operation : Operation α} :
    cache.Overflows operation ↔
      ∃ key, cache.keyEvent operation = .stored key ∧ key ∉ cache.keys ∧
        cache.keys.length = cache.capacity := by
  have hsize : cache.keys.length = cache.size := List.length_map _
  rw [Overflows, hsize]
  constructor
  · rintro ⟨hfull, call, page, key, -, htouched, hkey⟩
    rcases touched?_eq_some_iff.mp htouched with hstored | ⟨-, hheld⟩
    · exact ⟨key, hstored, hkey, hfull⟩
    · exact absurd hheld hkey
  · rintro ⟨key, hstored, hkey, hfull⟩
    have htouched := touched?_eq_some_iff.mpr (.inl hstored)
    obtain ⟨call, page, rfl⟩ := exists_write_of_stored hstored
    exact ⟨hfull, call, page, key, rfl, htouched, hkey⟩

/-! ## One operation -/

theorem keys_perform (cache : Cache α) (operation : Operation α) :
    (cache.perform operation).2.keys =
      (cache.shelf.step cache.capacity (cache.keyEvent operation)).keys :=
  congrArg Shelf.keys (cache.shelf_perform operation)

theorem evictions_perform (cache : Cache α) (operation : Operation α) :
    (cache.perform operation).2.tally.evictions =
      (cache.shelf.step cache.capacity (cache.keyEvent operation)).evictions :=
  congrArg Shelf.evictions (cache.shelf_perform operation)

/-- A key that is touched goes to the front of what is kept of the others. -/
theorem keys_perform_of_touched {cache : Cache α} {operation : Operation α}
    {key : SnapshotKey} (htouched : cache.touched? operation = some key) :
    ∃ kept, kept.Sublist (cache.shelf.others key) ∧
      (cache.perform operation).2.keys = key :: kept := by
  rw [keys_perform]
  rcases touched?_eq_some_iff.mp htouched with hstored | ⟨hlookedUp, hheld⟩
  · rw [hstored]
    exact ⟨_, List.take_sublist _ _, rfl⟩
  · rw [hlookedUp]
    exact ⟨_, .refl _, congrArg Shelf.keys (if_pos hheld)⟩

theorem keys_perform_of_untouched {cache : Cache α} {operation : Operation α}
    (huntouched : cache.touched? operation = none) :
    (cache.perform operation).2.keys.Sublist cache.keys := by
  have hnowhere : ∀ key, cache.touched? operation ≠ some key := by simp [huntouched]
  rw [keys_perform]
  cases hevent : cache.keyEvent operation with
  | stored key =>
      exact absurd (touched?_eq_some_iff.mpr (.inl hevent)) (hnowhere key)
  | lookedUp key =>
      have hkey : key ∉ cache.shelf.keys := fun hheld =>
        hnowhere key (touched?_eq_some_iff.mpr (.inr ⟨hevent, hheld⟩))
      rw [Shelf.step, if_neg hkey]
      exact .refl _
  | dropped gone => exact List.filter_sublist
  | recounted | ignored => exact .refl _

theorem keyEvent_eq_recounted {cache : Cache α} {operation : Operation α}
    (hevent : cache.keyEvent operation = .recounted) : operation = .resetTally := by
  cases operation with
  | write call incoming =>
      cases incoming with
      | none => cases hevent
      | some page =>
          simp only [keyEvent] at hevent
          split at hevent <;> cases hevent
  | read call =>
      simp only [keyEvent] at hevent
      split at hevent <;> cases hevent
  | evict call =>
      simp only [keyEvent] at hevent
      split at hevent <;> cases hevent
  | resetTally => rfl
  | peek | evictEntity | clear => cases hevent

theorem perform_of_overflows {cache : Cache α} {operation : Operation α}
    (hoverflows : cache.Overflows operation) :
    ∃ key, cache.touched? operation = some key ∧ key ∉ cache.keys ∧
      (cache.perform operation).2.keys = key :: cache.keys.dropLast ∧
        (cache.perform operation).2.tally.evictions = cache.tally.evictions + 1 := by
  obtain ⟨key, hstored, hkey, hfull⟩ := overflows_iff.mp hoverflows
  have hstep := cache.shelf.step_stored_of_full cache.capacity_pos hkey hfull
  refine ⟨key, touched?_eq_some_iff.mpr (.inl hstored), hkey, ?_, ?_⟩
  · rw [keys_perform, hstored, hstep]
    rfl
  · rw [evictions_perform, hstored, hstep]
    rfl

/-- As long as nothing overflows, a key goes only when it is asked to. -/
theorem perform_of_not_overflows {cache : Cache α} {operation : Operation α}
    (hsound : cache.shelf.Sound cache.capacity)
    (hroom : ¬cache.Overflows operation) :
    (∀ key, ¬cache.Displaces operation key) ∧
      (operation ≠ .resetTally →
        (cache.perform operation).2.tally.evictions = cache.tally.evictions) := by
  simp only [Displaces, keys_perform, evictions_perform, removes_iff, not_and, not_not]
  cases hevent : cache.keyEvent operation with
  | stored key =>
      by_cases hkey : key ∈ cache.keys
      · rw [hsound.step_stored_of_mem hkey]
        refine ⟨fun other hother hlost => ?_, fun _ => rfl⟩
        simp only [List.mem_cons, Shelf.mem_others, not_or, not_and, not_not] at hlost
        exact absurd (hlost.2 hother) hlost.1
      · have hlength : cache.shelf.keys.length < cache.capacity :=
          lt_of_le_of_ne hsound.length_le fun hfull =>
            hroom (overflows_iff.mpr ⟨key, hevent, hkey, hfull⟩)
        rw [cache.shelf.step_stored_of_lt hkey hlength]
        exact ⟨fun other hother hlost => absurd (List.mem_cons_of_mem key hother) hlost,
          fun _ => rfl⟩
  | lookedUp key =>
      by_cases hkey : key ∈ cache.shelf.keys
      · rw [Shelf.step, if_pos hkey]
        refine ⟨fun other hother hlost => ?_, fun _ => rfl⟩
        simp only [List.mem_cons, Shelf.mem_others, not_or, not_and, not_not] at hlost
        exact absurd (hlost.2 hother) hlost.1
      · rw [Shelf.step, if_neg hkey]
        exact ⟨fun other hother hlost => absurd hother hlost, fun _ => rfl⟩
  | dropped gone =>
      refine ⟨fun other hother hlost => ⟨gone, rfl, ?_⟩, fun _ => rfl⟩
      by_contra hstays
      exact hlost (List.mem_filter.mpr ⟨hother, by simpa using hstays⟩)
  | recounted =>
      exact ⟨fun other hother hlost => absurd hother hlost,
        fun hother => absurd (keyEvent_eq_recounted hevent) hother⟩
  | ignored => exact ⟨fun other hother hlost => absurd hother hlost, fun _ => rfl⟩

/-- What overflows displaces the last key and no other one. -/
theorem displaces_iff_getLast {cache : Cache α} {operation : Operation α}
    (hsound : cache.shelf.Sound cache.capacity) (hoverflows : cache.Overflows operation)
    (hheld : cache.keys ≠ []) (key : SnapshotKey) :
    cache.Displaces operation key ↔ key = cache.keys.getLast hheld := by
  obtain ⟨stored, htouched, hnew, hkeys, -⟩ := perform_of_overflows hoverflows
  have hsplit := List.dropLast_append_getLast hheld
  have hnodup : (cache.keys.dropLast ++ [cache.keys.getLast hheld]).Nodup :=
    hsplit.symm ▸ hsound.nodup
  have hlast : cache.keys.getLast hheld ∉ cache.keys.dropLast := fun hmem =>
    List.disjoint_of_nodup_append hnodup hmem (List.mem_singleton_self _)
  have hkept := not_removes_of_touched htouched key
  rw [Displaces, hkeys, List.mem_cons, not_or]
  constructor
  · rintro ⟨hmem, ⟨-, hgone⟩, -⟩
    rw [← hsplit, List.mem_append, List.mem_singleton] at hmem
    exact hmem.resolve_left hgone
  · rintro rfl
    have hmem := List.getLast_mem hheld
    exact ⟨hmem, ⟨ne_of_mem_of_not_mem hmem hnew, hlast⟩, hkept⟩

/-! ## Runs -/

theorem touches_append (cache : Cache α) (earlier later : List (Operation α)) :
    cache.touches (earlier ++ later) =
      cache.touches earlier ++ (cache.run earlier).2.touches later := by
  induction earlier generalizing cache with
  | nil => rfl
  | cons operation rest ih =>
      exact congrArg (cache.touched? operation :: ·) (ih (cache.perform operation).2)

/-- Every key of a cache was touched in a history, and the keys stand in the order of
their last touches. -/
structure Ordered (cache : Cache α) (history : List (Option SnapshotKey)) : Prop where
  touched : ∀ key ∈ cache.keys, some key ∈ history
  pairwise : cache.keys.Pairwise fun newer older => age history newer < age history older

theorem Ordered.perform {cache : Cache α} {history : List (Option SnapshotKey)}
    (hordered : cache.Ordered history) (operation : Operation α) :
    (cache.perform operation).2.Ordered (history ++ [cache.touched? operation]) := by
  cases htouched : cache.touched? operation with
  | none =>
      have hsublist := keys_perform_of_untouched htouched
      constructor
      · intro key hkey
        exact List.mem_append_left _ (hordered.touched key (hsublist.subset hkey))
      · exact pairwise_age_concat (hordered.pairwise.sublist hsublist) fun _ _ => nofun
  | some key =>
      obtain ⟨kept, hsublist, hkeys⟩ := keys_perform_of_touched htouched
      have hheld := hsublist.trans (cache.shelf.others_sublist key)
      constructor
      · intro other hother
        rw [hkeys, List.mem_cons] at hother
        rcases hother with rfl | hother
        · simp
        · exact List.mem_append_left _ (hordered.touched other (hheld.subset hother))
      · rw [hkeys]
        exact pairwise_age_cons (hordered.pairwise.sublist hheld) fun hmem =>
          cache.shelf.not_mem_others key (hsublist.subset hmem)

theorem Ordered.run {cache : Cache α} {history : List (Option SnapshotKey)}
    (hordered : cache.Ordered history) (operations : List (Operation α)) :
    (cache.run operations).2.Ordered (history ++ cache.touches operations) := by
  induction operations generalizing cache history with
  | nil => simpa [touches, Cache.run] using hordered
  | cons operation rest ih =>
      have hrest := ih (hordered.perform operation)
      rwa [List.append_assoc, List.singleton_append] at hrest

theorem SameChecks.removes_iff {left right : Cache α} (hchecks : SameChecks left right)
    (key : SnapshotKey) (operation : Operation α) :
    left.Removes key operation ↔ right.Removes key operation := by
  cases operation with
  | evict call => simp only [Removes, hchecks.locate_eq]
  | write | read | peek | evictEntity | clear | resetTally => rfl

/-- A key in front of another one was touched after it. -/
theorem Ordered.mem_of_mem_dropLast {cache : Cache α}
    {earlier later : List (Option SnapshotKey)} {key : SnapshotKey}
    (hordered : cache.Ordered (earlier ++ some key :: later)) (hheld : cache.keys ≠ [])
    (hlast : key = cache.keys.getLast hheld) {other : SnapshotKey}
    (hother : other ∈ cache.keys.dropLast) : some other ∈ later := by
  have hsplit := List.dropLast_append_getLast hheld
  have hpairwise := hordered.pairwise
  rw [← hsplit, ← hlast, List.pairwise_append] at hpairwise
  have hyounger : age (earlier ++ some key :: later) other <
      age (earlier ++ some key :: later) key :=
    hpairwise.2.2 other hother key (List.mem_singleton_self key)
  have hage := hyounger.trans_le (age_le_of_named earlier later key)
  rw [← List.singleton_append, ← List.append_assoc] at hage
  exact mem_of_age_lt hage

/-- By the time that a key is displaced, as many others were touched after it as there
is room for: the ones that are held then. -/
theorem capacity_le_of_displaces {cache : Cache α}
    {earlier later : List (Option SnapshotKey)} {key : SnapshotKey}
    {operation : Operation α} (hsound : cache.shelf.Sound cache.capacity)
    (hordered : cache.Ordered (earlier ++ some key :: later))
    (hdisplaced : cache.Displaces operation key) :
    cache.capacity ≤
      ((later ++ [cache.touched? operation]).reduceOption.toFinset.erase key).card := by
  have hoverflows : cache.Overflows operation := by
    by_contra hroom
    exact (perform_of_not_overflows hsound hroom).1 key hdisplaced
  obtain ⟨stored, htouched, -, hkeys, -⟩ := perform_of_overflows hoverflows
  obtain ⟨-, -, -, hfull⟩ := overflows_iff.mp hoverflows
  have hheld : cache.keys ≠ [] := List.ne_nil_of_mem hdisplaced.1
  have hlast := (displaces_iff_getLast hsound hoverflows hheld key).mp hdisplaced
  have hnodup : (cache.perform operation).2.keys.Nodup := by
    rw [keys_perform]
    exact (hsound.step cache.capacity_pos _).nodup
  have hlength : (cache.perform operation).2.keys.length = cache.capacity := by
    rw [hkeys, List.length_cons, List.length_dropLast, hfull,
      Nat.sub_add_cancel cache.capacity_pos]
  have htouchedLater : (cache.perform operation).2.keys.toFinset ⊆
      (later ++ [cache.touched? operation]).reduceOption.toFinset.erase key := by
    intro other hother
    rw [List.mem_toFinset] at hother
    refine Finset.mem_erase.mpr ⟨ne_of_mem_of_not_mem hother hdisplaced.2.1, ?_⟩
    rw [List.mem_toFinset, List.reduceOption_mem_iff, List.mem_append]
    rw [hkeys, List.mem_cons] at hother
    rcases hother with rfl | hother
    · exact .inr (by simp [htouched])
    · exact .inl (hordered.mem_of_mem_dropLast hheld hlast hother)
  calc
    cache.capacity = (cache.perform operation).2.keys.toFinset.card := by
      rw [List.toFinset_card_of_nodup hnodup, hlength]
    _ ≤ _ := Finset.card_le_card htouchedLater

/-- A key that was touched stays until so many others were touched that they take all
room. -/
theorem mem_keys_of_few_touches {cache : Cache α} {history : List (Option SnapshotKey)}
    (hsound : cache.shelf.Sound cache.capacity) (hordered : cache.Ordered history)
    {operation : Operation α} {key : SnapshotKey}
    (htouched : cache.touched? operation = some key) (later : List (Operation α))
    (hasked : ∀ request ∈ later, ¬cache.Removes key request)
    (hfew : (((cache.perform operation).2.touches later).reduceOption.toFinset.erase
      key).card < cache.capacity) :
    key ∈ ((cache.perform operation).2.run later).2.keys := by
  have hsoundNext := sound_run hsound [operation]
  have horderedNext := hordered.perform operation
  rw [htouched] at horderedNext
  have hrules := sameRules_perform cache operation
  have hcapacity := capacity_perform cache operation
  obtain ⟨kept, -, hkeys⟩ := keys_perform_of_touched htouched
  -- Only the cache after the touch matters from here on.
  change (cache.perform operation).2.shelf.Sound (cache.perform operation).2.capacity
    at hsoundNext
  generalize (cache.perform operation).2 = next at *
  induction later using List.reverseRecOn with
  | nil => simp [Cache.run, hkeys]
  | append_singleton earlier latest ih =>
      rw [touches_append] at hfew
      have hheld : key ∈ (next.run earlier).2.keys := by
        apply ih fun request hrequest => hasked request (by simp [hrequest])
        refine lt_of_le_of_lt (Finset.card_le_card ?_) hfew
        refine Finset.erase_subset_erase key fun other hother => ?_
        simp only [List.mem_toFinset, List.reduceOption_mem_iff, List.mem_append] at hother ⊢
        exact .inl hother
      by_contra hlost
      rw [run_append] at hlost
      have hsame := ((sameRules_run next earlier).trans hrules).sameChecks
      have hdisplaced : (next.run earlier).2.Displaces latest key :=
        ⟨hheld, hlost, fun hremoves =>
          hasked latest (by simp) ((hsame.removes_iff key latest).mp hremoves)⟩
      have hordered := horderedNext.run earlier
      rw [List.append_assoc, List.singleton_append] at hordered
      have hmany := capacity_le_of_displaces (sound_run hsoundNext earlier) hordered
        hdisplaced
      rw [capacity_run, hcapacity] at hmany
      exact absurd hfew (not_lt.mpr hmany)

/-- **Who was touched longest ago goes first.**  Let a run of a fresh cache be followed
by one more operation.  A key goes without being asked to exactly when the operation
stores a response under a new key and all room is taken.  Then it is one key, the one
that was touched longest ago, and it is counted as an eviction; nothing else is.  So a
touch of a key that is held costs no other key its place, and a key that was touched
stays, unless it is asked to go, until as many others were touched after it as there
is room for. -/
theorem displaces_iff_oldest (registry : Registry) (maxSnapshots maxWindowEnd : Nat)
    (operations : List (Operation α)) (operation : Operation α) :
    let start : Cache α := fresh registry maxSnapshots maxWindowEnd
    let cache := (start.run operations).2
    let next := (cache.perform operation).2
    let sinceTouch := age (start.touches operations)
    (cache.Overflows operation →
      ∃ oldest ∈ cache.keys, some oldest ∈ start.touches operations ∧
        (∀ key ∈ cache.keys, key ≠ oldest → sinceTouch key < sinceTouch oldest) ∧
        (∀ key, cache.Displaces operation key ↔ key = oldest) ∧
        next.tally.evictions = cache.tally.evictions + 1) ∧
      (¬cache.Overflows operation →
        (∀ key, ¬cache.Displaces operation key) ∧
        (operation ≠ .resetTally → next.tally.evictions = cache.tally.evictions)) ∧
      (∀ key ∈ cache.keys, cache.touched? operation = some key →
        (∀ other ∈ cache.keys, other ∈ next.keys) ∧
        next.tally.evictions = cache.tally.evictions) ∧
      ∀ key later, cache.touched? operation = some key →
        (∀ request ∈ later, ¬cache.Removes key request) →
        ((next.touches later).reduceOption.toFinset.erase key).card < max maxSnapshots 1 →
        key ∈ (next.run later).2.keys := by
  intro start cache next sinceTouch
  have hsound : cache.shelf.Sound cache.capacity :=
    sound_run (sound_fresh registry maxSnapshots maxWindowEnd) operations
  have hempty : start.Ordered [] := ⟨fun _ => nofun, List.Pairwise.nil⟩
  have hordered : cache.Ordered (start.touches operations) := hempty.run operations
  have hcapacity : cache.capacity = max maxSnapshots 1 := capacity_run start operations
  refine ⟨fun hoverflows => ?_, perform_of_not_overflows hsound, ?_, ?_⟩
  · obtain ⟨-, -, -, hfull⟩ := overflows_iff.mp hoverflows
    have hheld : cache.keys ≠ [] :=
      List.ne_nil_of_length_pos (hfull.symm ▸ cache.capacity_pos)
    obtain ⟨-, -, -, -, hevictions⟩ := perform_of_overflows hoverflows
    refine ⟨cache.keys.getLast hheld, List.getLast_mem hheld,
      hordered.touched _ (List.getLast_mem hheld), ?_,
      displaces_iff_getLast hsound hoverflows hheld, hevictions⟩
    intro key hkey hother
    have hsplit := List.dropLast_append_getLast hheld
    have hpairwise := hordered.pairwise
    rw [← hsplit, List.mem_append, List.mem_singleton] at hkey
    rw [← hsplit, List.pairwise_append] at hpairwise
    exact hpairwise.2.2 key (hkey.resolve_right hother) _ (List.mem_singleton_self _)
  · intro key hkey htouched
    have hroom : ¬cache.Overflows operation := by
      rintro hoverflows
      obtain ⟨stored, hstored, hnew, -⟩ := perform_of_overflows hoverflows
      rw [htouched, Option.some.injEq] at hstored
      exact hnew (hstored ▸ hkey)
    obtain ⟨hstay, hevictions⟩ := perform_of_not_overflows hsound hroom
    constructor
    · intro other hother
      by_contra hlost
      exact hstay other ⟨hother, hlost, not_removes_of_touched htouched other⟩
    · apply hevictions
      rintro rfl
      cases htouched
  · intro key later htouched hasked hfew
    rw [← hcapacity] at hfew
    exact mem_keys_of_few_touches hsound hordered htouched later hasked hfew

/-- Two workspaces, and the first one again. -/
def returnToFirst : List (Operation Nat) :=
  [.write (Console.requestsCall "ws1" 0 1) (some ⟨some [1], none, []⟩),
   .write (Console.requestsCall "ws2" 0 1) (some ⟨some [2], none, []⟩),
   .read (Console.requestsCall "ws1" 0 1)]

/-- With room for two, a third workspace displaces the second one, and the first one
stays. -/
theorem displaces_iff_oldest_returnToFirst :
    let cache : Cache Nat := ((fresh Console.requestsRegistry 2 100).run returnToFirst).2
    let third : Operation Nat :=
      .write (Console.requestsCall "ws3" 0 1) (some ⟨some [3], none, []⟩)
    cache.Overflows third ∧
      (∀ key, cache.Displaces third key ↔ key = Console.requestsKey "ws2") ∧
      (cache.perform third).2.tally.evictions = 1 := by
  intro cache third
  have hoverflows : cache.Overflows third :=
    ⟨rfl, Console.requestsCall "ws3" 0 1, _, Console.requestsKey "ws3", rfl, rfl,
      by decide⟩
  obtain ⟨oldest, hheld, -, hages, hdisplaces, hevictions⟩ :=
    (displaces_iff_oldest Console.requestsRegistry 2 100 returnToFirst third).1 hoverflows
  have holdest : oldest = Console.requestsKey "ws2" := by
    by_contra hother
    have hyounger := hages (Console.requestsKey "ws2") (by decide) (Ne.symm hother)
    have hfirst : oldest = Console.requestsKey "ws1" := by
      have hkeys : cache.keys = [Console.requestsKey "ws1", Console.requestsKey "ws2"] := rfl
      rw [hkeys, List.mem_pair] at hheld
      exact hheld.resolve_right hother
    rw [hfirst] at hyounger
    exact absurd hyounger (by decide)
  exact ⟨hoverflows, holdest ▸ hdisplaces, hevictions⟩

end Cache

end PagedCache
