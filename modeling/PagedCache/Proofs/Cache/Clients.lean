import PagedCache.Proofs.Cache.Shelf

/-!
# Clients of one cache

A call reads and changes the snapshot under its key, and otherwise only the order of the
keys and the counts.  As long as there is room for all keys, the order decides nothing, so
clients with different keys get the answers that they would get alone.
-/

namespace PagedCache

variable {α : Type}

namespace Operation

/-- The call that the operation makes. -/
def call? : Operation α → Option Call
  | write call _ | read call | peek call | evict call => some call
  | evictEntity _ _ | clear | resetTally => none

end Operation

namespace Tally

/-- Both counts taken together. -/
instance : Add Tally where
  add left right :=
    { hits := left.hits + right.hits
      partialHits := left.partialHits + right.partialHits
      misses := left.misses + right.misses
      merges := left.merges + right.merges
      noops := left.noops + right.noops
      evictions := left.evictions + right.evictions }

theorem add_def (left right : Tally) :
    left + right =
      ⟨left.hits + right.hits, left.partialHits + right.partialHits,
        left.misses + right.misses, left.merges + right.merges, left.noops + right.noops,
        left.evictions + right.evictions⟩ :=
  rfl

theorem add_comm (left right : Tally) : left + right = right + left := by
  simp only [add_def, Nat.add_comm]

theorem add_right_comm (first second third : Tally) :
    first + second + third = first + third + second := by
  simp only [add_def, Nat.add_right_comm]

end Tally

namespace Cache

/-! ## One call -/

/-- The key that a call names. -/
def namedKey? (cache : Cache α) (operation : Operation α) : Option SnapshotKey :=
  operation.call?.bind fun call => (cache.locate call).toOption.map Prod.snd

/-- Two caches with the same rules that have room for a key and hold the same under it. -/
structure AgreeOn (key : SnapshotKey) (left right : Cache α) : Prop where
  checks : SameChecks left right
  find?_eq : left.find? key = right.find? key
  leftRoom : left.HasRoom key
  rightRoom : right.HasRoom key

theorem namedKey?_eq_some_iff {cache : Cache α} {operation : Operation α}
    {key : SnapshotKey} :
    cache.namedKey? operation = some key ↔
      ∃ call policy, operation.call? = some call ∧ cache.locate call = .ok (policy, key) := by
  unfold namedKey?
  cases operation.call? with
  | none => simp
  | some call =>
      cases hlocate : cache.locate call with
      | error error => simp [hlocate, Except.toOption]
      | ok located => simp [hlocate, Except.toOption, Prod.ext_iff]

theorem exists_locate_error {cache : Cache α} {operation : Operation α}
    (hcall : operation.call?.isSome) (hunnamed : cache.namedKey? operation = none) :
    ∃ call error, operation.call? = some call ∧ cache.locate call = .error error := by
  obtain ⟨call, hcall⟩ := Option.isSome_iff_exists.mp hcall
  cases hlocate : cache.locate call with
  | error error => exact ⟨call, error, hcall, hlocate⟩
  | ok located =>
      rw [namedKey?_eq_some_iff.mpr ⟨call, located.1, hcall, hlocate⟩] at hunnamed
      cases hunnamed

theorem SameChecks.namedKey?_eq {left right : Cache α} (hchecks : SameChecks left right)
    (operation : Operation α) : left.namedKey? operation = right.namedKey? operation := by
  simp only [namedKey?, hchecks.locate_eq]

theorem perform_of_locate_error {cache : Cache α} {operation : Operation α} {call : Call}
    {error : CacheError} (hcall : operation.call? = some call)
    (hlocate : cache.locate call = .error error) :
    cache.perform operation = (.error error, cache) := by
  cases operation with
  | write | read | peek | evict =>
      cases hcall
      simp only [perform, settle, write, accept, read, locateWindow, peek, evict, hlocate,
        Except.map]
  | evictEntity | clear | resetTally => cases hcall

theorem key_eq_of_locateWindow {cache : Cache α} {call : Call} {policy : ListPolicy}
    {key located : SnapshotKey} {window : Window} (hkey : cache.locate call = .ok (policy, key))
    (hlocate : cache.locateWindow call = .ok (located, window)) : located = key := by
  obtain ⟨found, hfound, -⟩ := locateWindow_eq_ok_iff.mp hlocate
  rw [hkey] at hfound
  cases hfound
  rfl

theorem countReading_eq_add (tally : Tally) (reading : Reading (Snapshot α)) :
    countReading tally reading = tally + countReading .zero reading := by
  cases reading <;> rfl

/-- Two steps, one from each of two caches, that have the same answer, leave the same
under a key, and count the same. -/
structure Alike (key : SnapshotKey) (left right : Cache α)
    (leftStep rightStep : Except CacheError (Outcome α) × Cache α) : Prop where
  answer_eq : leftStep.1 = rightStep.1
  find?_eq : leftStep.2.find? key = rightStep.2.find? key
  counted : ∃ counted : Tally, counted.evictions = 0 ∧
    leftStep.2.tally = left.tally + counted ∧ rightStep.2.tally = right.tally + counted

namespace AgreeOn

variable {key : SnapshotKey} {left right : Cache α}

/-- A step that changes nothing. -/
theorem alike_self (hagree : AgreeOn key left right) (answer : Except CacheError (Outcome α)) :
    Alike key left right (answer, left) (answer, right) :=
  ⟨rfl, hagree.find?_eq, .zero, rfl, rfl, rfl⟩

theorem alike_mergeAt (hagree : AgreeOn key left right) (window : Window) (page : Page α)
    (answer : Except CacheError (Outcome α)) :
    Alike key left right (answer, left.mergeAt key window page)
      (answer, right.mergeAt key window page) := by
  refine ⟨rfl, ?_, ⟨0, 0, 0, 1, 0, 0⟩, rfl, ?_, ?_⟩
  · simp only [find?_mergeAt_self, hagree.find?_eq]
  · exact congrArg tally (mergeAt_of_hasRoom hagree.leftRoom window page)
  · exact congrArg tally (mergeAt_of_hasRoom hagree.rightRoom window page)

theorem alike_write (hagree : AgreeOn key left right) {call : Call} {policy : ListPolicy}
    (hlocate : left.locate call = .ok (policy, key)) (incoming : Option (Page α)) :
    Alike key left right (left.perform (.write call incoming))
      (right.perform (.write call incoming)) := by
  have hsame := hagree.checks.accept_eq call incoming
  simp only [Cache.perform, settle, write, ← hsame]
  cases haccept : left.accept call incoming with
  | error error => exact hagree.alike_self _
  | ok accepted =>
      obtain ⟨located, window⟩ := accepted
      obtain rfl := key_eq_of_locateWindow hlocate (accept_eq_ok_iff.mp haccept).1
      cases incoming with
      | none => exact ⟨rfl, hagree.find?_eq, ⟨0, 0, 0, 0, 1, 0⟩, rfl, rfl, rfl⟩
      | some page => exact hagree.alike_mergeAt window page _

theorem alike_read (hagree : AgreeOn key left right) {call : Call} {policy : ListPolicy}
    (hlocate : left.locate call = .ok (policy, key)) :
    Alike key left right (left.perform (.read call)) (right.perform (.read call)) := by
  have hsame := hagree.checks.locateWindow_eq call
  simp only [Cache.perform, settle, read, ← hsame]
  cases hwindow : left.locateWindow call with
  | error error => exact hagree.alike_self _
  | ok located =>
      obtain ⟨located, window⟩ := located
      obtain rfl := key_eq_of_locateWindow hlocate hwindow
      have hreading : left.readAt located window = right.readAt located window := by
        simp only [readAt, hagree.find?_eq]
      simp only [hreading]
      refine ⟨rfl, ?_, countReading .zero (right.readAt located window),
        evictions_countReading _ _, countReading_eq_add _ _, countReading_eq_add _ _⟩
      exact (find?_touch left located located).trans
        (hagree.find?_eq.trans (find?_touch right located located).symm)

theorem alike_evict (hagree : AgreeOn key left right) {call : Call} {policy : ListPolicy}
    (hlocate : left.locate call = .ok (policy, key)) :
    Alike key left right (left.perform (.evict call)) (right.perform (.evict call)) := by
  have hsame := hagree.checks.locate_eq call
  simp only [Cache.perform, settle, evict, ← hsame, hlocate]
  have hgone : ∀ cache : Cache α, (cache.others key).lookup key = none := by
    intro cache
    rw [lookup_others, if_pos rfl]
  refine ⟨?_, (hgone left).trans (hgone right).symm, .zero, rfl, rfl, rfl⟩
  rw [hagree.find?_eq]

theorem alike_peek (hagree : AgreeOn key left right) {call : Call} {policy : ListPolicy}
    (hlocate : left.locate call = .ok (policy, key)) :
    Alike key left right (left.perform (.peek call)) (right.perform (.peek call)) := by
  have hsame := hagree.checks.locate_eq call
  simp only [Cache.perform, peek, ← hsame, hlocate, hagree.find?_eq]
  exact hagree.alike_self _

/-- **A call sees its own key only.**  It gets the same answer from two caches that agree
on its key, leaves the same under it, and counts the same. -/
theorem perform (hagree : AgreeOn key left right) {operation : Operation α}
    (hnamed : left.namedKey? operation = some key) :
    Alike key left right (left.perform operation) (right.perform operation) := by
  obtain ⟨call, policy, hcall, hlocate⟩ := namedKey?_eq_some_iff.mp hnamed
  cases operation with
  | write call incoming =>
      cases hcall
      exact hagree.alike_write hlocate incoming
  | read call =>
      cases hcall
      exact hagree.alike_read hlocate
  | peek call =>
      cases hcall
      exact hagree.alike_peek hlocate
  | evict call =>
      cases hcall
      exact hagree.alike_evict hlocate
  | evictEntity | clear | resetTally => cases hcall

end AgreeOn

/-- **A call leaves the other keys alone**, as long as there is room for its own. -/
theorem find?_perform_of_ne {cache : Cache α} {key other : SnapshotKey}
    {operation : Operation α} (hnamed : cache.namedKey? operation = some key)
    (hroom : cache.HasRoom key) (hother : other ≠ key) :
    (cache.perform operation).2.find? other = cache.find? other := by
  obtain ⟨call, policy, hcall, hlocate⟩ := namedKey?_eq_some_iff.mp hnamed
  cases operation with
  | write call incoming =>
      cases hcall
      rw [perform_write]
      cases hwrite : cache.write call incoming with
      | error error => rfl
      | ok next =>
          cases incoming with
          | none =>
              rw [write_none_eq_ok hwrite]
              rfl
          | some page =>
              obtain ⟨located, window, haccept, rfl⟩ := write_some_eq_ok_iff.mp hwrite
              obtain rfl := key_eq_of_locateWindow hlocate (accept_eq_ok_iff.mp haccept).1
              exact find?_mergeAt_of_ne hroom hother window page
  | read call =>
      rw [perform_read]
      cases hread : cache.read call with
      | error error => rfl
      | ok answer => exact find?_of_read hread other
  | evict call =>
      cases hcall
      simp only [perform_evict, evict, hlocate]
      exact (lookup_others cache key other).trans (if_neg hother)
  | peek => rfl
  | evictEntity | clear | resetTally => cases hcall

/-! ## Caches with few keys -/

/-- The cache holds some of the given keys only, and has room for all of them. -/
structure Within (keys : Finset SnapshotKey) (cache : Cache α) : Prop where
  sound : cache.shelf.Sound cache.capacity
  held : ∀ key ∈ cache.keys, key ∈ keys
  room : keys.card ≤ cache.capacity

namespace Within

variable {keys : Finset SnapshotKey} {cache : Cache α}

theorem hasRoom (hwithin : Within keys cache) {key : SnapshotKey} (hkey : key ∈ keys) :
    cache.HasRoom key := by
  have hnodup : (cache.shelf.others key).Nodup :=
    (cache.shelf.others_sublist key).nodup hwithin.sound.nodup
  have hsubset : (cache.shelf.others key).toFinset ⊆ keys.erase key := by
    intro other hother
    obtain ⟨hheld, hne⟩ := Shelf.mem_others.mp (List.mem_toFinset.mp hother)
    exact Finset.mem_erase.mpr ⟨hne, hwithin.held other hheld⟩
  calc
    (cache.others key).length = (cache.shelf.others key).toFinset.card := by
      rw [List.toFinset_card_of_nodup hnodup, ← map_fst_others, List.length_map]
    _ ≤ (keys.erase key).card := Finset.card_le_card hsubset
    _ < keys.card := Finset.card_erase_lt_of_mem hkey
    _ ≤ cache.capacity := hwithin.room

theorem find?_eq_none (hwithin : Within keys cache) {key : SnapshotKey} (hkey : key ∉ keys) :
    cache.find? key = none := by
  have hnever : key ∉ cache.keys := fun hheld => hkey (hwithin.held key hheld)
  rwa [mem_keys_iff, Option.not_isSome_iff_eq_none] at hnever

theorem perform (hwithin : Within keys cache) {operation : Operation α} {key : SnapshotKey}
    (hnamed : cache.namedKey? operation = some key) (hkey : key ∈ keys) :
    Within keys (cache.perform operation).2 := by
  refine ⟨sound_run hwithin.sound [operation], ?_, ?_⟩
  · intro other hother
    by_cases hsame : other = key
    · exact hsame ▸ hkey
    · rw [mem_keys_iff, find?_perform_of_ne hnamed (hwithin.hasRoom hkey) hsame,
        ← mem_keys_iff] at hother
      exact hwithin.held other hother
  · rw [capacity_perform]
    exact hwithin.room

end Within

/-! ## Two clients -/

/-- One of two clients of a cache. -/
inductive Client where
  | first
  | second
  deriving DecidableEq

/-- The entries of one client, in order. -/
def share {β : Type} (client : Client) (entries : List (Client × β)) : List β :=
  (entries.filter fun entry => entry.1 = client).map Prod.snd

theorem mem_share {β : Type} {client : Client} {value : β} {entries : List (Client × β)} :
    value ∈ share client entries ↔ (client, value) ∈ entries := by
  simp [share]

@[simp]
theorem share_cons_self {β : Type} (client : Client) (value : β)
    (rest : List (Client × β)) :
    share client ((client, value) :: rest) = value :: share client rest := by
  simp [share]

@[simp]
theorem share_cons_of_ne {β : Type} {client other : Client} (hother : other ≠ client)
    (value : β) (rest : List (Client × β)) :
    share client ((other, value) :: rest) = share client rest := by
  simp [share, hother]

/-- The answers to a schedule, each with the client that it is for, and the cache after
it. -/
def serveClients (cache : Cache α) (schedule : List (Client × Operation α)) :
    List (Client × Except CacheError (Outcome α)) × Cache α :=
  let (answers, final) := cache.run (schedule.map Prod.snd)
  ((schedule.map Prod.fst).zip answers, final)

theorem serveClients_cons (cache : Cache α) (client : Client) (operation : Operation α)
    (rest : List (Client × Operation α)) :
    cache.serveClients ((client, operation) :: rest) =
      ((client, (cache.perform operation).1) ::
          ((cache.perform operation).2.serveClients rest).1,
        ((cache.perform operation).2.serveClients rest).2) :=
  rfl

/-- A cache that two clients share, beside the caches that each of them would have
alone.  Each client has some keys to itself. -/
structure Shared (mine theirs : Finset SnapshotKey) (shared alone other : Cache α) : Prop where
  aloneChecks : SameChecks shared alone
  otherChecks : SameChecks shared other
  sharedWithin : Within (mine ∪ theirs) shared
  aloneWithin : Within mine alone
  otherWithin : Within theirs other
  find?_mine : ∀ key ∈ mine, shared.find? key = alone.find? key
  find?_theirs : ∀ key ∈ theirs, shared.find? key = other.find? key
  tally_eq : shared.tally = alone.tally + other.tally
  evictions : shared.tally.evictions = 0

namespace Shared

variable {mine theirs : Finset SnapshotKey} {shared alone other : Cache α}

theorem symm (hshared : Shared mine theirs shared alone other) :
    Shared theirs mine shared other alone where
  aloneChecks := hshared.otherChecks
  otherChecks := hshared.aloneChecks
  sharedWithin := Finset.union_comm mine theirs ▸ hshared.sharedWithin
  aloneWithin := hshared.otherWithin
  otherWithin := hshared.aloneWithin
  find?_mine := hshared.find?_theirs
  find?_theirs := hshared.find?_mine
  tally_eq := hshared.tally_eq.trans (Tally.add_comm _ _)
  evictions := hshared.evictions

/-- A call of one client has the answer that it has without the other one, and costs the
other one nothing. -/
theorem perform (hshared : Shared mine theirs shared alone other)
    (hdisjoint : Disjoint mine theirs) {operation : Operation α}
    (hcall : operation.call?.isSome)
    (hmine : ∀ key, shared.namedKey? operation = some key → key ∈ mine) :
    (shared.perform operation).1 = (alone.perform operation).1 ∧
      Shared mine theirs (shared.perform operation).2 (alone.perform operation).2 other := by
  cases hnamed : shared.namedKey? operation with
  | none =>
      -- no policy is found for the call, whoever makes it
      obtain ⟨call, error, hcall, hlocate⟩ := exists_locate_error hcall hnamed
      have halone := hlocate
      rw [hshared.aloneChecks.locate_eq] at halone
      rw [perform_of_locate_error hcall hlocate, perform_of_locate_error hcall halone]
      exact ⟨rfl, hshared⟩
  | some key =>
      have hkey := hmine key hnamed
      have haloneNamed := hnamed
      rw [hshared.aloneChecks.namedKey?_eq] at haloneNamed
      have hunion : key ∈ mine ∪ theirs := Finset.mem_union_left theirs hkey
      have hsharedRoom := hshared.sharedWithin.hasRoom hunion
      have haloneRoom := hshared.aloneWithin.hasRoom hkey
      have hagree : AgreeOn key shared alone :=
        ⟨hshared.aloneChecks, hshared.find?_mine key hkey, hsharedRoom, haloneRoom⟩
      obtain ⟨hanswer, hfind, counted, hevictions, hsharedTally, haloneTally⟩ :=
        hagree.perform hnamed
      have hsharedChecks := (sameRules_perform shared operation).sameChecks
      have haloneChecks := (sameRules_perform alone operation).sameChecks
      refine ⟨hanswer, ?_⟩
      constructor
      · exact hsharedChecks.trans (hshared.aloneChecks.trans haloneChecks.symm)
      · exact hsharedChecks.trans hshared.otherChecks
      · exact hshared.sharedWithin.perform hnamed hunion
      · exact hshared.aloneWithin.perform haloneNamed hkey
      · exact hshared.otherWithin
      · intro later hlater
        by_cases hsame : later = key
        · exact hsame ▸ hfind
        · rw [find?_perform_of_ne hnamed hsharedRoom hsame,
            find?_perform_of_ne haloneNamed haloneRoom hsame, hshared.find?_mine later hlater]
      · intro later hlater
        have hother : later ≠ key := fun hsame =>
          Finset.disjoint_left.mp hdisjoint hkey (hsame ▸ hlater)
        rw [find?_perform_of_ne hnamed hsharedRoom hother, hshared.find?_theirs later hlater]
      · rw [hsharedTally, haloneTally, hshared.tally_eq, Tally.add_right_comm]
      · rw [hsharedTally, Tally.add_def]
        exact congrArg₂ (· + ·) hshared.evictions hevictions

/-- **Both clients get the answers that they get alone.** -/
theorem serveClients (hshared : Shared mine theirs shared alone other)
    (hdisjoint : Disjoint mine theirs) (schedule : List (Client × Operation α))
    (hcalls : ∀ entry ∈ schedule, entry.2.call?.isSome)
    (hmine : ∀ operation ∈ share .first schedule,
      ∀ key, shared.namedKey? operation = some key → key ∈ mine)
    (htheirs : ∀ operation ∈ share .second schedule,
      ∀ key, shared.namedKey? operation = some key → key ∈ theirs) :
    share .first (shared.serveClients schedule).1 = (alone.run (share .first schedule)).1 ∧
      share .second (shared.serveClients schedule).1 =
        (other.run (share .second schedule)).1 ∧
      Shared mine theirs (shared.serveClients schedule).2
        (alone.run (share .first schedule)).2 (other.run (share .second schedule)).2 := by
  induction schedule generalizing shared alone other with
  | nil => exact ⟨rfl, rfl, hshared⟩
  | cons entry rest ih =>
      obtain ⟨client, operation⟩ := entry
      have hcall : operation.call?.isSome := hcalls (client, operation) List.mem_cons_self
      have hrest : ∀ entry ∈ rest, entry.2.call?.isSome :=
        fun entry hentry => hcalls entry (List.mem_cons_of_mem _ hentry)
      have hnames := (sameRules_perform shared operation).sameChecks.namedKey?_eq
      rw [serveClients_cons]
      cases client with
      | first =>
          simp only [share_cons_self, share_cons_of_ne (nofun : Client.first ≠ .second),
            List.forall_mem_cons] at hmine htheirs ⊢
          obtain ⟨hanswer, hnext⟩ := hshared.perform hdisjoint hcall hmine.1
          obtain ⟨hfirst, hsecond, hfinal⟩ := ih hnext hrest
            (fun later hlater => hnames later ▸ hmine.2 later hlater)
            (fun later hlater => hnames later ▸ htheirs later hlater)
          refine ⟨?_, hsecond, hfinal⟩
          rw [hanswer, hfirst]
          rfl
      | second =>
          simp only [share_cons_self, share_cons_of_ne (nofun : Client.second ≠ .first),
            List.forall_mem_cons] at hmine htheirs ⊢
          obtain ⟨hanswer, hnext⟩ := hshared.symm.perform hdisjoint.symm hcall htheirs.1
          obtain ⟨hfirst, hsecond, hfinal⟩ := ih hnext.symm hrest
            (fun later hlater => hnames later ▸ hmine later hlater)
            (fun later hlater => hnames later ▸ htheirs.2 later hlater)
          refine ⟨hfirst, ?_, hfinal⟩
          rw [hanswer, hsecond]
          rfl

end Shared

/-- The keys that some calls name. -/
def namedKeys (cache : Cache α) (operations : List (Operation α)) : Finset SnapshotKey :=
  (operations.filterMap cache.namedKey?).toFinset

theorem mem_namedKeys {cache : Cache α} {operations : List (Operation α)}
    {key : SnapshotKey} :
    key ∈ cache.namedKeys operations ↔
      ∃ operation ∈ operations, cache.namedKey? operation = some key := by
  simp [namedKeys]

theorem within_fresh (registry : Registry) (maxSnapshots maxWindowEnd : Nat)
    {keys : Finset SnapshotKey}
    (hroom : keys.card ≤ (fresh registry maxSnapshots maxWindowEnd : Cache α).capacity) :
    Within keys (fresh registry maxSnapshots maxWindowEnd : Cache α) :=
  ⟨sound_fresh registry maxSnapshots maxWindowEnd, nofun, hroom⟩

theorem shared_fresh (registry : Registry) (maxSnapshots maxWindowEnd : Nat)
    {mine theirs : Finset SnapshotKey} (hroom : (mine ∪ theirs).card ≤
      (fresh registry maxSnapshots maxWindowEnd : Cache α).capacity) :
    Shared mine theirs (fresh registry maxSnapshots maxWindowEnd : Cache α)
      (fresh registry maxSnapshots maxWindowEnd) (fresh registry maxSnapshots maxWindowEnd) where
  aloneChecks := .refl _
  otherChecks := .refl _
  sharedWithin := within_fresh registry maxSnapshots maxWindowEnd hroom
  aloneWithin := within_fresh registry maxSnapshots maxWindowEnd
    ((Finset.card_le_card Finset.subset_union_left).trans hroom)
  otherWithin := within_fresh registry maxSnapshots maxWindowEnd
    ((Finset.card_le_card Finset.subset_union_right).trans hroom)
  find?_mine _ _ := rfl
  find?_theirs _ _ := rfl
  tally_eq := rfl
  evictions := rfl

/-- The snapshots of a shared cache are those of the two clients. -/
theorem Shared.find?_eq_or {mine theirs : Finset SnapshotKey} {shared alone other : Cache α}
    (hshared : Shared mine theirs shared alone other) (hdisjoint : Disjoint mine theirs)
    (key : SnapshotKey) : shared.find? key = (alone.find? key).or (other.find? key) := by
  by_cases htheirs : key ∈ theirs
  · have hmine : key ∉ mine := Finset.disjoint_right.mp hdisjoint htheirs
    rw [hshared.aloneWithin.find?_eq_none hmine, Option.none_or, hshared.find?_theirs key htheirs]
  · rw [hshared.otherWithin.find?_eq_none htheirs, Option.or_none]
    by_cases hmine : key ∈ mine
    · exact hshared.find?_mine key hmine
    · have hneither : key ∉ mine ∪ theirs := by simp [hmine, htheirs]
      rw [hshared.sharedWithin.find?_eq_none hneither, hshared.aloneWithin.find?_eq_none hmine]

/-- **Clients with different keys do not see each other.**  Let two clients make calls of
lists under different keys, and let a cache have room for all of them.  However the calls
of the two are interleaved, every call has the answer that it has when its client is
alone, the cache ends with the snapshots that the two clients leave alone, and it counts
what they count together, with no evictions. -/
theorem serveClients_eq_alone (registry : Registry) (maxSnapshots maxWindowEnd : Nat)
    (left right : List (Operation α))
    (hleft : ∀ operation ∈ left, operation.call?.isSome)
    (hright : ∀ operation ∈ right, operation.call?.isSome)
    (hdisjoint : Disjoint
      ((fresh registry maxSnapshots maxWindowEnd : Cache α).namedKeys left)
      ((fresh registry maxSnapshots maxWindowEnd : Cache α).namedKeys right))
    (hroom : ((fresh registry maxSnapshots maxWindowEnd : Cache α).namedKeys
      (left ++ right)).card ≤ (fresh registry maxSnapshots maxWindowEnd : Cache α).capacity)
    (schedule : List (Client × Operation α)) (hfirst : share .first schedule = left)
    (hsecond : share .second schedule = right) :
    let start : Cache α := fresh registry maxSnapshots maxWindowEnd
    let shared := start.serveClients schedule
    share .first shared.1 = (start.run left).1 ∧
      share .second shared.1 = (start.run right).1 ∧
      (∀ key, shared.2.find? key =
        ((start.run left).2.find? key).or ((start.run right).2.find? key)) ∧
      shared.2.tally = (start.run left).2.tally + (start.run right).2.tally ∧
      shared.2.tally.evictions = 0 := by
  intro start shared
  have hunion : start.namedKeys left ∪ start.namedKeys right =
      start.namedKeys (left ++ right) := by
    simp only [namedKeys, List.filterMap_append, List.toFinset_append]
  rw [← hunion] at hroom
  have hstart := shared_fresh registry maxSnapshots maxWindowEnd hroom
  have hcalls : ∀ entry ∈ schedule, entry.2.call?.isSome := by
    rintro ⟨client, operation⟩ hentry
    cases client with
    | first => exact hleft operation (hfirst ▸ mem_share.mpr hentry)
    | second => exact hright operation (hsecond ▸ mem_share.mpr hentry)
  obtain ⟨hfirstAnswers, hsecondAnswers, hfinal⟩ :=
    hstart.serveClients hdisjoint schedule hcalls
      (fun operation hoperation key hkey =>
        mem_namedKeys.mpr ⟨operation, hfirst ▸ hoperation, hkey⟩)
      (fun operation hoperation key hkey =>
        mem_namedKeys.mpr ⟨operation, hsecond ▸ hoperation, hkey⟩)
  rw [hfirst] at hfirstAnswers hfinal
  rw [hsecond] at hsecondAnswers hfinal
  exact ⟨hfirstAnswers, hsecondAnswers, hfinal.find?_eq_or hdisjoint, hfinal.tally_eq,
    hfinal.evictions⟩

/-- Two clients, of which one writes and reads a workspace while the other one looks for
another workspace and removes it. -/
def twoWorkspaces : List (Client × Operation Nat) :=
  [(.first, .write (Console.requestsCall "ws1" 0 2) (some ⟨some [1, 2], some 2, []⟩)),
   (.second, .read (Console.requestsCall "ws2" 0 2)),
   (.second, .write (Console.requestsCall "ws2" 0 1) (some ⟨some [7], none, []⟩)),
   (.first, .read (Console.requestsCall "ws1" 0 2)),
   (.second, .evict (Console.requestsCall "ws2" 0 0))]

theorem serveClients_eq_alone_twoWorkspaces :
    let start : Cache Nat := fresh Console.requestsRegistry 2 100
    let shared := start.serveClients twoWorkspaces
    start.namedKeys (share .first twoWorkspaces) = {Console.requestsKey "ws1"} ∧
      start.namedKeys (share .second twoWorkspaces) = {Console.requestsKey "ws2"} ∧
      share .first shared.1 =
        [.ok .written, .ok (.reading (.complete ⟨[some 1, some 2], some 2, []⟩))] ∧
      share .second shared.1 =
        [.ok (.reading .miss), .ok .written, .ok (.evicted true)] ∧
      shared.2.find? (Console.requestsKey "ws2") = none ∧
      shared.2.tally = ⟨1, 0, 1, 2, 0, 0⟩ := by
  intro start shared
  have hfirstKeys : start.namedKeys (share .first twoWorkspaces) =
      {Console.requestsKey "ws1"} := rfl
  have hsecondKeys : start.namedKeys (share .second twoWorkspaces) =
      {Console.requestsKey "ws2"} := rfl
  have hdisjoint : Disjoint (start.namedKeys (share .first twoWorkspaces))
      (start.namedKeys (share .second twoWorkspaces)) := by
    rw [hfirstKeys, hsecondKeys]
    decide
  have hroom : (start.namedKeys (share .first twoWorkspaces ++
      share .second twoWorkspaces)).card ≤ start.capacity := by
    exact Nat.le_of_eq rfl
  obtain ⟨hfirst, hsecond, hfind, htally, -⟩ :=
    serveClients_eq_alone Console.requestsRegistry 2 100 (share .first twoWorkspaces)
      (share .second twoWorkspaces) (by decide) (by decide) hdisjoint hroom twoWorkspaces rfl rfl
  exact ⟨hfirstKeys, hsecondKeys, hfirst, hsecond, hfind _, htally⟩

end Cache

end PagedCache
