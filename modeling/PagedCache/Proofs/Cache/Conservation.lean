import PagedCache.Proofs.Cache.Clients
import PagedCache.Proofs.Cache.Recency

/-!
# Nothing is lost uncounted

The counts of a cache say exactly what its clients saw: every read that was answered is
counted once, under the status of its answer, and every write that was accepted is
counted as a merge or as a write without a response.  And every snapshot that a write
began is either still held, or was evicted for lack of room and counted as that, or was
removed by an operation that said so.
-/

namespace PagedCache

variable {α : Type}

/-- An operation in a run, with the cache that it found. -/
structure Turn (α : Type) where
  before : Cache α
  operation : Operation α

namespace Turn

/-- What the client was told. -/
def answer (turn : Turn α) : Except CacheError (Outcome α) :=
  (turn.before.perform turn.operation).1

/-- The cache after the operation. -/
def after (turn : Turn α) : Cache α :=
  (turn.before.perform turn.operation).2

/-- What a read that succeeded was told. -/
def reading? (turn : Turn α) : Option (Reading (Snapshot α)) :=
  match turn.answer with
  | .ok (.reading reading) => some reading
  | _ => none

/-- A write with a response that succeeded. -/
def merges (turn : Turn α) : Bool :=
  match turn.operation, turn.answer with
  | .write _ (some _), .ok _ => true
  | _, _ => false

/-- A write without a response that succeeded. -/
def skips (turn : Turn α) : Bool :=
  match turn.operation, turn.answer with
  | .write _ none, .ok _ => true
  | _, _ => false

/-- A write with a response that succeeded for a list that was not held. -/
def begins (turn : Turn α) : Bool :=
  turn.merges && (turn.before.namedKey? turn.operation).any fun key =>
    decide (key ∉ turn.before.keys)

/-- The number of snapshots that a client had removed, as the answer reports it.  Clearing
reports nothing, and removes all that were held. -/
def removed (turn : Turn α) : Nat :=
  match turn.operation, turn.answer with
  | .clear, _ => turn.before.size
  | _, .ok (.evicted true) => 1
  | _, .ok (.evictedEntity count) => count
  | _, _ => 0

end Turn

/-- All counts. -/
def Tally.counts (tally : Tally) : List Nat :=
  [tally.hits, tally.partialHits, tally.misses, tally.merges, tally.noops, tally.evictions]

/-! ## Keys that come and go -/

namespace KeyEvent

/-- How many new keys the event brings. -/
def gained (keys : List SnapshotKey) : KeyEvent → Nat
  | stored key => if key ∈ keys then 0 else 1
  | lookedUp _ | dropped _ | recounted | ignored => 0

/-- How many keys have to go on request. -/
def lost (keys : List SnapshotKey) : KeyEvent → Nat
  | dropped gone => keys.countP gone
  | stored _ | lookedUp _ | recounted | ignored => 0

end KeyEvent

namespace Shelf

theorem length_others {shelf : Shelf} (hnodup : shelf.keys.Nodup) (key : SnapshotKey) :
    (shelf.others key).length = shelf.keys.length - if key ∈ shelf.keys then 1 else 0 := by
  rw [others, ← hnodup.erase_eq_filter]
  by_cases hkey : key ∈ shelf.keys
  · rw [if_pos hkey, List.length_erase_of_mem hkey]
  · rw [if_neg hkey, List.erase_of_not_mem hkey, Nat.sub_zero]

/-- What is held, what was evicted, and what goes on request add up to what was there
before and what is new. -/
theorem balance_step (capacity : Nat) {shelf : Shelf} (hnodup : shelf.keys.Nodup)
    {event : KeyEvent} (hevent : event ≠ .recounted) :
    (shelf.step capacity event).keys.length + (shelf.step capacity event).evictions +
        event.lost shelf.keys =
      shelf.keys.length + shelf.evictions + event.gained shelf.keys := by
  cases event with
  | stored key =>
      have hothers := length_others hnodup key
      simp only [step, KeyEvent.lost, KeyEvent.gained, List.length_cons, List.length_take]
      by_cases hkey : key ∈ shelf.keys
      · have hpos := List.length_pos_of_mem hkey
        rw [if_pos hkey] at hothers ⊢
        omega
      · rw [if_neg hkey] at hothers ⊢
        omega
  | lookedUp key =>
      have hothers := length_others hnodup key
      simp only [step, KeyEvent.lost, KeyEvent.gained]
      by_cases hkey : key ∈ shelf.keys
      · have hpos := List.length_pos_of_mem hkey
        rw [if_pos hkey] at hothers ⊢
        simp only [List.length_cons]
        omega
      · rw [if_neg hkey]
  | dropped gone =>
      have hparts := List.length_eq_countP_add_countP gone (l := shelf.keys)
      simp only [step, KeyEvent.lost, KeyEvent.gained, ← List.countP_eq_length_filter]
      simp only [Bool.not_eq_true, Bool.decide_eq_false] at hparts
      omega
  | recounted => exact absurd rfl hevent
  | ignored => rfl

end Shelf

/-! ## One operation -/

namespace Turn

theorem removed_eq_lost {turn : Turn α} (hsound : turn.before.shelf.Sound turn.before.capacity) :
    turn.removed = (turn.before.keyEvent turn.operation).lost turn.before.keys := by
  obtain ⟨cache, operation⟩ := turn
  cases operation with
  | write call incoming =>
      cases incoming with
      | none =>
          simp only [removed, answer, Cache.perform, Cache.settle, Cache.keyEvent]
          cases cache.write call none <;> rfl
      | some page =>
          simp only [removed, answer, Cache.perform, Cache.settle, Cache.keyEvent]
          cases cache.write call (some page) <;> cases cache.accept call (some page) <;> rfl
  | read call =>
      simp only [removed, answer, Cache.perform, Cache.settle, Cache.keyEvent]
      cases cache.read call <;> cases cache.locateWindow call <;> rfl
  | peek call =>
      simp only [removed, answer, Cache.perform, Cache.keyEvent]
      cases cache.peek call <;> rfl
  | evict call =>
      simp only [removed, answer, Cache.perform, Cache.settle, Cache.keyEvent, Cache.evict]
      cases cache.locate call with
      | error error => rfl
      | ok located =>
          obtain ⟨policy, key⟩ := located
          have hcount : cache.keys.countP (· == key) = if key ∈ cache.keys then 1 else 0 :=
            hsound.nodup.count
          simp only [KeyEvent.lost, hcount, Cache.mem_keys_iff]
          cases (cache.find? key).isSome <;> rfl
  | evictEntity typeName entityId =>
      simp only [removed, answer, Cache.perform, Cache.keyEvent, Cache.evictEntity,
        KeyEvent.lost, Cache.keys, List.partition_eq_filter_filter, List.countP_map]
      exact List.countP_eq_length_filter.symm
  | clear =>
      simp [removed, Cache.keyEvent, KeyEvent.lost, Cache.size_eq_length_keys]
  | resetTally => rfl

theorem merges_of_accept {cache : Cache α} {call : Call} {page : Page α} {key : SnapshotKey}
    {window : Window} (haccept : cache.accept call (some page) = .ok (key, window)) :
    (⟨cache, .write call (some page)⟩ : Turn α).merges = true := by
  simp only [merges, answer, Cache.perform, Cache.settle, Cache.write, haccept]
  rfl

theorem begins_eq_gained (turn : Turn α) :
    (if turn.begins then 1 else 0) =
      (turn.before.keyEvent turn.operation).gained turn.before.keys := by
  obtain ⟨cache, operation⟩ := turn
  cases operation with
  | write call incoming =>
      cases incoming with
      | none => rfl
      | some page =>
          cases haccept : cache.accept call (some page) with
          | error error =>
              simp only [begins, merges, answer, Cache.perform, Cache.settle, Cache.keyEvent,
                Cache.write, haccept]
              rfl
          | ok accepted =>
              obtain ⟨key, window⟩ := accepted
              obtain ⟨policy, hlocate, -⟩ :=
                Cache.locateWindow_eq_ok_iff.mp (Cache.accept_eq_ok_iff.mp haccept).1
              have hnamed : cache.namedKey? (.write call (some page)) = some key :=
                Cache.namedKey?_eq_some_iff.mpr ⟨call, policy, rfl, hlocate⟩
              simp only [begins, merges_of_accept haccept, Cache.keyEvent, haccept, hnamed,
                KeyEvent.gained, Option.any_some, Bool.true_and]
              by_cases hkey : key ∈ cache.keys <;> simp [hkey]
  | read call =>
      simp only [Cache.keyEvent]
      cases cache.locateWindow call <;> rfl
  | evict call =>
      simp only [Cache.keyEvent]
      cases cache.locate call <;> rfl
  | peek | evictEntity | clear | resetTally => rfl

/-- **Snapshots are conserved by every operation.** -/
theorem balance (turn : Turn α) (hsound : turn.before.shelf.Sound turn.before.capacity)
    (hkept : turn.operation ≠ .resetTally) :
    turn.after.size + turn.after.tally.evictions + turn.removed =
      turn.before.size + turn.before.tally.evictions + if turn.begins then 1 else 0 := by
  have hevent : turn.before.keyEvent turn.operation ≠ .recounted :=
    fun hrecounted => hkept (Cache.keyEvent_eq_recounted hrecounted)
  have hbalance := Shelf.balance_step turn.before.capacity hsound.nodup hevent
  rw [← Cache.shelf_perform] at hbalance
  rw [removed_eq_lost hsound, begins_eq_gained, Cache.size_eq_length_keys,
    Cache.size_eq_length_keys]
  exact hbalance

end Turn

/-! ## What is counted -/

/-- From one tally to the other, the given operations were counted, leaving evictions
aside. -/
structure Counted (before : Tally) (turns : List (Turn α)) (after : Tally) : Prop where
  hits : after.hits = before.hits +
    (turns.filterMap Turn.reading?).countP (·.status == "complete")
  partialHits : after.partialHits = before.partialHits +
    (turns.filterMap Turn.reading?).countP (·.status == "partial")
  misses : after.misses = before.misses +
    (turns.filterMap Turn.reading?).countP (·.status == "miss")
  merges : after.merges = before.merges + turns.countP Turn.merges
  noops : after.noops = before.noops + turns.countP Turn.skips

namespace Counted

theorem nil (tally : Tally) : Counted tally ([] : List (Turn α)) tally :=
  ⟨rfl, rfl, rfl, rfl, rfl⟩

theorem cons {before middle after : Tally} {turn : Turn α} {rest : List (Turn α)}
    (hturn : Counted before [turn] middle) (hrest : Counted middle rest after) :
    Counted before (turn :: rest) after := by
  have hreadings : (turn :: rest).filterMap Turn.reading? =
      [turn].filterMap Turn.reading? ++ rest.filterMap Turn.reading? :=
    @List.filterMap_append _ _ [turn] rest _
  have hcount : ∀ counted : Turn α → Bool,
      (turn :: rest).countP counted = [turn].countP counted + rest.countP counted :=
    fun counted => @List.countP_append _ counted [turn] rest
  constructor
  · rw [hrest.hits, hturn.hits, hreadings, List.countP_append, Nat.add_assoc]
  · rw [hrest.partialHits, hturn.partialHits, hreadings, List.countP_append, Nat.add_assoc]
  · rw [hrest.misses, hturn.misses, hreadings, List.countP_append, Nat.add_assoc]
  · rw [hrest.merges, hturn.merges, hcount, Nat.add_assoc]
  · rw [hrest.noops, hturn.noops, hcount, Nat.add_assoc]

end Counted

theorem Cache.settle_snd_of_error {β γ : Type} {cache : Cache α}
    {attempt : Except CacheError (β × Cache α)} {wrap : β → γ} {error : CacheError}
    (hrefused : (cache.settle attempt wrap).1 = .error error) :
    (cache.settle attempt wrap).2 = cache := by
  cases attempt with
  | error _ => rfl
  | ok result => cases hrefused

namespace Turn

/-- An operation that is refused leaves the cache alone. -/
theorem after_of_error {turn : Turn α} {error : CacheError}
    (hanswer : turn.answer = .error error) : turn.after = turn.before := by
  obtain ⟨cache, operation⟩ := turn
  cases operation with
  | write | read | evict => exact Cache.settle_snd_of_error hanswer
  | peek => rfl
  | evictEntity | clear | resetTally => cases hanswer

/-- What is neither a read nor a write that succeeded is not counted. -/
theorem counted_of_quiet {turn : Turn α} (hreading : turn.reading? = none)
    (hmerges : turn.merges = false) (hskips : turn.skips = false)
    (htally : turn.after.tally = turn.before.tally) :
    Counted turn.before.tally [turn] turn.after.tally := by
  rw [htally]
  constructor <;> simp [hreading, hmerges, hskips]

theorem counted_of_error {turn : Turn α} {error : CacheError}
    (hanswer : turn.answer = .error error) :
    Counted turn.before.tally [turn] turn.after.tally := by
  have hquiet : turn.merges = false ∧ turn.skips = false := by
    unfold merges skips
    rw [hanswer]
    cases turn.operation with
    | write call incoming => cases incoming <;> exact ⟨rfl, rfl⟩
    | _ => exact ⟨rfl, rfl⟩
  have hreading : turn.reading? = none := by rw [reading?, hanswer]
  exact counted_of_quiet hreading hquiet.1 hquiet.2 (congrArg _ (after_of_error hanswer))

theorem counted_read {cache next : Cache α} {call : Call} {reading : Reading (Snapshot α)}
    (hread : cache.read call = .ok (reading, next)) :
    Counted cache.tally [⟨cache, .read call⟩] next.tally := by
  obtain ⟨key, window, -, -, rfl⟩ := Cache.read_eq_ok_iff.mp hread
  cases reading <;>
    constructor <;>
      simp [reading?, merges, skips, answer, Cache.perform, Cache.settle, hread,
        Cache.countReading, Reading.status]

theorem counted_write {cache next : Cache α} {call : Call} {incoming : Option (Page α)}
    (hwrite : cache.write call incoming = .ok next) :
    Counted cache.tally [⟨cache, .write call incoming⟩] next.tally := by
  cases incoming with
  | none =>
      cases Cache.write_none_eq_ok hwrite
      constructor <;>
        simp [reading?, merges, skips, answer, Cache.perform, Cache.settle, hwrite, Except.map]
  | some page =>
      obtain ⟨key, window, -, rfl⟩ := Cache.write_some_eq_ok_iff.mp hwrite
      constructor <;>
        simp [reading?, merges, skips, answer, Cache.perform, Cache.settle, hwrite, Except.map,
          Cache.mergeAt_eq_put, Cache.put]

/-- **Every operation counts itself.** -/
theorem counted (turn : Turn α) (hkept : turn.operation ≠ .resetTally) :
    Counted turn.before.tally [turn] turn.after.tally := by
  obtain ⟨cache, operation⟩ := turn
  cases operation with
  | write call incoming =>
      cases hwrite : cache.write call incoming with
      | error error =>
          apply counted_of_error
          simp only [answer, Cache.perform, hwrite]
          rfl
      | ok next =>
          have hafter : (⟨cache, .write call incoming⟩ : Turn α).after = next := by
            rw [after, Cache.perform_write, hwrite]
          rw [hafter]
          exact counted_write hwrite
  | read call =>
      cases hread : cache.read call with
      | error error =>
          apply counted_of_error
          simp only [answer, Cache.perform, hread]
          rfl
      | ok result =>
          have hafter : (⟨cache, .read call⟩ : Turn α).after = result.2 := by
            rw [after, Cache.perform_read, hread]
          rw [hafter]
          exact counted_read hread
  | peek call =>
      have hreading : (⟨cache, .peek call⟩ : Turn α).reading? = none := by
        simp only [reading?, answer, Cache.perform]
        cases cache.peek call <;> rfl
      exact counted_of_quiet hreading rfl rfl rfl
  | evict call =>
      cases hevict : cache.evict call with
      | error error =>
          apply counted_of_error
          simp only [answer, Cache.perform, hevict]
          rfl
      | ok result =>
          obtain ⟨removed, next⟩ := result
          obtain ⟨policy, key, -, -, rfl⟩ := Cache.evict_eq_ok_iff.mp hevict
          have hreading : (⟨cache, .evict call⟩ : Turn α).reading? = none := by
            simp only [reading?, answer, Cache.perform, hevict]
            rfl
          have htally : (cache.perform (.evict call)).2.tally = cache.tally := by
            rw [Cache.perform_evict, hevict]
          exact counted_of_quiet hreading rfl rfl htally
  | evictEntity | clear => exact counted_of_quiet rfl rfl rfl rfl
  | resetTally => exact absurd rfl hkept

end Turn

/-! ## Whole runs -/

/-- A reading has one of three statuses. -/
theorem countP_status_add (readings : List (Reading (Snapshot α))) :
    readings.countP (·.status == "complete") + readings.countP (·.status == "partial") +
        readings.countP (·.status == "miss") = readings.length := by
  induction readings with
  | nil => rfl
  | cons reading rest ih =>
      have hone : (if reading.status == "complete" then 1 else 0) +
          (if reading.status == "partial" then 1 else 0) +
            (if reading.status == "miss" then 1 else 0) = 1 := by cases reading <;> rfl
      simp only [List.countP_cons, List.length_cons]
      omega

namespace Cache

/-- The operations of a run, each with the cache that it finds. -/
def turns : Cache α → List (Operation α) → List (Turn α)
  | _, [] => []
  | cache, operation :: rest => ⟨cache, operation⟩ :: turns (cache.perform operation).2 rest

theorem length_turns (cache : Cache α) (operations : List (Operation α)) :
    (cache.turns operations).length = operations.length := by
  induction operations generalizing cache with
  | nil => rfl
  | cons operation rest ih => exact congrArg (· + 1) (ih (cache.perform operation).2)

theorem counted_run (cache : Cache α) {operations : List (Operation α)}
    (hkept : .resetTally ∉ operations) :
    Counted cache.tally (cache.turns operations) (cache.run operations).2.tally := by
  induction operations generalizing cache with
  | nil => exact .nil _
  | cons operation rest ih =>
      obtain ⟨hoperation, hrest⟩ := List.ne_and_not_mem_of_not_mem_cons hkept
      have hturn := Turn.counted ⟨cache, operation⟩ (Ne.symm hoperation)
      exact hturn.cons (ih (cache.perform operation).2 hrest)

theorem balance_run {cache : Cache α} (hsound : cache.shelf.Sound cache.capacity)
    {operations : List (Operation α)} (hkept : .resetTally ∉ operations) :
    (cache.run operations).2.size + (cache.run operations).2.tally.evictions +
        ((cache.turns operations).map Turn.removed).sum =
      cache.size + cache.tally.evictions + (cache.turns operations).countP Turn.begins := by
  induction operations generalizing cache with
  | nil => rfl
  | cons operation rest ih =>
      obtain ⟨hoperation, hrest⟩ := List.ne_and_not_mem_of_not_mem_cons hkept
      have hturn := Turn.balance ⟨cache, operation⟩ hsound (Ne.symm hoperation)
      have hsoundNext : (cache.perform operation).2.shelf.Sound
          (cache.perform operation).2.capacity := sound_run hsound [operation]
      have hnext := ih hsoundNext hrest
      simp only [Turn.after] at hturn
      rw [run_cons]
      simp only [turns, List.map_cons, List.sum_cons, List.countP_cons]
      omega

/-- **The counts and the snapshots of a run are conserved.**  After any run of a fresh
cache in which counting does not start anew, the hits, partial hits, and misses are the
reads that succeeded, each under the status of its answer; the merges and the other
writes are the writes that succeeded, with a response and without.  The snapshots held,
those evicted, and those removed on request are as many as the writes that succeeded with
a response for a list that was not held.  No count leaves the range of a word.  As
`operations` may be any run, all this holds after every operation of one. -/
theorem run_conserved (registry : Registry) (maxSnapshots maxWindowEnd : Nat)
    (operations : List (Operation α)) (hkept : .resetTally ∉ operations)
    (hlength : operations.length < Json.Literal.wordBound) :
    let start : Cache α := fresh registry maxSnapshots maxWindowEnd
    let final := (start.run operations).2
    let turns := start.turns operations
    let readings := turns.filterMap Turn.reading?
    final.tally.reads = readings.length ∧
      final.tally.hits = readings.countP (·.status == "complete") ∧
      final.tally.partialHits = readings.countP (·.status == "partial") ∧
      final.tally.misses = readings.countP (·.status == "miss") ∧
      final.tally.merges = turns.countP Turn.merges ∧
      final.tally.noops = turns.countP Turn.skips ∧
      final.size + final.tally.evictions + (turns.map Turn.removed).sum =
        turns.countP Turn.begins ∧
      ∀ count ∈ final.tally.counts, count < Json.Literal.wordBound := by
  intro start final turns readings
  have hcounted : Counted .zero turns final.tally := start.counted_run hkept
  have hbalance : final.size + final.tally.evictions + (turns.map Turn.removed).sum =
      0 + 0 + turns.countP Turn.begins :=
    balance_run (sound_fresh registry maxSnapshots maxWindowEnd) hkept
  have hhits := hcounted.hits.trans (Nat.zero_add _)
  have hpartialHits := hcounted.partialHits.trans (Nat.zero_add _)
  have hmisses := hcounted.misses.trans (Nat.zero_add _)
  have hmerges := hcounted.merges.trans (Nat.zero_add _)
  have hnoops := hcounted.noops.trans (Nat.zero_add _)
  have hreads : final.tally.reads = readings.length := by
    rw [Tally.reads, hhits, hpartialHits, hmisses]
    exact countP_status_add readings
  have hturns : turns.length = operations.length := start.length_turns operations
  have hreadings : readings.length ≤ turns.length := List.length_filterMap_le _ _
  have hmerged : turns.countP Turn.merges ≤ turns.length := List.countP_le_length
  have hskipped : turns.countP Turn.skips ≤ turns.length := List.countP_le_length
  have hbegun : turns.countP Turn.begins ≤ turns.length := List.countP_le_length
  refine ⟨hreads, hhits, hpartialHits, hmisses, hmerges, hnoops, by omega, ?_⟩
  rw [Tally.reads] at hreads
  simp only [Tally.counts, List.forall_mem_cons]
  refine ⟨?_, ?_, ?_, ?_, ?_, ?_, nofun⟩ <;> omega

/-- Reads with every status and removals of every kind, with room for two lists. -/
def everyKind : List (Operation Nat) :=
  [.write (Console.requestsCall "ws1" 0 1) (some ⟨some [1], none, []⟩),
   .write (Console.requestsCall "ws2" 0 1) (some ⟨some [2], none, []⟩),
   .write (Console.requestsCall "ws1" 0 1) (some ⟨some [3], none, []⟩),
   .write (Console.requestsCall "ws3" 0 1) (some ⟨some [4], none, []⟩),
   .read (Console.requestsCall "ws1" 0 1),
   .read (Console.requestsCall "ws1" 0 5),
   .read (Console.requestsCall "ws2" 0 1),
   .read ⟨"Workspace", "ws1", "jobs", []⟩,
   .write (Console.requestsCall "ws1" 0 1) none,
   .evict (Console.requestsCall "ws1" 0 1),
   .evict (Console.requestsCall "ws1" 0 1),
   .evictEntity "Workspace" "ws3",
   .write (Console.requestsCall "ws1" 0 1) (some ⟨some [5], none, []⟩),
   .clear]

theorem run_conserved_everyKind :
    let start : Cache Nat := fresh Console.requestsRegistry 2 100
    let final := (start.run everyKind).2
    let turns := start.turns everyKind
    let readings := turns.filterMap Turn.reading?
    .resetTally ∉ everyKind ∧ everyKind.length < Json.Literal.wordBound ∧
      final.tally = ⟨1, 1, 1, 5, 1, 1⟩ ∧ final.size = 0 ∧
      turns.map Turn.removed = [0, 0, 0, 0, 0, 0, 0, 0, 0, 1, 0, 1, 0, 1] ∧
      turns.countP Turn.begins = 4 ∧
      final.tally.reads = readings.length ∧
      final.size + final.tally.evictions + (turns.map Turn.removed).sum =
        turns.countP Turn.begins := by
  have hkept : .resetTally ∉ everyKind := by simp [everyKind]
  have hlength : everyKind.length < Json.Literal.wordBound := by decide
  obtain ⟨hreads, -, -, -, -, -, hbalance, -⟩ :=
    run_conserved Console.requestsRegistry 2 100 everyKind hkept hlength
  refine ⟨hkept, hlength, ?_, ?_, ?_, ?_, hreads, hbalance⟩ <;> decide +kernel

end Cache

end PagedCache
