import PagedCache.Proofs.Cache.HeldLists
import PagedCache.Proofs.Cache.ReadBack

/-!
# What a reading shows

A reading shows the positions of its window as they are known, up to the end of the held
list, and it is called complete only if nothing in the window is missing from it.  Held
lists end far before the last position, so this does not depend on what a window that
would end behind the last position is taken for.
-/

namespace PagedCache

variable {α : Type}

namespace Snapshot

/-- A list is the part of another list that lies in a window: it ends with the window or
with the other list, and has the same items and holes. -/
structure IsPart (part whole : Snapshot α) (window : Window) : Prop where
  length_eq : part.length = min window.limit (whole.length - window.offset)
  getElem?_eq : ∀ index < part.length, part.items[index]? = whole.items[window.offset + index]?

theorem isPart_slice {snapshot : Snapshot α} (window : Window)
    (hlength : snapshot.length ≤ Window.maxPosition) :
    (snapshot.slice window).IsPart snapshot window := by
  have hitems := items_slice window (.inl hlength)
  constructor
  · rw [length, hitems, List.length_take, List.length_drop, length]
  · intro index hindex
    rw [length, hitems, List.length_take] at hindex
    rw [hitems, List.getElem?_take_of_lt (hindex.trans_le (min_le_left _ _)),
      List.getElem?_drop]

end Snapshot

namespace Cache

/-- A complete answer from a list that ends before the last position leaves nothing of its
window behind the list. -/
theorem lt_length_of_complete {snapshot part : Snapshot α} {window : Window}
    (hcomplete : answer snapshot window = .complete part)
    (hlength : snapshot.length < Window.maxPosition) {position : Nat}
    (hstart : window.offset ≤ position) (hstop : position < window.offset + window.limit)
    (htotal : ∀ total ∈ snapshot.total, position < total) : position < snapshot.length := by
  obtain ⟨-, htail, -⟩ := answer_eq_complete_iff.mp hcomplete
  rcases Snapshot.missingTail_eq_false_iff.mp htail with hlimit | hend | ⟨total, hsome, hend⟩
  · omega
  · -- the window ends before the last position, so it is not cut there
    rw [Window.stop] at hend
    omega
  · exact (htotal total hsome).trans_le hend

/-- What a complete answer shows at a position that the list may have. -/
theorem exists_shown_of_complete {snapshot part : Snapshot α} {window : Window}
    (hcomplete : answer snapshot window = .complete part)
    (hlength : snapshot.length < Window.maxPosition) {position : Nat}
    (hstart : window.offset ≤ position) (hstop : position < window.offset + window.limit)
    (htotal : ∀ total ∈ snapshot.total, position < total) :
    ∃ item, snapshot.get? position = some item ∧
      part.items[position - window.offset]? = some (some item) := by
  have hinside := lt_length_of_complete hcomplete hlength hstart hstop htotal
  obtain ⟨item, hitem⟩ := exists_get?_of_complete hcomplete hstart hstop
    (hinside.trans hlength) htotal
  have hpart : part.IsPart snapshot window :=
    (answer_eq_complete_iff.mp hcomplete).1 ▸ Snapshot.isPart_slice window hlength.le
  have hindex : position - window.offset < part.length := by
    rw [hpart.length_eq]
    omega
  refine ⟨item, hitem, ?_⟩
  rw [hpart.getElem?_eq _ hindex, Nat.add_sub_cancel' hstart]
  exact Snapshot.get?_eq_some_iff.mp hitem

/-- **A complete reading hides no missing position.**  Let a cache whose pages end before
position `2 ^ 63` have carried out any operations, with any pages and lengths.  Then a
reading misses exactly if nothing is held under the key of the call.  Otherwise it shows
the part of the held list in the window of the call, and if it is complete, then the list
has an item, which is shown, at every position of the window below its length, as far as
that is known.  Sums of positions are not bounded here. -/
theorem read_shows_window (registry : Registry) (maxSnapshots maxWindowEnd : Nat)
    (hbound : maxWindowEnd < 2 ^ 63) (operations : List (Operation α)) (call : Call)
    (key : SnapshotKey) (window : Window) :
    let cache : Cache α := ((fresh registry maxSnapshots maxWindowEnd).run operations).2
    cache.locateWindow call = .ok (key, window) →
      ∃ reading next, cache.read call = .ok (reading, next) ∧
        (reading = .miss ↔ cache.find? key = none) ∧
        ∀ part, reading.value? = some part →
          ∃ snapshot, cache.find? key = some snapshot ∧ part.IsPart snapshot window ∧
            (reading.isComplete → ∀ position, window.offset ≤ position →
              position < window.offset + window.limit →
                (∀ total ∈ snapshot.total, position < total) →
                  ∃ item, snapshot.get? position = some item ∧
                    part.items[position - window.offset]? = some (some item)) := by
  intro cache hlocate
  refine ⟨_, _, read_eq_of_locateWindow hlocate, ?_, fun part hpart => ?_⟩
  · rw [readAt_eq_miss_iff, mem_keys_iff]
    simp
  · cases hheld : cache.find? key with
    | none => simp [readAt, hheld, Reading.value?] at hpart
    | some snapshot =>
        have hanswer : cache.readAt key window = answer snapshot window := by
          simp only [readAt, hheld]
        rw [hanswer] at hpart ⊢
        have hshown : snapshot.slice window = part := by
          rwa [value?_answer, Option.some.injEq] at hpart
        have hend := length_le_of_find?_run registry maxSnapshots maxWindowEnd operations key
          snapshot hheld
        have hlength : snapshot.length < Window.maxPosition := by
          rw [Window.maxPosition]
          omega
        refine ⟨snapshot, rfl, hshown ▸ Snapshot.isPart_slice window hlength.le, ?_⟩
        intro hcomplete position hstart hstop htotal
        exact exists_shown_of_complete (Reading.eq_complete_of_isComplete hcomplete hpart)
          hlength hstart hstop htotal

/-- Two pages that leave a hole between them, and a count. -/
def pagesApart : List (Operation Nat) :=
  [.write (Console.requestsCall "ws1" 0 1) (some ⟨some [1], none, []⟩),
   .write (Console.requestsCall "ws1" 2 2) (some ⟨some [3, 4], some 4, []⟩)]

/-- The window from position two on would end behind the last position.  It is shown
completely, while the window from position one on shows the hole. -/
theorem read_shows_window_behind_last_position :
    let cache : Cache Nat := ((fresh Console.requestsRegistry 1 100).run pagesApart).2
    let call := Console.requestsCall "ws1" 2 Window.maxPosition
    let list : Snapshot Nat := ⟨[some 1, none, some 3, some 4], some 4, []⟩
    cache.locateWindow call = .ok (Console.requestsKey "ws1", ⟨2, Window.maxPosition⟩) ∧
      cache.find? (Console.requestsKey "ws1") = some list ∧
      ∃ next, cache.read call = .ok (.complete ⟨[some 3, some 4], some 4, []⟩, next) ∧
        ∀ position, 2 ≤ position → position < 2 + Window.maxPosition → position < 4 →
          ∃ item, list.get? position = some item ∧
            [some 3, some 4][position - 2]? = some (some item) := by
  intro cache call list
  have hlocate : cache.locateWindow call =
      .ok (Console.requestsKey "ws1", ⟨2, Window.maxPosition⟩) :=
    Console.locateWindow_requestsCall rfl "ws1" (by decide) le_rfl
  obtain ⟨reading, next, hread, -, hshown⟩ := read_shows_window Console.requestsRegistry 1 100
    (by decide) pagesApart call (Console.requestsKey "ws1") ⟨2, Window.maxPosition⟩ hlocate
  have hanswer : cache.readAt (Console.requestsKey "ws1") ⟨2, Window.maxPosition⟩ =
      .complete ⟨[some 3, some 4], some 4, []⟩ := rfl
  obtain rfl : cache.readAt (Console.requestsKey "ws1") ⟨2, Window.maxPosition⟩ = reading :=
    congrArg Prod.fst (Except.ok.inj ((read_eq_of_locateWindow hlocate).symm.trans hread))
  obtain ⟨snapshot, hheld, -, hitems⟩ := hshown _ (congrArg Reading.value? hanswer)
  have hlist : cache.find? (Console.requestsKey "ws1") = some list := rfl
  obtain rfl : list = snapshot := Option.some.inj (hlist.symm.trans hheld)
  refine ⟨hlocate, hlist, next, hanswer ▸ hread, fun position hstart hstop hend => ?_⟩
  exact hitems (congrArg Reading.isComplete hanswer) position hstart hstop
    (by simpa [list] using hend)

end Cache

end PagedCache
