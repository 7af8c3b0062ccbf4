import PagedCache.Proofs.Cache.Step
import PagedCache.Proofs.Snapshot.Slice

/-!
# Reading a window that was just fetched

A response that reports the length of the list and has all of its items in the window
leaves nothing to be asked for.  The cache says so for a window that starts inside the
list.  For one that starts at its end or behind, it asks for the window again and again
as long as the snapshot has fewer positions than the list has items, although none of
these is in the window.
-/

namespace PagedCache

variable {α : Type}

namespace Snapshot

theorem length_absorb (base : Snapshot α) {window : Window} {page : Page α}
    {items : List α} (hitems : page.items = some items)
    (hfits : window.offset + items.length ≤ Window.maxPosition) :
    (base.absorb page window).length =
      if items.length < window.limit then
        min (window.offset + items.length)
          (overlay base.items window.offset items).length
      else (overlay base.items window.offset items).length := by
  simp only [length, absorb, hitems]
  exact length_mergeItems base.items hfits

/-- A page is read back from its own window, whatever was known before. -/
theorem slice_absorb (base : Snapshot α) {window : Window} {page : Page α}
    {items : List α} (hitems : page.items = some items)
    (hfits : window.offset + items.length ≤ Window.maxPosition)
    (hlimit : items.length ≤ window.limit) :
    (base.absorb page window).slice window =
      ⟨items.map some, page.total.or base.total, page.passthrough⟩ := by
  have hlength := length_absorb base hitems hfits
  have hstop : (base.absorb page window).length ≤ Window.maxPosition ∨
      window.offset + window.limit ≤ Window.maxPosition := by
    split at hlength <;> omega
  have hread := items_slice window hstop
  have hmerged : (base.absorb page window).items = mergeItems base.items items window := by
    simp only [absorb, hitems]
  rw [hmerged, take_drop_mergeItems base.items hfits hlimit] at hread
  simp only [slice, absorb, hitems] at hread ⊢
  rw [hread]

/-- After a response that reports the length of the list and has all of its items in
the window, something of the window counts as missing only if the window starts behind
the list and the snapshot was shorter than the list. -/
theorem missingTail_absorb (base : Snapshot α) {window : Window} {page : Page α}
    {items : List α} {total : Nat} (hitems : page.items = some items)
    (htotal : page.total = some total)
    (hfits : window.offset + items.length ≤ Window.maxPosition)
    (hlimit : 0 < window.limit)
    (hlength : items.length = min window.limit (total - window.offset)) :
    (base.absorb page window).missingTail window = false ↔
      window.offset < total ∨ total ≤ base.length := by
  have hmerged := length_absorb base hitems hfits
  have hoverlay := length_overlay base.items window.offset items
  have hreported : (base.absorb page window).total = some total := by
    simp [absorb, htotal]
  rw [missingTail_eq_false_iff, hreported]
  simp only [Option.mem_some, exists_eq_left', Window.stop, length] at hmerged ⊢
  by_cases hinside : window.offset < total
  · have hpage : items ≠ [] := List.length_pos_iff.mp (by omega)
    rw [if_neg hpage] at hoverlay
    split at hmerged <;> omega
  · have hpage : items = [] := List.length_eq_zero_iff.mp (by omega)
    rw [if_pos hpage] at hoverlay
    split at hmerged <;> omega

end Snapshot

namespace Cache

theorem answer_absorb (base : Snapshot α) {window : Window} {page : Page α}
    {items : List α} {total : Nat} (hitems : page.items = some items)
    (htotal : page.total = some total)
    (hfits : window.offset + items.length ≤ Window.maxPosition)
    (hlimit : 0 < window.limit)
    (hlength : items.length = min window.limit (total - window.offset)) :
    answer (base.absorb page window) window =
      if window.offset < total ∨ total ≤ base.length then
        .complete ⟨items.map some, some total, page.passthrough⟩
      else .partialHit ⟨items.map some, some total, page.passthrough⟩ := by
  have htail := Snapshot.missingTail_absorb base hitems htotal hfits hlimit hlength
  have hholes : Snapshot.hasHoles
      (⟨items.map some, some total, page.passthrough⟩ : Snapshot α) = false := by
    simp [Snapshot.hasHoles_eq_false_iff]
  have hslice := Snapshot.slice_absorb base hitems hfits (by omega)
  rw [htotal, Option.some_or] at hslice
  simp only [answer, hslice, hholes, Bool.or_false]
  by_cases hsettled : window.offset < total ∨ total ≤ base.length
  · rw [if_pos hsettled, htail.mpr hsettled]
    rfl
  · rw [if_neg hsettled, Bool.eq_true_of_not_eq_false (mt htail.mp hsettled)]
    rfl

/-- What a write leaves under the key of its call. -/
theorem find?_of_write {cache next : Cache α} {call : Call} {key : SnapshotKey}
    {window : Window} {page : Page α} (hlocate : cache.locateWindow call = .ok (key, window))
    (hwrite : cache.write call (some page) = .ok next) :
    next.find? key = some (((cache.find? key).getD .empty).absorb page window) ∧
      ∀ items ∈ page.items, window.offset + items.length ≤ Window.maxPosition := by
  obtain ⟨acceptedKey, acceptedWindow, haccept, rfl⟩ := write_some_eq_ok_iff.mp hwrite
  obtain ⟨hsame, hend⟩ := accept_eq_ok_iff.mp haccept
  rw [hlocate, Except.ok.injEq, Prod.mk.injEq] at hsame
  obtain ⟨rfl, rfl⟩ := hsame
  exact ⟨find?_put_self _ key _, fun items hitems => (hend items hitems).1⟩

/-- **A fetch settles its window unless the window starts behind a list that is longer
than the snapshot.**  Let a response report the length of the list and have exactly its
items in the window.  Reading the window after a write of the response answers with the
items of the page.  The answer is complete exactly if the window starts inside the list
or the snapshot had as many positions as the list has items. -/
theorem read_eq_of_write (cache next : Cache α) (call : Call) (key : SnapshotKey)
    (window : Window) (items : List α) (total : Nat) (passthrough : Json.Members)
    (hlocate : cache.locateWindow call = .ok (key, window)) (hlimit : 0 < window.limit)
    (hlength : items.length = min window.limit (total - window.offset))
    (hwrite : cache.write call (some ⟨some items, some total, passthrough⟩) = .ok next) :
    ∃ final,
      next.read call =
        .ok (if window.offset < total ∨ total ≤ ((cache.find? key).getD .empty).length then
            .complete ⟨items.map some, some total, passthrough⟩
          else .partialHit ⟨items.map some, some total, passthrough⟩, final) := by
  obtain ⟨hheld, hfits⟩ := find?_of_write hlocate hwrite
  rw [← (sameRules_write hwrite).locateWindow_eq] at hlocate
  let page : Page α := ⟨some items, some total, passthrough⟩
  have hitems : page.items = some items := rfl
  have hanswer := answer_absorb ((cache.find? key).getD .empty) hitems rfl
    (hfits items hitems) hlimit hlength
  have hreading : next.readAt key window =
      answer (((cache.find? key).getD .empty).absorb page window) window := by
    rw [readAt, hheld]
  rw [read_eq_of_locateWindow hlocate, hreading, hanswer]
  exact ⟨_, rfl⟩

/-- A window that reaches over the end of the list. -/
theorem read_eq_of_write_last_page :
    ∃ next final, (fresh Console.requestsRegistry 1 100).write
        (Console.requestsCall "ws1" 3 3) (some ⟨some [4, 5], some 5, []⟩) = .ok next ∧
      next.read (Console.requestsCall "ws1" 3 3) =
        .ok (.complete ⟨[some 4, some 5], some 5, []⟩, final) := by
  obtain ⟨final, hread⟩ := read_eq_of_write (fresh Console.requestsRegistry 1 100) _
    (Console.requestsCall "ws1" 3 3) (Console.requestsKey "ws1") ⟨3, 3⟩ [4, 5] 5 [] rfl
    (by decide) (by decide) rfl
  exact ⟨_, final, rfl, hread⟩

/-- Not every fetch settles its window: a list of five items has none in a window from
position ten on, but a cache without any of the five asks for that window again after
the empty page arrived. -/
theorem not_forall_read_complete_of_write :
    ¬∀ (registry : Registry) (maxSnapshots maxWindowEnd : Nat)
        (operations : List (Operation Nat)) (call : Call) (key : SnapshotKey)
        (window : Window) (items : List Nat) (total : Nat) (passthrough : Json.Members)
        (next : Cache Nat),
      let cache := ((fresh registry maxSnapshots maxWindowEnd).run operations).2
      cache.locateWindow call = .ok (key, window) → 0 < window.limit →
        items.length = min window.limit (total - window.offset) →
          cache.write call (some ⟨some items, some total, passthrough⟩) = .ok next →
            ∃ part final, next.read call = .ok (.complete part, final) ∧
              part.items = items.map some := by
  intro hsettled
  obtain ⟨part, final, hread, -⟩ := hsettled Console.requestsRegistry 1 100 []
    (Console.requestsCall "ws1" 10 10) (Console.requestsKey "ws1") ⟨10, 10⟩ [] 5 [] _ rfl
    (by decide) (by decide) rfl
  have hpartial : ∃ other, ((fresh Console.requestsRegistry 1 100).mergeAt
      (Console.requestsKey "ws1") ⟨10, 10⟩ (⟨some [], some 5, []⟩ : Page Nat)).read
        (Console.requestsCall "ws1" 10 10) =
      .ok (.partialHit ⟨[], some 5, []⟩, other) := ⟨_, rfl⟩
  obtain ⟨other, hpartial⟩ := hpartial
  have hsame := hread.symm.trans hpartial
  cases hsame

end Cache

end PagedCache
