import PagedCache.Proofs.Snapshot.Deliveries
import PagedCache.Proofs.Snapshot.Slice

/-!
# Fetching the end of a list again

A list may have become shorter on the server.  The response for a window that reaches
the new end reports where the list ends, and has all of its items from the start of the
window on.  If these do not fill the window, the snapshot forgets everything behind
them.  If they fill it, what was known behind the window stays, although the reported
total says that there is nothing: only a short page ends a list.
-/

namespace PagedCache

variable {α : Type}

namespace Snapshot

/-- What a snapshot shows of a window lies inside the snapshot. -/
theorem lt_length_of_getElem?_slice {snapshot : Snapshot α} {asked : Window} {index : Nat}
    {slot : Option α} (hslot : (snapshot.slice asked).items[index]? = some slot) :
    asked.offset + index < snapshot.length := by
  obtain ⟨hindex, -⟩ := List.getElem?_eq_some_iff.mp hslot
  simp only [slice, List.length_take, List.length_drop, length] at hindex ⊢
  omega

/-- The positions behind a page keep what was known of them. -/
theorem drop_overlay (items : List (Option α)) (offset : Nat) (page : List α) :
    (overlay items offset page).drop (offset + page.length) =
      items.drop (offset + page.length) := by
  by_cases hpage : page = []
  · simp [overlay, hpage]
  · have hfront : (padTo items offset ++ page.map some).length = offset + page.length := by
      simp
    rw [overlay_of_ne_nil items offset hpage, ← hfront, List.drop_left]

/-- After a short page the list ends with the page. -/
theorem length_mergeItems_of_short (items : List (Option α)) {page : List α}
    {window : Window} (hfits : window.offset + page.length ≤ Window.maxPosition)
    (hshort : page.length < window.limit) :
    (mergeItems items page window).length ≤ window.offset + page.length := by
  rw [length_mergeItems items hfits, if_pos hshort]
  exact min_le_left _ _

/-- After a full page the list ends with the page or where it ended before. -/
theorem length_mergeItems_of_full (items : List (Option α)) {page : List α}
    {window : Window} (hfits : window.offset + page.length ≤ Window.maxPosition)
    (hfull : window.limit ≤ page.length) (hlimit : 0 < window.limit) :
    (mergeItems items page window).length =
      max items.length (window.offset + page.length) := by
  have hpage : page ≠ [] := List.length_pos_iff.mp (hlimit.trans_le hfull)
  rw [mergeItems_of_full items hfits hfull, length_overlay, if_neg hpage]

/-- **A response that reaches the reported end of the list.**  The reported total is kept.
If the page is short, or the snapshot was no longer than the list, nothing is kept behind
the end, so nothing from there is shown in any window.  Otherwise the page fills its
window, and the positions behind the end are kept as they were. -/
theorem merge_at_reported_end (existing : Option (Snapshot α)) (window : Window)
    (items : List α) (total : Nat) (passthrough : Json.Members)
    (hlimit : 0 < window.limit) (hstart : window.offset ≤ total)
    (hend : total ≤ window.offset + window.limit) (hword : total ≤ Window.maxPosition)
    (hlength : items.length = total - window.offset) :
    ∃ merged, merge existing (some ⟨some items, some total, passthrough⟩) window =
        some merged ∧ merged.total = some total ∧
      if total < window.offset + window.limit ∨ (existing.getD empty).length ≤ total then
        merged.length ≤ total ∧
          ∀ (asked : Window), ∀ part ∈ read (some merged) asked, ∀ (index : Nat) (item : α),
            part.items[index]? = some (some item) → asked.offset + index < total
      else
        merged.length = (existing.getD empty).length ∧
          merged.items.drop total = (existing.getD empty).items.drop total := by
  have hstop : window.offset + items.length = total := by omega
  have hfits : window.offset + items.length ≤ Window.maxPosition := hstop ▸ hword
  refine ⟨_, merge_some existing _ window, rfl, ?_⟩
  split_ifs with hkept
  · have hshorter : (mergeItems (existing.getD empty).items items window).length ≤ total := by
      by_cases hshort : items.length < window.limit
      · exact (length_mergeItems_of_short _ hfits hshort).trans_eq hstop
      · have hbefore := hkept.resolve_left (by omega)
        rw [length_mergeItems_of_full _ hfits (not_lt.mp hshort) hlimit, hstop]
        exact max_le hbefore le_rfl
    refine ⟨hshorter, ?_⟩
    intro asked part hpart index item hitem
    obtain rfl := Option.some.inj hpart
    exact (lt_length_of_getElem?_slice hitem).trans_le hshorter
  · obtain ⟨hreached, hlonger⟩ := not_or.mp hkept
    have hfull : window.limit ≤ items.length := by omega
    constructor
    · refine (length_mergeItems_of_full _ hfits hfull hlimit).trans ?_
      rw [hstop]
      exact max_eq_left (not_le.mp hlonger).le
    · simp only [absorb]
      rw [mergeItems_of_fits _ hfits, if_neg (not_lt.mpr hfull), ← hstop]
      exact drop_overlay _ _ _

/-- Three items, of which the list has lost one. -/
def beforeDeletion : Snapshot Nat :=
  ⟨[some 10, some 11, some 12], some 3, []⟩

/-- A window of three ends the list, a window of the two items left does not. -/
theorem merge_at_reported_end_afterDeletion :
    (0 < 3 ∧ 0 ≤ 2 ∧ 2 ≤ 0 + 3 ∧ 2 ≤ Window.maxPosition ∧ [10, 11].length = 2 - 0 ∧
        ∃ merged, merge (some beforeDeletion) (some ⟨some [10, 11], some 2, []⟩) ⟨0, 3⟩ =
            some merged ∧ merged.total = some 2 ∧ merged.length ≤ 2) ∧
      0 < 2 ∧ 2 ≤ 0 + 2 ∧
        ∃ merged, merge (some beforeDeletion) (some ⟨some [10, 11], some 2, []⟩) ⟨0, 2⟩ =
            some merged ∧ merged.total = some 2 ∧ merged.length = 3 ∧
              merged.items.drop 2 = [some 12] := by
  have hword : 2 ≤ Window.maxPosition := by decide
  obtain ⟨short, hshort, hshortTotal, hshorter⟩ := merge_at_reported_end
    (some beforeDeletion) ⟨0, 3⟩ [10, 11] 2 [] (by decide) (by decide) (by decide) hword rfl
  obtain ⟨full, hfull, hfullTotal, hkept⟩ := merge_at_reported_end
    (some beforeDeletion) ⟨0, 2⟩ [10, 11] 2 [] (by decide) (by decide) (by decide) hword rfl
  rw [if_pos (by decide)] at hshorter
  rw [if_neg (by decide)] at hkept
  exact ⟨⟨by decide, by decide, by decide, hword, rfl, short, hshort, hshortTotal,
    hshorter.1⟩, by decide, by decide, full, hfull, hfullTotal, hkept⟩

/-- Not every response that reaches the reported end makes the snapshot end there: a page
that fills its window leaves the item that was deleted. -/
theorem not_forall_length_le_reported_end :
    ¬∀ (existing : Option (Snapshot Nat)) (window : Window) (items : List Nat) (total : Nat)
        (passthrough : Json.Members),
      0 < window.limit → window.offset ≤ total → total ≤ window.offset + window.limit →
        total ≤ Window.maxPosition → items.length = total - window.offset →
          ∀ merged ∈ merge existing (some ⟨some items, some total, passthrough⟩) window,
            merged.length ≤ total ∧
              ∀ (asked : Window), ∀ part ∈ read (some merged) asked,
                ∀ (index : Nat) (item : Nat), part.items[index]? = some (some item) →
                  asked.offset + index < total := by
  intro hended
  obtain ⟨hlength, -⟩ := hended (some beforeDeletion) ⟨0, 2⟩ [10, 11] 2 [] (by decide)
    (by decide) (by decide) (by decide) rfl _ rfl
  exact absurd hlength (by decide)

/-- The item that was deleted is even part of a complete answer. -/
example :
    let before : Snapshot Nat := ⟨[some 10, some 11, some 12], some 3, []⟩
    Cache.answer (before.absorb ⟨some [10, 11], some 2, []⟩ ⟨0, 2⟩) ⟨2, 1⟩ =
      .complete ⟨[some 12], some 2, []⟩ := rfl

end Snapshot

end PagedCache
