import Mathlib
import PagedCache.Snapshot

/-!
# Merging a page

A merged page decides the positions that it covers, and a page with fewer items
than were asked for also decides every position behind it.  The other positions
keep what was known of them, and holes that pad the list say no more than its end
did.
-/

namespace PagedCache

variable {α : Type}

attribute [ext] Snapshot

theorem Window.pageStop_of_le {window : Window} {length : Nat}
    (hfits : window.offset + length ≤ maxPosition) :
    window.pageStop length = .ok (window.offset + length) := by
  simp [pageStop, hfits]

namespace Snapshot

/-! ## Overlaying a page -/

/-- The first `offset` positions, with holes where the items end before. -/
def padTo (items : List (Option α)) (offset : Nat) : List (Option α) :=
  items.take offset ++ List.replicate (offset - items.length) none

@[simp]
theorem length_padTo (items : List (Option α)) (offset : Nat) :
    (padTo items offset).length = offset := by
  simp only [padTo, List.length_append, List.length_take, List.length_replicate]
  omega

theorem join_getElem?_padTo (items : List (Option α)) {offset position : Nat}
    (hposition : position < offset) :
    (padTo items offset)[position]?.join = items[position]?.join := by
  by_cases hheld : position < items.length
  · have htake : position < (items.take offset).length := by
      simpa using ⟨hposition, hheld⟩
    rw [padTo, List.getElem?_append_left htake, List.getElem?_take_of_lt hposition]
  · rw [List.getElem?_eq_none (not_lt.mp hheld)]
    have htake : (items.take offset).length ≤ position := by
      rw [List.length_take]
      omega
    rw [padTo, List.getElem?_append_right htake, List.getElem?_replicate]
    split <;> rfl

theorem overlay_of_ne_nil (items : List (Option α)) (offset : Nat) {page : List α}
    (hpage : page ≠ []) :
    overlay items offset page =
      padTo items offset ++ page.map some ++ items.drop (offset + page.length) := by
  simp [overlay, padTo, hpage]

theorem length_overlay (items : List (Option α)) (offset : Nat) (page : List α) :
    (overlay items offset page).length =
      if page = [] then items.length else max items.length (offset + page.length) := by
  by_cases hpage : page = []
  · simp [overlay, hpage]
  · rw [overlay_of_ne_nil items offset hpage, if_neg hpage]
    simp only [List.length_append, length_padTo, List.length_map, List.length_drop]
    omega

/-- Overlaying a page changes the positions under the page and no others. -/
theorem join_getElem?_overlay (items : List (Option α)) (offset : Nat) (page : List α)
    (position : Nat) :
    (overlay items offset page)[position]?.join =
      if offset ≤ position ∧ position < offset + page.length then page[position - offset]?
      else items[position]?.join := by
  by_cases hpage : page = []
  · have hnowhere : ¬(offset ≤ position ∧ position < offset + page.length) := by
      simp [hpage]
    rw [if_neg hnowhere]
    simp [overlay, hpage]
  rw [overlay_of_ne_nil items offset hpage]
  have hfront : (padTo items offset ++ page.map some).length = offset + page.length := by
    simp
  by_cases hbefore : position < offset
  · rw [if_neg (by omega), List.getElem?_append_left (by omega),
      List.getElem?_append_left (by simpa using hbefore), join_getElem?_padTo items hbefore]
  by_cases hunder : position < offset + page.length
  · rw [if_pos ⟨not_lt.mp hbefore, hunder⟩, List.getElem?_append_left (by omega),
      List.getElem?_append_right (by simpa using hbefore), length_padTo, List.getElem?_map]
    cases page[position - offset]? <;> rfl
  · rw [if_neg (by omega), List.getElem?_append_right (by omega), hfront, List.getElem?_drop,
      Nat.add_sub_cancel' (by omega)]

/-! ## Merging into a snapshot -/

theorem mergeItems_of_fits (items : List (Option α)) {page : List α} {window : Window}
    (hfits : window.offset + page.length ≤ Window.maxPosition) :
    mergeItems items page window =
      if page.length < window.limit then
        (overlay items window.offset page).take (window.offset + page.length)
      else overlay items window.offset page := by
  simp [mergeItems, Window.pageStop_of_le hfits]

/-- A page that fills its window ends nothing. -/
theorem mergeItems_of_full (items : List (Option α)) {page : List α} {window : Window}
    (hfits : window.offset + page.length ≤ Window.maxPosition)
    (hfull : window.limit ≤ page.length) :
    mergeItems items page window = overlay items window.offset page := by
  rw [mergeItems_of_fits items hfits, if_neg (not_lt.mpr hfull)]

theorem join_getElem?_mergeItems (items : List (Option α)) {page : List α}
    {window : Window} (hfits : window.offset + page.length ≤ Window.maxPosition)
    (position : Nat) :
    (mergeItems items page window)[position]?.join =
      if window.offset ≤ position ∧ position < window.offset + page.length then
        page[position - window.offset]?
      else if page.length < window.limit ∧ window.offset + page.length ≤ position then none
      else items[position]?.join := by
  rw [mergeItems_of_fits items hfits]
  by_cases hshort : page.length < window.limit
  · simp only [hshort, if_true, true_and]
    by_cases hbehind : window.offset + page.length ≤ position
    · rw [List.getElem?_take, if_neg (not_lt.mpr hbehind), if_neg (by omega), if_pos hbehind]
      rfl
    · rw [List.getElem?_take_of_lt (not_le.mp hbehind), join_getElem?_overlay, if_neg hbehind]
  · simp only [hshort, if_false, false_and]
    exact join_getElem?_overlay items window.offset page position

/-- The snapshot with a page merged into it. -/
def absorb (base : Snapshot α) (page : Page α) (window : Window) : Snapshot α where
  items :=
    match page.items with
    | none => base.items
    | some pageItems => mergeItems base.items pageItems window
  total := page.total.or base.total
  passthrough := page.passthrough

/-- Merging a response always gives a snapshot. -/
theorem merge_some (existing : Option (Snapshot α)) (page : Page α) (window : Window) :
    merge existing (some page) window = some ((existing.getD empty).absorb page window) :=
  rfl

end Snapshot

end PagedCache
