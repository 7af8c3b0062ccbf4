import PagedCache.Proofs.Snapshot.Merge

/-!
# Histories of deliveries

A list is learned from responses, each with the window that it was asked for with.
Replaying a history of them merges one after the other.  What the snapshot then says
of a position is what the latest response says that has anything to say of it.
-/

namespace PagedCache

variable {α : Type}

/-- A response and the window that it answers. -/
structure Delivery (α : Type) where
  window : Window
  page : Page α

namespace Delivery

/-- The page, if the response has one, ends at a position. -/
def Fits (delivery : Delivery α) : Prop :=
  ∀ items ∈ delivery.page.items,
    delivery.window.offset + items.length ≤ Window.maxPosition

/-- The page of the delivery has an item for the position. -/
def Covers (delivery : Delivery α) (position : Nat) : Prop :=
  ∃ items ∈ delivery.page.items, delivery.window.offset ≤ position ∧
    position < delivery.window.offset + items.length

/-- What a delivery says of a position: the item that its page has there, or that
there is none because the page ended the list before.  A delivery without a list, and
one whose page does neither, says nothing. -/
def ruling? (delivery : Delivery α) (position : Nat) : Option (Option α) :=
  match delivery.page.items with
  | none => none
  | some items =>
    let stop := delivery.window.offset + items.length
    if delivery.window.offset ≤ position ∧ position < stop then
      some items[position - delivery.window.offset]?
    else if items.length < delivery.window.limit ∧ stop ≤ position then some none
    else none

end Delivery

namespace Snapshot

/-- Merge deliveries in the order of their arrival. -/
def replay (start : Option (Snapshot α)) (deliveries : List (Delivery α)) :
    Option (Snapshot α) :=
  deliveries.foldl
    (fun existing delivery => merge existing (some delivery.page) delivery.window) start

theorem replay_concat (start : Option (Snapshot α)) (earlier : List (Delivery α))
    (latest : Delivery α) :
    replay start (earlier ++ [latest]) =
      some (((replay start earlier).getD empty).absorb latest.page latest.window) := by
  rw [replay, List.foldl_append, List.foldl_cons, List.foldl_nil, merge_some]
  rfl

/-- Nothing is learned from no deliveries only. -/
theorem replay_eq_none_iff {deliveries : List (Delivery α)} :
    replay none deliveries = none ↔ deliveries = [] := by
  rcases deliveries.eq_nil_or_concat with rfl | ⟨earlier, latest, rfl⟩
  · simp [replay]
  · simp [replay_concat]

/-- The item at a position, if there is a snapshot and it has one there. -/
def itemAt? (snapshot : Option (Snapshot α)) (position : Nat) : Option α :=
  snapshot.bind fun present => present.get? position

theorem get?_getD_empty (snapshot : Option (Snapshot α)) (position : Nat) :
    (snapshot.getD empty).get? position = itemAt? snapshot position := by
  cases snapshot <;> rfl

theorem total_getD_empty (snapshot : Option (Snapshot α)) :
    (snapshot.getD empty).total = snapshot.bind Snapshot.total := by
  cases snapshot <;> rfl

/-- A merge replaces what was known of a position by what the page says of it. -/
theorem get?_absorb (base : Snapshot α) {delivery : Delivery α} (hfits : delivery.Fits)
    (position : Nat) :
    (base.absorb delivery.page delivery.window).get? position =
      (delivery.ruling? position).getD (base.get? position) := by
  unfold get? absorb Delivery.ruling?
  cases hitems : delivery.page.items with
  | none => rfl
  | some items =>
      simp only
      rw [join_getElem?_mergeItems base.items (hfits items hitems) position]
      split
      · rfl
      · split <;> rfl

/-- What holds of no items, and what every delivery of a history preserves, holds of
the list that is learned from the history. -/
theorem replay_induction {motive : Snapshot α → Prop} (hempty : motive empty)
    {deliveries : List (Delivery α)}
    (hstep : ∀ delivery ∈ deliveries, ∀ base, motive base →
      motive (base.absorb delivery.page delivery.window)) :
    ∀ snapshot ∈ replay none deliveries, motive snapshot := by
  induction deliveries using List.reverseRecOn with
  | nil => nofun
  | append_singleton earlier latest ih =>
      have hearlier := ih fun delivery hmem => hstep delivery (by simp [hmem])
      have hbase : motive ((replay none earlier).getD empty) := by
        cases hreplay : replay none earlier with
        | none => exact hempty
        | some base => exact hearlier base hreplay
      intro snapshot hsnapshot
      rw [replay_concat, Option.mem_some_iff] at hsnapshot
      exact hsnapshot ▸ hstep latest (by simp) _ hbase

theorem itemAt?_replay (start : Option (Snapshot α)) {deliveries : List (Delivery α)}
    (hfits : ∀ delivery ∈ deliveries, delivery.Fits) (position : Nat) :
    itemAt? (replay start deliveries) position =
      (deliveries.reverse.findSome? (·.ruling? position)).getD (itemAt? start position) := by
  induction deliveries using List.reverseRecOn with
  | nil => rfl
  | append_singleton earlier latest ih =>
      have hearlier := ih fun delivery hmem => hfits delivery (by simp [hmem])
      have hlatest := get?_absorb ((replay start earlier).getD empty)
        (hfits latest (by simp)) position
      rw [replay_concat, itemAt?, Option.bind_some, hlatest, get?_getD_empty, hearlier,
        List.reverse_append, List.reverse_singleton, List.singleton_append,
        List.findSome?_cons]
      cases latest.ruling? position <;> rfl

theorem total_replay (start : Option (Snapshot α)) (deliveries : List (Delivery α)) :
    (replay start deliveries).bind Snapshot.total =
      (deliveries.reverse.findSome? (·.page.total)).or (start.bind Snapshot.total) := by
  induction deliveries using List.reverseRecOn with
  | nil => rfl
  | append_singleton earlier latest ih =>
      rw [replay_concat, Option.bind_some, absorb, total_getD_empty, ih,
        List.reverse_append, List.reverse_singleton, List.singleton_append,
        List.findSome?_cons]
      cases latest.page.total <;> rfl

theorem passthrough_replay (start : Option (Snapshot α)) (deliveries : List (Delivery α)) :
    (replay start deliveries).map Snapshot.passthrough =
      (deliveries.getLast?.map (·.page.passthrough)).or
        (start.map Snapshot.passthrough) := by
  induction deliveries using List.reverseRecOn with
  | nil => rfl
  | append_singleton earlier latest _ =>
      rw [replay_concat, List.getLast?_concat]
      rfl

/-- **The latest word on a position wins.**  After any history, an item is found by
asking the deliveries from the last one back, then the snapshot before them; the total
is the last one reported, and the other properties are those of the last delivery. -/
theorem replay_eq_latest (start : Option (Snapshot α)) (deliveries : List (Delivery α))
    (hfits : ∀ delivery ∈ deliveries, delivery.Fits) :
    (∀ position, itemAt? (replay start deliveries) position =
        (deliveries.reverse.findSome? (·.ruling? position)).getD (itemAt? start position)) ∧
      (replay start deliveries).bind Snapshot.total =
        (deliveries.reverse.findSome? (·.page.total)).or (start.bind Snapshot.total) ∧
      (replay start deliveries).map Snapshot.passthrough =
        (deliveries.getLast?.map (·.page.passthrough)).or
          (start.map Snapshot.passthrough) :=
  ⟨itemAt?_replay start hfits, total_replay start deliveries,
    passthrough_replay start deliveries⟩

/-- A page of three items, a count, and a short page over the second item. -/
def shrinkingList : List (Delivery Nat) :=
  [⟨⟨0, 3⟩, ⟨some [10, 11, 12], some 9, []⟩⟩,
   ⟨⟨0, 0⟩, ⟨none, some 0, []⟩⟩,
   ⟨⟨1, 4⟩, ⟨some [21], none, [("page", .ofNat 2)]⟩⟩]

theorem replay_eq_latest_shrinkingList :
    (∀ delivery ∈ shrinkingList, delivery.Fits) ∧
      (itemAt? (replay none shrinkingList) 0 = some 10 ∧
        itemAt? (replay none shrinkingList) 1 = some 21 ∧
          itemAt? (replay none shrinkingList) 2 = none) ∧
      (replay none shrinkingList).bind Snapshot.total = some 0 ∧
        (replay none shrinkingList).map Snapshot.passthrough =
          some [("page", .ofNat 2)] := by
  have hfits : ∀ delivery ∈ shrinkingList, delivery.Fits := by
    simp [shrinkingList, Delivery.Fits, Window.maxPosition]
  obtain ⟨hitems, htotal, hpassthrough⟩ := replay_eq_latest none shrinkingList hfits
  exact ⟨hfits, ⟨hitems 0, hitems 1, hitems 2⟩, htotal, hpassthrough⟩

end Snapshot

end PagedCache
