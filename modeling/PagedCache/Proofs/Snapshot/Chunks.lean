import PagedCache.Proofs.Snapshot.ArrivalOrder

/-!
# A page in chunks

A page can be merged as it is, or in chunks that are merged one after the other.  Every
chunk goes to its own place in the list.  All but the last ask for as many items as they
have, so that they do not end the list; the last one asks for the rest of the window, and
ends the list exactly if the whole page does.
-/

namespace PagedCache

variable {α : Type}

namespace Delivery

/-- Chunks from `offset` on, each behind the one before it.  They ask for no more items
than they have. -/
def consecutive (offset : Nat) (total : Option Nat) (passthrough : Json.Members) :
    List (List α) → List (Delivery α)
  | [] => []
  | chunk :: rest =>
    ⟨⟨offset, chunk.length⟩, ⟨some chunk, total, passthrough⟩⟩ ::
      consecutive (offset + chunk.length) total passthrough rest

/-- The deliveries of a page in chunks, of which the last one asks for what the others
leave of the window. -/
def ofChunks (window : Window) (total : Option Nat) (passthrough : Json.Members)
    (earlier : List (List α)) (last : List α) : List (Delivery α) :=
  consecutive window.offset total passthrough earlier ++
    [⟨⟨window.offset + earlier.flatten.length, window.limit - earlier.flatten.length⟩,
      ⟨some last, total, passthrough⟩⟩]

/-- Behind its first chunk a page goes on as one for the rest of the window. -/
theorem ofChunks_cons (window : Window) (total : Option Nat) (passthrough : Json.Members)
    (chunk : List α) (rest : List (List α)) (last : List α) :
    ofChunks window total passthrough (chunk :: rest) last =
      ⟨⟨window.offset, chunk.length⟩, ⟨some chunk, total, passthrough⟩⟩ ::
        ofChunks ⟨window.offset + chunk.length, window.limit - chunk.length⟩ total
          passthrough rest last := by
  simp only [ofChunks, consecutive, List.flatten_cons, List.length_append, List.cons_append,
    Nat.add_assoc, Nat.sub_sub]

end Delivery

namespace Snapshot

/-! ## Two chunks -/

/-- Writing a page is writing its front, and then its rest behind the front. -/
theorem overlay_append (items : List (Option α)) (offset : Nat) (front rest : List α) :
    overlay items offset (front ++ rest) =
      overlay (overlay items offset front) (offset + front.length) rest := by
  apply items_ext
  · simp only [length_overlay, List.append_eq_nil_iff, List.length_append]
    by_cases hfront : front = []
    · simp [hfront]
    · by_cases hrest : rest = []
      · simp [hfront, hrest]
      · simp only [hfront, hrest, and_self, if_false]
        omega
  · intro position
    simp only [join_getElem?_overlay, List.length_append]
    by_cases hrest : offset + front.length ≤ position ∧
        position < offset + front.length + rest.length
    · rw [if_pos hrest, if_pos (by omega), List.getElem?_append_right (by omega), Nat.sub_sub]
    · rw [if_neg hrest]
      by_cases hfront : offset ≤ position ∧ position < offset + front.length
      · rw [if_pos hfront, if_pos (by omega), List.getElem?_append_left (by omega)]
      · rw [if_neg hfront, if_neg (by omega)]

/-- A page may be cut once, if its front does not fill more than the window.  The front
is full and ends nothing; its rest is short exactly if the page is. -/
theorem mergeItems_append (items : List (Option α)) {window : Window} {front rest : List α}
    (hfits : window.offset + (front ++ rest).length ≤ Window.maxPosition)
    (hlimit : front.length ≤ window.limit) :
    mergeItems (mergeItems items front ⟨window.offset, front.length⟩) rest
        ⟨window.offset + front.length, window.limit - front.length⟩ =
      mergeItems items (front ++ rest) window := by
  have hlength : (front ++ rest).length = front.length + rest.length := List.length_append
  have hfront : window.offset + front.length ≤ Window.maxPosition := by omega
  have hrest : window.offset + front.length + rest.length ≤ Window.maxPosition := by omega
  have hshort : rest.length < window.limit - front.length ↔
      (front ++ rest).length < window.limit := by omega
  have hfull : mergeItems items front ⟨window.offset, front.length⟩ =
      overlay items window.offset front :=
    mergeItems_of_full items hfront le_rfl
  calc
    mergeItems (mergeItems items front ⟨window.offset, front.length⟩) rest
        ⟨window.offset + front.length, window.limit - front.length⟩
      = mergeItems (overlay items window.offset front) rest
          ⟨window.offset + front.length, window.limit - front.length⟩ := by rw [hfull]
    _ = if (front ++ rest).length < window.limit then
          (overlay items window.offset (front ++ rest)).take
            (window.offset + (front ++ rest).length)
        else overlay items window.offset (front ++ rest) := by
      refine (mergeItems_of_fits _ hrest).trans ?_
      rw [← overlay_append, hlength, ← Nat.add_assoc]
      simp only [hshort, hlength]
    _ = mergeItems items (front ++ rest) window := (mergeItems_of_fits items hfits).symm

/-- The same with everything else that the snapshot keeps. -/
theorem absorb_append (base : Snapshot α) {window : Window} {front rest : List α}
    (total : Option Nat) (passthrough : Json.Members)
    (hfits : window.offset + (front ++ rest).length ≤ Window.maxPosition)
    (hlimit : front.length ≤ window.limit) :
    (base.absorb ⟨some front, total, passthrough⟩ ⟨window.offset, front.length⟩).absorb
        ⟨some rest, total, passthrough⟩
        ⟨window.offset + front.length, window.limit - front.length⟩ =
      base.absorb ⟨some (front ++ rest), total, passthrough⟩ window := by
  have hitems := mergeItems_append base.items hfits hlimit
  have htotal : total.or (total.or base.total) = total.or base.total := by
    rw [← Option.or_assoc, Option.or_self]
  exact Snapshot.ext hitems htotal rfl

/-! ## Many chunks -/

/-- **The size of pages does not matter.**  Cut a page into chunks, of which all but the
last have no more items together than the window asks for.  Merging the chunks one after
the other leaves the same snapshot as merging the page at once. -/
theorem replay_ofChunks (existing : Option (Snapshot α)) (window : Window) (page : List α)
    (total : Option Nat) (passthrough : Json.Members) (earlier : List (List α))
    (last : List α) (hpage : page = earlier.flatten ++ last)
    (hfits : window.offset + page.length ≤ Window.maxPosition)
    (hlimit : earlier.flatten.length ≤ window.limit) :
    replay existing (Delivery.ofChunks window total passthrough earlier last) =
      merge existing (some ⟨some page, total, passthrough⟩) window := by
  subst hpage
  -- Behind the first chunk the same is said of the rest of the page, over what the first
  -- chunk left and for the rest of the window.
  induction earlier generalizing existing window with
  | nil => rfl
  | cons chunk rest ih =>
      rw [List.flatten_cons, List.append_assoc] at hfits
      rw [List.flatten_cons, List.length_append] at hlimit
      have hchunk : chunk.length ≤ window.limit := by omega
      have hleft : rest.flatten.length ≤ window.limit - chunk.length := by omega
      have hend : window.offset + chunk.length + (rest.flatten ++ last).length ≤
          Window.maxPosition := by
        rwa [List.length_append, ← Nat.add_assoc] at hfits
      have hrest := ih (merge existing (some ⟨some chunk, total, passthrough⟩)
          ⟨window.offset, chunk.length⟩)
        ⟨window.offset + chunk.length, window.limit - chunk.length⟩ hleft hend
      have hwhole := absorb_append (existing.getD empty) total passthrough hfits hchunk
      rw [Delivery.ofChunks_cons, replay, List.foldl_cons]
      refine hrest.trans ?_
      rw [merge_some, merge_some, merge_some, Option.getD_some, hwhole, List.flatten_cons,
        List.append_assoc]

/-- A short page over a longer list with a hole, in four chunks of which one is empty. -/
theorem replay_ofChunks_shortPage :
    let existing : Snapshot Nat :=
      ⟨[some 10, none, some 12, some 13, some 14, some 15, some 16], some 7, []⟩
    [20, 21, 22, 23] = [[20], [], [21, 22]].flatten ++ [23] ∧
      1 + [20, 21, 22, 23].length ≤ Window.maxPosition ∧
      [[20], [], [21, 22]].flatten.length ≤ 5 ∧
      Delivery.ofChunks ⟨1, 5⟩ none [] [[20], [], [21, 22]] [23] =
        [⟨⟨1, 1⟩, ⟨some [20], none, []⟩⟩, ⟨⟨2, 0⟩, ⟨some [], none, []⟩⟩,
         ⟨⟨2, 2⟩, ⟨some [21, 22], none, []⟩⟩, ⟨⟨4, 2⟩, ⟨some [23], none, []⟩⟩] ∧
      replay (some existing) (Delivery.ofChunks ⟨1, 5⟩ none [] [[20], [], [21, 22]] [23]) =
        some ⟨[some 10, some 20, some 21, some 22, some 23], some 7, []⟩ := by
  intro existing
  have hfits : 1 + [20, 21, 22, 23].length ≤ Window.maxPosition := by decide
  have hwhole := replay_ofChunks (some existing) ⟨1, 5⟩ [20, 21, 22, 23] none []
    [[20], [], [21, 22]] [23] rfl hfits (by decide)
  exact ⟨rfl, hfits, by decide, rfl, hwhole.trans rfl⟩

end Snapshot

end PagedCache
