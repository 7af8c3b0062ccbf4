import PagedCache.Proofs.Snapshot.Deliveries

/-!
# Pages in any order

A full page writes its own positions, and extends the list no further than to its end.
So full pages that share no position may arrive in any order: the list is the same in
the end, down to its holes.
-/

namespace PagedCache

variable {α : Type}

namespace Delivery

/-- The page, if the response has one, has as many items as were asked for. -/
def IsFull (delivery : Delivery α) : Prop :=
  ∀ items ∈ delivery.page.items, delivery.window.limit ≤ items.length

theorem covers_iff {delivery : Delivery α} {position : Nat} :
    delivery.Covers position ↔ delivery.window.offset ≤ position ∧
      position < delivery.window.offset + (delivery.page.items.getD []).length := by
  unfold Covers
  cases delivery.page.items with
  | none => simp
  | some items => simp

/-- No position is covered by both deliveries. -/
def Apart (first second : Delivery α) : Prop :=
  ∀ position, first.Covers position → ¬second.Covers position

/-- The deliveries say the same of everything but the items. -/
def SameCaption (first second : Delivery α) : Prop :=
  first.page.total = second.page.total ∧ first.page.passthrough = second.page.passthrough

end Delivery

namespace Snapshot

/-! ## Two pages -/

/-- Lists are the same if they are equally long and know the same of each position. -/
theorem items_ext {left right : List (Option α)} (hlength : left.length = right.length)
    (hknown : ∀ position : Nat, left[position]?.join = right[position]?.join) :
    left = right := by
  apply List.ext_getElem hlength
  intro position hleft hright
  have hslot := hknown position
  rwa [List.getElem?_eq_getElem hleft, List.getElem?_eq_getElem hright, Option.join_some,
    Option.join_some] at hslot

/-- Pages that share no position can be written in either order. -/
theorem overlay_overlay_comm (items : List (Option α)) {first second : Nat}
    {firstPage secondPage : List α}
    (hapart : ∀ position, first ≤ position ∧ position < first + firstPage.length →
      ¬(second ≤ position ∧ position < second + secondPage.length)) :
    overlay (overlay items first firstPage) second secondPage =
      overlay (overlay items second secondPage) first firstPage := by
  apply items_ext
  · simp only [length_overlay]
    split_ifs <;> omega
  · intro position
    simp only [join_getElem?_overlay]
    by_cases hfirst : first ≤ position ∧ position < first + firstPage.length
    · rw [if_pos hfirst, if_neg (hapart position hfirst), if_pos hfirst]
    · rw [if_neg hfirst, if_neg hfirst]

/-- A full page is laid over what was there. -/
theorem items_absorb_of_isFull (base : Snapshot α) {delivery : Delivery α}
    (hfits : delivery.Fits) (hfull : delivery.IsFull) :
    (base.absorb delivery.page delivery.window).items =
      overlay base.items delivery.window.offset (delivery.page.items.getD []) := by
  unfold absorb
  cases hitems : delivery.page.items with
  | none => rfl
  | some items =>
      exact mergeItems_of_full base.items (hfits items hitems) (hfull items hitems)

/-- Two full pages that share no position leave the same items in either order. -/
theorem items_absorb_comm (base : Snapshot α) {first second : Delivery α}
    (hfirstFits : first.Fits) (hsecondFits : second.Fits) (hfirstFull : first.IsFull)
    (hsecondFull : second.IsFull) (hapart : first.Apart second) :
    ((base.absorb first.page first.window).absorb second.page second.window).items =
      ((base.absorb second.page second.window).absorb first.page first.window).items := by
  simp only [items_absorb_of_isFull _ hfirstFits hfirstFull,
    items_absorb_of_isFull _ hsecondFits hsecondFull]
  apply overlay_overlay_comm
  intro position hfirst hsecond
  exact hapart position (Delivery.covers_iff.mpr hfirst) (Delivery.covers_iff.mpr hsecond)

/-- The same with everything else that the snapshot keeps, if the deliveries say the same
of that. -/
theorem absorb_comm (base : Snapshot α) {first second : Delivery α}
    (hfirstFits : first.Fits) (hsecondFits : second.Fits) (hfirstFull : first.IsFull)
    (hsecondFull : second.IsFull) (hapart : first.Apart second)
    (hcaption : first.SameCaption second) :
    (base.absorb first.page first.window).absorb second.page second.window =
      (base.absorb second.page second.window).absorb first.page first.window := by
  have hitems := items_absorb_comm base hfirstFits hsecondFits hfirstFull hsecondFull hapart
  obtain ⟨htotal, hpassthrough⟩ := hcaption
  have hreported : second.page.total.or (first.page.total.or base.total) =
      first.page.total.or (second.page.total.or base.total) := by rw [htotal]
  exact Snapshot.ext hitems hreported hpassthrough.symm

/-! ## Many pages -/

/-- Steps that commute with each other may be taken in any order. -/
theorem foldl_eq_of_perm {σ β : Type} {step : σ → β → σ} {left right : List β}
    (hperm : left.Perm right)
    (hcomm : left.Pairwise fun first second =>
      ∀ state, step (step state first) second = step (step state second) first)
    (start : σ) : left.foldl step start = right.foldl step start := by
  have hsymm : Std.Symm fun first second : β =>
      ∀ state, step (step state first) second = step (step state second) first :=
    ⟨fun _ _ hswap state => (hswap state).symm⟩
  apply hperm.foldl_eq'
  intro first hfirst second hsecond
  exact hcomm.forall_of_forall (fun _ _ _ => rfl) hfirst hsecond

/-- The items after a full delivery. -/
def layItems (items : Option (List (Option α))) (delivery : Delivery α) :
    Option (List (Option α)) :=
  some (overlay (items.getD []) delivery.window.offset (delivery.page.items.getD []))

theorem map_items_replay (start : Option (Snapshot α)) {deliveries : List (Delivery α)}
    (hfits : ∀ delivery ∈ deliveries, delivery.Fits)
    (hfull : ∀ delivery ∈ deliveries, delivery.IsFull) :
    (replay start deliveries).map items =
      deliveries.foldl layItems (start.map items) := by
  induction deliveries using List.reverseRecOn with
  | nil => rfl
  | append_singleton earlier latest ih =>
      have hearlier := ih (fun delivery hmem => hfits delivery (by simp [hmem]))
        (fun delivery hmem => hfull delivery (by simp [hmem]))
      have hbase : ((replay start earlier).getD empty).items =
          ((replay start earlier).map items).getD [] := by
        cases replay start earlier <;> rfl
      rw [replay_concat, Option.map_some, List.foldl_append, List.foldl_cons, List.foldl_nil,
        ← hearlier, items_absorb_of_isFull _ (hfits latest (by simp)) (hfull latest (by simp)),
        hbase]
      rfl

/-- **Full pages that share no position may arrive in any order.**  Replaying the
deliveries in another order leaves the same items, as many and with the same holes.  If
the deliveries also report the same total and carry the same other properties, the whole
snapshot is the same. -/
theorem replay_eq_of_perm (start : Option (Snapshot α)) {left right : List (Delivery α)}
    (hperm : left.Perm right) (hfits : ∀ delivery ∈ left, delivery.Fits)
    (hfull : ∀ delivery ∈ left, delivery.IsFull) (hapart : left.Pairwise Delivery.Apart) :
    (replay start left).map items = (replay start right).map items ∧
      ((∀ first ∈ left, ∀ second ∈ left, first.SameCaption second) →
        replay start left = replay start right) := by
  constructor
  · rw [map_items_replay start hfits hfull,
      map_items_replay start (fun delivery hmem => hfits delivery (hperm.mem_iff.mpr hmem))
        (fun delivery hmem => hfull delivery (hperm.mem_iff.mpr hmem))]
    apply foldl_eq_of_perm hperm
    refine hapart.imp ?_
    intro first second hshared items
    have hswap := overlay_overlay_comm (items.getD [])
      fun position hunder hover =>
        hshared position (Delivery.covers_iff.mpr hunder) (Delivery.covers_iff.mpr hover)
    exact congrArg some hswap
  · intro hcaption
    apply foldl_eq_of_perm hperm
    refine hapart.imp_of_mem ?_
    intro first second hfirst hsecond hshared existing
    have hswap := absorb_comm (existing.getD empty) (hfits first hfirst)
      (hfits second hsecond) (hfull first hfirst) (hfull second hsecond) hshared
      (hcaption first hfirst second hsecond)
    simp only [merge_some, Option.getD_some]
    exact congrArg some hswap

/-- A page behind a gap, one inside the list, one with more items than were asked for,
and an empty one under the first. -/
def scatteredPages : List (Delivery Nat) :=
  [⟨⟨6, 2⟩, ⟨some [60, 61], some 9, []⟩⟩,
   ⟨⟨2, 1⟩, ⟨some [20], some 9, []⟩⟩,
   ⟨⟨3, 1⟩, ⟨some [30, 31], some 9, []⟩⟩,
   ⟨⟨7, 0⟩, ⟨some [], some 9, []⟩⟩]

theorem replay_eq_of_perm_scatteredPages :
    let start : Option (Snapshot Nat) := some ⟨[some 10, none, some 12], some 3, []⟩
    scatteredPages.Perm scatteredPages.reverse ∧
      (∀ delivery ∈ scatteredPages, delivery.Fits) ∧
      (∀ delivery ∈ scatteredPages, delivery.IsFull) ∧
      scatteredPages.Pairwise Delivery.Apart ∧
      (∀ first ∈ scatteredPages, ∀ second ∈ scatteredPages, first.SameCaption second) ∧
      (replay start scatteredPages).map items = some
        [some 10, none, some 20, some 30, some 31, none, some 60, some 61] ∧
      (replay start scatteredPages).map items =
        (replay start scatteredPages.reverse).map items ∧
      replay start scatteredPages = replay start scatteredPages.reverse := by
  intro start
  have hperm : scatteredPages.Perm scatteredPages.reverse := (List.reverse_perm _).symm
  have hfits : ∀ delivery ∈ scatteredPages, delivery.Fits := by
    simp [scatteredPages, Delivery.Fits, Window.maxPosition]
  have hfull : ∀ delivery ∈ scatteredPages, delivery.IsFull := by
    simp [scatteredPages, Delivery.IsFull]
  have hapart : scatteredPages.Pairwise Delivery.Apart := by
    simp only [scatteredPages, List.pairwise_cons, List.Pairwise.nil, List.forall_mem_cons,
      List.not_mem_nil, false_imp_iff, implies_true, and_true, Delivery.Apart,
      Delivery.covers_iff, Option.getD_some, List.length_cons, List.length_nil]
    refine ⟨⟨?_, ?_, ?_⟩, ⟨?_, ?_⟩, ?_⟩ <;> omega
  have hcaption : ∀ first ∈ scatteredPages, ∀ second ∈ scatteredPages,
      first.SameCaption second := by
    simp [scatteredPages, Delivery.SameCaption]
  obtain ⟨hitems, hwhole⟩ := replay_eq_of_perm start hperm hfits hfull hapart
  have hshown : (replay start scatteredPages).map items = some
      [some 10, none, some 20, some 30, some 31, none, some 60, some 61] := by decide +kernel
  exact ⟨hperm, hfits, hfull, hapart, hcaption, hshown, hitems, hwhole hcaption⟩

end Snapshot

end PagedCache
