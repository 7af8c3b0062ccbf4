import PagedCache.Snapshot.Words
import PagedCache.Proofs.Snapshot.Slice

/-!
# Words of a machine are enough

No list in memory is so long that a word could not count its items.  Therefore reading and
merging with words give what they give with natural numbers, and every part of a list that they
ask for is in range.
-/

namespace PagedCache

variable {α β : Type}

namespace WordWindow

/-- The window with the numbers that the words stand for. -/
def exact (window : WordWindow) : Window :=
  ⟨window.offset.toNat, window.limit.toNat⟩

/-! ## Sums and lengths -/

theorem toNat_le_maxPosition (word : UInt64) : word.toNat ≤ Window.maxPosition := by
  have hword := word.toNat_lt
  simp only [Window.maxPosition]
  omega

/-- A sum wraps around exactly if it is less than what it was begun with. -/
theorem add_lt_left_iff (left right : UInt64) :
    left + right < left ↔ Window.maxPosition < left.toNat + right.toNat := by
  have hleft := left.toNat_lt
  have hright := right.toNat_lt
  rw [UInt64.lt_iff_toNat_lt, UInt64.toNat_add]
  simp only [Window.maxPosition]
  omega

theorem toNat_add_of_le {left right : UInt64}
    (hsum : left.toNat + right.toNat ≤ Window.maxPosition) :
    (left + right).toNat = left.toNat + right.toNat := by
  rw [UInt64.toNat_add]
  simp only [Window.maxPosition] at hsum
  omega

theorem toNat_saturatingAdd (left right : UInt64) :
    (saturatingAdd left right).toNat = min (left.toNat + right.toNat) Window.maxPosition := by
  unfold saturatingAdd
  by_cases hwraps : left + right < left
  · rw [if_pos hwraps]
    exact (min_eq_right ((add_lt_left_iff left right).mp hwraps).le).symm
  · have hsum := not_lt.mp (mt (add_lt_left_iff left right).mpr hwraps)
    rw [if_neg hwraps, toNat_add_of_le hsum, min_eq_left hsum]

theorem checkedAdd?_of_le {left right : UInt64}
    (hsum : left.toNat + right.toNat ≤ Window.maxPosition) :
    checkedAdd? left right = some (left + right) :=
  if_neg fun hwraps => hsum.not_gt ((add_lt_left_iff left right).mp hwraps)

theorem checkedAdd?_of_lt {left right : UInt64}
    (hsum : Window.maxPosition < left.toNat + right.toNat) : checkedAdd? left right = none :=
  if_pos ((add_lt_left_iff left right).mpr hsum)

theorem toNat_ofNat_of_le {number : Nat} (hnumber : number ≤ Window.maxPosition) :
    (UInt64.ofNat number).toNat = number := by
  apply UInt64.toNat_ofNat_of_lt
  simp only [Window.maxPosition] at hnumber
  simp only [UInt64.size]
  omega

theorem toNat_lengthOf {items : List β} (hlength : items.length ≤ Window.maxPosition) :
    (lengthOf items).toNat = items.length :=
  toNat_ofNat_of_le hlength

theorem toNat_stop (window : WordWindow) : window.stop.toNat = window.exact.stop :=
  toNat_saturatingAdd window.offset window.limit

/-! ## Parts of lists -/

theorem range_of_le {items : List β} {start stop : UInt64} (hstart : start.toNat ≤ stop.toNat)
    (hstop : stop.toNat ≤ items.length) :
    range items start stop =
      .ok ((items.drop start.toNat).take (stop.toNat - start.toNat)) :=
  if_pos ⟨UInt64.le_iff_toNat_le.mpr hstart, hstop⟩

theorem fill_eq_of_length {slots values : List β} (hlength : values.length = slots.length) :
    fill slots values = values := by
  induction slots generalizing values with
  | nil =>
      obtain rfl := List.length_eq_zero_iff.mp hlength
      rfl
  | cons slot slots ih =>
      cases values with
      | nil => cases hlength
      | cons value values => rw [fill, ih (Nat.succ_inj.mp hlength)]

theorem fillRange_of_le {items values : List β} {start stop : UInt64}
    (hstop : start.toNat + values.length = stop.toNat) (hlength : stop.toNat ≤ items.length) :
    fillRange items start stop values =
      .ok (items.take start.toNat ++ values ++ items.drop stop.toNat) := by
  have hstart : start.toNat ≤ stop.toNat := by omega
  have hslots : values.length =
      ((items.drop start.toNat).take (stop.toNat - start.toNat)).length := by
    rw [List.length_take, List.length_drop]
    omega
  simp only [fillRange, range_of_le hstart hlength, bind, Except.bind, pure, Except.pure,
    fill_eq_of_length hslots]

section Grow

variable {items : List (Option α)} {stop : UInt64}

theorem length_grow (hlength : items.length ≤ Window.maxPosition) :
    (grow items stop).length = max items.length stop.toNat := by
  unfold grow
  rw [apply_ite List.length, List.length_append, List.length_replicate]
  simp only [UInt64.lt_iff_toNat_lt, toNat_lengthOf hlength]
  split_ifs with hshort <;> omega

theorem take_grow (hlength : items.length ≤ Window.maxPosition) {offset : Nat}
    (hoffset : offset ≤ stop.toNat) :
    (grow items stop).take offset = Snapshot.padTo items offset := by
  unfold grow Snapshot.padTo
  simp only [UInt64.lt_iff_toNat_lt, toNat_lengthOf hlength]
  split_ifs with hshort
  · rw [List.take_append, List.take_replicate]
    congr 2
    omega
  · have hnone : offset - items.length = 0 := by omega
    rw [hnone, List.replicate_zero, List.append_nil]

theorem drop_grow (hlength : items.length ≤ Window.maxPosition) :
    (grow items stop).drop stop.toNat = items.drop stop.toNat := by
  unfold grow
  simp only [UInt64.lt_iff_toNat_lt, toNat_lengthOf hlength]
  split_ifs with hshort
  · rw [List.drop_eq_nil_of_le hshort.le, List.drop_eq_nil_of_le]
    rw [List.length_append, List.length_replicate]
    omega
  · rfl

end Grow

/-! ## Reading and merging -/

theorem missingTail_eq {list : Snapshot α} (hlength : list.length ≤ Window.maxPosition)
    (htotal : ∀ total ∈ list.total, total ≤ Window.maxPosition) (window : WordWindow) :
    window.missingTail list = list.missingTail window.exact := by
  have hlimit : window.limit = 0 ↔ window.exact.limit = 0 := UInt64.toNat_inj.symm
  have hstop : window.stop ≤ lengthOf list.items ↔ window.exact.stop ≤ list.length := by
    rw [UInt64.le_iff_toNat_le, toNat_stop, toNat_lengthOf hlength]
    rfl
  unfold missingTail Snapshot.missingTail
  simp only [hlimit, hstop]
  cases hknown : list.total with
  | none => rfl
  | some total =>
      have hbound := toNat_ofNat_of_le (htotal total hknown)
      simp only [UInt64.lt_iff_toNat_lt, UInt64.toNat_min, toNat_stop, hbound,
        toNat_lengthOf hlength]
      rfl

theorem read_eq {existing : Option (Snapshot α)}
    (hlength : ∀ list ∈ existing, list.length ≤ Window.maxPosition) (window : WordWindow) :
    window.read existing = .ok (Snapshot.read existing window.exact) := by
  cases existing with
  | none => rfl
  | some list =>
      have hlist := hlength list rfl
      have hstart : (min window.offset (lengthOf list.items)).toNat =
          min window.offset.toNat list.length := by
        rw [UInt64.toNat_min, toNat_lengthOf hlist]
        rfl
      have hstop : (min window.stop (lengthOf list.items)).toNat =
          min window.exact.stop list.length := by
        rw [UInt64.toNat_min, toNat_lengthOf hlist, toNat_stop]
        rfl
      have hoffset : window.exact.offset ≤ window.exact.stop :=
        le_min (Nat.le_add_right _ _) (toNat_le_maxPosition window.offset)
      have hordered : (min window.offset (lengthOf list.items)).toNat ≤
          (min window.stop (lengthOf list.items)).toNat := by
        rw [hstart, hstop]
        exact min_le_min_right _ hoffset
      have hwithin : (min window.stop (lengthOf list.items)).toNat ≤ list.items.length :=
        hstop.trans_le (min_le_right _ _)
      simp only [read, range_of_le hordered hwithin, bind, Except.bind, hstart, hstop]
      rfl

theorem cover_eq {items : List (Option α)} (hlength : items.length ≤ Window.maxPosition)
    {page : List α} (hpage : page.length ≤ Window.maxPosition) {offset stop : UInt64}
    (hstop : stop.toNat = offset.toNat + page.length) :
    cover items offset stop page = .ok (Snapshot.overlay items offset.toNat page) := by
  have hpositive : 0 < lengthOf page ↔ 0 < page.length := by
    rw [UInt64.lt_iff_toNat_lt, toNat_lengthOf hpage]
    rfl
  simp only [cover, hpositive, List.length_pos_iff]
  by_cases hnil : page = []
  · subst hnil
    rfl
  · have hgrown : stop.toNat ≤ (grow items stop).length := by
      rw [length_grow hlength]
      exact le_max_right _ _
    rw [if_pos hnil, fillRange_of_le (by rw [List.length_map, hstop]) hgrown,
      take_grow hlength (by omega), drop_grow hlength, hstop,
      Snapshot.overlay_of_ne_nil items offset.toNat hnil]

theorem mergeItems_eq {items : List (Option α)} (hlength : items.length ≤ Window.maxPosition)
    {page : List α} (hpage : page.length ≤ Window.maxPosition) (window : WordWindow) :
    window.mergeItems items page = .ok (Snapshot.mergeItems items page window.exact) := by
  have hwritten := toNat_lengthOf hpage
  by_cases hfits : window.offset.toNat + page.length ≤ Window.maxPosition
  · have hsum : window.offset.toNat + (lengthOf page).toNat ≤ Window.maxPosition := by
      rwa [hwritten]
    have hstop : (window.offset + lengthOf page).toNat = window.offset.toNat + page.length := by
      rw [toNat_add_of_le hsum, hwritten]
    rw [Snapshot.mergeItems_of_fits items hfits]
    simp only [mergeItems, checkedAdd?_of_le hsum, cover_eq hlength hpage hstop, bind,
      Except.bind, pure, Except.pure, UInt64.lt_iff_toNat_lt, hwritten, hstop]
    rfl
  · have hsum : Window.maxPosition < window.offset.toNat + (lengthOf page).toNat := by
      rw [hwritten]
      exact not_le.mp hfits
    have hstop : window.exact.pageStop page.length =
        .error (.windowOverflow window.offset.toNat page.length) := if_neg hfits
    simp only [mergeItems, checkedAdd?_of_lt hsum, Snapshot.mergeItems, hstop]

theorem merge_eq {existing : Option (Snapshot α)}
    (hlength : ∀ list ∈ existing, list.length ≤ Window.maxPosition)
    {incoming : Option (Page α)}
    (hpage : ∀ items ∈ incoming.bind Page.items, items.length ≤ Window.maxPosition)
    (window : WordWindow) :
    window.merge existing incoming = .ok (Snapshot.merge existing incoming window.exact) := by
  cases incoming with
  | none => rfl
  | some page =>
      have hbase : (existing.getD .empty).items.length ≤ Window.maxPosition := by
        cases existing with
        | none => exact Nat.zero_le _
        | some list => exact hlength list rfl
      cases hitems : page.items with
      | none =>
          simp only [merge, hitems, Snapshot.merge]
          rfl
      | some items =>
          have hmerged := mergeItems_eq hbase (hpage items hitems) window
          simp only [merge, hitems, hmerged, Snapshot.merge]
          rfl

/-! ## Exact arithmetic -/

/-- In numbers without a bound: whether a window reaches over the end of a list into positions
that the list may have. -/
theorem missingTail_exact_iff {list : Snapshot α} (hlength : list.length < Window.maxPosition)
    (window : Window) :
    list.missingTail window ↔
      0 < window.limit ∧ list.length < window.offset + window.limit ∧
        ∀ total ∈ list.total, list.length < min (window.offset + window.limit) total := by
  have hstop : window.stop ≤ list.length ↔ window.offset + window.limit ≤ list.length := by
    simp only [Window.stop]
    omega
  rw [← Bool.not_eq_false, Snapshot.missingTail_eq_false_iff, hstop, not_or, not_or, not_le,
    Nat.pos_iff_ne_zero]
  refine and_congr_right fun _ => and_congr_right fun hend => ?_
  simp only [not_exists, not_and, not_le, lt_min_iff, hend, true_and]

/-- **The words of a machine never show.**  Let a list be no longer than lists in memory can be,
and its total, a window, and the end of a page be words.  Then reading and merging ask for no part
of a list that is out of range.  What is read is what remains of the items if as many as the
offset are dropped and as many as the limit are taken.  Merging puts the page where it belongs,
and whether something is missing behind the list is decided as with numbers without a bound. -/
theorem read_and_merge_eq_exact (list : Snapshot α) (hlength : list.length < 2 ^ 63)
    (htotal : ∀ total ∈ list.total, total < 2 ^ 64) (window : WordWindow) (page : Page α)
    (hpage : ∀ items ∈ page.items, window.offset.toNat + items.length < 2 ^ 64) :
    (∃ part, window.read (some list) = .ok (some part) ∧
        Snapshot.read (some list) window.exact = some part ∧
        part.items = (list.items.drop window.offset.toNat).take window.limit.toNat) ∧
      (∃ merged, window.merge (some list) (some page) = .ok (some merged) ∧
        Snapshot.merge (some list) (some page) window.exact = some merged ∧
        ∀ items ∈ page.items, merged.items =
          if items.length < window.limit.toNat then
            (Snapshot.overlay list.items window.offset.toNat items).take
              (window.offset.toNat + items.length)
          else Snapshot.overlay list.items window.offset.toNat items) ∧
      window.missingTail list = list.missingTail window.exact ∧
      (window.missingTail list ↔
        0 < window.limit.toNat ∧ list.length < window.offset.toNat + window.limit.toNat ∧
          ∀ total ∈ list.total,
            list.length < min (window.offset.toNat + window.limit.toNat) total) := by
  have hlast : Window.maxPosition = 2 ^ 64 - 1 := rfl
  have hcounted : list.length < Window.maxPosition := by omega
  have htotals : ∀ total ∈ list.total, total ≤ Window.maxPosition := by
    intro total hknown
    have hbound := htotal total hknown
    omega
  have hfits : ∀ items ∈ page.items,
      window.offset.toNat + items.length ≤ Window.maxPosition := by
    intro items hitems
    have hbound := hpage items hitems
    omega
  have hheld : ∀ held ∈ some list, held.length ≤ Window.maxPosition := by
    rintro held ⟨⟩
    exact hcounted.le
  have hmissing := missingTail_eq hcounted.le htotals window
  refine ⟨⟨_, read_eq hheld window, rfl, ?_⟩, ⟨_, merge_eq hheld ?_ window, rfl, ?_⟩, hmissing, ?_⟩
  · exact Snapshot.items_slice window.exact (.inl hcounted.le)
  · intro items hitems
    exact (Nat.le_add_left _ _).trans (hfits items hitems)
  · intro items hitems
    have hsome : page.items = some items := hitems
    have hfit : window.exact.offset + items.length ≤ Window.maxPosition := hfits items hitems
    simp only [hsome, Option.getD_some]
    exact Snapshot.mergeItems_of_fits list.items hfit
  · rw [hmissing]
    exact missingTail_exact_iff hcounted window.exact

/-- A window that would end behind the last word, on a list whose total is that word. -/
theorem read_and_merge_eq_exact_lastWord :
    let list : Snapshot Nat := ⟨[some 10, none, some 12], some (2 ^ 64 - 1), []⟩
    let window : WordWindow := ⟨1, maxWord⟩
    let page : Page Nat := ⟨some [21], none, []⟩
    list.length < 2 ^ 63 ∧ (∀ total ∈ list.total, total < 2 ^ 64) ∧
      (∀ items ∈ page.items, window.offset.toNat + items.length < 2 ^ 64) ∧
      window.read (some list) = .ok (some ⟨[none, some 12], some (2 ^ 64 - 1), []⟩) ∧
      window.merge (some list) (some page) =
        .ok (some ⟨[some 10, some 21], some (2 ^ 64 - 1), []⟩) ∧
      window.missingTail list = true := by
  intro list window page
  have hlength : list.length < 2 ^ 63 := by decide
  have htotal : ∀ total ∈ list.total, total < 2 ^ 64 := by
    rintro total ⟨⟩
    decide
  have hpage : ∀ items ∈ page.items, window.offset.toNat + items.length < 2 ^ 64 := by
    rintro items ⟨⟩
    decide
  obtain ⟨⟨part, hread, hslice, hitems⟩, ⟨merged, hmerge, hexact, -⟩, -, hmissing⟩ :=
    read_and_merge_eq_exact list hlength htotal window page hpage
  have hpart : part = ⟨[none, some 12], some (2 ^ 64 - 1), []⟩ := by
    obtain rfl := Option.some.inj hslice
    exact Snapshot.ext (hitems.trans (by decide)) rfl rfl
  refine ⟨hlength, htotal, hpage, ?_, ?_, hmissing.mpr ⟨by decide, by decide, ?_⟩⟩
  · rw [hread, hpart]
  · rw [hmerge, ← hexact]
    rfl
  · rintro total ⟨⟩
    decide

end WordWindow

end PagedCache
