import PagedCache.Proofs.Snapshot.Merge
import PagedCache.Cache

/-!
# Reading a window

The part of a snapshot inside a window, and when it answers the window completely.
No snapshot goes on behind the last position, so a window that would end behind it can
be read as if positions went on.
-/

namespace PagedCache

variable {α : Type}

namespace Snapshot

theorem items_slice {snapshot : Snapshot α} (window : Window)
    (hstop : snapshot.length ≤ Window.maxPosition ∨
      window.offset + window.limit ≤ Window.maxPosition) :
    (snapshot.slice window).items =
      (snapshot.items.drop window.offset).take window.limit := by
  by_cases hoffset : window.offset ≤ snapshot.items.length
  · have hstart : min window.offset snapshot.length = window.offset := min_eq_left hoffset
    simp only [slice, hstart]
    rw [List.take_eq_take_iff, List.length_drop]
    simp only [Window.stop, length] at hstop ⊢
    omega
  · have hbehind : snapshot.items.length ≤ window.offset := (not_le.mp hoffset).le
    have hstart : min window.offset snapshot.length = snapshot.items.length :=
      min_eq_right hbehind
    simp only [slice, hstart, List.drop_length, List.drop_eq_nil_of_le hbehind,
      List.take_nil]

theorem missingTail_eq_false_iff {snapshot : Snapshot α} {window : Window} :
    snapshot.missingTail window = false ↔
      window.limit = 0 ∨ window.stop ≤ snapshot.length ∨
        ∃ total ∈ snapshot.total, total ≤ snapshot.length := by
  unfold missingTail
  by_cases hshort : window.limit = 0 ∨ window.stop ≤ snapshot.length
  · rw [if_pos hshort]
    simpa using hshort.elim .inl fun hstop => .inr (.inl hstop)
  · rw [if_neg hshort]
    obtain ⟨hlimit, hstop⟩ := not_or.mp hshort
    cases snapshot.total with
    | none => simp [hlimit, hstop]
    | some total =>
        simp [hlimit, hstop, not_le.mp hstop]

theorem get?_eq_some_iff {snapshot : Snapshot α} {position : Nat} {item : α} :
    snapshot.get? position = some item ↔ snapshot.items[position]? = some (some item) :=
  Option.join_eq_some_iff

theorem get?_eq_none_of_length_le {snapshot : Snapshot α} {position : Nat}
    (hposition : snapshot.length ≤ position) : snapshot.get? position = none := by
  rw [get?, List.getElem?_eq_none hposition]
  rfl

theorem hasHoles_eq_false_iff {snapshot : Snapshot α} :
    snapshot.hasHoles = false ↔ none ∉ snapshot.items := by
  simp only [hasHoles, List.any_eq_false, Option.isNone_iff_eq_none]
  constructor
  · intro hnever hmem
    exact hnever none hmem rfl
  · rintro hnever item hmem rfl
    exact hnever hmem

/-- A page is read back from its own window, whatever was known before. -/
theorem take_drop_mergeItems (items : List (Option α)) {page : List α} {window : Window}
    (hfits : window.offset + page.length ≤ Window.maxPosition)
    (hlimit : page.length ≤ window.limit) :
    ((mergeItems items page window).drop window.offset).take window.limit =
      page.map some := by
  rw [mergeItems_of_fits items hfits]
  by_cases hpage : page = []
  · subst hpage
    by_cases hshort : window.limit = 0
    · simp [hshort]
    · have hnonzero : ([] : List α).length < window.limit := Nat.pos_of_ne_zero hshort
      rw [if_pos hnonzero]
      simp
  · have hwritten : (overlay items window.offset page).drop window.offset =
        page.map some ++ items.drop (window.offset + page.length) := by
      rw [overlay_of_ne_nil items window.offset hpage, List.append_assoc]
      exact List.drop_left' (length_padTo items window.offset)
    by_cases hshort : page.length < window.limit
    · rw [if_pos hshort, List.drop_take, hwritten, Nat.add_sub_cancel_left,
        List.take_left' (List.length_map _), List.take_of_length_le (by simpa using hlimit)]
    · rw [if_neg hshort, hwritten]
      exact List.take_left' (by simpa using le_antisymm hlimit (not_lt.mp hshort))

theorem length_mergeItems (items : List (Option α)) {page : List α} {window : Window}
    (hfits : window.offset + page.length ≤ Window.maxPosition) :
    (mergeItems items page window).length =
      if page.length < window.limit then
        min (window.offset + page.length) (overlay items window.offset page).length
      else (overlay items window.offset page).length := by
  rw [mergeItems_of_fits items hfits, apply_ite List.length, List.length_take]

end Snapshot

namespace Cache

theorem answer_eq_complete_iff {snapshot part : Snapshot α} {window : Window} :
    answer snapshot window = .complete part ↔
      part = snapshot.slice window ∧ snapshot.missingTail window = false ∧
        none ∉ (snapshot.slice window).items := by
  rw [← Snapshot.hasHoles_eq_false_iff]
  unfold answer
  by_cases hmissing : (snapshot.missingTail window || (snapshot.slice window).hasHoles) = true
  · rw [if_pos hmissing]
    simp only [reduceCtorEq, false_iff]
    rintro ⟨-, htail, hholes⟩
    simp [htail, hholes] at hmissing
  · rw [if_neg hmissing, Reading.complete.injEq, eq_comm]
    rw [Bool.or_eq_true, not_or, Bool.not_eq_true, Bool.not_eq_true] at hmissing
    simp [hmissing]

/-- A complete answer leaves no position of its window unknown that the list may
have. -/
theorem exists_get?_of_complete {snapshot part : Snapshot α} {window : Window}
    (hcomplete : answer snapshot window = .complete part) {position : Nat}
    (hstart : window.offset ≤ position) (hstop : position < window.offset + window.limit)
    (hposition : position < Window.maxPosition)
    (htotal : ∀ total ∈ snapshot.total, position < total) :
    ∃ item, snapshot.get? position = some item := by
  obtain ⟨-, htail, hholes⟩ := answer_eq_complete_iff.mp hcomplete
  have hinside : position < window.stop := lt_min hstop hposition
  have hlength : position < snapshot.items.length := by
    rcases Snapshot.missingTail_eq_false_iff.mp htail with hlimit | hend | ⟨total, hsome, hend⟩
    · omega
    · exact hinside.trans_le hend
    · exact (htotal total hsome).trans_le hend
  cases hslot : snapshot.items[position] with
  | some item =>
      refine ⟨item, Snapshot.get?_eq_some_iff.mpr ?_⟩
      rw [List.getElem?_eq_getElem hlength, hslot]
  | none =>
      refine absurd (List.mem_iff_getElem?.mpr ⟨position - window.offset, ?_⟩) hholes
      simp only [Snapshot.slice, Snapshot.length]
      rw [List.getElem?_take_of_lt (by omega), List.getElem?_drop,
        Nat.min_eq_left (by omega), Nat.add_sub_cancel' hstart,
        List.getElem?_eq_getElem hlength, hslot]

end Cache

end PagedCache
