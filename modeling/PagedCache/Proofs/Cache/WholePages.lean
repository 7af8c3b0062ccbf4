import PagedCache.Proofs.Cache.Procedure
import PagedCache.Proofs.Cache.Settlement
import PagedCache.Proofs.Cache.SlotName

/-!
# Pages are written whole

A page is merged only after it was made sure that it ends at a position, so merging never
drops one, and a snapshot that was taken out is always put back with the page in it.  What
merging would do with a page that has no end cannot be told from what the cache does: here
the ways in which a page could be lost are left open, and the cache is the same for all of
them.
-/

namespace PagedCache

variable {α : Type}

/-- What the snapshot of a list becomes for a response. -/
abbrev Merging (α : Type) := Option (Snapshot α) → Option (Page α) → Window → Option (Snapshot α)

/-- Merging as it should be for all pages that end at a position.  Other pages may be
dropped, or cost the snapshot. -/
def MergesFitting (merging : Merging α) : Prop :=
  ∀ existing incoming window,
    (∀ items ∈ incoming.bind Page.items,
      window.offset + items.length ≤ Window.maxPosition) →
    merging existing incoming window = Snapshot.merge existing incoming window

namespace ListPolicy

/-- `ListPolicy.merge` with any way of merging. -/
def mergeUsing (merging : Merging α) (_policy : ListPolicy) (existing : Option (Snapshot α))
    (incoming : Option (Page α)) (arguments : Arguments) :
    Except CacheError (Option (Snapshot α)) := do
  let window ← Window.ofArguments arguments
  match incoming.bind Page.items with
  | none => pure ()
  | some items => discard (window.pageStop items.length)
  return merging existing incoming window

theorem mergeUsing_merge : mergeUsing (α := α) Snapshot.merge = ListPolicy.merge := rfl

theorem mergeUsing_eq_merge {merging : Merging α} (hmerging : MergesFitting merging)
    (policy : ListPolicy) (existing : Option (Snapshot α)) (incoming : Option (Page α))
    (arguments : Arguments) :
    policy.mergeUsing merging existing incoming arguments =
      policy.merge existing incoming arguments := by
  rw [← mergeUsing_merge]
  apply bind_congr
  intro window
  have hsame := hmerging existing incoming window
  cases hitems : incoming.bind Page.items with
  | none => simp only [hsame (by simp [hitems])]
  | some items =>
      by_cases hfits : window.offset + items.length ≤ Window.maxPosition
      · simp only [hsame (by simpa [hitems] using hfits)]
      · simp only [Window.pageStop, if_neg hfits]
        rfl

/-- A page that ends at a position is merged. -/
theorem merge_eq_of_fits (policy : ListPolicy) (existing : Option (Snapshot α))
    {arguments : Arguments} {window : Window} {page : Page α} {items : List α}
    (hwindow : Window.ofArguments arguments = .ok window) (hitems : page.items = some items)
    (hfits : window.offset + items.length ≤ Window.maxPosition) :
    policy.merge existing (some page) arguments =
      .ok (some ((existing.getD .empty).absorb page window)) := by
  simp only [merge, hwindow, Option.bind_some, hitems, bind, Except.bind,
    Window.pageStop_of_le hfits]
  rfl

end ListPolicy

namespace Procedure

/-- `Procedure.merge` with any way of merging, and with anything done if that leaves no
snapshot. -/
def mergeUsing (merging : Merging α) (lost : Procedure α Unit) (key : SnapshotKey)
    (window : Window) (page : Page α) : Procedure α Unit := do
  let existing ← pop key
  match merging existing (some page) window with
  | none => lost
  | some merged =>
    count fun tally => { tally with merges := tally.merges + 1 }
    countEviction (← push key merged)

/-- `Procedure.write` with any way of merging, and with anything done if that leaves no
snapshot. -/
def writeUsing (merging : Merging α) (lost : Procedure α Unit) (call : Call)
    (incoming : Option (Page α)) : Procedure α Unit := do
  let (_, key) ← check fun cache => cache.locate call
  let window ← check fun _ => Window.ofArguments call.arguments
  match incoming with
  | none => count fun tally => { tally with noops := tally.noops + 1 }
  | some page =>
    match page.items with
    | none => mergeUsing merging lost key window page
    | some items =>
      check fun cache => cache.checkEnd window items
      mergeUsing merging lost key window page

theorem writeUsing_merge : writeUsing (α := α) Snapshot.merge (pure ()) = write := rfl

theorem mergeUsing_merge : mergeUsing (α := α) Snapshot.merge (pure ()) = merge := rfl

theorem check_bind_congr {β γ : Type} {look : Cache α → Except CacheError β}
    {next other : β → Procedure α γ}
    (hnext : ∀ cache value, look cache = .ok value → next value = other value) :
    check look >>= next = check look >>= other := by
  funext cache
  cases hlook : look cache with
  | error error =>
      exact (run_check_bind_of_error hlook).trans (run_check_bind_of_error hlook).symm
  | ok value =>
      have hsame := congrArg (fun procedure => procedure.run cache) (hnext cache value hlook)
      exact (run_check_bind_of_ok hlook).trans (hsame.trans (run_check_bind_of_ok hlook).symm)

theorem mergeUsing_eq_merge {merging : Merging α} (hmerging : MergesFitting merging)
    (lost : Procedure α Unit) (key : SnapshotKey) {window : Window} {page : Page α}
    (hfits : ∀ items ∈ page.items, window.offset + items.length ≤ Window.maxPosition) :
    mergeUsing merging lost key window page = merge key window page := by
  rw [← mergeUsing_merge]
  apply bind_congr
  intro existing
  rw [hmerging existing (some page) window hfits, Snapshot.merge_some]

theorem writeUsing_eq_write {merging : Merging α} (hmerging : MergesFitting merging)
    (lost : Procedure α Unit) (call : Call) (incoming : Option (Page α)) :
    writeUsing merging lost call incoming = write call incoming := by
  rw [← writeUsing_merge]
  apply bind_congr
  rintro ⟨policy, key⟩
  apply bind_congr
  intro window
  cases incoming with
  | none => rfl
  | some page =>
      cases hitems : page.items with
      | none =>
          simp only [hitems]
          apply mergeUsing_eq_merge hmerging
          simp [hitems]
      | some items =>
          simp only [hitems]
          -- Only a page that passed the check of its end gets to merging.
          apply check_bind_congr
          intro cache _ hcheck
          apply mergeUsing_eq_merge hmerging
          intro given hgiven
          rw [hitems] at hgiven
          cases hgiven
          exact (Cache.checkEnd_eq_ok_iff.mp hcheck).1

end Procedure

/-- Every item of a merged page is found at its position. -/
theorem Snapshot.get?_absorb_add (base : Snapshot α) {page : Page α} {window : Window}
    {items : List α} (hitems : page.items = some items)
    (hfits : window.offset + items.length ≤ Window.maxPosition) {index : Nat} {item : α}
    (hitem : items[index]? = some item) :
    (base.absorb page window).get? (window.offset + index) = some item := by
  obtain ⟨hindex, -⟩ := List.getElem?_eq_some_iff.mp hitem
  have hunder : window.offset ≤ window.offset + index ∧
      window.offset + index < window.offset + items.length := by omega
  simp only [get?, absorb, hitems]
  rw [join_getElem?_mergeItems base.items hfits, if_pos hunder, Nat.add_sub_cancel_left, hitem]

namespace Cache

/-- A page for a call that names a list and a window is written, unless it has no end or
its end is behind the bound of the cache. -/
theorem write_page_eq {cache : Cache α} {call : Call} {key : SnapshotKey} {window : Window}
    {page : Page α} {items : List α} (hlocate : cache.locateWindow call = .ok (key, window))
    (hitems : page.items = some items) :
    cache.write call (some page) =
      if Window.maxPosition < window.offset + items.length then
        .error (.windowOverflow window.offset items.length)
      else if cache.maxWindowEnd < window.offset + items.length then
        .error (.windowTooLarge (window.offset + items.length) cache.maxWindowEnd)
      else .ok (cache.mergeAt key window page) := by
  simp only [write, accept, hlocate, Option.bind_some, hitems, checkEnd, Window.pageStop]
  by_cases hposition : window.offset + items.length ≤ Window.maxPosition
  · rw [if_pos hposition, if_neg (not_lt.mpr hposition)]
    by_cases hbound : window.offset + items.length ≤ cache.maxWindowEnd
    · simp only [if_pos hbound, if_neg (not_lt.mpr hbound)]
    · simp only [if_neg hbound, if_pos (not_le.mp hbound)]
  · rw [if_neg hposition, if_pos (not_le.mp hposition)]

/-- **No page is dropped, and none is written in part.**  Let merging do whatever it likes
with pages that do not end at a position, and let anything be done about a snapshot that
gets lost: policies and the cache do the same.  Step by step or at once, a page for a field
with a policy, with a call that names a window, is written exactly if it ends no later than
the bound of the cache, which is a position.  It has no end exactly if that would be behind
the last position, and is too large otherwise.  What is stored is what the policy makes of
the snapshot before, and has every item of the page at its position. -/
theorem write_whole_page (merging : Merging α) (hmerging : MergesFitting merging)
    (lost : Procedure α Unit) (call : Call) (page : Page α) (items : List α)
    (hitems : page.items = some items) :
    (∀ (policy : ListPolicy) (existing : Option (Snapshot α)),
        policy.mergeUsing merging existing (some page) call.arguments =
          policy.merge existing (some page) call.arguments) ∧
      Procedure.writeUsing merging lost call (some page) = Procedure.write call (some page) ∧
      (∀ cache : Cache α, cache.size ≤ cache.capacity →
        (Procedure.write call (some page)).run cache =
          Procedure.settled cache
            ((cache.write call (some page)).map fun next => ((), next))) ∧
      ∀ (cache : Cache α) (policy : ListPolicy) (window : Window),
        cache.registry.require call.typeName call.field = .ok policy →
        Window.ofArguments call.arguments = .ok window →
        cache.maxWindowEnd ≤ Window.maxPosition →
        let stop := window.offset + items.length
        ((∃ next, cache.write call (some page) = .ok next) ↔ stop ≤ cache.maxWindowEnd) ∧
          (cache.write call (some page) =
              .error (.windowOverflow window.offset items.length) ↔
            Window.maxPosition < stop) ∧
          (cache.write call (some page) =
              .error (.windowTooLarge stop cache.maxWindowEnd) ↔
            cache.maxWindowEnd < stop ∧ stop ≤ Window.maxPosition) ∧
          ∀ next, cache.write call (some page) = .ok next →
            ∃ key stored, cache.locate call = .ok (policy, key) ∧
              next.find? key = some stored ∧
              policy.merge (cache.find? key) (some page) call.arguments = .ok (some stored) ∧
              ∀ (index : Nat) (item : α), items[index]? = some item →
                stored.get? (window.offset + index) = some item := by
  refine ⟨?_, ?_, ?_, ?_⟩
  · intro policy existing
    exact policy.mergeUsing_eq_merge hmerging existing (some page) call.arguments
  · exact Procedure.writeUsing_eq_write hmerging lost call (some page)
  · intro cache hroom
    exact Procedure.run_write hroom call (some page)
  · intro cache policy window hpolicy hwindow hbound stop
    obtain ⟨key, hlocate⟩ : ∃ key, cache.locate call = .ok (policy, key) :=
      ⟨_, locate_eq_ok_iff.mpr ⟨hpolicy, rfl⟩⟩
    have hplace : cache.locateWindow call = .ok (key, window) :=
      locateWindow_eq_ok_iff.mpr ⟨policy, hlocate, hwindow⟩
    have hwrite := write_page_eq hplace hitems
    refine ⟨?_, ?_, ?_, ?_⟩
    · rw [hwrite]
      split_ifs <;> simp <;> omega
    · rw [hwrite]
      split_ifs <;> simp <;> omega
    · rw [hwrite]
      split_ifs <;> simp <;> omega
    · intro next hnext
      obtain ⟨hheld, hfits⟩ := find?_of_write hplace hnext
      refine ⟨key, _, hlocate, hheld, ?_, ?_⟩
      · exact policy.merge_eq_of_fits _ hwindow hitems (hfits items hitems)
      · intro index item hitem
        exact Snapshot.get?_absorb_add _ hitems (hfits items hitems) hitem

/-- Merging that loses the snapshot to a page without an end. -/
def losingMerge : Merging Nat := fun existing incoming window =>
  match incoming.bind Page.items with
  | none => Snapshot.merge existing incoming window
  | some items =>
    if window.offset + items.length ≤ Window.maxPosition then
      Snapshot.merge existing incoming window
    else none

/-- A page that ends at the bound of one cache and behind that of another, and one from the
last position on, which has no end. -/
theorem write_whole_page_aroundBound :
    let page : Page Nat := ⟨some [30, 31], none, []⟩
    let call := Console.requestsCall "ws1" 3 2
    let last := Console.requestsCall "ws1" Window.maxPosition 2
    let held : Snapshot Nat := ⟨[some 10], some 9, []⟩
    let cache : Cache Nat :=
      ⟨Console.requestsRegistry, 1, 5, [(Console.requestsKey "ws1", held)], .zero⟩
    let narrow : Cache Nat := { cache with maxWindowEnd := 4 }
    MergesFitting losingMerge ∧ page.items = some [30, 31] ∧ cache.size ≤ cache.capacity ∧
      Procedure.writeUsing losingMerge (modify Cache.clear) last (some page) =
        Procedure.write last (some page) ∧
      cache.write last (some page) = .error (.windowOverflow Window.maxPosition 2) ∧
      narrow.write call (some page) = .error (.windowTooLarge 5 4) ∧
      ∃ next, cache.write call (some page) = .ok next ∧
        (Procedure.write call (some page)).run cache = .ok () next ∧
        next.find? (Console.requestsKey "ws1") =
          some ⟨[some 10, none, none, some 30, some 31], some 9, []⟩ := by
  intro page call last held cache narrow
  have hmerging : MergesFitting losingMerge := by
    intro existing incoming window hfits
    simp only [losingMerge]
    cases hitems : incoming.bind Page.items with
    | none => rfl
    | some items => exact if_pos (hfits items hitems)
  have hroom : cache.size ≤ cache.capacity := by decide
  have hbound : cache.maxWindowEnd ≤ Window.maxPosition := by decide
  have hnarrow : narrow.maxWindowEnd ≤ Window.maxPosition := by decide
  obtain ⟨-, -, hrun, hwrite⟩ := write_whole_page losingMerge hmerging (modify Cache.clear)
    call page [30, 31] rfl
  obtain ⟨-, hsame, -, hlast⟩ := write_whole_page losingMerge hmerging (modify Cache.clear)
    last page [30, 31] rfl
  obtain ⟨hok, -, -, hstored⟩ := hwrite cache Console.requests ⟨3, 2⟩ rfl rfl hbound
  obtain ⟨-, -, htooLarge, -⟩ := hwrite narrow Console.requests ⟨3, 2⟩ rfl rfl hnarrow
  obtain ⟨-, hoverflow, -, -⟩ := hlast cache Console.requests ⟨Window.maxPosition, 2⟩ rfl rfl
    hbound
  obtain ⟨next, hnext⟩ := hok.mpr (by decide)
  obtain ⟨key, stored, hlocate, hheld, hpolicy, -⟩ := hstored next hnext
  obtain rfl : Console.requestsKey "ws1" = key := congrArg Prod.snd (Except.ok.inj hlocate)
  have hdone := hrun cache hroom
  rw [hnext] at hdone
  refine ⟨hmerging, rfl, hroom, hsame, hoverflow.mpr (by decide), htooLarge.mpr (by decide),
    next, hnext, hdone, ?_⟩
  rw [hheld, ← Except.ok.inj hpolicy]
  rfl

end Cache

end PagedCache
