import PagedCache.Proofs.Cache.KeyHistory
import PagedCache.Proofs.Snapshot.Slice

/-!
# The server's own list

If every response tells the truth about one list for each key, then snapshots hold
parts of these lists, whatever the order in which pages arrive, and a complete answer
is the part of the list that the server itself would give.
-/

namespace PagedCache

variable {α : Type}

/-- The list that a server keeps under a key.  Its length is a position, as is every
length that a response reports. -/
structure ServerList (α : Type) where
  items : List α
  representable : items.length ≤ Window.maxPosition

namespace ServerList

/-- The items of the list inside a window. -/
def page (list : ServerList α) (window : Window) : List α :=
  (list.items.drop window.offset).take window.limit

theorem length_page (list : ServerList α) (window : Window) :
    (list.page window).length =
      min window.limit (list.items.length - window.offset) := by
  simp [page]

theorem getElem?_page (list : ServerList α) {window : Window} {position : Nat}
    (hstart : window.offset ≤ position)
    (hstop : position < window.offset + (list.page window).length) :
    (list.page window)[position - window.offset]? = list.items[position]? := by
  rw [length_page] at hstop
  rw [page, List.getElem?_take_of_lt (by omega), List.getElem?_drop,
    Nat.add_sub_cancel' hstart]

end ServerList

/-- The response tells the truth about a list: its items are those inside the window,
and the length that it reports is the length of the list. -/
structure Page.Faithful (response : Page α) (list : ServerList α) (window : Window) :
    Prop where
  items : response.items = none ∨ response.items = some (list.page window)
  total : response.total = none ∨ response.total = some list.items.length

/-- If the operation writes a response, the response tells the truth about the list
under the key that the call names. -/
def Operation.Faithful (server : SnapshotKey → ServerList α) (cache : Cache α) :
    Operation α → Prop
  | .write call (some response) =>
    ∀ key window, cache.locateWindow call = .ok (key, window) →
      response.Faithful (server key) window
  | _ => True

/-- What deliveries that tell the truth about a list make known of it. -/
structure Mirrors (list : ServerList α) (deliveries : List (Delivery α))
    (snapshot : Snapshot α) : Prop where
  length_le : snapshot.length ≤ list.items.length
  known_iff : ∀ position,
    (snapshot.get? position).isSome ↔ ∃ delivery ∈ deliveries, delivery.Covers position
  eq_of_known : ∀ position item,
    snapshot.get? position = some item → list.items[position]? = some item
  total : snapshot.total = none ∨ snapshot.total = some list.items.length

namespace Snapshot

theorem length_absorb_le {base : Snapshot α} {delivery : Delivery α}
    {list : ServerList α} (hfits : delivery.Fits)
    (hfaithful : delivery.page.Faithful list delivery.window)
    (hbase : base.length ≤ list.items.length) :
    (base.absorb delivery.page delivery.window).length ≤ list.items.length := by
  rcases hfaithful.items with hnone | hpage
  · simpa [length, absorb, hnone] using hbase
  have hmerged := length_mergeItems base.items (hfits _ hpage)
  have hwritten := length_overlay base.items delivery.window.offset
    (list.page delivery.window)
  have hlength := list.length_page delivery.window
  simp only [length, absorb, hpage] at hbase ⊢
  by_cases hempty : list.page delivery.window = []
  · rw [if_pos hempty] at hwritten
    split at hmerged <;> omega
  · have hpositive := List.length_pos_iff.mpr hempty
    rw [if_neg hempty] at hwritten
    split at hmerged <;> omega

end Snapshot

/-- At a position that a faithful delivery covers, the list has the item of the page. -/
theorem Delivery.ruling?_of_covers {delivery : Delivery α} {list : ServerList α}
    (hfaithful : delivery.page.Faithful list delivery.window) {position : Nat}
    (hcovers : delivery.Covers position) :
    ∃ item, delivery.ruling? position = some (some item) ∧
      list.items[position]? = some item := by
  obtain ⟨items, hitems, hstart, hstop⟩ := hcovers
  have hpage : items = list.page delivery.window := by
    rcases hfaithful.items with hnone | hpage
    · simp [hnone] at hitems
    · simpa [hpage] using hitems.symm
  subst hpage
  have hposition : position < list.items.length := by
    have hlength := list.length_page delivery.window
    omega
  refine ⟨list.items[position], ?_, List.getElem?_eq_getElem hposition⟩
  rw [Option.mem_def] at hitems
  simp only [ruling?, hitems, hstart, hstop, and_self, if_true]
  rw [list.getElem?_page hstart hstop, List.getElem?_eq_getElem hposition]

/-- A faithful delivery says nothing of the positions that it does not cover, or that
there is no item where the list has none. -/
theorem Delivery.ruling?_of_not_covers {delivery : Delivery α} {list : ServerList α}
    (hfaithful : delivery.page.Faithful list delivery.window) {position : Nat}
    (hcovers : ¬delivery.Covers position) :
    delivery.ruling? position = none ∨
      delivery.ruling? position = some none ∧ list.items.length ≤ position := by
  unfold ruling?
  rcases hfaithful.items with hnone | hpage
  · exact .inl (by rw [hnone])
  have hlength := list.length_page delivery.window
  have hoff : ¬(delivery.window.offset ≤ position ∧
      position < delivery.window.offset + (list.page delivery.window).length) :=
    fun hunder => hcovers ⟨_, hpage, hunder⟩
  simp only [hpage]
  rw [if_neg hoff]
  split
  · exact .inr ⟨rfl, by omega⟩
  · exact .inl rfl

namespace Mirrors

theorem empty (list : ServerList α) : Mirrors list [] (Snapshot.empty : Snapshot α) where
  length_le := Nat.zero_le _
  known_iff := by simp [Snapshot.get?, Snapshot.empty]
  eq_of_known := by simp [Snapshot.get?, Snapshot.empty]
  total := .inl rfl

theorem absorb {list : ServerList α} {deliveries : List (Delivery α)}
    {snapshot : Snapshot α} {delivery : Delivery α}
    (hmirrors : Mirrors list deliveries snapshot) (hfits : delivery.Fits)
    (hfaithful : delivery.page.Faithful list delivery.window) :
    Mirrors list (deliveries ++ [delivery])
      (snapshot.absorb delivery.page delivery.window) := by
  have hget := Snapshot.get?_absorb snapshot hfits
  have hkept : ∀ position, ¬delivery.Covers position →
      (snapshot.absorb delivery.page delivery.window).get? position =
        snapshot.get? position := by
    intro position hcovers
    rw [hget]
    rcases Delivery.ruling?_of_not_covers hfaithful hcovers with hsilent | ⟨habsent, hbehind⟩
    · rw [hsilent, Option.getD_none]
    · rw [habsent, Option.getD_some]
      exact (Snapshot.get?_eq_none_of_length_le (hmirrors.length_le.trans hbehind)).symm
  have hwritten : ∀ position, delivery.Covers position →
      ∃ item, (snapshot.absorb delivery.page delivery.window).get? position = some item ∧
        list.items[position]? = some item := by
    intro position hcovers
    obtain ⟨item, hruling, hitem⟩ := Delivery.ruling?_of_covers hfaithful hcovers
    exact ⟨item, by rw [hget, hruling, Option.getD_some], hitem⟩
  refine ⟨Snapshot.length_absorb_le hfits hfaithful hmirrors.length_le, ?_, ?_, ?_⟩
  · intro position
    simp only [List.mem_append, List.mem_singleton, or_and_right, exists_or,
      exists_eq_left, ← hmirrors.known_iff]
    by_cases hcovers : delivery.Covers position
    · obtain ⟨item, hitem, -⟩ := hwritten position hcovers
      simp [hitem, hcovers]
    · simp [hkept position hcovers, hcovers]
  · intro position item hknown
    by_cases hcovers : delivery.Covers position
    · obtain ⟨written, hitem, hlist⟩ := hwritten position hcovers
      rw [hitem] at hknown
      rwa [← hknown]
    · rw [hkept position hcovers] at hknown
      exact hmirrors.eq_of_known position item hknown
  · rcases hfaithful.total with hnone | hsome
    · simpa [Snapshot.absorb, hnone] using hmirrors.total
    · simp [Snapshot.absorb, hsome]

theorem replay {list : ServerList α} {deliveries : List (Delivery α)}
    (hdeliveries : ∀ delivery ∈ deliveries,
      delivery.Fits ∧ delivery.page.Faithful list delivery.window) :
    Mirrors list deliveries ((Snapshot.replay none deliveries).getD .empty) := by
  induction deliveries using List.reverseRecOn with
  | nil => exact empty list
  | append_singleton earlier latest ih =>
      have hearlier := ih fun delivery hmem => hdeliveries delivery (by simp [hmem])
      obtain ⟨hfits, hfaithful⟩ := hdeliveries latest (by simp)
      rw [Snapshot.replay_concat]
      exact hearlier.absorb hfits hfaithful

/-- A complete answer from a part of a list is what the list has in the window. -/
theorem items_eq_of_complete {list : ServerList α} {deliveries : List (Delivery α)}
    {snapshot part : Snapshot α} {window : Window}
    (hmirrors : Mirrors list deliveries snapshot)
    (hcomplete : Cache.answer snapshot window = .complete part) :
    part.items = (list.page window).map some := by
  have hlength := hmirrors.length_le
  have hrepresentable := list.representable
  obtain ⟨rfl, -, -⟩ := Cache.answer_eq_complete_iff.mp hcomplete
  rw [Snapshot.items_slice window (.inl (hlength.trans hrepresentable))]
  apply List.ext_getElem?
  intro index
  rw [ServerList.page, List.getElem?_map]
  by_cases hindex : index < window.limit
  · rw [List.getElem?_take_of_lt hindex, List.getElem?_take_of_lt hindex,
      List.getElem?_drop, List.getElem?_drop]
    by_cases hend : window.offset + index < list.items.length
    · have htotal : ∀ total ∈ snapshot.total, window.offset + index < total := by
        intro total hsome
        have hsame : total = list.items.length := by
          simpa [Option.mem_def.mp hsome] using hmirrors.total
        exact hsame ▸ hend
      obtain ⟨item, hknown⟩ := Cache.exists_get?_of_complete hcomplete
        (Nat.le_add_right _ index) (Nat.add_lt_add_left hindex _)
        (hend.trans_le hrepresentable) htotal
      rw [Snapshot.get?_eq_some_iff.mp hknown, hmirrors.eq_of_known _ item hknown]
      rfl
    · have hbehind := not_lt.mp hend
      rw [List.getElem?_eq_none hbehind, List.getElem?_eq_none (hlength.trans hbehind)]
      rfl
  · rw [List.getElem?_take, if_neg hindex, List.getElem?_take, if_neg hindex]
    rfl

end Mirrors

namespace Cache

variable {server : SnapshotKey → ServerList α}

theorem faithful_of_mem_deliveriesSince {start : Cache α}
    {operations : List (Operation α)} {delivery : Delivery α} (key : SnapshotKey)
    (hfaithful : ∀ operation ∈ operations, operation.Faithful server start)
    (hmem : delivery ∈ deliveriesSince key start [] operations) :
    delivery.Fits ∧ delivery.page.Faithful (server key) delivery.window := by
  rcases mem_deliveriesSince key hmem with hnever | ⟨operation, hoperation, hdelivery⟩
  · cases hnever
  obtain ⟨call, rfl, haccept⟩ := delivery?_eq_some_iff.mp hdelivery
  obtain ⟨hlocate, hend⟩ := accept_eq_ok_iff.mp haccept
  exact ⟨fun items hitems => (hend items hitems).1,
    hfaithful _ hoperation key delivery.window hlocate⟩

theorem mirrors_run {start : Cache α} {operations : List (Operation α)}
    {key : SnapshotKey} {snapshot : Snapshot α} (hstart : start.find? key = none)
    (hfaithful : ∀ operation ∈ operations, operation.Faithful server start)
    (hheld : (start.run operations).2.find? key = some snapshot) :
    Mirrors (server key) (deliveriesSince key start [] operations) snapshot := by
  have hreplay := Mirrors.replay fun _ hmem =>
    faithful_of_mem_deliveriesSince key hfaithful hmem
  have hrun := find?_run key [] hstart operations
  rwa [← hrun, hheld] at hreplay

/-- **A complete answer is the server's own.**  In a run whose responses all tell the
truth about the server's lists, a snapshot is no longer than the list, a position holds
the item of the list exactly if a delivery covered it since the key was last not held,
and a complete answer has the items of the list in its window, all of them known. -/
theorem items_eq_page_of_read_complete (registry : Registry)
    (maxSnapshots maxWindowEnd : Nat) (server : SnapshotKey → ServerList α)
    (operations : List (Operation α))
    (hfaithful : ∀ operation ∈ operations,
      operation.Faithful server (fresh registry maxSnapshots maxWindowEnd)) :
    let start : Cache α := fresh registry maxSnapshots maxWindowEnd
    let cache := (start.run operations).2
    (∀ key snapshot, cache.find? key = some snapshot →
        snapshot.length ≤ (server key).items.length ∧
          ∀ position,
            (∃ item, snapshot.get? position = some item ∧
                (server key).items[position]? = some item) ↔
              ∃ delivery ∈ deliveriesSince key start [] operations,
                delivery.Covers position) ∧
      ∀ call key window part next, cache.locateWindow call = .ok (key, window) →
        cache.read call = .ok (.complete part, next) →
          part.items = ((server key).page window).map some := by
  intro start cache
  have hmirrors : ∀ key snapshot, cache.find? key = some snapshot →
      Mirrors (server key) (deliveriesSince key start [] operations) snapshot :=
    fun key snapshot hheld => mirrors_run rfl hfaithful hheld
  constructor
  · intro key snapshot hheld
    have hmirror := hmirrors key snapshot hheld
    refine ⟨hmirror.length_le, fun position => ?_⟩
    rw [← hmirror.known_iff position, Option.isSome_iff_exists]
    constructor
    · rintro ⟨item, hknown, -⟩
      exact ⟨item, hknown⟩
    · rintro ⟨item, hknown⟩
      exact ⟨item, hknown, hmirror.eq_of_known position item hknown⟩
  · intro call key window part next hlocate hread
    rw [read_eq_of_locateWindow hlocate, Except.ok.injEq, Prod.mk.injEq] at hread
    have hcomplete := hread.1
    unfold readAt at hcomplete
    cases hheld : cache.find? key with
    | none => simp [hheld] at hcomplete
    | some snapshot =>
        rw [hheld] at hcomplete
        exact (hmirrors key snapshot hheld).items_eq_of_complete hcomplete

/-- Five requests of a workspace. -/
def fiveRequests : ServerList Nat :=
  ⟨[1, 2, 3, 4, 5], by decide⟩

/-- The last page of the five requests, and then the first one without the count. -/
def lastPageFirst : List (Operation Nat) :=
  [.write (Console.requestsCall "ws1" 3 3) (some ⟨some [4, 5], some 5, []⟩),
   .write (Console.requestsCall "ws1" 0 3) (some ⟨some [1, 2, 3], none, []⟩)]

theorem items_eq_page_of_read_complete_lastPageFirst :
    (∀ operation ∈ lastPageFirst, operation.Faithful (fun _ => fiveRequests)
        (fresh Console.requestsRegistry 1 100)) ∧
      ∃ part next, ((fresh Console.requestsRegistry 1 100).run lastPageFirst).2.read
          (Console.requestsCall "ws1" 0 10) = .ok (.complete part, next) ∧
        part.items = [some 1, some 2, some 3, some 4, some 5] := by
  have hfaithful : ∀ operation ∈ lastPageFirst, operation.Faithful (fun _ => fiveRequests)
      (fresh Console.requestsRegistry 1 100) := by
    intro operation hmem
    simp only [lastPageFirst, List.mem_cons, List.not_mem_nil, or_false] at hmem
    rcases hmem with rfl | rfl <;> intro key window hlocate <;>
      rw [Console.locateWindow_requestsCall rfl "ws1" (by decide) (by decide)] at hlocate <;>
        cases hlocate
    · exact ⟨.inr rfl, .inr rfl⟩
    · exact ⟨.inr rfl, .inl rfl⟩
  have hcomplete := (items_eq_page_of_read_complete Console.requestsRegistry 1 100
    (fun _ => fiveRequests) lastPageFirst hfaithful).2
  exact ⟨hfaithful, _, _, rfl, hcomplete (Console.requestsCall "ws1" 0 10)
    (Console.requestsKey "ws1") ⟨0, 10⟩ _ _ rfl rfl⟩

end Cache

end PagedCache
