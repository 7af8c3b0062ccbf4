import PagedCache.Proofs.Cache.ReadBack

/-!
# Reading window by window

A window can be read at once, or in smaller windows one behind the other.  The smaller
ones show the same items, and they are all complete exactly if the whole window is.
-/

namespace PagedCache

variable {α : Type}

/-- Windows from `offset` on, each behind the one before it. -/
def Window.consecutive (offset : Nat) : List Nat → List Window
  | [] => []
  | limit :: rest => ⟨offset, limit⟩ :: consecutive (offset + limit) rest

namespace Snapshot

/-- An empty window shows nothing, wherever it is. -/
theorem items_slice_zero (list : Snapshot α) (offset : Nat) :
    (list.slice ⟨offset, 0⟩).items = [] := by
  simp only [slice, Window.stop, List.take_eq_nil_iff]
  omega

section TwoWindows

variable (list : Snapshot α) {offset first second : Nat}
  (hfits : offset + (first + second) ≤ Window.maxPosition)

include hfits

theorem items_slice_add :
    (list.slice ⟨offset, first + second⟩).items =
      (list.slice ⟨offset, first⟩).items ++ (list.slice ⟨offset + first, second⟩).items := by
  have hfirst : offset + first ≤ Window.maxPosition := by omega
  have hsecond : offset + first + second ≤ Window.maxPosition := by omega
  calc
    (list.slice ⟨offset, first + second⟩).items
      = (list.items.drop offset).take (first + second) := items_slice _ (.inr hfits)
    _ = (list.items.drop offset).take first ++
          (list.items.drop (offset + first)).take second := by
      rw [List.take_add, List.drop_drop]
    _ = (list.slice ⟨offset, first⟩).items ++
          (list.slice ⟨offset + first, second⟩).items := by
      rw [items_slice ⟨offset, first⟩ (.inr hfirst),
        items_slice ⟨offset + first, second⟩ (.inr hsecond)]

theorem hasHoles_slice_add :
    (list.slice ⟨offset, first + second⟩).hasHoles =
      ((list.slice ⟨offset, first⟩).hasHoles ||
        (list.slice ⟨offset + first, second⟩).hasHoles) := by
  simp only [hasHoles, list.items_slice_add hfits, List.any_append]

/-- Whether something is missing behind the list is decided by the last window that asks
for anything, so an empty window at the end does not count. -/
theorem missingTail_add :
    list.missingTail ⟨offset, first + second⟩ = false ↔
      list.missingTail ⟨offset, first⟩ = false ∧
        list.missingTail ⟨offset + first, second⟩ = false := by
  have hfirst : offset + first ≤ Window.maxPosition := by omega
  have hsecond : offset + first + second ≤ Window.maxPosition := by omega
  simp only [missingTail_eq_false_iff, Window.stop, min_eq_left hfits, min_eq_left hfirst,
    min_eq_left hsecond]
  by_cases hended : ∃ total ∈ list.total, total ≤ list.length
  · simp only [hended, or_true, and_self]
  · simp only [hended, or_false]
    omega

end TwoWindows

theorem items_slice_sum (list : Snapshot α) {offset : Nat} {limits : List Nat}
    (hfits : offset + limits.sum ≤ Window.maxPosition) :
    (list.slice ⟨offset, limits.sum⟩).items =
      (Window.consecutive offset limits).flatMap fun window => (list.slice window).items := by
  induction limits generalizing offset with
  | nil => exact list.items_slice_zero offset
  | cons limit rest ih =>
      rw [List.sum_cons] at hfits ⊢
      rw [list.items_slice_add hfits, ih (by rwa [Nat.add_assoc]), Window.consecutive,
        List.flatMap_cons]

end Snapshot

namespace Cache

theorem isComplete_answer_iff {list : Snapshot α} {window : Window} :
    (answer list window).isComplete ↔
      list.missingTail window = false ∧ (list.slice window).hasHoles = false := by
  rw [← Bool.or_eq_false_iff]
  cases hfetch : list.missingTail window || (list.slice window).hasHoles <;>
    simp [answer, hfetch, Reading.isComplete]

theorem isComplete_answer_add (list : Snapshot α) {offset first second : Nat}
    (hfits : offset + (first + second) ≤ Window.maxPosition) :
    (answer list ⟨offset, first + second⟩).isComplete ↔
      (answer list ⟨offset, first⟩).isComplete ∧
        (answer list ⟨offset + first, second⟩).isComplete := by
  simp only [isComplete_answer_iff, list.missingTail_add hfits,
    list.hasHoles_slice_add hfits, Bool.or_eq_false_iff]
  exact and_and_and_comm

theorem isComplete_answer_sum (list : Snapshot α) {offset : Nat} {limits : List Nat}
    (hfits : offset + limits.sum ≤ Window.maxPosition) :
    (answer list ⟨offset, limits.sum⟩).isComplete ↔
      ∀ window ∈ Window.consecutive offset limits, (answer list window).isComplete := by
  induction limits generalizing offset with
  | nil =>
      simp [isComplete_answer_iff, Snapshot.missingTail, Snapshot.hasHoles,
        Snapshot.items_slice_zero, Window.consecutive]
  | cons limit rest ih =>
      rw [List.sum_cons] at hfits ⊢
      rw [isComplete_answer_add list hfits, ih (by rwa [Nat.add_assoc]), Window.consecutive,
        List.forall_mem_cons]

/-! ## Many reads -/

/-- Reads change no list, so each of them answers from the list that was held before
them all. -/
theorem run_reads {start cache : Cache α} (hrules : SameRules cache start)
    {key : SnapshotKey} {list : Snapshot α} (hheld : cache.find? key = some list)
    {calls : List Call} {windows : List Window}
    (hcalls : List.Forall₂ (fun call window => start.locateWindow call = .ok (key, window))
      calls windows) :
    (cache.run (calls.map .read)).1 =
      windows.map fun window => .ok (.reading (answer list window)) := by
  -- A read keeps the rules and every list, so the later reads start from a cache like this one.
  induction hcalls generalizing cache with
  | nil => rfl
  | @cons call window rest later hcall _ ih =>
      have hread := read_eq_of_locateWindow ((hrules.locateWindow_eq call).trans hcall)
      have hreading : cache.readAt key window = answer list window := by
        simp only [readAt, hheld]
      have hperform : cache.perform (.read call) =
          (.ok (.reading (answer list window)),
            { cache.touch key with
              tally := countReading cache.tally (cache.readAt key window) }) := by
        rw [← hreading]
        simp only [perform, settle, hread]
      have hrest := ih ((sameRules_read hread).trans hrules)
        ((find?_of_read hread key).trans hheld)
      simp only [List.map_cons, run, hperform, hrest]

/-- **The size of windows does not matter.**  Read a held list in windows one behind the
other, and before and after that in one window over all of them.  The items of the small
windows are, one after the other, those of the large one.  The total and the other
properties are the same in all.  The large window is answered completely exactly if every
small one is. -/
theorem run_reads_consecutive (cache : Cache α) (key : SnapshotKey) (list : Snapshot α)
    (hheld : cache.find? key = some list) (offset : Nat) (limits : List Nat)
    (hfits : offset + limits.sum ≤ Window.maxPosition) (calls : List Call)
    (hcalls : List.Forall₂ (fun call window => cache.locateWindow call = .ok (key, window))
      calls (Window.consecutive offset limits))
    (whole : Call) (hwhole : cache.locateWindow whole = .ok (key, ⟨offset, limits.sum⟩)) :
    ∃ (reading : Reading (Snapshot α)) (readings : List (Reading (Snapshot α)))
        (part : Snapshot α) (parts : List (Snapshot α)),
      (cache.run ((whole :: calls ++ [whole]).map .read)).1 =
          (reading :: readings ++ [reading]).map (fun reading => .ok (.reading reading)) ∧
        reading.value? = some part ∧ readings.map Reading.value? = parts.map some ∧
        part.items = parts.flatMap Snapshot.items ∧
        (∀ chunk ∈ parts, chunk.total = part.total ∧ chunk.passthrough = part.passthrough) ∧
        (reading.isComplete ↔ ∀ chunk ∈ readings, chunk.isComplete) := by
  let windows := Window.consecutive offset limits
  have hcalls : List.Forall₂ (fun call window => cache.locateWindow call = .ok (key, window))
      (whole :: calls ++ [whole]) (⟨offset, limits.sum⟩ :: windows ++ [⟨offset, limits.sum⟩]) :=
    .cons hwhole (List.rel_append hcalls (.cons hwhole .nil))
  refine ⟨answer list ⟨offset, limits.sum⟩, windows.map (answer list),
    list.slice ⟨offset, limits.sum⟩, windows.map list.slice, ?_, ?_, ?_, ?_, ?_, ?_⟩
  · rw [run_reads (.refl cache) hheld hcalls]
    simp
  · exact value?_answer list _
  · simp [value?_answer]
  · rw [list.items_slice_sum hfits, List.flatMap_map]
  · intro chunk hchunk
    obtain ⟨window, -, rfl⟩ := List.mem_map.mp hchunk
    exact ⟨rfl, rfl⟩
  · rw [isComplete_answer_sum list hfits, List.forall_mem_map]

/-- A hole makes its own window and the large one partial.  The empty window and the one
that reaches over the end of the list are complete. -/
theorem run_reads_consecutive_overHole :
    let key := Console.requestsKey "ws1"
    let list : Snapshot Nat := ⟨[some 10, some 11, none, some 13], some 4, []⟩
    let cache : Cache Nat := ⟨Console.requestsRegistry, 1, 100, [(key, list)], .zero⟩
    let calls := [Console.requestsCall "ws1" 1 1, Console.requestsCall "ws1" 2 0,
      Console.requestsCall "ws1" 2 1, Console.requestsCall "ws1" 3 3]
    let whole := Console.requestsCall "ws1" 1 5
    let reading : Reading (Snapshot Nat) := .partialHit ⟨[some 11, none, some 13], some 4, []⟩
    let readings : List (Reading (Snapshot Nat)) :=
      [.complete ⟨[some 11], some 4, []⟩, .complete ⟨[], some 4, []⟩,
       .partialHit ⟨[none], some 4, []⟩, .complete ⟨[some 13], some 4, []⟩]
    cache.find? key = some list ∧ 1 + [1, 0, 1, 3].sum ≤ Window.maxPosition ∧
      List.Forall₂ (fun call window => cache.locateWindow call = .ok (key, window))
        calls (Window.consecutive 1 [1, 0, 1, 3]) ∧
      cache.locateWindow whole = .ok (key, ⟨1, 5⟩) ∧
      (cache.run ((whole :: calls ++ [whole]).map .read)).1 =
        (reading :: readings ++ [reading]).map (fun reading => .ok (.reading reading)) ∧
      (reading.isComplete ↔ ∀ chunk ∈ readings, chunk.isComplete) := by
  intro key list cache calls whole reading readings
  have hfits : 1 + [1, 0, 1, 3].sum ≤ Window.maxPosition := by decide
  have hcalls : List.Forall₂
      (fun call window => cache.locateWindow call = .ok (key, window))
      calls (Window.consecutive 1 [1, 0, 1, 3]) :=
    .cons rfl (.cons rfl (.cons rfl (.cons rfl .nil)))
  have hshown : (cache.run ((whole :: calls ++ [whole]).map .read)).1 =
      (reading :: readings ++ [reading]).map (fun reading => .ok (.reading reading)) := rfl
  obtain ⟨found, parts, -, -, hrun, -, -, -, -, hcomplete⟩ :=
    run_reads_consecutive cache key list rfl 1 [1, 0, 1, 3] hfits calls hcalls whole rfl
  have hinjective : Function.Injective fun reading : Reading (Snapshot Nat) =>
      (.ok (.reading reading) : Except CacheError (Outcome Nat)) := by
    rintro left right ⟨⟩
    rfl
  have hsame := List.map_injective_iff.mpr hinjective (hshown.symm.trans hrun)
  obtain ⟨rfl, hrest⟩ := List.cons.inj hsame
  obtain rfl := List.append_cancel_right hrest
  exact ⟨rfl, hfits, hcalls, rfl, hshown, hcomplete⟩

end Cache

end PagedCache
