import PagedCache.Proofs.Cache.Requests
import PagedCache.Proofs.Snapshot.ArrivalOrder
import PagedCache.Proofs.Snapshot.Slice

/-!
# Responses that are delivered again

A response that is delivered a second time finds its list in front of all others, as it
left it there.  It says nothing new of any position, and its list has the room that it
needs, so nothing is evicted for it.
-/

namespace PagedCache

variable {α : Type}

namespace Snapshot

/-- A page that was merged decides the same positions in the same way again. -/
theorem mergeItems_mergeItems (items : List (Option α)) {page : List α} {window : Window}
    (hfits : window.offset + page.length ≤ Window.maxPosition) :
    mergeItems (mergeItems items page window) page window = mergeItems items page window := by
  apply items_ext
  · simp only [length_mergeItems _ hfits, length_overlay]
    split_ifs <;> omega
  · intro position
    simp only [join_getElem?_mergeItems _ hfits]
    by_cases hunder : window.offset ≤ position ∧ position < window.offset + page.length
    · rw [if_pos hunder, if_pos hunder]
    · rw [if_neg hunder, if_neg hunder]
      split_ifs <;> rfl

/-- **Merging a response again changes nothing.** -/
theorem absorb_absorb (base : Snapshot α) {page : Page α} {window : Window}
    (hfits : ∀ items ∈ page.items, window.offset + items.length ≤ Window.maxPosition) :
    (base.absorb page window).absorb page window = base.absorb page window := by
  have hitems : ((base.absorb page window).absorb page window).items =
      (base.absorb page window).items := by
    unfold absorb
    cases hlist : page.items with
    | none => rfl
    | some items => exact mergeItems_mergeItems base.items (hfits items hlist)
  have htotal : page.total.or (page.total.or base.total) = page.total.or base.total := by
    rw [← Option.or_assoc, Option.or_self]
  exact Snapshot.ext hitems htotal rfl

end Snapshot

namespace Cache

/-! ## The same list in front -/

theorem others_put (cache : Cache α) (key : SnapshotKey) (snapshot : Snapshot α) :
    (cache.put key snapshot).others key = (cache.others key).take (cache.capacity - 1) := by
  have hkept : ∀ entry ∈ (cache.others key).take (cache.capacity - 1),
      (entry.1 != key) = true := by
    intro entry hentry
    exact (List.mem_filter.mp (List.mem_of_mem_take hentry)).2
  calc
    (cache.put key snapshot).others key
      = ((cache.others key).take (cache.capacity - 1)).filter fun entry => entry.1 != key := by
      simp [put, others]
    _ = (cache.others key).take (cache.capacity - 1) := List.filter_eq_self.mpr hkept

/-- A list that was just put in front can be put there again. -/
theorem hasRoom_put (cache : Cache α) (key : SnapshotKey) (snapshot : Snapshot α) :
    (cache.put key snapshot).HasRoom key := by
  rw [HasRoom, others_put, List.length_take]
  exact (min_le_left _ _).trans_lt (Nat.sub_lt cache.capacity_pos Nat.one_pos)

/-- Merging a page again only counts it again. -/
theorem mergeAt_mergeAt (cache : Cache α) (key : SnapshotKey) {window : Window}
    {page : Page α}
    (hfits : ∀ items ∈ page.items, window.offset + items.length ≤ Window.maxPosition) :
    let next := cache.mergeAt key window page
    next.mergeAt key window page =
      { next with tally := { next.tally with merges := next.tally.merges + 1 } } := by
  intro next
  let merged := ((cache.find? key).getD .empty).absorb page window
  -- The first merge put the list in front, so the second one evicts nothing and moves nothing.
  have hroom : next.HasRoom key := hasRoom_put _ key merged
  have hheld : next.find? key = some merged := find?_mergeAt_self cache key window page
  have hfront : next.snapshots = (key, merged) :: next.others key := by
    have hothers : next.others key = (cache.others key).take (cache.capacity - 1) :=
      others_put _ key merged
    rw [hothers]
    rfl
  have hagain : merged.absorb page window = merged := Snapshot.absorb_absorb _ hfits
  rw [mergeAt_of_hasRoom hroom, hheld, Option.getD_some, hagain, ← hfront]

/-! ## The same response -/

/-- What a write counts: a merge, or that there was no response. -/
def countWrite (tally : Tally) : Option (Page α) → Tally
  | none => { tally with noops := tally.noops + 1 }
  | some _ => { tally with merges := tally.merges + 1 }

/-- What a response counts as; one that is absent or null is none. -/
def countResponse (tally : Tally) : Option Json.Value → Tally
  | none | some .null => { tally with noops := tally.noops + 1 }
  | some _ => { tally with merges := tally.merges + 1 }

theorem countWrite_of_decode {registry : Registry} {policy : ListPolicy}
    {response : Option Json.Value} {incoming : Option (Page EntityKey)}
    (hdecode : Response.decode registry policy response = .ok incoming) (tally : Tally) :
    countWrite tally incoming = countResponse tally response := by
  cases response with
  | none =>
      cases hdecode
      rfl
  | some value =>
      cases value with
      | null =>
          cases hdecode
          rfl
      | object members =>
          obtain ⟨items, total, -, -, rfl⟩ := Response.decode_object_eq_ok_iff.mp hdecode
          rfl
      | bool | number | string | array => cases hdecode

/-- What is written once can be written again, and only the count changes. -/
theorem write_again {cache next : Cache α} {call : Call} {incoming : Option (Page α)}
    (hwrite : cache.write call incoming = .ok next) :
    next.write call incoming = .ok { next with tally := countWrite next.tally incoming } := by
  have hrules := sameRules_write hwrite
  cases incoming with
  | none =>
      cases haccept : cache.accept call none with
      | error error =>
          simp only [write, haccept] at hwrite
          cases hwrite
      | ok accepted =>
          have hagain := (hrules.accept_eq call none).trans haccept
          simp only [write, hagain]
          rfl
  | some page =>
      obtain ⟨key, window, haccept, rfl⟩ := write_some_eq_ok_iff.mp hwrite
      have hagain := (hrules.accept_eq call (some page)).trans haccept
      have hmerged := mergeAt_mergeAt cache key fun items hitems =>
        ((accept_eq_ok_iff.mp haccept).2 items hitems).1
      exact write_some_eq_ok_iff.mpr ⟨key, window, hagain, hmerged.symm⟩

theorem serve_writeResponse_of_ok {cache next : Cache EntityKey} {call : Call}
    {response : Option Json.Value} (hwrite : cache.writeResponse call response = .ok next) :
    cache.serve (.writeResponse call response) = (.ok (.direct .written), next) := by
  simp only [serve, settle, hwrite]
  rfl

theorem serve_writeResponse_of_error {cache : Cache EntityKey} {call : Call}
    {response : Option Json.Value} {error : CacheError}
    (hwrite : cache.writeResponse call response = .error error) :
    cache.serve (.writeResponse call response) = (.error error, cache) := by
  simp only [serve, settle, hwrite]
  rfl

/-- **A response that is delivered twice does no harm.**  The second delivery has the same
result as the first.  If they are refused, nothing has changed; otherwise the lists, their
order and all counts are as after the first delivery, but for the one under which the
response is counted. -/
theorem serve_writeResponse_twice (cache : Cache EntityKey) (call : Call)
    (response : Option Json.Value) :
    let once := cache.serve (.writeResponse call response)
    let twice := once.2.serve (.writeResponse call response)
    twice.1 = once.1 ∧
      match once.1 with
      | .error _ => once.2 = cache ∧ twice.2 = cache
      | .ok _ => twice.2 = { once.2 with tally := countResponse once.2.tally response } := by
  intro once twice
  cases hwrite : cache.writeResponse call response with
  | error error =>
      have honce : once = (.error error, cache) := serve_writeResponse_of_error hwrite
      have htwice : twice = once := by
        simp only [twice, honce]
        exact honce
      rw [htwice, honce]
      exact ⟨rfl, rfl, rfl⟩
  | ok next =>
      obtain ⟨policy, incoming, hpolicy, hdecode, hpage⟩ := writeResponse_eq_ok_iff.mp hwrite
      have hregistry : next.registry = cache.registry := (sameRules_write hpage).registry
      have hagain : next.writeResponse call response =
          .ok { next with tally := countResponse next.tally response } := by
        rw [← countWrite_of_decode hdecode]
        rw [← hregistry] at hpolicy hdecode
        exact writeResponse_eq_ok_iff.mpr
          ⟨policy, incoming, hpolicy, hdecode, write_again hpage⟩
      have honce : once = (.ok (.direct .written), next) := serve_writeResponse_of_ok hwrite
      have htwice : twice = (.ok (.direct .written),
          { next with tally := countResponse next.tally response }) := by
        simp only [twice, honce]
        exact serve_writeResponse_of_ok hagain
      rw [htwice, honce]
      exact ⟨rfl, rfl⟩

/-- The first delivery costs another workspace its list, the second one only counts. -/
example :
    let held : Snapshot EntityKey := ⟨[some ⟨"Request:r0"⟩], some 1, []⟩
    let cache : Cache EntityKey :=
      ⟨Console.requestsRegistry, 1, 100, [(Console.requestsKey "ws2", held)], .zero⟩
    let request := Request.writeResponse (Console.requestsCall "ws1" 1 5)
      (some (.object [("requests", .array [.object [("__ref", .string "Request:r1")]])]))
    let once := (cache.serve request).2
    let twice := (once.serve request).2
    once.keys = [Console.requestsKey "ws1"] ∧ once.tally = ⟨0, 0, 0, 1, 0, 1⟩ ∧
      twice.keys = once.keys ∧ twice.tally = ⟨0, 0, 0, 2, 0, 1⟩ :=
  ⟨rfl, rfl, rfl, rfl⟩

end Cache

end PagedCache
