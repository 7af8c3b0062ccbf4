import PagedCache.Proofs.Cache.HeldLists
import PagedCache.Proofs.Cache.ReadBack

/-!
# Writing back what was read

A window without holes is a response that says nothing new.  Writing it again changes no
list, wherever the window lies and however much of it the list fills, because a window
that the list leaves ends where the list ends.
-/

namespace PagedCache

open Json (Value Members)

variable {α : Type}

namespace Window

theorem le_maxPosition_of_readArgument {arguments : Arguments} {name : String} {position : Nat}
    (hread : readArgument arguments name = .ok position) : position ≤ maxPosition := by
  unfold readArgument at hread
  split at hread
  · cases hread
    exact Nat.zero_le _
  · cases hread
    exact Nat.zero_le _
  · rename_i value hnull hvalue
    cases hword : value.toWord? with
    | none => simp [hword] at hread
    | some word =>
        simp only [hword, Except.ok.injEq] at hread
        subst hread
        exact Nat.le_sub_one_of_lt (Value.toWord?_eq_some_iff.mp hword).2

theorem offset_le_of_ofArguments {arguments : Arguments} {window : Window}
    (hwindow : ofArguments arguments = .ok window) : window.offset ≤ maxPosition := by
  unfold ofArguments at hwindow
  cases hoffset : readArgument arguments offsetArgument with
  | error error => simp [hoffset] at hwindow
  | ok offset =>
      cases hlimit : readArgument arguments limitArgument with
      | error error => simp [hoffset, hlimit] at hwindow
      | ok limit =>
          simp only [hoffset, hlimit, Except.ok.injEq] at hwindow
          exact hwindow ▸ le_maxPosition_of_readArgument hoffset

end Window

namespace Snapshot

theorem length_eq_of_take_drop {items : List (Option α)} {offset limit : Nat} {page : List α}
    (hpage : (items.drop offset).take limit = page.map some) :
    page.length = min limit (items.length - offset) := by
  rw [← List.length_map some, ← hpage, List.length_take, List.length_drop]

/-- Overlaying items with what they are already changes nothing. -/
theorem overlay_eq_self {items : List (Option α)} {offset limit : Nat} {page : List α}
    (hpage : (items.drop offset).take limit = page.map some) :
    overlay items offset page = items := by
  by_cases hempty : page = []
  · simp [overlay, hempty]
  · have hlength := length_eq_of_take_drop hpage
    have hpos := List.length_pos_iff.mpr hempty
    have hpad : padTo items offset = items.take offset := by
      rw [padTo, Nat.sub_eq_zero_of_le (by omega), List.replicate_zero, List.append_nil]
    have hcut : (items.drop offset).take page.length = page.map some := by
      rw [← hpage, List.take_eq_take_iff, List.length_drop]
      omega
    rw [overlay_of_ne_nil items offset hempty, hpad, ← hcut, ← List.drop_drop,
      List.append_assoc, List.take_append_drop, List.take_append_drop]

/-- **A window of a list says nothing new of the list.** -/
theorem absorb_slice {list : Snapshot α} {window : Window} {items : List α}
    (hitems : (list.slice window).items = items.map some)
    (hlength : list.length ≤ Window.maxPosition)
    (hfits : window.offset + items.length ≤ Window.maxPosition) :
    list.absorb ⟨some items, list.total, list.passthrough⟩ window = list := by
  rw [items_slice window (.inl hlength)] at hitems
  have hshown := length_eq_of_take_drop hitems
  have hmerged : mergeItems list.items items window = list.items := by
    rw [mergeItems_of_fits list.items hfits, overlay_eq_self hitems]
    split
    · -- the window is not filled, so the list ends in it or before it
      exact List.take_of_length_le (by omega)
    · rfl
  cases list with
  | mk held total passthrough =>
      simp only [absorb, Option.or_self]
      exact congrArg (Snapshot.mk · total passthrough) hmerged

/-- What a window shows ends where the list ends, or where the window starts. -/
theorem offset_add_length_le {list : Snapshot α} {window : Window} {items : List α}
    {bound : Nat} (hitems : (list.slice window).items = items.map some)
    (hlength : list.length ≤ Window.maxPosition) (hlist : list.length ≤ bound)
    (hoffset : window.offset ≤ bound) : window.offset + items.length ≤ bound := by
  rw [items_slice window (.inl hlength)] at hitems
  have hshown := length_eq_of_take_drop hitems
  simp only [length] at hlist
  omega

end Snapshot

namespace Response

/-- A list that is shown without a null has no hole. -/
theorem exists_items_of_null_not_mem {items : List (Option EntityKey)}
    (hnull : Value.null ∉ items.map encodeItem) :
    ∃ keys : List EntityKey, items = keys.map some := by
  have hshown : items ∈ Set.range (List.map some) := by
    rw [Set.range_list_map]
    intro item hitem
    cases item with
    | none => exact absurd (List.mem_map_of_mem hitem) hnull
    | some key => exact Set.mem_range_self key
  obtain ⟨keys, hkeys⟩ := hshown
  exact ⟨keys, hkeys.symm⟩

end Response

namespace Cache

/-- What is read as a response is a window of a held list. -/
theorem exists_slice_of_readResponse {cache next : Cache EntityKey} {call : Call}
    {reading : Reading Value} {value : Value}
    (hread : cache.readResponse call = .ok (reading, next))
    (hvalue : reading.value? = some value) :
    ∃ policy key window list, cache.locate call = .ok (policy, key) ∧
      Window.ofArguments call.arguments = .ok window ∧ cache.find? key = some list ∧
        value = Response.encode policy (list.slice window) := by
  obtain ⟨policy, found, hpolicy, hfound, rfl⟩ := readResponse_eq_ok_iff.mp hread
  obtain ⟨key, window, hplace, rfl, -⟩ := read_eq_ok_iff.mp hfound
  obtain ⟨located, hlocate, hwindow⟩ := locateWindow_eq_ok_iff.mp hplace
  obtain rfl : policy = located :=
    Except.ok.inj (hpolicy.symm.trans (locate_eq_ok_iff.mp hlocate).1)
  unfold readAt at hvalue
  cases hheld : cache.find? key with
  | none => simp [hheld, Reading.map, Reading.value?] at hvalue
  | some list =>
      simp only [hheld, Reading.value?_map, value?_answer, Option.map_some,
        Option.some.injEq] at hvalue
      exact ⟨policy, key, window, list, hlocate, hwindow, hheld, hvalue.symm⟩

/-- Writing a window of a held list back changes no list and costs none. -/
theorem write_of_slice {cache : Cache α} (hsound : cache.shelf.Sound cache.capacity)
    {call : Call} {key : SnapshotKey} {window : Window} {list : Snapshot α} {items : List α}
    (hlocate : cache.locateWindow call = .ok (key, window))
    (hheld : cache.find? key = some list)
    (hitems : (list.slice window).items = items.map some)
    (hlength : list.length ≤ Window.maxPosition)
    (hfits : window.offset + items.length ≤ Window.maxPosition)
    (hend : window.offset + items.length ≤ cache.maxWindowEnd) :
    ∃ final, cache.write call (some ⟨some items, list.total, list.passthrough⟩) = .ok final ∧
      final.tally.evictions = cache.tally.evictions ∧
        ∀ other, final.find? other = cache.find? other := by
  let page : Page α := ⟨some items, list.total, list.passthrough⟩
  have hroom := hasRoom_of_find? hsound hheld
  have haccept : cache.accept call (some page) = .ok (key, window) := by
    refine accept_eq_ok_iff.mpr ⟨hlocate, fun given hgiven => ?_⟩
    cases hgiven
    exact ⟨hfits, hend⟩
  refine ⟨_, write_some_eq_ok_iff.mpr ⟨key, window, haccept, rfl⟩, ?_, fun other => ?_⟩
  · rw [mergeAt_of_hasRoom hroom]
  · by_cases hother : other = key
    · subst hother
      rw [find?_mergeAt_self, hheld, Option.getD_some,
        Snapshot.absorb_slice hitems hlength hfits]
    · exact find?_mergeAt_of_ne hroom hother window page

/-- **Writing a reading back changes nothing.**  Let a cache have served any requests that
give no page directly, over a registry whose fields have no colon in their names.  If a
window that starts where pages may end is read and shows no hole, then what it shows can
be written with the same call.  No list is evicted, and every list is as it was. -/
theorem writeResponse_of_readResponse (registry : Registry) (hregistry : registry.Reachable)
    (hfields : ∀ entry ∈ registry.policies, ':' ∉ entry.1.field.toList)
    (maxSnapshots maxWindowEnd : Nat) (requests : List Request)
    (hresponses : ∀ request ∈ requests, request.givesPage = false) (call : Call)
    (policy : ListPolicy) (hpolicy : registry.require call.typeName call.field = .ok policy)
    (window : Window) (hwindow : Window.ofArguments call.arguments = .ok window)
    (hoffset : window.offset ≤ maxWindowEnd) (reading : Reading Value)
    (afterRead : Cache EntityKey) (value : Value) :
    let cache := ((fresh registry maxSnapshots maxWindowEnd).serveAll requests).2
    cache.readResponse call = .ok (reading, afterRead) → reading.value? = some value →
      (∀ (members : Members) (values : List Value), value = .object members →
        members.find? policy.listProperty = some (.array values) → Value.null ∉ values) →
      ∃ final, afterRead.writeResponse call (some value) = .ok final ∧
        final.tally.evictions = afterRead.tally.evictions ∧
          ∀ key, final.find? key = cache.find? key := by
  intro cache hread hvalue hnull
  have hrules := sameRules_serveAll (fresh registry maxSnapshots maxWindowEnd) requests
  obtain ⟨found, key, asked, list, hlocate, hasked, hheld, rfl⟩ :=
    exists_slice_of_readResponse hread hvalue
  obtain rfl : window = asked := Except.ok.inj (hwindow.symm.trans hasked)
  have hstart := hlocate
  rw [hrules.sameChecks.locate_eq] at hstart
  obtain rfl : policy = found :=
    Except.ok.inj (hpolicy.symm.trans (locate_eq_ok_iff.mp hstart).1)
  -- the list was left by responses, so its window is decoded to the page that it shows
  have hlist := fromResponses_of_find? registry hfields maxSnapshots maxWindowEnd requests
    hresponses hstart list hheld
  obtain ⟨items, hitems⟩ := Response.exists_items_of_null_not_mem
    (hnull _ _ rfl (Response.find?_encodedMembers_list policy _))
  have hdistinct := ListPolicy.listProperty_ne_countProperty
    (hregistry.fault?_eq_none _ (Registry.mem_policies_of_require hpolicy))
  have hdecode := Response.decode_encode registry hdistinct hitems hlist.total_lt hlist.others
  have hfits := Snapshot.offset_add_length_le hitems hlist.length_le_maxPosition
    hlist.length_le_maxPosition (Window.offset_le_of_ofArguments hwindow)
  have hend := Snapshot.offset_add_length_le hitems hlist.length_le_maxPosition
    hlist.length_le hoffset
  -- reading changed the order of the keys only
  obtain ⟨_, shown, -, hfound, -⟩ := readResponse_eq_ok_iff.mp hread
  have hafter := (sameRules_read hfound).trans hrules
  have hplace := locateWindow_eq_ok_iff.mpr ⟨policy, hlocate, hwindow⟩
  rw [← (sameRules_read hfound).locateWindow_eq] at hplace
  have hsound := sound_serveAll (sound_fresh registry maxSnapshots maxWindowEnd) requests
  obtain ⟨final, hwrite, hevictions, hfind⟩ := write_of_slice (sound_read hsound hfound) hplace
    ((find?_of_read hfound key).trans hheld) hitems hlist.length_le_maxPosition hfits
    (hend.trans_eq hafter.maxWindowEnd.symm)
  have hregistry : afterRead.registry = registry := hafter.registry
  refine ⟨final, ?_, hevictions, fun other => (hfind other).trans (find?_of_read hfound other)⟩
  rw [writeResponse_eq_ok_iff, hregistry]
  exact ⟨policy, _, hpolicy, hdecode, hwrite⟩

/-- The first two of three requests of a workspace. -/
def firstPage : List Request :=
  [.writeResponse (Console.requestsCall "ws1" 0 2) (some (.object
    [("numRequests", .ofNat 3), ("pageInfo", .bool true),
     ("requests", .array
       [.object [("__ref", .string "Request:r1")], .object [("__ref", .string "Request:r2")]])]))]

/-- A window that the list does not fill is written back. -/
theorem writeResponse_of_readResponse_shortWindow :
    let cache : Cache EntityKey :=
      ((fresh Console.requestsRegistry 1 100).serveAll firstPage).2
    let call := Console.requestsCall "ws1" 1 5
    let members : Members :=
      [("numRequests", .ofNat 3), ("pageInfo", .bool true),
       ("requests", .array [.object [("__ref", .string "Request:r2")]])]
    ∃ afterRead final,
      cache.readResponse call = .ok (.partialHit (.object members), afterRead) ∧
      afterRead.writeResponse call (some (.object members)) = .ok final ∧
      final.tally.evictions = 0 ∧
      final.find? (Console.requestsKey "ws1") = some
        ⟨[some ⟨"Request:r1"⟩, some ⟨"Request:r2"⟩], some 3, [("pageInfo", .bool true)]⟩ := by
  intro cache call members
  have hregister : Registry.empty.register "Workspace" "requests" Console.requests =
      .ok Console.requestsRegistry := rfl
  have hfields : ∀ entry ∈ Console.requestsRegistry.policies, ':' ∉ entry.1.field.toList := by
    decide
  have hresponses : ∀ request ∈ firstPage, request.givesPage = false := by
    simp [firstPage, Request.givesPage]
  have hnull : ∀ (shown : Members) (values : List Value), Value.object members = .object shown →
      shown.find? Console.requests.listProperty = some (.array values) →
        Value.null ∉ values := by
    rintro shown values hshown hvalues
    cases hshown
    cases hvalues
    simp
  have hread : cache.readResponse call = .ok (.partialHit (.object members), _) := rfl
  obtain ⟨final, hwrite, hevictions, hfind⟩ := writeResponse_of_readResponse
    Console.requestsRegistry (.register .empty hregister) hfields 1 100 firstPage hresponses
    call Console.requests rfl ⟨1, 5⟩ rfl (by decide) _ _ _ hread rfl hnull
  exact ⟨_, final, hread, hwrite, hevictions, hfind _⟩

end Cache

end PagedCache
