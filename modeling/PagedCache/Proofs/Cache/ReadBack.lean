import PagedCache.Proofs.Cache.Requests
import PagedCache.Proofs.Cache.Settlement
import PagedCache.Proofs.Cache.SlotName

/-!
# Reading back a response

A window that was just written shows the response that it was written with, whatever the
cache held before: the items as references, the length as far as it is known, and all
other properties.
-/

namespace PagedCache

open Json (Value Members)

variable {α : Type}

namespace Snapshot

/-- After a page with as many items as were asked for, nothing of the window counts as
missing. -/
theorem missingTail_absorb_of_full (base : Snapshot α) {window : Window} {page : Page α}
    {items : List α} (hitems : page.items = some items)
    (hfits : window.offset + items.length ≤ Window.maxPosition)
    (hfull : items.length = window.limit) :
    (base.absorb page window).missingTail window = false := by
  have hmerged := length_absorb base hitems hfits
  have hoverlay := length_overlay base.items window.offset items
  rw [if_neg hfull.not_lt] at hmerged
  rw [missingTail_eq_false_iff]
  by_cases hlimit : window.limit = 0
  · exact .inl hlimit
  · have hpage : items ≠ [] := List.length_pos_iff.mp (by omega)
    rw [if_neg hpage] at hoverlay
    refine .inr (.inl ?_)
    simp only [Window.stop]
    omega

end Snapshot

namespace Reading

variable {β γ : Type}

theorem value?_map (reading : Reading β) (transform : β → γ) :
    (reading.map transform).value? = reading.value?.map transform := by
  cases reading <;> rfl

theorem isComplete_map (reading : Reading β) (transform : β → γ) :
    (reading.map transform).isComplete = reading.isComplete := by
  cases reading <;> rfl

theorem eq_complete_of_isComplete {reading : Reading β} {value : β}
    (hcomplete : reading.isComplete) (hvalue : reading.value? = some value) :
    reading = .complete value := by
  cases reading with
  | complete => rw [Option.some.inj hvalue]
  | miss | partialHit => cases hcomplete

end Reading

namespace Cache

theorem value?_answer (snapshot : Snapshot α) (window : Window) :
    (answer snapshot window).value? = some (snapshot.slice window) := by
  unfold answer
  dsimp only
  split <;> rfl

/-- **A page is read back from its own window, whatever was known before.**  The answer is
complete if the page has as many items as were asked for. -/
theorem read_of_write {cache next : Cache α} {call : Call} {key : SnapshotKey}
    {window : Window} {page : Page α} {items : List α} (hitems : page.items = some items)
    (hlocate : cache.locateWindow call = .ok (key, window))
    (hlimit : items.length ≤ window.limit)
    (hwrite : cache.write call (some page) = .ok next) :
    ∃ reading final, next.read call = .ok (reading, final) ∧
      reading.value? = some ⟨items.map some,
        page.total.or ((cache.find? key).bind Snapshot.total), page.passthrough⟩ ∧
      (items.length = window.limit → reading.isComplete) := by
  obtain ⟨hheld, hend⟩ := find?_of_write hlocate hwrite
  have hfits := hend items hitems
  have hslice := Snapshot.slice_absorb ((cache.find? key).getD .empty) hitems hfits hlimit
  rw [Snapshot.total_getD_empty] at hslice
  rw [← (sameRules_write hwrite).locateWindow_eq] at hlocate
  refine ⟨_, _, read_eq_of_locateWindow hlocate, ?_, fun hfull => ?_⟩
  · rw [readAt, hheld, value?_answer, hslice]
  · have htail := Snapshot.missingTail_absorb_of_full ((cache.find? key).getD .empty) hitems
      hfits hfull
    have hholes : Snapshot.hasHoles
        ((((cache.find? key).getD .empty).absorb page window).slice window) = false := by
      rw [hslice]
      simp [Snapshot.hasHoles_eq_false_iff]
    simp only [readAt, hheld, answer, htail, hholes]
    rfl

end Cache

namespace Response

/-- The members with which a response is read back from its window, after one that made
`total` known: its items as references, its own count or else the one known before, and
its other members. -/
structure ReadsBack (policy : ListPolicy) (members : Members) (total : Option Nat)
    (keys : List EntityKey) (shown : Members) : Prop where
  list : shown.find? policy.listProperty = some (.array (keys.map EntityKey.toJson))
  count : shown.find? policy.countProperty =
    (givenCount? policy members).or (total.map Value.ofNat)
  others : ∀ name, name ≠ policy.listProperty → name ≠ policy.countProperty →
    shown.find? name = members.find? name
  ascending : OrderedEntries.Ascending members → OrderedEntries.Ascending shown

/-- A response with a list can be decoded only if the count is somewhere else. -/
theorem listProperty_ne_countProperty_of_decodeTotal {policy : ListPolicy} {members : Members}
    {values : List Value} {total : Option Nat}
    (hvalues : members.find? policy.listProperty = some (.array values))
    (htotal : decodeTotal policy members = .ok total) :
    policy.listProperty ≠ policy.countProperty := by
  intro hsame
  rw [hsame] at hvalues
  simp only [decodeTotal, hvalues, Value.toWord?, reduceCtorEq] at htotal

theorem readsBack_encodedMembers {policy : ListPolicy} {members : Members}
    {values : List Value} {known given : Option Nat} (keys : List EntityKey)
    (hvalues : members.find? policy.listProperty = some (.array values))
    (htotal : decodeTotal policy members = .ok given) :
    ReadsBack policy members known keys
      (encodedMembers policy ⟨keys.map some, given.or known, otherMembers policy members⟩) := by
  have hdistinct := listProperty_ne_countProperty_of_decodeTotal hvalues htotal
  constructor
  · rw [find?_encodedMembers_list, List.map_map]
    rfl
  · rw [find?_encodedMembers_count _ hdistinct, find?_otherMembers, if_neg (by simp),
      Option.or_none, (decodeTotal_eq_ok_iff.mp htotal).1]
    cases given <;> rfl
  · intro name hlist hcount
    rw [find?_encodedMembers_of_ne _ hlist hcount, find?_otherMembers, if_pos ⟨hlist, hcount⟩]
  · intro hmembers
    exact ascending_encodedMembers policy (List.Pairwise.filter _ hmembers)

end Response

namespace Cache

/-- **A response is read back from the window that it was written with.**  Let a response
have a list with at most as many items as the call asks for.  If it can be written, then
reading with the same call shows the references of its items and nothing else in the
list, its count or else the one known before, and its other properties.  The answer is
complete if the list has as many items as the call asks for. -/
theorem readResponse_of_writeResponse (cache next : Cache EntityKey) (call : Call)
    (policy : ListPolicy) (key : SnapshotKey) (window : Window) (members : Members)
    (values : List Value) (hlocate : cache.locate call = .ok (policy, key))
    (hwindow : Window.ofArguments call.arguments = .ok window)
    (hvalues : members.find? policy.listProperty = some (.array values))
    (hlimit : values.length ≤ window.limit)
    (hwrite : cache.writeResponse call (some (.object members)) = .ok next) :
    ∃ keys shown reading final,
      List.Forall₂ (fun value key => cache.registry.identify value = .ok key) values keys ∧
      next.readResponse call = .ok (reading, final) ∧
      reading.value? = some (.object shown) ∧
      Response.ReadsBack policy members ((cache.find? key).bind Snapshot.total) keys shown ∧
      (values.length = window.limit → reading.isComplete) := by
  have hrequire := (locate_eq_ok_iff.mp hlocate).1
  obtain ⟨found, incoming, hfound, hdecode, hwrite⟩ := writeResponse_eq_ok_iff.mp hwrite
  obtain rfl : policy = found := Except.ok.inj (hrequire.symm.trans hfound)
  obtain ⟨items, total, hitems, htotal, rfl⟩ := Response.decode_object_eq_ok_iff.mp hdecode
  obtain ⟨keys, rfl, hkeys⟩ := (Response.decodeItems_eq_ok_iff hvalues).mp hitems
  have hlength := hkeys.length_eq
  have hplace := locateWindow_eq_ok_iff.mpr ⟨policy, hlocate, hwindow⟩
  obtain ⟨reading, final, hread, hvalue, hcomplete⟩ :=
    read_of_write rfl hplace (hlength ▸ hlimit) hwrite
  have hsame : next.registry = cache.registry := (sameRules_write hwrite).registry
  refine ⟨keys, _, reading.map (Response.encode policy), final, hkeys, ?_, ?_,
    Response.readsBack_encodedMembers keys hvalues htotal, ?_⟩
  · exact readResponse_eq_ok_iff.mpr ⟨policy, reading, hsame ▸ hrequire, hread, rfl⟩
  · rw [Reading.value?_map, hvalue]
    rfl
  · intro hfull
    rw [Reading.isComplete_map]
    exact hcomplete (hlength ▸ hfull)

/-- Two items that are written behind a hole, over a longer list. -/
theorem readResponse_of_writeResponse_refetchedPage :
    let call := Console.requestsCall "ws1" 1 2
    let held : Snapshot EntityKey := ⟨[none, some ⟨"Request:r0"⟩, none, none, none], some 9, []⟩
    let cache : Cache EntityKey :=
      ⟨Console.requestsRegistry, 1, 100, [(Console.requestsKey "ws1", held)], .zero⟩
    let members : Members :=
      [("pageInfo", .bool true),
       ("requests", .array
         [.object [("__typename", .string "Request"), ("id", .ofNat 7)],
          .object [("__ref", .string "Request:r8")]])]
    ∃ (next final : Cache EntityKey) (shown : Members),
      cache.writeResponse call (some (.object members)) = .ok next ∧
      next.readResponse call = .ok (.complete (.object shown), final) ∧
      shown.find? "requests" = some (.array
        [.object [("__ref", .string "Request:7")], .object [("__ref", .string "Request:r8")]]) ∧
      shown.find? "numRequests" = some (.ofNat 9) ∧
      shown.find? "pageInfo" = some (.bool true) := by
  intro call held cache members
  have hwrite : cache.writeResponse call (some (.object members)) = .ok _ := rfl
  obtain ⟨keys, shown, reading, final, hkeys, hread, hvalue, hshown, hcomplete⟩ :=
    readResponse_of_writeResponse cache _ call Console.requests (Console.requestsKey "ws1")
      ⟨1, 2⟩ members _ rfl rfl rfl (by decide) hwrite
  have hreading := Reading.eq_complete_of_isComplete (hcomplete rfl) hvalue
  obtain rfl : [⟨"Request:7"⟩, ⟨"Request:r8"⟩] = keys :=
    Except.ok.inj (mapM_eq_ok_iff.mpr hkeys)
  exact ⟨_, final, shown, hwrite, hreading ▸ hread, hshown.list, hshown.count,
    hshown.others "pageInfo" (by decide) (by decide)⟩

end Cache

end PagedCache
