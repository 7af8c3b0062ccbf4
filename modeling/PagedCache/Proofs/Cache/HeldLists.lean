import PagedCache.Proofs.Cache.Requests
import PagedCache.Proofs.Cache.SlotName
import PagedCache.Proofs.Registry
import PagedCache.Proofs.Snapshot.Slice

/-!
# The lists that responses leave

A cache that is given responses only holds lists that could be responses themselves: they
end where pages may end, and their other properties are none that the policy reads.
-/

namespace PagedCache

variable {α : Type}

namespace Snapshot

/-- A list does not grow over the end of the page. -/
theorem length_absorb_le_of_end_le {base : Snapshot α} {page : Page α} {window : Window}
    {bound : Nat} (hbase : base.length ≤ bound)
    (hfits : ∀ items ∈ page.items, window.offset + items.length ≤ Window.maxPosition)
    (hend : ∀ items ∈ page.items, window.offset + items.length ≤ bound) :
    (base.absorb page window).length ≤ bound := by
  unfold length absorb at *
  cases hitems : page.items with
  | none => exact hbase
  | some items =>
      have hmerged := length_mergeItems base.items (hfits items hitems)
      have hwritten := length_overlay base.items window.offset items
      have hstop := hend items hitems
      dsimp only
      split at hwritten <;> split at hmerged <;> omega

end Snapshot

/-- A page as a response for the policy has it, which ends where pages may end. -/
structure Delivery.FromResponse (policy : ListPolicy) (maxWindowEnd : Nat)
    (delivery : Delivery EntityKey) : Prop where
  fits : delivery.Fits
  end_le : ∀ items ∈ delivery.page.items,
    delivery.window.offset + items.length ≤ maxWindowEnd
  total_lt : ∀ total ∈ delivery.page.total, total < Json.Literal.wordBound
  others : Response.otherMembers policy delivery.page.passthrough = delivery.page.passthrough

/-- A list as responses for the policy leave it. -/
structure Snapshot.FromResponses (policy : ListPolicy) (maxWindowEnd : Nat)
    (list : Snapshot EntityKey) : Prop where
  length_le_maxPosition : list.length ≤ Window.maxPosition
  length_le : list.length ≤ maxWindowEnd
  total_lt : ∀ total ∈ list.total, total < Json.Literal.wordBound
  others : Response.otherMembers policy list.passthrough = list.passthrough

namespace Snapshot.FromResponses

variable {policy : ListPolicy} {maxWindowEnd : Nat}

theorem empty : FromResponses policy maxWindowEnd .empty :=
  ⟨Nat.zero_le _, Nat.zero_le _, nofun, rfl⟩

theorem absorb {base : Snapshot EntityKey} (hbase : FromResponses policy maxWindowEnd base)
    {delivery : Delivery EntityKey} (hdelivery : delivery.FromResponse policy maxWindowEnd) :
    FromResponses policy maxWindowEnd (base.absorb delivery.page delivery.window) where
  length_le_maxPosition :=
    length_absorb_le_of_end_le hbase.length_le_maxPosition hdelivery.fits hdelivery.fits
  length_le := length_absorb_le_of_end_le hbase.length_le hdelivery.fits hdelivery.end_le
  total_lt total htotal := by
    rcases Option.or_eq_some_iff.mp htotal with hgiven | ⟨-, hknown⟩
    · exact hdelivery.total_lt total hgiven
    · exact hbase.total_lt total hknown
  others := hdelivery.others

end Snapshot.FromResponses

namespace Response

/-- Only objects are decoded to pages. -/
theorem exists_members_of_decode {registry : Registry} {policy : ListPolicy}
    {response : Option Json.Value} {page : Page EntityKey}
    (hdecode : decode registry policy response = .ok (some page)) :
    ∃ members, response = some (.object members) := by
  unfold decode at hdecode
  split at hdecode <;> try cases hdecode
  exact ⟨_, rfl⟩

end Response

/-- A page that a request gives in a response was decoded from it. -/
theorem Request.exists_decode {registry : Registry} {request : Request} {call : Call}
    {page : Page EntityKey} (hresponse : request.givesPage = false)
    (hoperation : request.operation? registry = some (.write call (some page))) :
    ∃ policy members, registry.require call.typeName call.field = .ok policy ∧
      Response.decode registry policy (some (.object members)) = .ok (some page) := by
  cases request with
  | writeResponse target response =>
      unfold operation? at hoperation
      cases hpolicy : registry.require target.typeName target.field with
      | error error => simp [hpolicy] at hoperation
      | ok policy =>
          cases hdecode : Response.decode registry policy response with
          | error error => simp [hpolicy, hdecode] at hoperation
          | ok incoming =>
              simp only [hpolicy, hdecode, Option.some.injEq, Operation.write.injEq]
                at hoperation
              obtain ⟨rfl, rfl⟩ := hoperation
              obtain ⟨members, rfl⟩ := Response.exists_members_of_decode hdecode
              exact ⟨policy, members, hpolicy, hdecode⟩
  | readResponse target => cases hoperation
  | direct operation =>
      cases hoperation
      cases hresponse

namespace Cache

/-- **No held list goes on where no page may end.** -/
theorem length_le_of_find?_run (registry : Registry) (maxSnapshots maxWindowEnd : Nat)
    (operations : List (Operation α)) (key : SnapshotKey) :
    ∀ list ∈ ((fresh registry maxSnapshots maxWindowEnd : Cache α).run operations).2.find? key,
      list.length ≤ maxWindowEnd := by
  rw [find?_run key [] rfl]
  refine Snapshot.replay_induction (Nat.zero_le _) fun delivery hdelivery base hbase => ?_
  obtain hnone | ⟨operation, -, hdelivered⟩ := mem_deliveriesSince key hdelivery
  · cases hnone
  · obtain ⟨call, -, haccept⟩ := delivery?_eq_some_iff.mp hdelivered
    have hend := (accept_eq_ok_iff.mp haccept).2
    exact Snapshot.length_absorb_le_of_end_le hbase (fun items hitems => (hend items hitems).1)
      fun items hitems => (hend items hitems).2

variable {cache : Cache EntityKey}

/-- Calls with the same key have the same policy. -/
theorem policy_eq_of_locate_eq
    (hfields : ∀ entry ∈ cache.registry.policies, ':' ∉ entry.1.field.toList)
    {left right : Call} {leftPolicy rightPolicy : ListPolicy} {key : SnapshotKey}
    (hleft : cache.locate left = .ok (leftPolicy, key))
    (hright : cache.locate right = .ok (rightPolicy, key)) : leftPolicy = rightPolicy := by
  obtain ⟨hleftPolicy, rfl⟩ := locate_eq_ok_iff.mp hleft
  obtain ⟨hrightPolicy, hkey⟩ := locate_eq_ok_iff.mp hright
  obtain ⟨htype, -, hslot⟩ := SnapshotKey.mk.inj hkey
  have hfield : left.field = right.field := ListPolicy.field_eq_of_slotName_eq
    (hfields _ (Registry.mem_policies_of_require hleftPolicy))
    (hfields _ (Registry.mem_policies_of_require hrightPolicy)) hslot
  rw [htype, hfield, hrightPolicy] at hleftPolicy
  exact (Except.ok.inj hleftPolicy).symm

/-- What a request delivers to the list of a call is a response for the policy of the
call. -/
theorem fromResponse_of_delivery?
    (hfields : ∀ entry ∈ cache.registry.policies, ':' ∉ entry.1.field.toList) {call : Call}
    {policy : ListPolicy} {key : SnapshotKey} (hlocate : cache.locate call = .ok (policy, key))
    {request : Request} (hresponse : request.givesPage = false)
    {operation : Operation EntityKey}
    (hoperation : request.operation? cache.registry = some operation)
    {delivery : Delivery EntityKey} (hdelivery : cache.delivery? key operation = some delivery) :
    delivery.FromResponse policy cache.maxWindowEnd := by
  obtain ⟨target, rfl, haccept⟩ := delivery?_eq_some_iff.mp hdelivery
  obtain ⟨hplace, hend⟩ := accept_eq_ok_iff.mp haccept
  obtain ⟨found, htarget, -⟩ := locateWindow_eq_ok_iff.mp hplace
  obtain rfl := policy_eq_of_locate_eq hfields hlocate htarget
  obtain ⟨decoded, members, hpolicy, hdecode⟩ := request.exists_decode hresponse hoperation
  obtain rfl : policy = decoded :=
    Except.ok.inj ((locate_eq_ok_iff.mp htarget).1.symm.trans hpolicy)
  obtain ⟨items, total, -, htotal, hpage⟩ := Response.decode_object_eq_ok_iff.mp hdecode
  rw [Option.some.injEq] at hpage
  constructor
  · exact fun items hitems => (hend items hitems).1
  · exact fun items hitems => (hend items hitems).2
  · rw [hpage]
    exact (Response.decodeTotal_eq_ok_iff.mp htotal).2
  · rw [hpage]
    exact Response.otherMembers_otherMembers policy members

/-- **Responses leave lists that could be responses.**  Whatever requests a fresh cache
serves, as long as no page is given directly, every list that it then holds for a call is
as responses for the policy of the call leave it. -/
theorem fromResponses_of_find? (registry : Registry)
    (hfields : ∀ entry ∈ registry.policies, ':' ∉ entry.1.field.toList)
    (maxSnapshots maxWindowEnd : Nat) (requests : List Request)
    (hresponses : ∀ request ∈ requests, request.givesPage = false) {call : Call}
    {policy : ListPolicy} {key : SnapshotKey}
    (hlocate : (fresh registry maxSnapshots maxWindowEnd : Cache EntityKey).locate call =
      .ok (policy, key)) :
    ∀ list ∈ ((fresh registry maxSnapshots maxWindowEnd : Cache EntityKey).serveAll
      requests).2.find? key, list.FromResponses policy maxWindowEnd := by
  rw [serveAll_eq_run, find?_run key [] rfl]
  refine Snapshot.replay_induction .empty fun delivery hdelivery base hbase => hbase.absorb ?_
  obtain hnone | ⟨operation, hoperation, hdelivered⟩ := mem_deliveriesSince key hdelivery
  · cases hnone
  · obtain ⟨request, hrequest, hsome⟩ := List.mem_filterMap.mp hoperation
    exact fromResponse_of_delivery? hfields hlocate (hresponses request hrequest) hsome hdelivered

end Cache

end PagedCache
