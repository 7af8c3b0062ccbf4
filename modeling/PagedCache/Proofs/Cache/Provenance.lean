import PagedCache.Proofs.Cache.HeldLists

/-!
# Where the contents of a cache come from

What a cache holds that is given responses only: a bounded number of lists under keys of
their own, each of which ends where pages may end, has no item that no response to it
listed, and has no other property that could be taken for the list or its length.
-/

namespace PagedCache

open Json (Value Members)

variable {α : Type}

namespace Snapshot

theorem mem_of_mem_overlay {items : List (Option α)} {offset : Nat} {page : List α} {item : α}
    (hitem : some item ∈ overlay items offset page) : some item ∈ items ∨ item ∈ page := by
  unfold overlay at hitem
  split at hitem
  · exact .inl hitem
  · simp only [List.mem_append, List.mem_replicate, List.mem_map, reduceCtorEq, and_false,
      or_false, Option.some.injEq, exists_eq_right] at hitem
    rcases hitem with (hfront | hpage) | hrest
    · exact .inl (List.mem_of_mem_take hfront)
    · exact .inr hpage
    · exact .inl (List.mem_of_mem_drop hrest)

/-- A merged page brings its own items and no others. -/
theorem mem_of_mem_items_absorb {base : Snapshot α} {page : Page α} {window : Window} {item : α}
    (hitem : some item ∈ (base.absorb page window).items) :
    some item ∈ base.items ∨ ∃ items ∈ page.items, item ∈ items := by
  unfold absorb at hitem
  cases hitems : page.items with
  | none =>
      simp only [hitems] at hitem
      exact .inl hitem
  | some items =>
      simp only [hitems, mergeItems] at hitem
      have hwritten :
          some item ∈ base.items ∨ some item ∈ overlay base.items window.offset items := by
        split at hitem
        · exact .inl hitem
        · split at hitem
          · exact .inr (List.mem_of_mem_take hitem)
          · exact .inr hitem
      rcases hwritten with hbase | hoverlay
      · exact .inl hbase
      · exact (mem_of_mem_overlay hoverlay).imp_right fun hpage => ⟨items, rfl, hpage⟩

end Snapshot

/-- A response that was written to a list, and the policy that it was read with. -/
structure StoredResponse where
  policy : ListPolicy
  members : Members

namespace StoredResponse

/-- The response has an item for the entity in its list. -/
def Lists (response : StoredResponse) (registry : Registry) (entity : EntityKey) : Prop :=
  ∃ values, response.members.find? response.policy.listProperty = some (.array values) ∧
    ∃ value ∈ values, registry.identify value = .ok entity

/-- Neither the list nor the count of the response is among the members. -/
def KeepsApart (response : StoredResponse) (others : Members) : Prop :=
  response.policy.listProperty ∉ others.map Prod.fst ∧
    response.policy.countProperty ∉ others.map Prod.fst

end StoredResponse

namespace Cache

/-- The response that a request writes to the list under a key, if it does. -/
def storedResponse? (cache : Cache EntityKey) (key : SnapshotKey) :
    Request → Option StoredResponse
  | .writeResponse call (some (.object members)) =>
    match cache.locate call, cache.writeResponse call (some (.object members)) with
    | .ok (policy, located), .ok _ => if located = key then some ⟨policy, members⟩ else none
    | _, _ => none
  | _ => none

/-- The responses that a cache writes to the list under a key while it serves requests. -/
def storedResponses (key : SnapshotKey) : Cache EntityKey → List Request → List StoredResponse
  | _, [] => []
  | cache, request :: rest =>
    (cache.storedResponse? key request).toList ++
      storedResponses key (cache.serve request).2 rest

variable {cache : Cache EntityKey} {key : SnapshotKey}

theorem storedResponse?_eq_some_iff {request : Request} {response : StoredResponse} :
    cache.storedResponse? key request = some response ↔
      ∃ call next, request = .writeResponse call (some (.object response.members)) ∧
        cache.locate call = .ok (response.policy, key) ∧
          cache.writeResponse call (some (.object response.members)) = .ok next := by
  constructor
  · intro hstored
    unfold storedResponse? at hstored
    split at hstored
    next call members =>
      split at hstored
      next policy located next hlocate hwrite =>
        split at hstored
        next hkey =>
          cases hstored
          exact ⟨call, next, rfl, hkey ▸ hlocate, hwrite⟩
        next => cases hstored
      next => cases hstored
    next => cases hstored
  · rintro ⟨call, next, rfl, hlocate, hwrite⟩
    simp [storedResponse?, hlocate, hwrite]

/-- A stored response is merged into the list as the page that it has. -/
theorem exists_find?_serve_of_stored {request : Request} {response : StoredResponse}
    (hstored : cache.storedResponse? key request = some response) :
    ∃ items total window,
      Response.decodeItems cache.registry response.policy response.members = .ok items ∧
        (cache.serve request).2.find? key = some (((cache.find? key).getD .empty).absorb
          ⟨items, total, Response.otherMembers response.policy response.members⟩ window) := by
  obtain ⟨call, next, rfl, hlocate, hwritten⟩ := storedResponse?_eq_some_iff.mp hstored
  obtain ⟨policy, incoming, hpolicy, hdecode, hwrite⟩ := writeResponse_eq_ok_iff.mp hwritten
  obtain rfl : response.policy = policy :=
    Except.ok.inj ((locate_eq_ok_iff.mp hlocate).1.symm.trans hpolicy)
  obtain ⟨items, total, hitems, -, rfl⟩ := Response.decode_object_eq_ok_iff.mp hdecode
  obtain ⟨located, window, haccept, rfl⟩ := write_some_eq_ok_iff.mp hwrite
  have hplace := locateWindow_eq_ok_iff.mp (accept_eq_ok_iff.mp haccept).1
  obtain ⟨_, hsame, -⟩ := hplace
  obtain rfl : key = located := (Prod.mk.inj (Except.ok.inj (hlocate.symm.trans hsame))).2
  refine ⟨items, total, window, hitems, ?_⟩
  rw [serve_writeResponse, hwritten]
  exact find?_mergeAt_self cache key window _

/-- A response that is not stored under a key does not reach the list there. -/
theorem delivery?_eq_none_of_not_stored {next : Cache EntityKey} {call : Call}
    {members : Members} (page : Page EntityKey)
    (hwrite : cache.writeResponse call (some (.object members)) = .ok next)
    (hnone : cache.storedResponse? key (.writeResponse call (some (.object members))) = none) :
    cache.delivery? key (.write call (some page)) = none := by
  rw [Option.eq_none_iff_forall_ne_some]
  intro delivery hdelivery
  obtain ⟨target, hsame, haccept⟩ := delivery?_eq_some_iff.mp hdelivery
  cases hsame
  obtain ⟨policy, hlocate, -⟩ := locateWindow_eq_ok_iff.mp (accept_eq_ok_iff.mp haccept).1
  have hstored : cache.storedResponse? key (.writeResponse call (some (.object members))) =
      some ⟨policy, members⟩ :=
    storedResponse?_eq_some_iff.mpr ⟨call, next, rfl, hlocate, hwrite⟩
  rw [hnone] at hstored
  cases hstored

/-- A request that stores no response to a list leaves the list alone or removes it. -/
theorem find?_serve_of_not_stored {request : Request} (hresponse : request.givesPage = false)
    (hnone : cache.storedResponse? key request = none) :
    (cache.serve request).2.find? key = none ∨
      (cache.serve request).2.find? key = cache.find? key := by
  cases request with
  | writeResponse call response =>
      rw [serve_writeResponse]
      cases hwritten : cache.writeResponse call response with
      | error error => exact .inr rfl
      | ok next =>
          obtain ⟨policy, incoming, -, hdecode, hwrite⟩ := writeResponse_eq_ok_iff.mp hwritten
          cases incoming with
          | none =>
              rw [write_none_eq_ok hwrite]
              exact .inr rfl
          | some page =>
              obtain ⟨members, rfl⟩ := Response.exists_members_of_decode hdecode
              have hkept := find?_perform_of_no_delivery
                (delivery?_eq_none_of_not_stored page hwritten hnone)
              rwa [perform_write, hwrite] at hkept
  | readResponse call =>
      rw [serve_readResponse]
      exact find?_perform_of_no_delivery rfl
  | direct operation =>
      have hdelivery : cache.delivery? key operation = none := by
        cases operation with
        | write call incoming =>
            cases incoming with
            | none => rfl
            | some page => cases hresponse
        | read | peek | evict | evictEntity | clear | resetTally => rfl
      exact find?_perform_of_no_delivery hdelivery

end Cache

/-! ## The contents of a list -/

/-- What is in a list comes from responses: each item stands in the list of one of them,
and the other properties are none that the latest one is read by. -/
structure Snapshot.ComesFrom (registry : Registry) (responses : List StoredResponse)
    (list : Snapshot EntityKey) : Prop where
  lists : ∀ entity, some entity ∈ list.items →
    ∃ response ∈ responses, response.Lists registry entity
  keepsApart : ∃ latest, responses.getLast? = some latest ∧ latest.KeepsApart list.passthrough

namespace StoredResponse

/-- The items of a page are entities that the response lists. -/
theorem lists_of_decodeItems {registry : Registry} {response : StoredResponse}
    {items : List EntityKey} {entity : EntityKey}
    (hdecode : Response.decodeItems registry response.policy response.members =
      .ok (some items)) (hentity : entity ∈ items) : response.Lists registry entity := by
  cases hvalue : response.members.find? response.policy.listProperty with
  | none => simp [Response.decodeItems, hvalue] at hdecode
  | some value =>
      cases value with
      | array values =>
          obtain ⟨keys, hkeys, hidentified⟩ := (Response.decodeItems_eq_ok_iff hvalue).mp hdecode
          obtain rfl : items = keys := Option.some.inj hkeys
          obtain ⟨index, hindex, rfl⟩ := List.mem_iff_getElem.mp hentity
          have hsame := hidentified.length_eq
          exact ⟨values, hvalue, values[index], List.getElem_mem _,
            hidentified.get (hsame ▸ hindex) hindex⟩
      | null | bool | number | string | object =>
          simp [Response.decodeItems, hvalue] at hdecode

theorem keepsApart_otherMembers (response : StoredResponse) :
    response.KeepsApart (Response.otherMembers response.policy response.members) := by
  simp [KeepsApart, Response.otherMembers]

end StoredResponse

namespace Cache

variable {registry : Registry} {cache : Cache EntityKey} {key : SnapshotKey}

/-- What comes from some responses comes from them and the next one after that is stored. -/
theorem comesFrom_serve_of_stored (hregistry : cache.registry = registry) {request : Request}
    {response : StoredResponse} (hstored : cache.storedResponse? key request = some response)
    {earlier : List StoredResponse}
    (hearlier : ∀ list ∈ cache.find? key, list.ComesFrom registry earlier) :
    ∀ list ∈ (cache.serve request).2.find? key,
      list.ComesFrom registry (earlier ++ [response]) := by
  obtain ⟨items, total, window, hdecode, hheld⟩ := exists_find?_serve_of_stored hstored
  rw [hregistry] at hdecode
  intro list hlist
  obtain rfl := Option.some.inj (hheld.symm.trans hlist)
  refine ⟨fun entity hentity => ?_,
    response, List.getLast?_concat, response.keepsApart_otherMembers⟩
  rcases Snapshot.mem_of_mem_items_absorb hentity with hbase | ⟨page, hpage, hmem⟩
  · cases hknown : cache.find? key with
    | none => simp [hknown, Snapshot.empty] at hbase
    | some base =>
        rw [hknown, Option.getD_some] at hbase
        obtain ⟨source, hsource, hlists⟩ := (hearlier base hknown).lists entity hbase
        exact ⟨source, List.mem_append_left _ hsource, hlists⟩
  · obtain rfl : items = some page := hpage
    exact ⟨response, by simp, StoredResponse.lists_of_decodeItems hdecode hmem⟩

theorem comesFrom_serve (hregistry : cache.registry = registry) {request : Request}
    (hresponse : request.givesPage = false) {earlier : List StoredResponse}
    (hearlier : ∀ list ∈ cache.find? key, list.ComesFrom registry earlier) :
    ∀ list ∈ (cache.serve request).2.find? key,
      list.ComesFrom registry (earlier ++ (cache.storedResponse? key request).toList) := by
  cases hstored : cache.storedResponse? key request with
  | some response => exact comesFrom_serve_of_stored hregistry hstored hearlier
  | none =>
      intro list hlist
      rw [Option.toList_none, List.append_nil]
      rcases find?_serve_of_not_stored hresponse hstored with hgone | hkept
      · rw [hgone] at hlist
        cases hlist
      · exact hearlier list (hkept ▸ hlist)

/-- If what a list has comes from some responses before requests are served, then what it
has afterwards comes from these and the ones that were stored in between. -/
theorem comesFrom_serveAll (hregistry : cache.registry = registry) {requests : List Request}
    (hresponses : ∀ request ∈ requests, request.givesPage = false)
    {earlier : List StoredResponse}
    (hearlier : ∀ list ∈ cache.find? key, list.ComesFrom registry earlier) :
    ∀ list ∈ (cache.serveAll requests).2.find? key,
      list.ComesFrom registry (earlier ++ storedResponses key cache requests) := by
  induction requests generalizing cache earlier with
  | nil =>
      rw [storedResponses, List.append_nil]
      exact hearlier
  | cons request rest ih =>
      have hnext := comesFrom_serve hregistry (hresponses request (by simp)) hearlier
      have hrules := sameRules_serveAll cache [request]
      rw [storedResponses, ← List.append_assoc]
      exact ih (hrules.registry.trans hregistry)
        (fun later hlater => hresponses later (by simp [hlater])) hnext

/-- **What a cache holds, and where it comes from.**  Whatever requests a fresh cache has
served, refused ones among them, as long as no page is given directly: the keys that it
holds differ from each other, and there are no more of them than it has room for; every
list ends where pages may end; and what is in a list comes from the responses that were
written to it. -/
theorem contents_of_serveAll (registry : Registry) (maxSnapshots maxWindowEnd : Nat)
    (requests : List Request) (hresponses : ∀ request ∈ requests, request.givesPage = false) :
    let start : Cache EntityKey := fresh registry maxSnapshots maxWindowEnd
    let cache := (start.serveAll requests).2
    cache.keys.Nodup ∧ cache.size ≤ max maxSnapshots 1 ∧
      ∀ key list, cache.find? key = some list →
        list.length ≤ maxWindowEnd ∧
          list.ComesFrom registry (storedResponses key start requests) := by
  intro start cache
  have hsound := sound_serveAll (sound_fresh registry maxSnapshots maxWindowEnd) requests
  have hcapacity : cache.capacity = max maxSnapshots 1 :=
    congrArg (max · 1) (sameRules_serveAll start requests).maxSnapshots
  refine ⟨hsound.nodup, ?_, fun key list hheld => ⟨?_, ?_⟩⟩
  · rw [size_eq_length_keys, ← hcapacity]
    exact hsound.length_le
  · have hrun : cache = _ := serveAll_eq_run start requests
    rw [hrun] at hheld
    exact length_le_of_find?_run registry maxSnapshots maxWindowEnd _ key list hheld
  · have hnone : ∀ list ∈ start.find? key, list.ComesFrom registry [] := nofun
    exact comesFrom_serveAll rfl hresponses hnone list hheld

/-- A full page, a short page over its second item, a response that is refused, one with
the count only, and the removal of another list. -/
def mixedResponses : List Request :=
  [.writeResponse (Console.requestsCall "ws1" 0 2) (some (.object
     [("requests", .array
       [.object [("__ref", .string "Request:r1")], .object [("__ref", .string "Request:r2")]])])),
   .writeResponse (Console.requestsCall "ws1" 1 5) (some (.object
     [("pageInfo", .bool true),
      ("requests", .array [.object [("__typename", .string "Request"), ("id", .ofNat 7)]])])),
   .writeResponse (Console.requestsCall "ws1" 0 2) (some (.object [("requests", .bool true)])),
   .writeResponse (Console.requestsCall "ws1" 0 2) (some (.object
     [("cursor", .string "c2"), ("numRequests", .ofNat 2)])),
   .direct (.evict (Console.requestsCall "ws2" 0 2))]

theorem contents_of_serveAll_mixedResponses :
    let start : Cache EntityKey := fresh Console.requestsRegistry 0 2
    let cache := (start.serveAll mixedResponses).2
    let key := Console.requestsKey "ws1"
    let list : Snapshot EntityKey :=
      ⟨[some ⟨"Request:r1"⟩, some ⟨"Request:7"⟩], some 2, [("cursor", .string "c2")]⟩
    (∀ request ∈ mixedResponses, request.givesPage = false) ∧
      cache.keys.Nodup ∧ cache.size ≤ 1 ∧ cache.find? key = some list ∧ list.length ≤ 2 ∧
        list.ComesFrom Console.requestsRegistry (storedResponses key start mixedResponses) := by
  intro start cache key list
  have hresponses : ∀ request ∈ mixedResponses, request.givesPage = false := by
    simp [mixedResponses, Request.givesPage]
  obtain ⟨hnodup, hsize, hlists⟩ :=
    contents_of_serveAll Console.requestsRegistry 0 2 mixedResponses hresponses
  have hheld : cache.find? key = some list := rfl
  exact ⟨hresponses, hnodup, hsize, hheld, hlists key list hheld⟩

end Cache

end PagedCache
