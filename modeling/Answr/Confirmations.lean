import Answr.CompletionRuns
set_option autoImplicit false

/-! Any number of confirmations of one request. No write looks at whether the request
still exists, so every confirmation lowers the counters and is counted for its
volunteer; the removals are the same however often they are made. -/

namespace Answr
open LeafTree Pool

section Issued

def issuedBy (request : Request) (zoneID id uid : String) : List Op :=
  updateCounters request.items zoneID ++
    [.findEntry (userRequestsRef request.senderID zoneID) request.id,
      .raise (completedRequestsRef uid),.dropRequest (requestRef zoneID id)]

variable {request : Request} {zoneID id uid : String} {op o : Op} {p : Path}

theorem markRequestAsComplete_ok (hid : request.id = some id) :
    markRequestAsComplete (some uid) request zoneID = .ok (issuedBy request zoneID id uid) := by
  simp only [markRequestAsComplete,hid,unwrap,issuedBy]
  rfl

theorem mem_updateCounters {items : List RequestItem} {zoneid : String} :
    op ∈ updateCounters items zoneid ↔ ∃ item ∈ items,
      op = .lower (requestCounterRef zoneid item.id) item.qty ∨
      op = .lower (requestedRef item.id) item.qty := by
  simp [updateCounters]

theorem mem_issuedBy : op ∈ issuedBy request zoneID id uid ↔
    (∃ item ∈ request.items, op = .lower (requestCounterRef zoneID item.id) item.qty ∨
      op = .lower (requestedRef item.id) item.qty) ∨
    op = .findEntry (userRequestsRef request.senderID zoneID) request.id ∨
    op = .raise (completedRequestsRef uid) ∨ op = .dropRequest (requestRef zoneID id) := by
  simp [issuedBy,mem_updateCounters]

structure ContentItems (items : List RequestItem) : Prop where
  keys : ∀ item ∈ items, IsKey item.id
  once : (items.map (·.id)).Nodup

theorem ContentItems.eq {items : List RequestItem} (h : ContentItems items)
    {item item' : RequestItem} (hi : item ∈ items) (hi' : item' ∈ items)
    (hid : item.id = item'.id) : item = item' :=
  List.inj_on_of_nodup_map h.once hi hi' hid

theorem requestCounterRef_apart {zoneid i j : String} (hi : IsKey i) (hj : IsKey j)
    (hne : i ≠ j) : Apart (requestCounterRef zoneid i) (requestCounterRef zoneid j) := by
  rw [child_requestCounter,child_requestCounter,apart_cons,apart_append,hi,hj]
  exact fun _ => apart_of_length rfl (by simpa using hne)

theorem requestedRef_apart {i j : String} (hi : IsKey i) (hj : IsKey j) (hne : i ≠ j) :
    Apart (requestedRef i) (requestedRef j) := by
  rw [child_requested,child_requested,apart_cons,hi,hj]
  exact fun _ => apart_of_length rfl (by simpa using hne)

theorem completedRequestsRef_apart {u v : String} (hu : IsKey u) (hv : IsKey v)
    (hne : u ≠ v) : Apart (completedRequestsRef u) (completedRequestsRef v) := by
  rw [child_completedRequests,child_completedRequests,apart_cons,hu,hv]
  exact fun _ => apart_of_length rfl (by simpa using hne)

theorem updateCounters_nodup {items : List RequestItem} (h : ContentItems items)
    (zoneid : String) : (updateCounters items zoneid).Nodup := by
  rw [updateCounters,List.nodup_flatMap]
  constructor
  · intro item _
    simp [child_requestCounter,child_requested]
  · have hids := h.once
    rw [List.nodup_iff_pairwise_ne,List.pairwise_map] at hids
    refine hids.imp_of_mem fun {item item'} hi hi' hne => ?_
    have hk : segments item.id = [item.id] := h.keys item hi
    have hk' : segments item'.id = [item'.id] := h.keys item' hi'
    simp [Function.onFun,List.disjoint_left,child_requestCounter,child_requested,hk,hk',hne]

theorem issuedBy_nodup (h : ContentItems request.items) (zoneID id uid : String) :
    (issuedBy request zoneID id uid).Nodup := by
  rw [issuedBy,List.nodup_append]
  refine ⟨updateCounters_nodup h zoneID,by simp,?_⟩
  rintro _ ho _ hlast rfl
  obtain ⟨item,-,rfl | rfl⟩ := mem_updateCounters.mp ho
  · simp at hlast
  · simp at hlast

theorem issuedBy_apart {uid' : String} (h : ContentItems request.items)
    (hu : uid' ≠ uid → IsKey uid' ∧ IsKey uid) (ho : o ∈ issuedBy request zoneID id uid)
    (hop : op ∈ issuedBy request zoneID id uid') (hne : op ≠ o) : Apart op.ref o.ref := by
  rcases mem_issuedBy.mp ho with ⟨i,hi,rfl | rfl⟩ | rfl | rfl | rfl
  · rcases mem_issuedBy.mp hop with ⟨j,hj,rfl | rfl⟩ | rfl | rfl | rfl
    · apply requestCounterRef_apart (h.keys j hj) (h.keys i hi)
      exact fun hij => hne (by rw [h.eq hj hi hij])
    · simp [Op.ref,child_requestCounter,child_requested,apart_cons]
    · simp [Op.ref,child_requestCounter,child_userRequests,apart_cons]
    · simp [Op.ref,child_requestCounter,child_completedRequests,apart_cons]
    · simp [Op.ref,child_requestCounter,child_requests,apart_cons]
  · rcases mem_issuedBy.mp hop with ⟨j,hj,rfl | rfl⟩ | rfl | rfl | rfl
    · simp [Op.ref,child_requestCounter,child_requested,apart_cons]
    · apply requestedRef_apart (h.keys j hj) (h.keys i hi)
      exact fun hij => hne (by rw [h.eq hj hi hij])
    · simp [Op.ref,child_requested,child_userRequests,apart_cons]
    · simp [Op.ref,child_requested,child_completedRequests,apart_cons]
    · simp [Op.ref,child_requested,child_requests,apart_cons]
  · rcases mem_issuedBy.mp hop with ⟨j,hj,rfl | rfl⟩ | rfl | rfl | rfl
    · simp [Op.ref,child_requestCounter,child_userRequests,apart_cons]
    · simp [Op.ref,child_requested,child_userRequests,apart_cons]
    · exact absurd rfl hne
    · simp [Op.ref,child_userRequests,child_completedRequests,apart_cons]
    · simp [Op.ref,child_userRequests,child_requests,apart_cons]
  · rcases mem_issuedBy.mp hop with ⟨j,hj,rfl | rfl⟩ | rfl | rfl | rfl
    · simp [Op.ref,child_requestCounter,child_completedRequests,apart_cons]
    · simp [Op.ref,child_requested,child_completedRequests,apart_cons]
    · simp [Op.ref,child_userRequests,child_completedRequests,apart_cons]
    · have huid : uid' ≠ uid := fun heq => hne (by rw [heq])
      exact completedRequestsRef_apart (hu huid).1 (hu huid).2 huid
    · simp [Op.ref,child_requests,child_completedRequests,apart_cons]
  · rcases mem_issuedBy.mp hop with ⟨j,hj,rfl | rfl⟩ | rfl | rfl | rfl
    · simp [Op.ref,child_requestCounter,child_requests,apart_cons]
    · simp [Op.ref,child_requested,child_requests,apart_cons]
    · simp [Op.ref,child_userRequests,child_requests,apart_cons]
    · simp [Op.ref,child_completedRequests,child_requests,apart_cons]
    · exact absurd rfl hne

end Issued

section Run

variable (uids : List String) (request : Request) (zoneID id : String)

def confirmAll : Except Fault (List Op) := do
  let issued ← uids.mapM fun uid => markRequestAsComplete (some uid) request zoneID
  return issued.flatten

def Issued (op : Op) : Prop := ∃ uid ∈ uids, op ∈ issuedBy request zoneID id uid

/-- What the confirmations leave of the database `db`. -/
structure Confirmed (db db' : Database) : Prop where
  requestCounters : ∀ item ∈ request.items, get (requestCounterRef zoneID item.id) db' =
    (lowered item.qty)^[uids.length] (get (requestCounterRef zoneID item.id) db)
  requested : ∀ item ∈ request.items, get (requestedRef item.id) db' =
    (lowered item.qty)^[uids.length] (get (requestedRef item.id) db)
  completedRequests : ∀ uid ∈ uids, get (completedRequestsRef uid) db' =
    raised^[uids.count uid] (get (completedRequestsRef uid) db)
  requestGone : uids ≠ [] → ∀ p, requestRef zoneID id <+: p → get p db' = none
  entryGone : uids ≠ [] → ∀ key,
    get (userRequestsRef request.senderID zoneID ++ [key]) db = some (.string id) →
    ∀ p, userRequestsRef request.senderID zoneID ++ [key] <+: p → get p db' = none
  otherEntries : ∀ p, userRequestsRef request.senderID zoneID <+: p →
    (∀ key, get (userRequestsRef request.senderID zoneID ++ [key]) db = some (.string id) →
      ¬ userRequestsRef request.senderID zoneID ++ [key] <+: p) → get p db' = get p db
  others : ∀ p, (∀ op, Issued uids request zoneID id op → Apart op.ref p) →
    get p db' = get p db

variable {uids request zoneID id} {op o : Op} {p : Path} {db : Database}

theorem confirmAll_ok (hid : request.id = some id) : confirmAll uids request zoneID =
    .ok (uids.flatMap (issuedBy request zoneID id)) := by
  have hall : uids.mapM (fun uid => markRequestAsComplete (some uid) request zoneID) =
      .ok (uids.map (issuedBy request zoneID id)) := by
    induction uids with
    | nil => rfl
    | cons uid uids ih =>
      rw [List.mapM_cons,markRequestAsComplete_ok hid,ih]
      rfl
  rw [confirmAll,hall,List.flatMap]
  rfl

theorem mem_confirmAll : op ∈ ((uids.flatMap (issuedBy request zoneID id) : List Op) :
    Multiset Op) ↔ Issued uids request zoneID id op := by
  simp [Issued]

theorem issued_spares (h : ContentItems request.items) {uid : String}
    (hu : ∀ uid' ∈ uids, uid' ≠ uid → IsKey uid' ∧ IsKey uid)
    (ho : o ∈ issuedBy request zoneID id uid) (hc : o.Covers p)
    (hop : op.Arises (Issued uids request zoneID id)) (hne : op ≠ o) : op.Spares p := by
  rcases hop with ⟨uid',hmem',hop⟩ | ⟨ref,rid,key,⟨uid',hmem',hop⟩,rfl⟩
  · exact Op.spares_of_apart
      ((issuedBy_apart h (hu uid' hmem') ho hop hne).below hc.below)
  · -- the entry lies below the node of the read
    have hfind : Op.findEntry ref rid ≠ o := by
      rintro rfl
      exact hc
    have hapart := issuedBy_apart h (hu uid' hmem') ho hop hfind
    exact Op.spares_of_apart
      ((hapart.symm.below (List.prefix_append _ _)).symm.below hc.below)

theorem count_issued (h : ContentItems request.items) :
    (∀ item ∈ request.items,
      (uids.flatMap (issuedBy request zoneID id)).count
        (.lower (requestCounterRef zoneID item.id) item.qty) = uids.length ∧
      (uids.flatMap (issuedBy request zoneID id)).count
        (.lower (requestedRef item.id) item.qty) = uids.length) ∧
    (uids.flatMap (issuedBy request zoneID id)).count (.dropRequest (requestRef zoneID id)) =
      uids.length := by
  have hcount : ∀ o, (∀ uid, o ∈ issuedBy request zoneID id uid) →
      (uids.flatMap (issuedBy request zoneID id)).count o = uids.length := by
    intro o ho
    rw [List.count_flatMap]
    have hone : List.count o ∘ issuedBy request zoneID id = fun _ => 1 := by
      funext uid
      exact List.count_eq_one_of_mem (issuedBy_nodup h zoneID id uid) (ho uid)
    simp [hone]
  refine ⟨fun item hitem => ⟨hcount _ fun uid => ?_,hcount _ fun uid => ?_⟩,
    hcount _ fun uid => ?_⟩
  · exact mem_issuedBy.mpr (.inl ⟨item,hitem,.inl rfl⟩)
  · exact mem_issuedBy.mpr (.inl ⟨item,hitem,.inr rfl⟩)
  · exact mem_issuedBy.mpr (.inr (.inr (.inr rfl)))

theorem count_raise (h : ContentItems request.items) (hu : ∀ uid ∈ uids, IsKey uid)
    {uid : String} (huid : IsKey uid) :
    (uids.flatMap (issuedBy request zoneID id)).count (.raise (completedRequestsRef uid)) =
      uids.count uid := by
  induction uids with
  | nil => rfl
  | cons u uids ih =>
    rw [List.flatMap_cons,List.count_append,ih fun v hv => hu v (by simp [hv]),List.count_cons]
    have hk : segments u = [u] := hu u (by simp)
    have hk' : segments uid = [uid] := huid
    have hfirst : (issuedBy request zoneID id u).count (.raise (completedRequestsRef uid)) =
        if u == uid then 1 else 0 := by
      by_cases heq : u = uid
      · subst heq
        rw [List.count_eq_one_of_mem (issuedBy_nodup h zoneID id u)
          (mem_issuedBy.mpr (.inr (.inr (.inl rfl))))]
        simp
      · have hnot : Op.raise (completedRequestsRef uid) ∉ issuedBy request zoneID id u := by
          rw [mem_issuedBy]
          simp [child_completedRequests,hk,hk',Ne.symm heq]
        rw [List.count_eq_zero.mpr hnot]
        simp [heq]
    omega

theorem issued_findEntry (hid : request.id = some id) {ref : Path} {rid : Option String} :
    Issued uids request zoneID id (.findEntry ref rid) ↔
      uids ≠ [] ∧ ref = userRequestsRef request.senderID zoneID ∧ rid = some id := by
  constructor
  · rintro ⟨uid,hmem,hop⟩
    refine ⟨List.ne_nil_of_mem hmem,?_⟩
    rcases mem_issuedBy.mp hop with ⟨item,-,heq | heq⟩ | heq | heq | heq
    · cases heq
    · cases heq
    · cases heq
      exact ⟨rfl,hid⟩
    · cases heq
    · cases heq
  · rintro ⟨hne,rfl,rfl⟩
    obtain ⟨uid,hmem⟩ := List.exists_mem_of_ne_nil uids hne
    exact ⟨uid,hmem,mem_issuedBy.mpr (.inr (.inl (by rw [hid])))⟩

theorem issued_indexInput (h : ContentItems request.items) (hu : ∀ uid ∈ uids, IsKey uid)
    (hid : request.id = some id)
    (hstrings : StringEntries (userRequestsRef request.senderID zoneID) db)
    (honce : ∀ key key',
      get (userRequestsRef request.senderID zoneID ++ [key]) db = some (.string id) →
      get (userRequestsRef request.senderID zoneID ++ [key']) db = some (.string id) →
      key = key') : IndexInput (Issued uids request zoneID id) db := by
  refine ⟨?_,?_,?_,?_⟩
  · rintro ref ⟨uid,-,hop⟩
    rcases mem_issuedBy.mp hop with ⟨item,-,heq | heq⟩ | heq | heq | heq <;> cases heq
  · rintro op ref rid ⟨uid,hmem,hop⟩ ⟨uid',hmem',href⟩
    by_cases heq : op = .findEntry ref rid
    · exact .inl ⟨rid,heq⟩
    · exact .inr (issuedBy_apart h (fun _ => ⟨hu uid hmem,hu uid' hmem'⟩) href hop heq)
  · intro ref rid href
    obtain ⟨-,rfl,-⟩ := (issued_findEntry hid).mp href
    exact hstrings
  · intro ref rid href
    obtain ⟨-,rfl,hrid⟩ := (issued_findEntry hid).mp href
    rw [Option.some.inj hrid]
    exact honce

theorem get_confirmed {s : Server} (hitems : ContentItems request.items)
    (huids : ∀ uid ∈ uids, IsKey uid)
    (hr : Runs (perform always) ⟨⟨db,0⟩,(uids.flatMap (issuedBy request zoneID id) : List Op)⟩
      ⟨s,0⟩)
    {uid : String} (huid : IsKey uid) (ho : o ∈ issuedBy request zoneID id uid)
    (hc : o.Covers p) (hentry : ∀ ref, o ≠ .dropEntry ref) : get p s.db =
      o.act^[(uids.flatMap (issuedBy request zoneID id)).count o] (get p db) := by
  have hget := get_of_covers hr (fun _ => mem_confirmAll.mp) hc hentry fun op hop hne =>
    issued_spares hitems (fun uid' h _ => ⟨huids uid' h,huid⟩) ho hc hop hne
  rwa [Multiset.coe_count] at hget

/-- Confirmations of one request have the effect of as many completions, whatever the
interleaving of their operations. -/
theorem confirmAll_ends (uids : List String) (request : Request) (zoneID id : String)
    (db : Database) (hid : request.id = some id) (hitems : ContentItems request.items)
    (huids : ∀ uid ∈ uids, IsKey uid)
    (hstrings : StringEntries (userRequestsRef request.senderID zoneID) db)
    (honce : ∀ key key',
      get (userRequestsRef request.senderID zoneID ++ [key]) db = some (.string id) →
      get (userRequestsRef request.senderID zoneID ++ [key']) db = some (.string id) →
      key = key') :
    ∃ issued, confirmAll uids request zoneID = .ok issued ∧
      Ends (perform always) ⟨⟨db,0⟩,issued⟩ fun s => Confirmed uids request zoneID id db s.db := by
  refine ⟨_,confirmAll_ok hid,?_⟩
  have hin := issued_indexInput hitems huids hid hstrings honce
  have hends : Ends (perform always) ⟨⟨db,0⟩,(uids.flatMap (issuedBy request zoneID id) : List Op)⟩
      fun s => IndexCleared (Issued uids request zoneID id) db s.db :=
    index_ends hin fun op => mem_confirmAll
  refine ⟨hends.noError,hends.finishes,fun s hr => ?_⟩
  have hcleared := hends.post s hr
  have hcounts := @count_issued uids request zoneID id hitems
  refine ⟨?_,?_,?_,?_,?_,?_,?_⟩
  · intro item hitem
    rw [← (hcounts.1 item hitem).1]
    exact get_confirmed hitems huids hr (rfl : IsKey "u")
      (mem_issuedBy.mpr (.inl ⟨item,hitem,.inl rfl⟩)) rfl (by simp)
  · intro item hitem
    rw [← (hcounts.1 item hitem).2]
    exact get_confirmed hitems huids hr (rfl : IsKey "u")
      (mem_issuedBy.mpr (.inl ⟨item,hitem,.inr rfl⟩)) rfl (by simp)
  · intro uid huid
    have hget := get_confirmed hitems huids hr (huids uid huid)
      (mem_issuedBy.mpr (.inr (.inr (.inl rfl)))) rfl (by simp)
    rwa [count_raise hitems huids (huids uid huid)] at hget
  · intro hne p hp
    rw [get_confirmed hitems huids hr (rfl : IsKey "u")
      (mem_issuedBy.mpr (.inr (.inr (.inr rfl)))) hp (by simp),hcounts.2]
    obtain ⟨n,hn⟩ := Nat.exists_eq_succ_of_ne_zero (List.length_eq_zero_iff.not.mpr hne)
    rw [hn,Function.iterate_succ_apply']
    rfl
  · intro hne key hkey p hp
    have hread : Issued uids request zoneID id
        (.findEntry (userRequestsRef request.senderID zoneID) (some id)) :=
      (issued_findEntry hid).mpr ⟨hne,rfl,rfl⟩
    exact (hcleared _ _ hread p ((List.prefix_append _ _).trans hp)).1
      ⟨id,key,⟨hread,hkey⟩,hp⟩
  · intro p hp hnone
    by_cases hne : uids = []
    · subst hne
      exact get_of_apart hr (fun _ => mem_confirmAll.mp) fun op ⟨_,hmem,_⟩ => nomatch hmem
    · refine (hcleared _ _ ((issued_findEntry hid).mpr ⟨hne,rfl,rfl⟩) p hp).2 ?_
      rintro ⟨id',key,⟨hread,hget⟩,hkp⟩
      obtain ⟨-,-,hid'⟩ := (issued_findEntry hid).mp hread
      exact hnone key (Option.some.inj hid' ▸ hget) hkp
  · intro p hp
    exact get_of_apart hr (fun _ => mem_confirmAll.mp) hp

def riceRequest : Request :=
  ⟨some "r1",some 1,"s1",some "Pending",some 5,
    [⟨"rice","Rice","rice",2,none,none,"white",none⟩],none,none,none⟩

def riceDatabase : Database := [
  (["requestCounter","north","rice"],.number 10),
  (["items","rice","requested"],.number 10),
  (["userRequests","s1","north","k1"],.string "r1"),
  (["requests","north","r1","senderID"],.string "s1"),
  (["requests","north","r1","content","rice"],.number 2)]

theorem riceItems : ContentItems riceRequest.items := ⟨by decide,by decide⟩

theorem riceEntries {key : String}
    (h : key ∈ keys (userRequestsRef riceRequest.senderID "north") riceDatabase) :
    key = "k1" := by
  rwa [show keys (userRequestsRef riceRequest.senderID "north") riceDatabase = ["k1"] from rfl,
    List.mem_singleton] at h

theorem rice_strings : StringEntries (userRequestsRef riceRequest.senderID "north")
    riceDatabase := by
  intro key hkey
  obtain rfl := riceEntries hkey
  exact ⟨"r1",rfl⟩

theorem rice_once (key key' : String)
    (h : get (userRequestsRef riceRequest.senderID "north" ++ [key]) riceDatabase =
      some (.string "r1"))
    (h' : get (userRequestsRef riceRequest.senderID "north" ++ [key']) riceDatabase =
      some (.string "r1")) : key = key' := by
  rw [riceEntries (keys_of_get _ _ h),riceEntries (keys_of_get _ _ h')]

theorem confirmAll_ends_rice :
    ∃ issued, confirmAll ["u1","u2"] riceRequest "north" = .ok issued ∧
      Ends (perform always) ⟨⟨riceDatabase,0⟩,issued⟩ fun s =>
        Confirmed ["u1","u2"] riceRequest "north" "r1" riceDatabase s.db :=
  confirmAll_ends ["u1","u2"] riceRequest "north" "r1" riceDatabase rfl riceItems (by decide)
    rice_strings rice_once

/-- The effect of a single completion by one of the volunteers. -/
structure CompletedOnce (uids : List String) (request : Request) (zoneID id : String)
    (db db' : Database) : Prop where
  requestCounters : ∀ item ∈ request.items, get (requestCounterRef zoneID item.id) db' =
    lowered item.qty (get (requestCounterRef zoneID item.id) db)
  requested : ∀ item ∈ request.items,
    get (requestedRef item.id) db' = lowered item.qty (get (requestedRef item.id) db)
  completedRequests : ∃ uid ∈ uids,
    get (completedRequestsRef uid) db' = raised (get (completedRequestsRef uid) db) ∧
    ∀ other ∈ uids, other ≠ uid →
      get (completedRequestsRef other) db' = get (completedRequestsRef other) db
  requestGone : ∀ p, requestRef zoneID id <+: p → get p db' = none
  entryGone : ∀ key,
    get (userRequestsRef request.senderID zoneID ++ [key]) db = some (.string id) →
    get (userRequestsRef request.senderID zoneID ++ [key]) db' = none

/-- Two volunteers confirm the request for two packs: the counters go from 10 to 6, and
both volunteers are credited. -/
theorem not_completedOnce : ¬ ∀ (uids : List String) (request : Request) (zoneID id : String)
    (db : Database), uids ≠ [] → request.id = some id → ContentItems request.items →
    (∀ uid ∈ uids, IsKey uid) →
    StringEntries (userRequestsRef request.senderID zoneID) db →
    (∀ key key',
      get (userRequestsRef request.senderID zoneID ++ [key]) db = some (.string id) →
      get (userRequestsRef request.senderID zoneID ++ [key']) db = some (.string id) →
      key = key') →
    ∃ issued, confirmAll uids request zoneID = .ok issued ∧
      Ends (perform always) ⟨⟨db,0⟩,issued⟩ fun s =>
        CompletedOnce uids request zoneID id db s.db := by
  intro h
  obtain ⟨issued,hissued,hends⟩ := h ["u1","u2"] riceRequest "north" "r1" riceDatabase
    (by simp) rfl riceItems (by decide) rice_strings rice_once
  rw [confirmAll_ok rfl,Except.ok.injEq] at hissued
  subst hissued
  obtain ⟨s,hs,hcounter⟩ : ∃ s, inOrder (perform always) 12
      (["u1","u2"].flatMap (issuedBy riceRequest "north" "r1")) ⟨riceDatabase,0⟩ = some s ∧
      get (requestCounterRef "north" "rice") s.db = some (.number 6) := ⟨_,rfl,rfl⟩
  have honce := (hends.post s (runs_of_inOrder hs)).requestCounters _ (.head _)
  have hrice : lowered 2 (get (requestCounterRef "north" "rice") riceDatabase) =
      some (.number 8) := rfl
  exact absurd ((hcounter.symm.trans honce).trans hrice) (by decide)

end Run

end Answr
