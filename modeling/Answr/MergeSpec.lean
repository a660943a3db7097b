import Answr.Separation
set_option autoImplicit false

/-! The declarative merge of a store with a snapshot, read off the reconciliation
zone by zone. -/

namespace Answr

def Store.zoneEntries (s : Store) (zoneid : String) : List Entry :=
  match s.zones.find? (fun c => c.zoneid == some zoneid) with
  | some c => s.entries c
  | none => []

theorem Store.zoneEntries_eq {s : Store} (hn : (s.zones.map (·.zoneid)).Nodup)
    {c : CDZoneRequests} (hc : c ∈ s.zones) {zoneid : String} (hz : c.zoneid = some zoneid) :
    s.zoneEntries zoneid = s.entries c := by
  cases hf : s.zones.find? (fun c => c.zoneid == some zoneid) with
  | none =>
    rw [List.find?_eq_none] at hf
    simpa [hz] using hf c hc
  | some c' =>
    have hz' : c'.zoneid = some zoneid := by simpa using List.find?_some hf
    have heq : c' = c :=
      List.inj_on_of_nodup_map hn (List.mem_of_find?_eq_some hf) hc (hz'.trans hz.symm)
    simp [zoneEntries,hf,heq]

theorem Store.zoneEntries_none {s : Store} {zoneid : String}
    (h : ∀ c ∈ s.zones, c.zoneid ≠ some zoneid) : s.zoneEntries zoneid = [] := by
  have hf : s.zones.find? (fun c => c.zoneid == some zoneid) = none := by
    rw [List.find?_eq_none]
    intro c hc
    simpa using h c hc
  simp [zoneEntries,hf]

theorem Store.mem_zoneEntries {s : Store} (hn : (s.zones.map (·.zoneid)).Nodup)
    {zoneid : String} {e : Entry} : e ∈ s.zoneEntries zoneid ↔
      ∃ c ∈ s.zones, c.zoneid = some zoneid ∧ e ∈ s.entries c := by
  constructor
  · intro he
    by_contra hcon
    rw [zoneEntries] at he
    split at he
    · rename_i c hf
      exact hcon ⟨c,List.mem_of_find?_eq_some hf,by simpa using List.find?_some hf,he⟩
    · simp at he
  · rintro ⟨c,hc,hz,he⟩
    rwa [zoneEntries_eq hn hc hz]

theorem Store.Saved.exists_zoneEntries {s : Store} (hs : s.Saved)
    (hn : (s.zones.map (·.zoneid)).Nodup) {r : CDRequest} (hr : r ∈ s.requests) :
    ∃ c ∈ s.zones, ∃ zoneid, c.zoneid = some zoneid ∧ r.requestZone = some c.objectID ∧
      (r,s.itemsOf r) ∈ s.zoneEntries zoneid := by
  obtain ⟨c,hc,hrz⟩ := hs.zoneOf r hr
  obtain ⟨zoneid,hz⟩ := Option.isSome_iff_exists.mp (hs.zoneFields c hc)
  exact ⟨c,hc,zoneid,hz,hrz,(mem_zoneEntries hn).mpr ⟨c,hc,hz,mem_entries.mpr ⟨hr,hrz,rfl⟩⟩⟩

section Reconciled

variable {s s' : Store} {snapshot : List ZoneRequests}

theorem unmatched_nil (reqs : List Request) : unmatched [] reqs = reqs := by
  simp [unmatched]

theorem Reconciled.zone (hin : SyncInput s snapshot) (hr : Reconciled s snapshot s')
    {z : ZoneRequests} (hz : z ∈ snapshot) :
    ∃ c ∈ s'.zones, c.zoneid = some z.zoneid ∧
      Merged s.nextID c (s.zoneEntries z.zoneid) z.requests (s'.zoneEntries z.zoneid) := by
  by_cases hold : ∃ c ∈ s.zones, c.zoneid = some z.zoneid
  · obtain ⟨c,hc,hcz⟩ := hold
    have hc' := (hr.kept c hc).mpr ⟨z,hz,hcz⟩
    refine ⟨c,hc',hcz,?_⟩
    rw [Store.zoneEntries_eq hr.zones hc' hcz,Store.zoneEntries_eq hin.zones hc hcz]
    exact hr.both c hc z hz hcz
  · simp only [not_exists,not_and] at hold
    obtain ⟨c,hc,hcz,hnew⟩ := hr.new z hz hold
    refine ⟨c,hc,hcz,s'.zoneEntries z.zoneid,?_,?_⟩
    · rw [Store.zoneEntries_none hold,unmatched_nil,Store.zoneEntries_eq hr.zones hc hcz]
      exact hnew
    · rw [Store.zoneEntries_none hold]
      rfl

theorem forall₂_ids {lo : Nat} {c : CDZoneRequests} {reqs : List Request} {news : List Entry}
    (h : List.Forall₂ (IsNew lo c) reqs news) :
    news.map (fun e => e.1.id) = reqs.map (·.id) := by
  induction h with
  | nil => rfl
  | cons hab _ ih => rw [List.map_cons,List.map_cons,isNew_id hab,ih]

theorem map_filterMap_sublist {α κ : Type} {f : α → Option α} {key : α → κ} {l : List α}
    (h : ∀ x y, f x = some y → key y = key x) : ((l.filterMap f).map key).Sublist (l.map key) := by
  induction l with
  | nil => exact .slnil
  | cons x l ih =>
    cases hx : f x with
    | none =>
      rw [List.filterMap_cons_none hx]
      exact ih.cons _
    | some y =>
      rw [List.filterMap_cons_some hx,List.map_cons,List.map_cons,h x y hx]
      exact ih.cons_cons _

theorem reconciled_id {reqs : List Request} {e e' : Entry} (h : reconciled reqs e = some e') :
    e.1.id = e'.1.id := by
  unfold reconciled at h
  split at h
  · rw [← Option.some.inj h]
    rfl
  · cases h

theorem reconciled_ids_nodup {lo : Nat} {c : CDZoneRequests} {stored news : List Entry}
    {reqs part : List Request} (hpart : part.Sublist (unmatched stored reqs))
    (hnews : List.Forall₂ (IsNew lo c) part news)
    (hs : (stored.map fun e => e.1.id).Nodup) (hr : (reqs.map (·.id)).Nodup) :
    ((stored.filterMap (reconciled reqs) ++ news).map fun e => e.1.id).Nodup := by
  rw [List.map_append,forall₂_ids hnews,List.nodup_append]
  refine ⟨?_,hr.sublist ((hpart.trans List.filter_sublist).map _),?_⟩
  · refine hs.sublist (map_filterMap_sublist fun e e' he => ?_)
    exact (reconciled_id he).symm
  · rintro _ ha _ hb rfl
    obtain ⟨e,he,hea⟩ := List.mem_map.mp ha
    obtain ⟨req,hreq,hreqa⟩ := List.mem_map.mp hb
    obtain ⟨e₀,he₀,hc,rfl⟩ := mem_reconciled.mp he
    obtain ⟨req',hreq',heq⟩ := hasCounterpart_iff.mp hc
    obtain ⟨hreqm,hnone⟩ := List.mem_filter.mp (hpart.subset hreq)
    have hid : req'.id = e₀.1.id := ((Request.equals_iff _ _).mp heq).1.symm
    have hsame : req' = req :=
      List.inj_on_of_nodup_map hr hreq' hreqm (hid.trans (hea.trans hreqa.symm))
    simp only [Bool.not_eq_true',List.any_eq_false] at hnone
    exact hnone e₀ he₀ (hsame ▸ heq)

theorem Merged.ids_nodup {lo : Nat} {c : CDZoneRequests} {stored entries : List Entry}
    {reqs : List Request} (h : Merged lo c stored reqs entries)
    (hs : (stored.map fun e => e.1.id).Nodup) (hr : (reqs.map (·.id)).Nodup) :
    (entries.map fun e => e.1.id).Nodup := by
  obtain ⟨news,hnews,rfl⟩ := h
  exact reconciled_ids_nodup (.refl _) hnews hs hr

theorem SyncInput.zoneEntries_ids (hin : SyncInput s snapshot) (zoneid : String) :
    ((s.zoneEntries zoneid).map fun e => e.1.id).Nodup := by
  by_cases hold : ∃ c ∈ s.zones, c.zoneid = some zoneid
  · obtain ⟨c,hc,hcz⟩ := hold
    rw [Store.zoneEntries_eq hin.zones hc hcz]
    have h := hin.inZone c hc
    rw [← Store.map_fst_entries,List.map_map] at h
    exact h
  · simp only [not_exists,not_and] at hold
    simp [Store.zoneEntries_none hold]

theorem Reconciled.pairs (hin : SyncInput s snapshot) (hr : Reconciled s snapshot s')
    (zoneid : String) (id : Option String) :
    (∃ e ∈ s'.zoneEntries zoneid, e.1.id = id) ↔
      ∃ z ∈ snapshot, z.zoneid = zoneid ∧ ∃ req ∈ z.requests, req.id = id := by
  constructor
  · rintro ⟨e,he,rfl⟩
    obtain ⟨c,hc,hcz,-⟩ := (Store.mem_zoneEntries hr.zones).mp he
    obtain ⟨z,hz,hzid⟩ := hr.zoneids c hc
    have heq : z.zoneid = zoneid := Option.some.inj (hzid.symm.trans hcz)
    obtain ⟨_,-,-,hm⟩ := hr.zone hin hz
    rw [heq] at hm
    obtain ⟨req,hreq,hid⟩ := hm.mem_snapshot he
    exact ⟨z,hz,heq,req,hreq,hid⟩
  · rintro ⟨z,hz,rfl,req,hreq,rfl⟩
    obtain ⟨_,-,-,hm⟩ := hr.zone hin hz
    exact hm.exists_entry hreq

theorem Reconciled.inZone (hin : SyncInput s snapshot) (hr : Reconciled s snapshot s') :
    ∀ c ∈ s'.zones, ((s'.requestsOf c).map (·.id)).Nodup := by
  intro c hc
  obtain ⟨z,hz,hzid⟩ := hr.zoneids c hc
  obtain ⟨c',-,-,hm⟩ := hr.zone hin hz
  have h := hm.ids_nodup (hin.zoneEntries_ids z.zoneid) (hin.snapshotInZone z hz)
  rw [Store.zoneEntries_eq hr.zones hc hzid] at h
  rw [← Store.map_fst_entries,List.map_map]
  exact h

end Reconciled

section Spec

/-- The row holds the item, unchecked; numbers as an Integer 32 attribute holds
them. -/
structure HoldsItem (item : RequestItem) (row : CDRequestItem) : Prop where
  id : row.id = some item.id
  name : row.name = some item.name
  icon : row.icon = some item.icon
  bgCol : row.bgCol = some item.bgCol
  qty : row.qty = integer32 item.qty
  qtyLimit : row.qtyLimit = item.qtyLimit.map integer32
  qtyRemaining : row.qtyRemaining = item.qtyRemaining.map integer32
  checked : row.checked = false

structure Holds (req : Request) (e : Entry) : Prop where
  id : e.1.id = req.id
  dateCreated : e.1.dateCreated = req.dateCreated
  senderID : e.1.senderID = some req.senderID
  status : e.1.status = req.status
  delSlotStart : e.1.delSlotStart = req.delSlotStart
  elderlyName : e.1.elderlyName = req.elderlyName
  elderlyAddressString : e.1.elderlyAddressString = req.elderlyAddressString
  isNew : e.1.isNew = true
  items : List.Forall₂ HoldsItem req.items e.2

theorem newItemRows_hold (owner n : Nat) (items : List RequestItem) :
    List.Forall₂ HoldsItem items (newItemRows owner n items) := by
  induction items generalizing n with
  | nil => exact .nil
  | cons item items ih => exact .cons ⟨rfl,rfl,rfl,rfl,rfl,rfl,rfl,rfl⟩ (ih (n+1))

theorem isNew_holds {lo : Nat} {c : CDZoneRequests} {req : Request} {e : Entry}
    (h : IsNew lo c req e) : Holds req e := by
  obtain ⟨n,-,rfl⟩ := h
  exact ⟨rfl,rfl,rfl,rfl,rfl,rfl,rfl,rfl,newItemRows_hold n (n+1) req.items⟩

theorem integer32_eq_self {n : Int} (hl : -2^31 ≤ n) (hu : n < 2^31) : integer32 n = n := by
  have hsize : ((2^32 : Nat) : Int) = 4294967296 := rfl
  rw [integer32,Int.bmod_eq_of_le]
  · rw [hsize]
    omega
  · rw [hsize]
    omega

/-- `s'` is the merge of the store `s` with the snapshot. -/
structure IsMerge (s : Store) (snapshot : List ZoneRequests) (s' : Store) : Prop where
  saved : s'.Saved
  zones : ∀ zoneid, (∃ c ∈ s'.zones, c.zoneid = some zoneid) ↔
    ∃ z ∈ snapshot, z.zoneid = zoneid
  zonesOnce : (s'.zones.map (·.zoneid)).Nodup
  requestsOnce : (s'.requests.map (·.id)).Nodup
  zoneRows : ∀ c ∈ s.zones, c ∈ s'.zones ↔ ∃ z ∈ snapshot, c.zoneid = some z.zoneid
  /-- a stored request with a counterpart keeps its row and its item rows -/
  kept : ∀ z ∈ snapshot, ∀ e ∈ s.zoneEntries z.zoneid, hasCounterpart z.requests e = true →
    (e.1.old,e.2) ∈ s'.zoneEntries z.zoneid
  /-- a stored request without one is gone, and so are its items -/
  gone : ∀ c ∈ s.zones, ∀ e ∈ s.entries c,
    (∀ z ∈ snapshot, c.zoneid = some z.zoneid → hasCounterpart z.requests e = false) →
    (∀ r ∈ s'.requests, r.objectID ≠ e.1.objectID) ∧
      ∀ i ∈ e.2, ∀ i' ∈ s'.items, i'.objectID ≠ i.objectID
  /-- a snapshot request that no stored one matches is there as a new one -/
  added : ∀ z ∈ snapshot, ∀ req ∈ unmatched (s.zoneEntries z.zoneid) z.requests,
    ∃ e ∈ s'.zoneEntries z.zoneid, Holds req e
  /-- and there is nothing else -/
  only : ∀ z ∈ snapshot, ∀ e' ∈ s'.zoneEntries z.zoneid,
    (∃ e ∈ s.zoneEntries z.zoneid, hasCounterpart z.requests e = true ∧
      e' = (e.1.old,e.2)) ∨
    ∃ req ∈ unmatched (s.zoneEntries z.zoneid) z.requests, Holds req e'

/-- A saved store and a fetched snapshot with distinct zone ids, in which no
request id occurs twice on a side and none changes its zone. -/
structure MergeInput (s : Store) (snapshot : List ZoneRequests) : Prop where
  saved : s.Saved
  zones : (s.zones.map (·.zoneid)).Nodup
  storedIDs : (s.requests.map (·.id)).Nodup
  snapshotZones : (snapshot.map (·.zoneid)).Nodup
  snapshotIDs : ((snapshot.flatMap (·.requests)).map (·.id)).Nodup
  fetched : ∀ z ∈ snapshot, ∀ req ∈ z.requests, req.Fetched
  stays : ∀ c ∈ s.zones, ∀ r ∈ s.requestsOf c, ∀ z ∈ snapshot, ∀ req ∈ z.requests,
    r.id = req.id → c.zoneid = some z.zoneid

variable {s s' : Store} {snapshot : List ZoneRequests}

theorem nodup_of_flatMap {α β κ : Type} {f : α → List β} {key : β → κ} {xs : List α}
    (h : ((xs.flatMap f).map key).Nodup) {x : α} (hx : x ∈ xs) : ((f x).map key).Nodup := by
  rw [List.map_flatMap,List.nodup_flatMap] at h
  exact h.1 x hx

theorem MergeInput.syncInput (h : MergeInput s snapshot) : SyncInput s snapshot where
  saved := h.saved
  zones := h.zones
  inZone _ _ := h.storedIDs.sublist (List.filter_sublist.map _)
  snapshotZones := h.snapshotZones
  snapshotInZone _ hz := nodup_of_flatMap h.snapshotIDs hz
  fetched := h.fetched

theorem MergeInput.separated (h : MergeInput s snapshot) : Separated s snapshot := by
  intro c hc nzr hnzr hcz e he _
  obtain ⟨hrow,hrz,-⟩ := Store.mem_entries.mp he
  have hmem : e.1 ∈ s.requestsOf c := Store.mem_requestsOf.mpr ⟨hrow,hrz⟩
  constructor
  · intro z hz hlt _ req hreq hid
    have hsame := h.stays c hc e.1 hmem z hz req hreq hid.symm
    rw [hcz,Option.some.injEq] at hsame
    exact lt_irrefl _ (hsame ▸ hlt)
  · intro c' hc' zoneid hz' hlt r hr hid
    obtain ⟨hrm,hrz'⟩ := Store.mem_requestsOf.mp hr
    have hre : r = e.1 := List.inj_on_of_nodup_map h.storedIDs hrm hrow hid
    rw [hre,hrz,Option.some.injEq] at hrz'
    have hcc : c = c' := h.saved.zone_eq hc hc' hrz'
    rw [← hcc,hcz,Option.some.injEq] at hz'
    exact lt_irrefl _ (hz' ▸ hlt)

theorem MergeInput.snapshot_zone (h : MergeInput s snapshot) {z z' : ZoneRequests}
    (hz : z ∈ snapshot) (hz' : z' ∈ snapshot) {req req' : Request} (hreq : req ∈ z.requests)
    (hreq' : req' ∈ z'.requests) (hid : req.id = req'.id) : z = z' := by
  by_contra hne
  have hids := h.snapshotIDs
  rw [List.map_flatMap,List.nodup_flatMap] at hids
  have hmem : req.id ∈ z.requests.map (·.id) ∧ req.id ∈ z'.requests.map (·.id) :=
    ⟨List.mem_map.mpr ⟨req,hreq,rfl⟩,List.mem_map.mpr ⟨req',hreq',hid.symm⟩⟩
  obtain ⟨i,hi,rfl⟩ := List.getElem_of_mem hz
  obtain ⟨j,hj,rfl⟩ := List.getElem_of_mem hz'
  rcases Nat.lt_trichotomy i j with hlt | rfl | hlt
  · exact List.pairwise_iff_getElem.mp hids.2 i j hi hj hlt hmem.1 hmem.2
  · exact hne rfl
  · exact List.pairwise_iff_getElem.mp hids.2 j i hj hi hlt hmem.2 hmem.1

theorem MergeInput.requestsOnce (h : MergeInput s snapshot)
    (hr : Reconciled s snapshot s') : (s'.requests.map (·.id)).Nodup := by
  have hin := h.syncInput
  have hzone : ∀ r ∈ s'.requests, ∃ c ∈ s'.zones, r ∈ s'.requestsOf c ∧ ∃ z ∈ snapshot,
      c.zoneid = some z.zoneid ∧ ∃ req ∈ z.requests, req.id = r.id := by
    intro r hrm
    obtain ⟨c,hc,zoneid,hcz,hrz,hmem⟩ := hr.saved.exists_zoneEntries hr.zones hrm
    obtain ⟨z,hz,hzid,hreq⟩ := (hr.pairs hin zoneid r.id).mp ⟨_,hmem,rfl⟩
    exact ⟨c,hc,Store.mem_requestsOf.mpr ⟨hrm,hrz⟩,z,hz,by rw [hcz,hzid],hreq⟩
  refine (List.nodup_map_iff_inj_on (List.Nodup.of_map _ hr.saved.requestRows)).mpr ?_
  intro r hrm r' hrm' hid
  obtain ⟨c,hc,hrc,z,hz,hcz,req,hreq,hreqid⟩ := hzone r hrm
  obtain ⟨c',hc',hrc',z',hz',hcz',req',hreq',hreqid'⟩ := hzone r' hrm'
  have hzz := h.snapshot_zone hz hz' hreq hreq' (hreqid.trans (hid.trans hreqid'.symm))
  have hcc : c = c' :=
    List.inj_on_of_nodup_map hr.zones hc hc' (by rw [hcz,hcz',hzz])
  exact List.inj_on_of_nodup_map (hr.inZone hin c hc) hrc (hcc ▸ hrc') hid

theorem Reconciled.origin (hin : SyncInput s snapshot) (hr : Reconciled s snapshot s')
    {r : CDRequest} (hrm : r ∈ s'.requests) :
    (∃ z ∈ snapshot, ∃ e ∈ s.zoneEntries z.zoneid, hasCounterpart z.requests e = true ∧
      (r,s'.itemsOf r) = (e.1.old,e.2)) ∨
    ∃ n req, s.nextID ≤ n ∧ r.objectID = n ∧ s'.itemsOf r = newItemRows n (n+1) req := by
  obtain ⟨c,hc,zoneid,hcz,-,hmem⟩ := hr.saved.exists_zoneEntries hr.zones hrm
  obtain ⟨z,hz,hzid⟩ := hr.zoneids c hc
  obtain rfl : zoneid = z.zoneid := Option.some.inj (hcz.symm.trans hzid)
  obtain ⟨c',-,-,hm⟩ := hr.zone hin hz
  rcases hm.origin hmem with ⟨e,he,hcp,heq⟩ | ⟨req,-,n,hlo,heq⟩
  · exact .inl ⟨z,hz,e,he,hcp,heq⟩
  · rw [newEntry,Prod.mk.injEq] at heq
    exact .inr ⟨n,req.items,hlo,by rw [heq.1]; rfl,heq.2⟩

theorem Reconciled.gone (hin : SyncInput s snapshot) (hr : Reconciled s snapshot s')
    {c : CDZoneRequests} (hc : c ∈ s.zones) {e : Entry} (he : e ∈ s.entries c)
    (hnone : ∀ z ∈ snapshot, c.zoneid = some z.zoneid → hasCounterpart z.requests e = false) :
    (∀ r ∈ s'.requests, r.objectID ≠ e.1.objectID) ∧
      ∀ i ∈ e.2, ∀ i' ∈ s'.items, i'.objectID ≠ i.objectID := by
  obtain ⟨hrow,hrz,hitems⟩ := Store.mem_entries.mp he
  have hrows : ∀ r ∈ s'.requests, r.objectID ≠ e.1.objectID := by
    intro r hrm heq
    rcases hr.origin hin hrm with ⟨z,hz,e₀,he₀,hcp,hpair⟩ | ⟨n,req,hlo,hn,-⟩
    · obtain ⟨c₀,hc₀,hcz₀,he₀⟩ := (Store.mem_zoneEntries hin.zones).mp he₀
      obtain ⟨hrow₀,hrz₀,hitems₀⟩ := Store.mem_entries.mp he₀
      obtain ⟨hr₁,-⟩ := Prod.mk.injEq .. |>.mp hpair
      have hsame : e₀.1 = e.1 := hin.saved.row_eq hrow₀ hrow (by rw [← heq,hr₁]; rfl)
      have hee : e₀ = e := Prod.ext hsame (by rw [hitems₀,hitems,hsame])
      rw [hsame,hrz,Option.some.injEq] at hrz₀
      have hcc : c = c₀ := hin.saved.zone_eq hc hc₀ hrz₀
      rw [hee,hnone z hz (hcc ▸ hcz₀)] at hcp
      cases hcp
    · have hlt := hin.saved.requestsBelow e.1 hrow
      omega
  refine ⟨hrows,?_⟩
  intro i hi i' hi' heq
  obtain ⟨r,hrm,hown⟩ := hr.saved.requestOf i' hi'
  have hi'' : i' ∈ s'.itemsOf r := List.mem_filter.mpr ⟨hi',by simp [hown]⟩
  rw [hitems] at hi
  obtain ⟨him,hiown⟩ := List.mem_filter.mp hi
  rcases hr.origin hin hrm with ⟨z,hz,e₀,he₀,-,hpair⟩ | ⟨n,req,hlo,-,hnew⟩
  · obtain ⟨_,-,-,he₁⟩ := (Store.mem_zoneEntries hin.zones).mp he₀
    obtain ⟨-,hr₂⟩ := Prod.mk.injEq .. |>.mp hpair
    rw [hr₂,(Store.mem_entries.mp he₁).2.2] at hi''
    have hsame : i' = i := List.inj_on_of_nodup_map hin.saved.itemRows
      (List.mem_of_mem_filter hi'') him heq
    rw [← hsame,hown,beq_iff_eq,Option.some.injEq] at hiown
    exact hrows r hrm hiown
  · rw [hnew] at hi''
    have hle := (mem_newItemRows hi'').2.1
    have hlt := hin.saved.itemsBelow i him
    omega

theorem MergeInput.isMerge (h : MergeInput s snapshot) (hr : Reconciled s snapshot s') :
    IsMerge s snapshot s' where
  saved := hr.saved
  zones zoneid := by
    constructor
    · rintro ⟨c,hc,hcz⟩
      obtain ⟨z,hz,hzid⟩ := hr.zoneids c hc
      exact ⟨z,hz,Option.some.inj (hzid.symm.trans hcz)⟩
    · rintro ⟨z,hz,rfl⟩
      obtain ⟨c,hc,hcz,-⟩ := hr.zone h.syncInput hz
      exact ⟨c,hc,hcz⟩
  zonesOnce := hr.zones
  requestsOnce := h.requestsOnce hr
  zoneRows := hr.kept
  kept z hz e he hcp := by
    obtain ⟨c,-,-,news,-,hentries⟩ := hr.zone h.syncInput hz
    rw [hentries]
    exact List.mem_append_left _ (mem_reconciled.mpr ⟨e,he,hcp,rfl⟩)
  gone _ hc _ he hnone := hr.gone h.syncInput hc he hnone
  added z hz req hreq := by
    obtain ⟨c,-,-,news,hnews,hentries⟩ := hr.zone h.syncInput hz
    obtain ⟨e,he,hnew⟩ := (exists_of_forall₂ hnews).2 req hreq
    exact ⟨e,by rw [hentries]; exact List.mem_append_right _ he,isNew_holds hnew⟩
  only z hz e' he' := by
    obtain ⟨c,-,-,hm⟩ := hr.zone h.syncInput hz
    rcases hm.origin he' with hkept | ⟨req,hreq,hnew⟩
    · exact .inl hkept
    · exact .inr ⟨req,hreq,isNew_holds hnew⟩

/-- On a merge input the reconciliation runs to its end and leaves the merge; numbers
that fit an Integer 32 attribute are held as they are. -/
theorem updateSavedRequests_isMerge (ord : FetchOrder) (snapshot : List ZoneRequests)
    (ctx : Context) (h : MergeInput ctx.store snapshot) :
    (∃ ctx', updateSavedRequests ord snapshot ctx = .ok ctx' ∧
      IsMerge ctx.store snapshot ctx'.store) ∧
    ∀ n : Int, -2^31 ≤ n → n < 2^31 → integer32 n = n := by
  refine ⟨?_,fun _ => integer32_eq_self⟩
  obtain ⟨ctx',hrun,hr⟩ := updateSavedRequests_of_separated ord h.syncInput h.separated
  exact ⟨ctx',hrun,h.isMerge hr⟩

def tickedStore : Store where
  zones := [⟨0,some "north"⟩]
  requests := [⟨1,some 0,some "r1",some 1,some "u1",some "Pending",some 5,true,some "Tan",
    some "Block 1"⟩]
  items := [⟨2,some 1,some "rice",some "Rice",some "rice",2,some "white",none,none,true⟩]
  nextID := 3

def laterSnapshot : List ZoneRequests := [
  ⟨"north",[
    ⟨some "r1",some 1,"u1",some "Pending",some 5,
      [⟨"rice","Rice","rice",2,none,none,"white",none⟩],none,some "Tan",some "Block 1"⟩,
    ⟨some "r2",some 2,"u2",some "Pending",some 6,
      [⟨"eggs","Eggs","egg",1,none,none,"white",none⟩],none,some "Lim",some "Block 2"⟩]⟩,
  ⟨"south",[⟨some "r3",some 3,"u3",some "Pending",some 7,[],none,some "Ong",some "Block 3"⟩]⟩]

theorem tickedStore_mergeInput : MergeInput tickedStore laterSnapshot where
  saved := by
    constructor <;> simp [tickedStore,CDRequest.Loadable,CDRequestItem.Loadable]
  zones := by decide
  storedIDs := by decide
  snapshotZones := by decide
  snapshotIDs := by decide
  fetched := by
    intro z hz req hreq
    simp only [laterSnapshot,List.mem_cons,List.not_mem_nil,or_false] at hz
    rcases hz with rfl | rfl
    · simp only [List.mem_cons,List.not_mem_nil,or_false] at hreq
      rcases hreq with rfl | rfl
      · exact ⟨rfl,rfl,rfl,rfl⟩
      · exact ⟨rfl,rfl,rfl,rfl⟩
    · obtain rfl := List.mem_singleton.mp hreq
      exact ⟨rfl,rfl,rfl,rfl⟩
  stays := by decide

theorem updateSavedRequests_isMerge_ticked :
    (∃ ctx', updateSavedRequests .table laterSnapshot ⟨tickedStore,[]⟩ = .ok ctx' ∧
      IsMerge tickedStore laterSnapshot ctx'.store) ∧
    ∀ n : Int, -2^31 ≤ n → n < 2^31 → integer32 n = n :=
  updateSavedRequests_isMerge .table laterSnapshot ⟨tickedStore,[]⟩ tickedStore_mergeInput

end Spec

end Answr
