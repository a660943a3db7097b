import Mathlib.Data.List.Nodup
import Answr.CoreData
set_option autoImplicit false

/-! What the row operations do to the tables, zone by zone. An entry is a request
row with its item rows; every operation is described by its effect on the
entries of each zone. -/

namespace Answr

def CDRequest.Loadable (r : CDRequest) : Prop :=
  r.id.isSome ∧ r.dateCreated.isSome ∧ r.senderID.isSome ∧ r.delSlotStart.isSome

def CDRequestItem.Loadable (i : CDRequestItem) : Prop :=
  i.id.isSome ∧ i.name.isSome ∧ i.icon.isSome ∧ i.bgCol.isSome

/-- A store as the app saves it: no two rows share an object id, every to-one
relationship has its target, and the attributes that loading unwraps are set. -/
structure Store.Saved (s : Store) : Prop where
  zoneRows : (s.zones.map (·.objectID)).Nodup
  requestRows : (s.requests.map (·.objectID)).Nodup
  itemRows : (s.items.map (·.objectID)).Nodup
  zoneFields : ∀ c ∈ s.zones, c.zoneid.isSome
  requestFields : ∀ r ∈ s.requests, r.Loadable
  itemFields : ∀ i ∈ s.items, i.Loadable
  zoneOf : ∀ r ∈ s.requests, ∃ c ∈ s.zones, r.requestZone = some c.objectID
  requestOf : ∀ i ∈ s.items, ∃ r ∈ s.requests, i.request = some r.objectID
  zonesBelow : ∀ c ∈ s.zones, c.objectID < s.nextID
  requestsBelow : ∀ r ∈ s.requests, r.objectID < s.nextID
  itemsBelow : ∀ i ∈ s.items, i.objectID < s.nextID

theorem Store.saved_empty : Store.empty.Saved := by
  constructor <;> simp [Store.empty]

/-- A request as `getRequest` builds it. -/
structure Request.Fetched (req : Request) : Prop where
  id : req.id.isSome
  dateCreated : req.dateCreated.isSome
  status : req.status.isSome
  delSlotStart : req.delSlotStart.isSome

abbrev Entry := CDRequest × List CDRequestItem

def Store.entries (s : Store) (c : CDZoneRequests) : List Entry :=
  (s.requestsOf c).map fun r => (r,s.itemsOf r)

def newEntry (objectID zone : Nat) (req : Request) : Entry :=
  (newRow objectID zone req,newItemRows objectID (objectID+1) req.items)

theorem Store.mem_requestsOf {s : Store} {c : CDZoneRequests} {r : CDRequest} :
    r ∈ s.requestsOf c ↔ r ∈ s.requests ∧ r.requestZone = some c.objectID := by
  simp [requestsOf]

theorem Store.mem_entries {s : Store} {c : CDZoneRequests} {e : Entry} :
    e ∈ s.entries c ↔ e.1 ∈ s.requests ∧ e.1.requestZone = some c.objectID ∧
      e.2 = s.itemsOf e.1 := by
  simp only [entries,List.mem_map,mem_requestsOf]
  constructor
  · rintro ⟨r,⟨hr,hz⟩,rfl⟩
    exact ⟨hr,hz,rfl⟩
  · rintro ⟨hr,hz,hi⟩
    exact ⟨e.1,⟨hr,hz⟩,by rw [← hi]⟩

theorem Store.map_fst_entries (s : Store) (c : CDZoneRequests) :
    (s.entries c).map Prod.fst = s.requestsOf c := by
  simp [entries,Function.comp_def]

theorem Store.Saved.row_eq {s : Store} (hs : s.Saved) {r r' : CDRequest}
    (hr : r ∈ s.requests) (hr' : r' ∈ s.requests) (h : r.objectID = r'.objectID) : r = r' :=
  List.inj_on_of_nodup_map hs.requestRows hr hr' h

theorem Store.Saved.zone_eq {s : Store} (hs : s.Saved) {c c' : CDZoneRequests}
    (hc : c ∈ s.zones) (hc' : c' ∈ s.zones) (h : c.objectID = c'.objectID) : c = c' :=
  List.inj_on_of_nodup_map hs.zoneRows hc hc' h

theorem Store.Saved.requestsOf_nodup {s : Store} (hs : s.Saved) (c : CDZoneRequests) :
    (s.requestsOf c).Nodup :=
  (List.Nodup.of_map _ hs.requestRows).filter _

section DeleteRequest

theorem Store.entries_deleteRequest (s : Store) (cdr : CDRequest) (c : CDZoneRequests) :
    (s.deleteRequest cdr).entries c =
      (s.entries c).filter fun e => e.1.objectID != cdr.objectID := by
  simp only [entries,requestsOf,deleteRequest,List.filter_map,List.filter_filter]
  have hcomm : ∀ r : CDRequest,
      (r.requestZone == some c.objectID && r.objectID != cdr.objectID) =
        (((fun e : Entry => e.1.objectID != cdr.objectID) ∘
          fun r => (r,s.itemsOf r)) r && r.requestZone == some c.objectID) := by
    intro r
    simp [Bool.and_comm]
  simp only [hcomm]
  apply List.map_congr_left
  intro r hr
  have hne : r.objectID ≠ cdr.objectID := by
    have h := (List.mem_filter.mp hr).2
    simp at h
    exact h.1
  simp only [itemsOf,List.filter_filter,Prod.mk.injEq,true_and]
  apply List.filter_congr
  intro i _
  by_cases hi : i.request = some r.objectID
  · simp [hi,hne]
  · simp [hi]

theorem Store.saved_deleteRequest {s : Store} (hs : s.Saved) (cdr : CDRequest) :
    (s.deleteRequest cdr).Saved where
  zoneRows := hs.zoneRows
  requestRows := hs.requestRows.sublist (List.filter_sublist.map _)
  itemRows := hs.itemRows.sublist (List.filter_sublist.map _)
  zoneFields := hs.zoneFields
  requestFields r hr := hs.requestFields r (List.mem_of_mem_filter hr)
  itemFields i hi := hs.itemFields i (List.mem_of_mem_filter hi)
  zoneOf r hr := hs.zoneOf r (List.mem_of_mem_filter hr)
  requestOf i hi := by
    obtain ⟨him,hne⟩ := List.mem_filter.mp hi
    obtain ⟨r,hr,hri⟩ := hs.requestOf i him
    refine ⟨r,List.mem_filter.mpr ⟨hr,?_⟩,hri⟩
    simpa [hri] using hne
  zonesBelow := hs.zonesBelow
  requestsBelow r hr := hs.requestsBelow r (List.mem_of_mem_filter hr)
  itemsBelow i hi := hs.itemsBelow i (List.mem_of_mem_filter hi)

end DeleteRequest

section MarkOld

def oldIf (objectID : Nat) (r : CDRequest) : CDRequest :=
  if r.objectID = objectID then r.old else r

@[simp] theorem oldIf_objectID (n : Nat) (r : CDRequest) : (oldIf n r).objectID = r.objectID := by
  unfold oldIf; split <;> rfl

@[simp] theorem oldIf_requestZone (n : Nat) (r : CDRequest) :
    (oldIf n r).requestZone = r.requestZone := by
  unfold oldIf; split <;> rfl

@[simp] theorem oldIf_id (n : Nat) (r : CDRequest) : (oldIf n r).id = r.id := by
  unfold oldIf; split <;> rfl

theorem oldIf_loadable {n : Nat} {r : CDRequest} (h : r.Loadable) : (oldIf n r).Loadable := by
  unfold oldIf
  split
  · exact h
  · exact h

theorem Store.markOld_requests (s : Store) (cdr : CDRequest) :
    (s.markOld cdr).requests = s.requests.map (oldIf cdr.objectID) := rfl

theorem Store.entries_markOld (s : Store) (cdr : CDRequest) (c : CDZoneRequests) :
    (s.markOld cdr).entries c =
      (s.entries c).map fun e => (oldIf cdr.objectID e.1,e.2) := by
  simp only [entries,requestsOf,markOld_requests,List.filter_map,List.map_map]
  have hz : (fun r : CDRequest => r.requestZone == some c.objectID) ∘ oldIf cdr.objectID =
      fun r => r.requestZone == some c.objectID := by
    funext r; simp
  rw [hz]
  apply List.map_congr_left
  intro r _
  simp [itemsOf,markOld]

theorem Store.saved_markOld {s : Store} (hs : s.Saved) (cdr : CDRequest) :
    (s.markOld cdr).Saved where
  zoneRows := hs.zoneRows
  requestRows := by
    simpa [markOld_requests,Function.comp_def] using hs.requestRows
  itemRows := hs.itemRows
  zoneFields := hs.zoneFields
  requestFields r hr := by
    obtain ⟨r₀,hr₀,rfl⟩ := List.mem_map.mp hr
    exact oldIf_loadable (hs.requestFields r₀ hr₀)
  itemFields := hs.itemFields
  zoneOf r hr := by
    obtain ⟨r₀,hr₀,rfl⟩ := List.mem_map.mp hr
    obtain ⟨c,hc,hz⟩ := hs.zoneOf r₀ hr₀
    exact ⟨c,hc,(oldIf_requestZone _ r₀).trans hz⟩
  requestOf i hi := by
    obtain ⟨r,hr,h⟩ := hs.requestOf i hi
    exact ⟨oldIf cdr.objectID r,List.mem_map_of_mem hr,by simpa using h⟩
  zonesBelow := hs.zonesBelow
  requestsBelow r hr := by
    obtain ⟨r₀,hr₀,rfl⟩ := List.mem_map.mp hr
    rw [show (if r₀.objectID = cdr.objectID then r₀.old else r₀) = oldIf cdr.objectID r₀
      from rfl,oldIf_objectID]
    exact hs.requestsBelow r₀ hr₀
  itemsBelow := hs.itemsBelow

end MarkOld

section SetChecked

theorem Store.setChecked_items (s : Store) (item : CDRequestItem) (checked : Bool) :
    (s.setChecked item checked).items = s.items.map (fun i =>
      if i.objectID = item.objectID then { i with checked := checked } else i) := rfl

theorem Store.saved_setChecked {s : Store} (hs : s.Saved) (item : CDRequestItem)
    (checked : Bool) : (s.setChecked item checked).Saved where
  zoneRows := hs.zoneRows
  requestRows := hs.requestRows
  itemRows := by
    have h : ∀ i : CDRequestItem,
        (if i.objectID = item.objectID then { i with checked := checked } else i).objectID =
          i.objectID := by
      intro i; split <;> rfl
    simpa [setChecked_items,Function.comp_def,h] using hs.itemRows
  zoneFields := hs.zoneFields
  requestFields := hs.requestFields
  itemFields i hi := by
    obtain ⟨i₀,hi₀,rfl⟩ := List.mem_map.mp hi
    have h := hs.itemFields i₀ hi₀
    split
    · exact h
    · exact h
  zoneOf := hs.zoneOf
  requestOf i hi := by
    obtain ⟨i₀,hi₀,rfl⟩ := List.mem_map.mp hi
    obtain ⟨r,hr,h⟩ := hs.requestOf i₀ hi₀
    refine ⟨r,hr,?_⟩
    split
    · exact h
    · exact h
  zonesBelow := hs.zonesBelow
  requestsBelow := hs.requestsBelow
  itemsBelow i hi := by
    obtain ⟨i₀,hi₀,rfl⟩ := List.mem_map.mp hi
    have h := hs.itemsBelow i₀ hi₀
    split
    · exact h
    · exact h

theorem Store.mem_itemsOf_setChecked {s : Store} {item : CDRequestItem} {cdr : CDRequest}
    (hi : item ∈ s.itemsOf cdr) (checked : Bool) :
    { item with checked := checked } ∈ (s.setChecked item checked).itemsOf cdr := by
  obtain ⟨hmem,hown⟩ := List.mem_filter.mp hi
  refine List.mem_filter.mpr ⟨?_,hown⟩
  rw [setChecked_items]
  exact List.mem_map.mpr ⟨item,hmem,by simp⟩

theorem Store.Saved.entries_setChecked {s : Store} (hs : s.Saved) {item : CDRequestItem}
    {cdr : CDRequest} (hr : cdr ∈ s.requests) (hi : item ∈ s.itemsOf cdr) (checked : Bool)
    {c : CDZoneRequests} (hz : cdr.requestZone ≠ some c.objectID) :
    (s.setChecked item checked).entries c = s.entries c := by
  obtain ⟨hmem,hown⟩ := List.mem_filter.mp hi
  have hown : item.request = some cdr.objectID := by simpa using hown
  change (s.requestsOf c).map _ = _
  apply List.map_congr_left
  intro r hrc
  obtain ⟨hrm,hrz⟩ := mem_requestsOf.mp hrc
  rw [Prod.mk.injEq]
  refine ⟨rfl,?_⟩
  rw [itemsOf,setChecked_items,List.filter_map,itemsOf]
  have hfilter : s.items.filter ((fun i => i.request == some r.objectID) ∘ fun i =>
      if i.objectID = item.objectID then { i with checked := checked } else i) =
      s.items.filter fun i => i.request == some r.objectID := by
    apply List.filter_congr
    intro i _
    simp only [Function.comp]
    split
    · rfl
    · rfl
  rw [hfilter]
  conv_rhs => rw [← List.map_id (s.items.filter _)]
  apply List.map_congr_left
  intro i hif
  obtain ⟨him,hio⟩ := List.mem_filter.mp hif
  have hne : i.objectID ≠ item.objectID := by
    intro heq
    have hsame : i = item := List.inj_on_of_nodup_map hs.itemRows him hmem heq
    rw [hsame,hown,beq_iff_eq,Option.some.injEq] at hio
    rw [hs.row_eq hr hrm hio] at hz
    exact hz hrz
  simp [hne]

end SetChecked

section DeleteZone

theorem Store.mem_deleteZone_items {s : Store} {cdzr : CDZoneRequests} {i : CDRequestItem} :
    i ∈ (s.deleteZone cdzr).items ↔ i ∈ s.items ∧
      ∀ r ∈ s.requests, r.requestZone = some cdzr.objectID → i.request ≠ some r.objectID := by
  simp only [deleteZone,List.mem_filter,Bool.not_eq_true',List.any_eq_false,mem_requestsOf,
    beq_iff_eq,and_imp]

theorem Store.Saved.itemsOf_deleteZone {s : Store} (hs : s.Saved) (cdzr : CDZoneRequests)
    {r : CDRequest} (hr : r ∈ s.requests) (hz : r.requestZone ≠ some cdzr.objectID) :
    (s.deleteZone cdzr).itemsOf r = s.itemsOf r := by
  simp only [itemsOf,deleteZone,List.filter_filter]
  apply List.filter_congr
  intro i _
  by_cases hi : i.request = some r.objectID
  · simp only [hi,beq_self_eq_true,Bool.true_and,Bool.not_eq_true',List.any_eq_false,
      beq_iff_eq,Option.some.injEq]
    intro r' hr' heq
    obtain ⟨hr'',hz'⟩ := mem_requestsOf.mp hr'
    exact hz (hs.row_eq hr hr'' heq ▸ hz')
  · simp [hi]

theorem Store.Saved.entries_deleteZone {s : Store} (hs : s.Saved) (cdzr : CDZoneRequests)
    {c : CDZoneRequests} (hne : c.objectID ≠ cdzr.objectID) :
    (s.deleteZone cdzr).entries c = s.entries c := by
  have hrows : (s.deleteZone cdzr).requestsOf c = s.requestsOf c := by
    simp only [requestsOf,deleteZone,List.filter_filter]
    apply List.filter_congr
    intro r _
    by_cases hz : r.requestZone = some c.objectID
    · simp [hz,hne]
    · simp [hz]
  simp only [entries,hrows]
  apply List.map_congr_left
  intro r hr
  obtain ⟨hrm,hz⟩ := mem_requestsOf.mp hr
  rw [hs.itemsOf_deleteZone cdzr hrm (by rw [hz]; simpa using hne)]

theorem Store.saved_deleteZone {s : Store} (hs : s.Saved) (cdzr : CDZoneRequests) :
    (s.deleteZone cdzr).Saved where
  zoneRows := hs.zoneRows.sublist (List.filter_sublist.map _)
  requestRows := hs.requestRows.sublist (List.filter_sublist.map _)
  itemRows := hs.itemRows.sublist (List.filter_sublist.map _)
  zoneFields c hc := hs.zoneFields c (List.mem_of_mem_filter hc)
  requestFields r hr := hs.requestFields r (List.mem_of_mem_filter hr)
  itemFields i hi := hs.itemFields i (List.mem_of_mem_filter hi)
  zoneOf r hr := by
    obtain ⟨hrm,hne⟩ := List.mem_filter.mp hr
    obtain ⟨c,hc,hz⟩ := hs.zoneOf r hrm
    refine ⟨c,List.mem_filter.mpr ⟨hc,?_⟩,hz⟩
    simpa [hz] using hne
  requestOf i hi := by
    obtain ⟨him,hout⟩ := mem_deleteZone_items.mp hi
    obtain ⟨r,hr,hri⟩ := hs.requestOf i him
    refine ⟨r,List.mem_filter.mpr ⟨hr,?_⟩,hri⟩
    simpa using fun hz => hout r hr hz hri
  zonesBelow c hc := hs.zonesBelow c (List.mem_of_mem_filter hc)
  requestsBelow r hr := hs.requestsBelow r (List.mem_of_mem_filter hr)
  itemsBelow i hi := hs.itemsBelow i (List.mem_of_mem_filter hi)

end DeleteZone

section Add

theorem mem_newItemRows {owner : Nat} {items : List RequestItem} {n : Nat}
    {i : CDRequestItem} (hi : i ∈ newItemRows owner n items) :
    i.request = some owner ∧ n ≤ i.objectID ∧ i.objectID < n+items.length ∧ i.Loadable := by
  induction items generalizing n with
  | nil => simp [newItemRows] at hi
  | cons item items ih =>
    rcases List.mem_cons.mp hi with rfl | hi
    · simp [newItemRow,CDRequestItem.Loadable]
    · obtain ⟨ho,hle,hlt,hl⟩ := ih hi
      refine ⟨ho,by omega,?_,hl⟩
      simp only [List.length_cons]
      omega

theorem newItemRows_nodup (owner n : Nat) (items : List RequestItem) :
    ((newItemRows owner n items).map (·.objectID)).Nodup := by
  induction items generalizing n with
  | nil => simp [newItemRows]
  | cons item items ih =>
    simp only [newItemRows,List.map_cons,List.nodup_cons,List.mem_map,not_exists,not_and]
    refine ⟨?_,ih (n+1)⟩
    intro i hi heq
    have hle := (mem_newItemRows hi).2.1
    simp only [newItemRow] at heq
    omega

theorem Store.Saved.entries_addRequest {s : Store} (hs : s.Saved) (cdzr c : CDZoneRequests)
    (req : Request) : (s.addRequest cdzr req).entries c = s.entries c ++
      if c.objectID = cdzr.objectID then [newEntry s.nextID cdzr.objectID req] else [] := by
  have hold : ∀ r ∈ s.requestsOf c, (s.addRequest cdzr req).itemsOf r = s.itemsOf r := by
    intro r hr
    have hlt := hs.requestsBelow r (mem_requestsOf.mp hr).1
    have hnone : (newItemRows s.nextID (s.nextID+1) req.items).filter
        (fun i => i.request == some r.objectID) = [] := by
      rw [List.filter_eq_nil_iff]
      intro i hi
      simp only [(mem_newItemRows hi).1,beq_iff_eq,Option.some.injEq]
      omega
    simp [itemsOf,addRequest,List.filter_append,hnone]
  have hnew : (s.addRequest cdzr req).itemsOf (newRow s.nextID cdzr.objectID req) =
      newItemRows s.nextID (s.nextID+1) req.items := by
    have hnone : s.items.filter (fun i => i.request == some s.nextID) = [] := by
      rw [List.filter_eq_nil_iff]
      intro i hi
      obtain ⟨r,hr,h⟩ := hs.requestOf i hi
      have hlt := hs.requestsBelow r hr
      simp only [h,beq_iff_eq,Option.some.injEq]
      omega
    have hall : (newItemRows s.nextID (s.nextID+1) req.items).filter
        (fun i => i.request == some s.nextID) = newItemRows s.nextID (s.nextID+1) req.items := by
      rw [List.filter_eq_self]
      intro i hi
      simp [(mem_newItemRows hi).1]
    simp [itemsOf,addRequest,List.filter_append,newRow,hnone,hall]
  have hrows : (s.addRequest cdzr req).requestsOf c = s.requestsOf c ++
      if c.objectID = cdzr.objectID then [newRow s.nextID cdzr.objectID req] else [] := by
    simp only [requestsOf,addRequest,List.filter_append,List.append_cancel_left_eq]
    by_cases hc : c.objectID = cdzr.objectID
    · simp [newRow,hc]
    · simp [newRow,hc,Ne.symm hc]
  simp only [entries,hrows,List.map_append]
  congr 1
  · apply List.map_congr_left
    intro r hr
    rw [hold r hr]
  · split
    · simp [newEntry,hnew]
    · rfl

theorem Store.saved_addRequest {s : Store} (hs : s.Saved) {cdzr : CDZoneRequests}
    (hc : ∃ c ∈ s.zones, c.objectID = cdzr.objectID) {req : Request} (hreq : req.Fetched) :
    (s.addRequest cdzr req).Saved where
  zoneRows := hs.zoneRows
  requestRows := by
    simp only [addRequest,List.map_append,List.nodup_append,List.map_cons,List.map_nil]
    refine ⟨hs.requestRows,by simp,?_⟩
    rintro _ ha _ hb rfl
    obtain ⟨r,hr,hra⟩ := List.mem_map.mp ha
    have hlt := hs.requestsBelow r hr
    simp only [List.mem_singleton,newRow] at hb
    omega
  itemRows := by
    simp only [addRequest,List.map_append,List.nodup_append]
    refine ⟨hs.itemRows,newItemRows_nodup _ _ _,?_⟩
    rintro _ ha _ hb rfl
    obtain ⟨i,hi,hia⟩ := List.mem_map.mp ha
    obtain ⟨j,hj,hja⟩ := List.mem_map.mp hb
    have hlt := hs.itemsBelow i hi
    have hle := (mem_newItemRows hj).2.1
    omega
  zoneFields := hs.zoneFields
  requestFields r hr := by
    rcases List.mem_append.mp hr with hr | hr
    · exact hs.requestFields r hr
    · rw [List.mem_singleton.mp hr]
      exact ⟨hreq.id,hreq.dateCreated,rfl,hreq.delSlotStart⟩
  itemFields i hi := by
    rcases List.mem_append.mp hi with hi | hi
    · exact hs.itemFields i hi
    · exact (mem_newItemRows hi).2.2.2
  zoneOf r hr := by
    rcases List.mem_append.mp hr with hr | hr
    · exact hs.zoneOf r hr
    · obtain ⟨c,hcm,hceq⟩ := hc
      exact ⟨c,hcm,by rw [List.mem_singleton.mp hr,hceq]; rfl⟩
  requestOf i hi := by
    rcases List.mem_append.mp hi with hi | hi
    · obtain ⟨r,hr,h⟩ := hs.requestOf i hi
      exact ⟨r,List.mem_append_left _ hr,h⟩
    · exact ⟨newRow s.nextID cdzr.objectID req,by simp [addRequest],(mem_newItemRows hi).1⟩
  zonesBelow c hc := by
    have h := hs.zonesBelow c hc
    simp only [addRequest]
    omega
  requestsBelow r hr := by
    simp only [addRequest] at hr ⊢
    rcases List.mem_append.mp hr with hr | hr
    · have h := hs.requestsBelow r hr
      omega
    · rw [List.mem_singleton.mp hr]
      simp only [newRow]
      omega
  itemsBelow i hi := by
    simp only [addRequest] at hi ⊢
    rcases List.mem_append.mp hi with hi | hi
    · have h := hs.itemsBelow i hi
      omega
    · exact (mem_newItemRows hi).2.2.1

theorem Store.Saved.requestsOf_new {s : Store} (hs : s.Saved) (zoneid : Option String) :
    s.requestsOf ⟨s.nextID,zoneid⟩ = [] := by
  simp only [requestsOf,List.filter_eq_nil_iff]
  intro r hr
  obtain ⟨c,hc,hz⟩ := hs.zoneOf r hr
  have hlt := hs.zonesBelow c hc
  simp only [hz,beq_iff_eq,Option.some.injEq]
  omega

theorem Store.entries_addZone (s : Store) (zoneid : String) (c : CDZoneRequests) :
    (s.addZone zoneid).entries c = s.entries c := rfl

theorem Store.saved_addZone {s : Store} (hs : s.Saved) (zoneid : String) :
    (s.addZone zoneid).Saved where
  zoneRows := by
    simp only [addZone,List.map_append,List.nodup_append,List.map_cons,List.map_nil]
    refine ⟨hs.zoneRows,by simp,?_⟩
    rintro _ ha _ hb rfl
    obtain ⟨c,hc,hca⟩ := List.mem_map.mp ha
    have hlt := hs.zonesBelow c hc
    simp only [List.mem_singleton] at hb
    omega
  requestRows := hs.requestRows
  itemRows := hs.itemRows
  zoneFields c hc := by
    rcases List.mem_append.mp hc with hc | hc
    · exact hs.zoneFields c hc
    · rw [List.mem_singleton.mp hc]; rfl
  requestFields := hs.requestFields
  itemFields := hs.itemFields
  zoneOf r hr := by
    obtain ⟨c,hc,hz⟩ := hs.zoneOf r hr
    exact ⟨c,List.mem_append_left _ hc,hz⟩
  requestOf := hs.requestOf
  zonesBelow c hc := by
    simp only [addZone] at hc ⊢
    rcases List.mem_append.mp hc with hc | hc
    · have h := hs.zonesBelow c hc
      omega
    · rw [List.mem_singleton.mp hc]
      exact Nat.lt_succ_self _
  requestsBelow r hr := Nat.lt_succ_of_lt (hs.requestsBelow r hr)
  itemsBelow i hi := Nat.lt_succ_of_lt (hs.itemsBelow i hi)

end Add

end Answr
