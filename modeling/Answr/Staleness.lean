import Answr.MergeSpec
set_option autoImplicit false

/-! Whether the store holds the server's current data after a sync. A stored request
is refreshed only when `Request.==` tells the two versions apart, so what the
equality overlooks stays as it was first stored. -/

namespace Answr

section Reachable

/-- A fetched snapshot of a server on which no zone and no request occurs twice and
every request stays in its home zone. -/
structure FetchedFrom (home : Option String → String) (snapshot : List ZoneRequests) :
    Prop where
  zones : (snapshot.map (·.zoneid)).Nodup
  ids : ((snapshot.flatMap (·.requests)).map (·.id)).Nodup
  fetched : ∀ z ∈ snapshot, ∀ req ∈ z.requests, req.Fetched
  home : ∀ z ∈ snapshot, ∀ req ∈ z.requests, z.zoneid = home req.id

/-- The stores of the app: empty when it is installed, then changed by syncs with
the server and by items being ticked. -/
inductive Reachable (home : Option String → String) : Context → Prop where
  | installed : Reachable home ⟨.empty,[]⟩
  | sync {ctx ctx' : Context} {ord : FetchOrder} {snapshot : List ZoneRequests} :
      Reachable home ctx → FetchedFrom home snapshot →
      updateSavedRequests ord snapshot ctx = .ok ctx' → Reachable home ctx'
  | tick {ctx : Context} (ord : FetchOrder) (reqID itemID : String) (checked : Bool) :
      Reachable home ctx → Reachable home (markChecked ord reqID itemID checked ctx)

/-- A saved store in which every request is stored once, in its home zone. -/
structure Housed (home : Option String → String) (s : Store) : Prop where
  saved : s.Saved
  zones : (s.zones.map (·.zoneid)).Nodup
  ids : (s.requests.map (·.id)).Nodup
  home : ∀ c ∈ s.zones, ∀ r ∈ s.requestsOf c, c.zoneid = some (home r.id)

variable {home : Option String → String} {s s' : Store} {snapshot : List ZoneRequests}

theorem Housed.mergeInput (h : Housed home s) (hf : FetchedFrom home snapshot) :
    MergeInput s snapshot where
  saved := h.saved
  zones := h.zones
  storedIDs := h.ids
  snapshotZones := hf.zones
  snapshotIDs := hf.ids
  fetched := hf.fetched
  stays c hc r hr z hz req hreq hid := by
    rw [h.home c hc r hr,hid,hf.home z hz req hreq]

theorem IsMerge.housed (hm : IsMerge s snapshot s') (hf : FetchedFrom home snapshot) :
    Housed home s' where
  saved := hm.saved
  zones := hm.zonesOnce
  ids := hm.requestsOnce
  home c hc r hr := by
    obtain ⟨zoneid,hcz⟩ := Option.isSome_iff_exists.mp (hm.saved.zoneFields c hc)
    obtain ⟨z,hz,rfl⟩ := (hm.zones zoneid).mp ⟨c,hc,hcz⟩
    obtain ⟨hrow,hrz⟩ := Store.mem_requestsOf.mp hr
    have hmem : (r,s'.itemsOf r) ∈ s'.zoneEntries z.zoneid :=
      (Store.mem_zoneEntries hm.zonesOnce).mpr
        ⟨c,hc,hcz,Store.mem_entries.mpr ⟨hrow,hrz,rfl⟩⟩
    obtain ⟨req,hreq,hid⟩ : ∃ req ∈ z.requests, req.id = r.id := by
      rcases hm.only z hz _ hmem with ⟨e,-,hcp,heq⟩ | ⟨req,hreq,hholds⟩
      · obtain ⟨req,hreq,he⟩ := hasCounterpart_iff.mp hcp
        refine ⟨req,hreq,?_⟩
        rw [(Prod.mk.inj heq).1]
        exact ((Request.equals_iff _ _).mp he).1.symm
      · exact ⟨req,List.mem_of_mem_filter hreq,hholds.id.symm⟩
    rw [hcz,hf.home z hz req hreq,hid]

theorem markChecked_store (ord : FetchOrder) (reqID itemID : String) (checked : Bool)
    (ctx : Context) : (markChecked ord reqID itemID checked ctx).store = ctx.store ∨
      ∃ r item, r ∈ ctx.store.requests ∧ r.id = some reqID ∧ item ∈ ctx.store.itemsOf r ∧
        item.id = some itemID ∧
        (markChecked ord reqID itemID checked ctx).store = ctx.store.setChecked item checked := by
  cases hh : (fetchRequests ord reqID ctx).head? with
  | none => exact .inl (by simp [markChecked,onFirst,hh])
  | some r =>
    obtain ⟨hr,hid⟩ := (mem_fetchRequests ord).mp (List.mem_of_head? hh)
    cases hi : (ord.items ctx (ctx.store.itemsOf r)).find? (fun i => i.id == some itemID) with
    | none => exact .inl (by simp [markChecked,onFirst,hh,hi])
    | some item =>
      refine .inr ⟨r,item,hr,hid,?_,?_,by simp [markChecked,onFirst,hh,hi]⟩
      · exact (ord.items_perm ctx _).mem_iff.mp (List.mem_of_find?_eq_some hi)
      · simpa using List.find?_some hi

theorem markChecked_keeps {P : Store → Prop} {ord : FetchOrder} {reqID itemID : String}
    {checked : Bool} {ctx : Context} (h : P ctx.store)
    (hset : ∀ item, P (ctx.store.setChecked item checked)) :
    P (markChecked ord reqID itemID checked ctx).store := by
  rcases markChecked_store ord reqID itemID checked ctx with heq | ⟨r,item,-,-,-,-,heq⟩
  · exact heq ▸ h
  · exact heq ▸ hset item

theorem Housed.markChecked {ord : FetchOrder} {reqID itemID : String} {checked : Bool}
    {ctx : Context} (h : Housed home ctx.store) :
    Housed home (Answr.markChecked ord reqID itemID checked ctx).store :=
  markChecked_keeps h fun item =>
    ⟨Store.saved_setChecked h.saved item checked,h.zones,h.ids,h.home⟩

theorem Reachable.housed {ctx : Context} (h : Reachable home ctx) : Housed home ctx.store := by
  induction h with
  | installed =>
    refine ⟨Store.saved_empty,?_,?_,?_⟩
    · simp [Store.empty]
    · simp [Store.empty]
    · simp [Store.empty]
  | @sync ctx ctx' ord snapshot _ hf hrun ih =>
    have hin := ih.mergeInput hf
    obtain ⟨ctx₁,hrun₁,hr⟩ := updateSavedRequests_of_separated ord hin.syncInput hin.separated
    obtain rfl : ctx₁ = ctx' := Except.ok.inj (hrun₁.symm.trans hrun)
    exact (hin.isMerge hr).housed hf
  | tick ord reqID itemID checked _ ih => exact ih.markChecked

end Reachable

section Current

structure SameData (req loaded : Request) : Prop where
  status : loaded.status = req.status
  delSlotStart : loaded.delSlotStart = req.delSlotStart
  elderlyName : loaded.elderlyName = req.elderlyName
  elderlyAddressString : loaded.elderlyAddressString = req.elderlyAddressString
  quantities : ∀ p, p ∈ loaded.quantities ↔ p ∈ req.quantities

/-- Every request of the snapshot is loaded, with its data. -/
def Current (snapshot loaded : List ZoneRequests) : Prop :=
  ∀ z ∈ snapshot, ∀ req ∈ z.requests,
    (∃ zl ∈ loaded, zl.zoneid = z.zoneid ∧ ∃ r ∈ zl.requests, r.id = req.id) ∧
    ∀ zl ∈ loaded, zl.zoneid = z.zoneid → ∀ r ∈ zl.requests, r.id = req.id → SameData req r

/-- No edit since a request was stored is one that the equality overlooks: a stored
version `==` to the fetched one has its slot and its quantities. And the quantities
of a request that is stored anew fit the attribute. -/
def EditsSeen (s : Store) (snapshot : List ZoneRequests) : Prop :=
  ∀ z ∈ snapshot, ∀ req ∈ z.requests,
    (∀ e ∈ s.zoneEntries z.zoneid, (readRequest e.1 e.2).equals req = true →
      e.1.delSlotStart = req.delSlotStart ∧
      ∀ p, p ∈ (readRequest e.1 e.2).quantities ↔ p ∈ req.quantities) ∧
    (req ∈ unmatched (s.zoneEntries z.zoneid) z.requests →
      ∀ item ∈ req.items, integer32 item.qty = item.qty)

variable {s s' : Store} {snapshot : List ZoneRequests}

theorem readRequest_quantities_perm (r : CDRequest) {is js : List CDRequestItem}
    (h : is.Perm js) (p : String × Int) :
    p ∈ (readRequest r is).quantities ↔ p ∈ (readRequest r js).quantities :=
  ((h.map readItem).map _).mem_iff

theorem sameData_perm {req : Request} (r : CDRequest) {is js : List CDRequestItem}
    (h : is.Perm js) : SameData req (readRequest r is) ↔ SameData req (readRequest r js) := by
  have hq := readRequest_quantities_perm r h
  exact ⟨fun hd => ⟨hd.1,hd.2,hd.3,hd.4,fun p => (hq p).symm.trans (hd.5 p)⟩,
    fun hd => ⟨hd.1,hd.2,hd.3,hd.4,fun p => (hq p).trans (hd.5 p)⟩⟩

theorem mem_loaded (ord : FetchOrder) {ctx : Context} (hs : ctx.store.Saved)
    (hn : (ctx.store.zones.map (·.zoneid)).Nodup) {zoneid : String} {r : Request} :
    (∃ zl ∈ (sortedZones ord ctx).map (readZone ord ctx), zl.zoneid = zoneid ∧
      r ∈ zl.requests) ↔
    ∃ e ∈ ctx.store.zoneEntries zoneid, r = readRow ord ctx e.1 := by
  constructor
  · rintro ⟨zl,hzl,rfl,hr⟩
    obtain ⟨c,hc,rfl⟩ := List.mem_map.mp hzl
    have hcm := (sortedZones_perm ord ctx).mem_iff.mp hc
    obtain ⟨zoneid,hz⟩ := Option.isSome_iff_exists.mp (hs.zoneFields c hcm)
    obtain ⟨row,hrow,rfl⟩ := List.mem_map.mp hr
    have hmem := (sortedRequests_perm ord ctx c).mem_iff.mp hrow
    obtain ⟨hrm,hrz⟩ := Store.mem_requestsOf.mp hmem
    have hread : (readZone ord ctx c).zoneid = zoneid := by simp [readZone,hz]
    rw [hread]
    exact ⟨(row,ctx.store.itemsOf row),(Store.mem_zoneEntries hn).mpr
      ⟨c,hcm,hz,Store.mem_entries.mpr ⟨hrm,hrz,rfl⟩⟩,rfl⟩
  · rintro ⟨e,he,rfl⟩
    obtain ⟨c,hc,hz,hec⟩ := (Store.mem_zoneEntries hn).mp he
    obtain ⟨hrm,hrz,-⟩ := Store.mem_entries.mp hec
    refine ⟨readZone ord ctx c,List.mem_map_of_mem ((sortedZones_perm ord ctx).mem_iff.mpr hc),
      by simp [readZone,hz],List.mem_map_of_mem ?_⟩
    exact (sortedRequests_perm ord ctx c).mem_iff.mpr (Store.mem_requestsOf.mpr ⟨hrm,hrz⟩)

theorem current_iff_entries {ord : FetchOrder} {ctx : Context} (hs : ctx.store.Saved)
    (hn : (ctx.store.zones.map (·.zoneid)).Nodup) :
    Current snapshot ((sortedZones ord ctx).map (readZone ord ctx)) ↔
      ∀ z ∈ snapshot, ∀ req ∈ z.requests,
        (∃ e ∈ ctx.store.zoneEntries z.zoneid, e.1.id = req.id) ∧
        ∀ e ∈ ctx.store.zoneEntries z.zoneid, e.1.id = req.id →
          SameData req (readRequest e.1 e.2) := by
  have hperm : ∀ zoneid, ∀ e ∈ ctx.store.zoneEntries zoneid, ∀ req,
      SameData req (readRow ord ctx e.1) ↔ SameData req (readRequest e.1 e.2) := by
    intro zoneid e he req
    obtain ⟨c,-,-,hec⟩ := (Store.mem_zoneEntries hn).mp he
    rw [(Store.mem_entries.mp hec).2.2]
    exact sameData_perm e.1 (sortedItems_perm ord ctx e.1)
  constructor
  · intro h z hz req hreq
    obtain ⟨⟨zl,hzl,hzid,r,hr,hid⟩,hall⟩ := h z hz req hreq
    obtain ⟨e,he,rfl⟩ := (mem_loaded ord hs hn).mp ⟨zl,hzl,hzid,hr⟩
    refine ⟨⟨e,he,hid⟩,fun e' he' hid' => (hperm _ e' he' req).mp ?_⟩
    obtain ⟨zl',hzl',hzid',hr'⟩ := (mem_loaded ord hs hn).mpr ⟨e',he',rfl⟩
    exact hall zl' hzl' hzid' _ hr' hid'
  · intro h z hz req hreq
    obtain ⟨⟨e,he,hid⟩,hall⟩ := h z hz req hreq
    obtain ⟨zl,hzl,hzid,hr⟩ := (mem_loaded ord hs hn).mpr ⟨e,he,rfl⟩
    refine ⟨⟨zl,hzl,hzid,_,hr,hid⟩,fun zl' hzl' hzid' r hr' hid' => ?_⟩
    obtain ⟨e',he',rfl⟩ := (mem_loaded ord hs hn).mp ⟨zl',hzl',hzid',hr'⟩
    exact (hperm _ e' he' req).mpr (hall e' he' hid')

theorem Holds.quantities {req : Request} {e : Entry} (h : Holds req e) :
    (readRequest e.1 e.2).quantities =
      req.items.map fun item => (item.id,integer32 item.qty) := by
  have hitems : ∀ {items : List RequestItem} {rows : List CDRequestItem},
      List.Forall₂ HoldsItem items rows → (rows.map readItem).map (fun i => (i.id,i.qty)) =
        items.map fun item => (item.id,integer32 item.qty) := by
    intro items rows hf
    induction hf with
    | nil => rfl
    | cons hab _ ih => simp [readItem,hab.id,hab.qty] at ih ⊢; exact ih
  exact hitems h.items

theorem mem_wrapped_iff {items : List RequestItem} :
    (∀ p : String × Int, p ∈ items.map (fun item => (item.id,integer32 item.qty)) ↔
      p ∈ items.map fun item => (item.id,item.qty)) ↔
    ∀ item ∈ items, integer32 item.qty = item.qty := by
  constructor
  · intro h item hitem
    obtain ⟨other,hother,heq⟩ := List.mem_map.mp
      ((h (item.id,item.qty)).mpr (List.mem_map_of_mem (f := fun i => (i.id,i.qty)) hitem))
    -- the pair is already a wrapped one, and wrapping twice is wrapping once
    rw [← (Prod.mk.inj heq).2,integer32,integer32,Int.bmod_bmod]
  · intro h p
    rw [List.map_congr_left fun item hitem => by rw [h item hitem]]

theorem Holds.sameData_iff {req : Request} {e : Entry} (h : Holds req e) :
    SameData req (readRequest e.1 e.2) ↔ ∀ item ∈ req.items, integer32 item.qty = item.qty := by
  rw [← mem_wrapped_iff,← h.quantities]
  exact ⟨fun hd => hd.quantities,
    fun hq => ⟨h.status,h.delSlotStart,h.elderlyName,h.elderlyAddressString,hq⟩⟩

theorem sameData_of_equals {req : Request} {e : Entry}
    (h : (readRequest e.1 e.2).equals req = true) :
    SameData req (readRequest e.1.old e.2) ↔ e.1.delSlotStart = req.delSlotStart ∧
      ∀ p, p ∈ (readRequest e.1 e.2).quantities ↔ p ∈ req.quantities := by
  obtain ⟨-,hstatus,hname,haddr,-⟩ := (Request.equals_iff _ _).mp h
  exact ⟨fun hd => ⟨hd.delSlotStart,hd.quantities⟩,fun hd => ⟨hstatus,hd.1,hname,haddr,hd.2⟩⟩

theorem IsMerge.current_iff (hm : IsMerge s snapshot s')
    (hids : ∀ z ∈ snapshot, (z.requests.map (·.id)).Nodup) :
    (∀ z ∈ snapshot, ∀ req ∈ z.requests,
      (∃ e ∈ s'.zoneEntries z.zoneid, e.1.id = req.id) ∧
      ∀ e ∈ s'.zoneEntries z.zoneid, e.1.id = req.id → SameData req (readRequest e.1 e.2)) ↔
    EditsSeen s snapshot := by
  have hkept : ∀ z ∈ snapshot, ∀ req ∈ z.requests, ∀ e ∈ s.zoneEntries z.zoneid,
      (readRequest e.1 e.2).equals req = true → (e.1.old,e.2) ∈ s'.zoneEntries z.zoneid :=
    fun z hz req hreq e he heq =>
      hm.kept z hz e he (hasCounterpart_iff.mpr ⟨req,hreq,heq⟩)
  constructor
  · intro h z hz req hreq
    constructor
    · intro e he heq
      have hid : e.1.id = req.id := ((Request.equals_iff _ _).mp heq).1
      exact (sameData_of_equals heq).mp
        ((h z hz req hreq).2 _ (hkept z hz req hreq e he heq) hid)
    · intro hun
      obtain ⟨e,he,hholds⟩ := hm.added z hz req hun
      exact hholds.sameData_iff.mp ((h z hz req hreq).2 e he hholds.id)
  · intro h z hz req hreq
    constructor
    · by_cases hun : req ∈ unmatched (s.zoneEntries z.zoneid) z.requests
      · obtain ⟨e,he,hholds⟩ := hm.added z hz req hun
        exact ⟨e,he,hholds.id⟩
      · rw [unmatched,List.mem_filter] at hun
        simp only [hreq,true_and,Bool.not_eq_true',Bool.not_eq_false,List.any_eq_true] at hun
        obtain ⟨e,he,heq⟩ := hun
        exact ⟨_,hkept z hz req hreq e he heq,((Request.equals_iff _ _).mp heq).1⟩
    · intro e' he' hid
      have hsame : ∀ req' ∈ z.requests, req'.id = e'.1.id → req' = req := fun req' hreq' h' =>
        List.inj_on_of_nodup_map (hids z hz) hreq' hreq (h'.trans hid)
      rcases hm.only z hz e' he' with ⟨e,he,hcp,rfl⟩ | ⟨req',hun,hholds⟩
      · obtain ⟨req',hreq',heq⟩ := hasCounterpart_iff.mp hcp
        obtain rfl := hsame req' hreq' ((Request.equals_iff _ _).mp heq).1.symm
        exact (sameData_of_equals heq).mpr ((h z hz req' hreq').1 e he heq)
      · obtain rfl := hsame req' (List.mem_of_mem_filter hun) hholds.id.symm
        exact hholds.sameData_iff.mpr ((h z hz req' (List.mem_of_mem_filter hun)).2 hun)

/-- A synced store loads with the server's data exactly when every edit was seen. -/
theorem sync_current_iff (home : Option String → String) (ord : FetchOrder)
    (snapshot : List ZoneRequests) (ctx : Context) (hr : Reachable home ctx)
    (hf : FetchedFrom home snapshot) :
    ∃ ctx' loaded, updateSavedRequests ord snapshot ctx = .ok ctx' ∧
      loadAllZoneRequests ord ctx' = .ok loaded ∧
      (Current snapshot loaded ↔ EditsSeen ctx.store snapshot) := by
  have hin := hr.housed.mergeInput hf
  obtain ⟨ctx',hrun,hrec⟩ := updateSavedRequests_of_separated ord hin.syncInput hin.separated
  have hm := hin.isMerge hrec
  refine ⟨ctx',_,hrun,loadAllZoneRequests_ok ord hm.saved,?_⟩
  rw [current_iff_entries hm.saved hm.zonesOnce]
  exact hm.current_iff hin.syncInput.snapshotInZone

def oneRequest (slot : Date) (qty : Int) : List ZoneRequests :=
  [⟨"north",[⟨some "r1",some 1,"u1",some "Pending",some slot,
    [⟨"rice","Rice","rice",qty,none,none,"white",none⟩],none,some "Tan",some "Block 1"⟩]⟩]

theorem oneRequest_fetched (slot : Date) (qty : Int) :
    FetchedFrom (fun _ => "north") (oneRequest slot qty) where
  zones := by simp [oneRequest]
  ids := by simp [oneRequest]
  fetched z hz req hreq := by
    obtain rfl := List.mem_singleton.mp hz
    obtain rfl := List.mem_singleton.mp hreq
    exact ⟨rfl,rfl,rfl,rfl⟩
  home z hz req _ := by
    obtain rfl := List.mem_singleton.mp hz
    rfl

def oneStored (slot : Date) (qty : Int) : Store where
  zones := [⟨0,some "north"⟩]
  requests := [⟨1,some 0,some "r1",some 1,some "u1",some "Pending",some slot,true,some "Tan",
    some "Block 1"⟩]
  items := [⟨2,some 1,some "rice",some "Rice",some "rice",integer32 qty,some "white",none,none,
    false⟩]
  nextID := 3

def oneStoredContext (slot : Date) (qty : Int) : Context :=
  ⟨oneStored slot qty,[oneStored slot qty,oneStored slot qty]⟩

theorem oneStored_reachable (slot : Date) (qty : Int) :
    Reachable (fun _ => "north") (oneStoredContext slot qty) :=
  @Reachable.sync _ _ _ .table _ .installed (oneRequest_fetched slot qty) rfl

theorem sync_current_iff_moved :
    ∃ ctx' loaded, updateSavedRequests .table (oneRequest 9 2) (oneStoredContext 5 2) = .ok ctx' ∧
      loadAllZoneRequests .table ctx' = .ok loaded ∧
      (Current (oneRequest 9 2) loaded ↔ EditsSeen (oneStoredContext 5 2).store
        (oneRequest 9 2)) :=
  sync_current_iff (fun _ => "north") .table (oneRequest 9 2) (oneStoredContext 5 2)
    (oneStored_reachable 5 2) (oneRequest_fetched 9 2)

/-- The slot of a stored request is moved from 5 to 9 and its quantity raised from 2
to 3; the sync keeps the old version. -/
theorem not_sync_current : ¬ ∀ (home : Option String → String) (ord : FetchOrder)
    (snapshot : List ZoneRequests) (ctx : Context), Reachable home ctx →
    FetchedFrom home snapshot →
    ∃ ctx' loaded, updateSavedRequests ord snapshot ctx = .ok ctx' ∧
      loadAllZoneRequests ord ctx' = .ok loaded ∧ Current snapshot loaded := by
  intro h
  obtain ⟨ctx',loaded,hrun,hload,hcur⟩ := h (fun _ => "north") .table (oneRequest 9 3)
    (oneStoredContext 5 2) (oneStored_reachable 5 2) (oneRequest_fetched 9 3)
  obtain ⟨ctx₁,hrun₁,hload₁⟩ : ∃ ctx₁,
      updateSavedRequests .table (oneRequest 9 3) (oneStoredContext 5 2) = .ok ctx₁ ∧
      loadAllZoneRequests .table ctx₁ = .ok [⟨"north",[⟨some "r1",some 1,"u1",some "Pending",
        some 5,[⟨"rice","Rice","rice",2,none,none,"white",some false⟩],some false,some "Tan",
        some "Block 1"⟩]⟩] := ⟨_,rfl,rfl⟩
  obtain rfl : ctx₁ = ctx' := Except.ok.inj (hrun₁.symm.trans hrun)
  obtain rfl := Except.ok.inj (hload₁.symm.trans hload)
  have hdata := (hcur _ (.head _) _ (.head _)).2 _ (.head _) rfl _ (.head _) rfl
  exact absurd hdata.delSlotStart (by decide)

end Current

end Answr
