import Answr.Contents
import Answr.Rounds
import Answr.ScreenRuns
set_option autoImplicit false

/-! The forced unwraps between the store and the screen. What `getRequest` delivers has
every value that they need but those of the sender's record, which may be missing. -/

namespace Answr
open LeafTree Countdown Steps

section Delivered

/-- A call of `getRequest` whose reads got these answers has handed over the request. -/
def Delivered (zh : Bool) (A : Answers) (zoneID id : String) (req : Request) : Prop :=
  ∃ run : RequestRun, Reaches (RequestRun.step zh zoneID) (fun _ => Answered A) (.start id) run ∧
    some req ∈ run.calls

/-- The elderly record of the sender has the texts that `retrieveElderlyDetails` guards. -/
def HasDetails (senderID : String) (db : Database) : Prop :=
  (childString (elderlyRef senderID) "Name" db).isSome ∧
    (childString (elderlyRef senderID) "Address" db).isSome

theorem hasDetails_iff {senderID : String} {db : Database} :
    (retrieveElderlyDetails senderID db).isSome ↔ HasDetails senderID db := by
  unfold retrieveElderlyDetails HasDetails
  cases hname : childString (elderlyRef senderID) "Name" db with
  | none => simp [hname]
  | some name =>
    cases haddress : childString (elderlyRef senderID) "Address" db with
    | none => simp [hname,haddress]
    | some address => simp [hname,haddress]

variable {zh : Bool} {A : Answers} {zoneID id : String} {req : Request}

theorem Delivered.same (h : Delivered zh A zoneID id req) : ∃ fields,
    requestFields zoneID id (A []) = some fields ∧
    SameRequest req (addDetails fields (fetchedItems zh A zoneID id)
      (retrieveElderlyDetails fields.senderID (A [1,0]))) := by
  obtain ⟨run,hr,hreq⟩ := h
  have hstart : (RequestFetch.reading id).Tracks zh A zoneID id := rfl
  have hkeeps := Calls.keeps_of_reaches (delivers_request zh A zoneID id) hstart rfl hr
  have hrel := hkeeps.results _ hreq
  rw [fetchedRequest] at hrel
  cases hfields : requestFields zoneID id (A []) with
  | none =>
    rw [hfields] at hrel
    cases hrel
  | some fields =>
    rw [hfields] at hrel
    exact ⟨fields,rfl,Option.rel_some_some.mp hrel⟩

theorem Delivered.fetched (h : Delivered zh A zoneID id req) : req.Fetched := by
  obtain ⟨fields,hfields,-,hsame⟩ := h.same
  have hf := (requestFields_ok hfields).1
  simp only [addDetails,Request.mk.injEq] at hsame
  obtain ⟨hid,hdate,-,hstatus,hslot,-⟩ := hsame
  exact ⟨hid ▸ hf.id,hdate ▸ hf.dateCreated,hstatus ▸ hf.status,hslot ▸ hf.delSlotStart⟩

theorem Delivered.details (h : Delivered zh A zoneID id req) :
    (req.elderlyName.isSome ↔ HasDetails req.senderID (A [1,0])) ∧
    (req.elderlyAddressString.isSome ↔ HasDetails req.senderID (A [1,0])) := by
  obtain ⟨fields,-,-,hsame⟩ := h.same
  simp only [addDetails,Request.mk.injEq] at hsame
  obtain ⟨-,-,hsender,-,-,-,-,hname,haddress⟩ := hsame
  rw [hname,haddress,hsender,Option.isSome_map,Option.isSome_map]
  exact ⟨hasDetails_iff,hasDetails_iff⟩

theorem Delivered.validParts (h : Delivered zh A zoneID id req) :
    ValidPart req.senderID ∧ ∀ item ∈ req.items, ValidPart item.id := by
  obtain ⟨fields,hfields,hitems,hsame⟩ := h.same
  obtain ⟨run,hr,hreq⟩ := h
  have hstart : (RequestFetch.reading id).Tracks zh A zoneID id := rfl
  have hkeeps := Calls.keeps_of_reaches (delivers_request zh A zoneID id) hstart rfl hr
  have hfired := hkeeps.called_iff.mp (List.ne_nil_of_mem hreq)
  have htracks := hkeeps.ok
  simp only [addDetails,Request.mk.injEq] at hsame
  obtain ⟨-,-,hsender,-⟩ := hsame
  cases hstate : run.state with
  | reading id' =>
    rw [hstate] at hfired
    cases hfired
  | malformed id' =>
    rw [hstate] at htracks
    rw [htracks.2] at hfields
    cases hfields
  | wellFormed id' body =>
    rw [hstate] at htracks hfired
    obtain ⟨-,hbody⟩ := htracks
    obtain rfl := Option.some.inj (hbody.fields.symm.trans hfields)
    refine ⟨?_,fun item hitem => ?_⟩
    · rcases hbody.elderly with ⟨-,hnone⟩ | ⟨-,hvalid,-⟩
      · simp [RequestFetch.fired,hnone] at hfired
      · exact hsender ▸ hvalid
    · obtain ⟨⟨read,i⟩,hread,hfetched⟩ := List.mem_filterMap.mp (hitems.subset hitem)
      obtain ⟨item',hitem',hqty⟩ := Option.bind_eq_some_iff.mp hfetched
      obtain ⟨qty,-,rfl⟩ := Option.map_eq_some_iff.mp hqty
      have hid : item'.id = read.itemID := getRequestItem_id hitem'
      have hmem : read ∈ contentReads zoneID id (A []) := by
        rw [List.mem_zipIdx_iff_getElem?] at hread
        exact List.mem_of_getElem? hread
      exact hid ▸ hbody.valid read hmem

/-- `child` accepts the paths that a completion of a delivered request builds. -/
theorem Delivered.paths (h : Delivered zh A zoneID id req) (hz : ValidPart zoneID)
    (hid : ValidPart id) (hkey : IsKey id) {uid : String} (hu : ValidPart uid) :
    (∀ item ∈ req.items,
      child ["requestCounter",zoneID,item.id] = .ok (requestCounterRef zoneID item.id) ∧
      child ["items",item.id,"requested"] = .ok (requestedRef item.id)) ∧
    child ["userRequests",req.senderID,zoneID] = .ok (userRequestsRef req.senderID zoneID) ∧
    child ["volunteer",uid,"CompletedRequests"] = .ok (completedRequestsRef uid) ∧
    ∃ id, req.id = some id ∧ child ["requests",zoneID,id] = .ok (requestRef zoneID id) := by
  obtain ⟨hsender,hitems⟩ := h.validParts
  obtain ⟨fields,hfields,-,hsame⟩ := h.same
  simp only [addDetails,Request.mk.injEq] at hsame
  have hreq : req.id = some id :=
    hsame.1.trans ((requestFields_ok hfields).2.trans (keyIn_eq hkey))
  have hrequested : ValidPart "requested" := by decide
  have hcompleted : ValidPart "CompletedRequests" := by decide
  refine ⟨fun item hitem => ⟨?_,?_⟩,?_,?_,id,hreq,?_⟩
  · exact (child_ok_iff (by decide) (by decide)).mpr ⟨by simp [hz,hitems item hitem],rfl⟩
  · exact (child_ok_iff (by decide) (by decide)).mpr ⟨by simp [hrequested,hitems item hitem],rfl⟩
  · exact (child_ok_iff (by decide) (by decide)).mpr ⟨by simp [hsender,hz],rfl⟩
  · exact (child_ok_iff (by decide) (by decide)).mpr ⟨by simp [hu,hcompleted],rfl⟩
  · exact (child_ok_iff (by decide) (by decide)).mpr ⟨by simp [hz,hid],rfl⟩

end Delivered

section Stocked

/-- Every request of the snapshot has been delivered for its zone. -/
def FromServer (snapshot : List ZoneRequests) : Prop :=
  ∀ z ∈ snapshot, ∀ req ∈ z.requests, ∃ zh A id, Delivered zh A z.zoneid id req

/-- The stores of the app, whatever the server holds: empty when it is installed, then
changed by syncs and by items being ticked. -/
inductive Stocked : Context → Prop where
  | installed : Stocked ⟨.empty,[]⟩
  | sync {ctx ctx' : Context} {ord : FetchOrder} {snapshot : List ZoneRequests} :
      Stocked ctx → FromServer snapshot →
      updateSavedRequests ord snapshot ctx = .ok ctx' → Stocked ctx'
  | tick {ctx : Context} (ord : FetchOrder) (reqID itemID : String) (checked : Bool) :
      Stocked ctx → Stocked (markChecked ord reqID itemID checked ctx)

structure CDRequest.CopyOf (r : CDRequest) (req : Request) : Prop where
  id : r.id = req.id
  dateCreated : r.dateCreated = req.dateCreated
  senderID : r.senderID = some req.senderID
  status : r.status = req.status
  delSlotStart : r.delSlotStart = req.delSlotStart
  elderlyName : r.elderlyName = req.elderlyName
  elderlyAddressString : r.elderlyAddressString = req.elderlyAddressString

/-- A saved store whose rows are copies of requests that were delivered for their zone. -/
structure Store.Sourced (s : Store) : Prop where
  saved : s.Saved
  origin : ∀ c ∈ s.zones, ∀ r ∈ s.requestsOf c, ∃ zoneid zh A id req,
    c.zoneid = some zoneid ∧ Delivered zh A zoneid id req ∧ r.CopyOf req

variable {snapshot : List ZoneRequests} {s : Store} {ctx : Context}

theorem FromServer.fetched (h : FromServer snapshot) :
    ∀ z ∈ snapshot, ∀ req ∈ z.requests, req.Fetched := by
  intro z hz req hreq
  obtain ⟨zh,A,id,hd⟩ := h z hz req hreq
  exact hd.fetched

theorem CDRequest.CopyOf.oldIf {r : CDRequest} {req : Request} (h : r.CopyOf req) (n : Nat) :
    (oldIf n r).CopyOf req := by
  unfold Answr.oldIf
  split
  · exact ⟨h.id,h.dateCreated,h.senderID,h.status,h.delSlotStart,h.elderlyName,
      h.elderlyAddressString⟩
  · exact h

theorem closed_sourced (h : FromServer snapshot) : Closed snapshot Store.Sourced where
  markOld s row hs := by
    refine ⟨Store.saved_markOld hs.saved row,fun c hc r hr => ?_⟩
    obtain ⟨hrm,hrz⟩ := Store.mem_requestsOf.mp hr
    rw [Store.markOld_requests] at hrm
    obtain ⟨r₀,hr₀,rfl⟩ := List.mem_map.mp hrm
    rw [oldIf_requestZone] at hrz
    obtain ⟨zoneid,zh,A,id,req,hz,hd,hcopy⟩ :=
      hs.origin c hc r₀ (Store.mem_requestsOf.mpr ⟨hr₀,hrz⟩)
    exact ⟨zoneid,zh,A,id,req,hz,hd,hcopy.oldIf row.objectID⟩
  deleteRequest s row hs := by
    refine ⟨Store.saved_deleteRequest hs.saved row,fun c hc r hr => hs.origin c hc r ?_⟩
    obtain ⟨hrm,hrz⟩ := Store.mem_requestsOf.mp hr
    exact Store.mem_requestsOf.mpr ⟨List.mem_of_mem_filter hrm,hrz⟩
  deleteZone s zone hs := by
    refine ⟨Store.saved_deleteZone hs.saved zone,fun c hc r hr =>
      hs.origin c (List.mem_of_mem_filter hc) r ?_⟩
    obtain ⟨hrm,hrz⟩ := Store.mem_requestsOf.mp hr
    exact Store.mem_requestsOf.mpr ⟨List.mem_of_mem_filter hrm,hrz⟩
  addZone s z _ hs := by
    refine ⟨Store.saved_addZone hs.saved z.zoneid,fun c hc r hr => ?_⟩
    rcases List.mem_append.mp hc with hc | hc
    · exact hs.origin c hc r hr
    · -- no request has the new row for its zone yet
      obtain rfl := List.mem_singleton.mp hc
      have hnone := hs.saved.requestsOf_new (some z.zoneid)
      change r ∈ s.requestsOf _ at hr
      rw [hnone] at hr
      cases hr
  addRequest s c hc z hz req hreq hcz hs := by
    obtain ⟨zh,A,id,hd⟩ := h z hz req hreq
    refine ⟨Store.saved_addRequest hs.saved ⟨c,hc,rfl⟩ hd.fetched,fun c' hc' r hr => ?_⟩
    obtain ⟨hrm,hrz⟩ := Store.mem_requestsOf.mp hr
    rcases List.mem_append.mp hrm with hold | hnew
    · exact hs.origin c' hc' r (Store.mem_requestsOf.mpr ⟨hold,hrz⟩)
    · obtain rfl := List.mem_singleton.mp hnew
      have hcc : c = c' := hs.saved.zone_eq hc hc' (Option.some.inj hrz)
      subst hcc
      exact ⟨z.zoneid,zh,A,id,req,hcz,hd,rfl,rfl,rfl,rfl,rfl,rfl,rfl⟩

theorem Stocked.sourced (h : Stocked ctx) : ctx.store.Sourced := by
  induction h with
  | installed => exact ⟨Store.saved_empty,by simp [Store.empty]⟩
  | sync _ hsnap hrun ih => exact (closed_sourced hsnap).sync ih.saved ih hrun
  | @tick ctx ord reqID itemID checked _ ih =>
    exact markChecked_keeps ih fun item =>
      ⟨Store.saved_setChecked ih.saved item checked,ih.origin⟩

end Stocked

section Shown

/-- The loaded request has the fields of the fetched one, marked new or not, and each of
its items is checked or not. -/
structure Request.LoadedFrom (req fetched : Request) : Prop where
  id : req.id = fetched.id
  dateCreated : req.dateCreated = fetched.dateCreated
  senderID : req.senderID = fetched.senderID
  status : req.status = fetched.status
  delSlotStart : req.delSlotStart = fetched.delSlotStart
  elderlyName : req.elderlyName = fetched.elderlyName
  elderlyAddressString : req.elderlyAddressString = fetched.elderlyAddressString
  isNew : req.isNew.isSome
  checked : ∀ item ∈ req.items, item.checked.isSome

/-- The row can be shown: its height is computed, a cell is built for it, and no tap on
an item of the cell stops the app. -/
structure Shown (calculatedHeight : String → Rat) (zoneRequests : List ZoneRequests)
    (indexPath : Nat × Nat) : Prop where
  height : ∃ height, heightForRowAt calculatedHeight zoneRequests indexPath = .ok height
  cell : ∀ cell, ∃ cell', cellForRowAt zoneRequests indexPath cell = .ok cell' ∧
    ∀ ord itemID ctx, ∃ after, toggledItemCheck ord itemID cell' ctx = .ok after

theorem allChecked_total {items : List RequestItem} (h : ∀ item ∈ items, item.checked.isSome) :
    ∃ enabled, allChecked items = .ok enabled := by
  induction items with
  | nil => exact ⟨true,rfl⟩
  | cons item items ih =>
    obtain ⟨checked,hchecked⟩ := Option.isSome_iff_exists.mp (h item (by simp))
    obtain ⟨enabled,hrest⟩ := ih fun other hother => h other (by simp [hother])
    cases checked with
    | false => exact ⟨false,by simp [allChecked,hchecked,unwrap,bind,Except.bind,pure,Except.pure]⟩
    | true => exact ⟨enabled,by simp [allChecked,hchecked,hrest,unwrap,bind,Except.bind]⟩

theorem updateCompletionBtn_total (cell : RequestDetailCell) {request : Request}
    (hreq : cell.request = some request) (h : ∀ item ∈ request.items, item.checked.isSome) :
    ∃ cell', updateCompletionBtn cell = .ok cell' ∧ cell'.request = some request := by
  obtain ⟨enabled,hall⟩ := allChecked_total h
  refine ⟨{ cell with completionBtnEnabled := enabled },?_,hreq⟩
  simp [updateCompletionBtn,hreq,hall,unwrap,bind,Except.bind,pure,Except.pure]

theorem toggledItemCheck_total (cell : RequestDetailCell) {request : Request}
    (hreq : cell.request = some request) (hid : request.id.isSome)
    (h : ∀ item ∈ request.items, item.checked.isSome) (ord : FetchOrder) (itemID : String)
    (ctx : Context) : ∃ after, toggledItemCheck ord itemID cell ctx = .ok after := by
  cases hk : request.items.findIdx? (fun item => item.id == itemID) with
  | none =>
    obtain ⟨cell',hup,-⟩ := updateCompletionBtn_total cell hreq h
    exact ⟨(cell',ctx),by
      simp [toggledItemCheck,hreq,hk,hup,unwrap,bind,Except.bind,pure,Except.pure]⟩
  | some i =>
    obtain ⟨-,item,-,-,-,hget,-⟩ := split_of_findIdx? hk
    obtain ⟨checked,hchecked⟩ :=
      Option.isSome_iff_exists.mp (h item (List.mem_of_getElem? hget))
    obtain ⟨id,hid⟩ := Option.isSome_iff_exists.mp hid
    let toggled := request.items.set i { item with checked := some (!checked) }
    have hset : ∀ other ∈ toggled, other.checked.isSome := by
      intro other hother
      rcases List.mem_or_eq_of_mem_set hother with hother | rfl
      · exact h other hother
      · rfl
    obtain ⟨cell',hup,-⟩ := updateCompletionBtn_total
      { cell with request := some { request with items := toggled } } rfl hset
    refine ⟨(cell',markChecked ord id itemID (!checked) ctx),
      bind_ok.mpr ⟨request,unwrap_ok.mpr hreq,?_⟩⟩
    simp only [hk]
    exact bind_ok.mpr ⟨item,element_ok.mpr hget,bind_ok.mpr ⟨checked,unwrap_ok.mpr hchecked,
      bind_ok.mpr ⟨id,unwrap_ok.mpr hid,bind_ok.mpr ⟨cell',hup,rfl⟩⟩⟩⟩

variable {calculatedHeight : String → Rat} {zoneRequests : List ZoneRequests}
  {indexPath : Nat × Nat} {row : String × Request} {fetched : Request}

theorem rowAt_some (h : rowAt zoneRequests indexPath = some row) : ∃ zonereq,
    zoneRequests[indexPath.1]? = some zonereq ∧ zonereq.requests[indexPath.2]? = some row.2 ∧
    zonereq.zoneid = row.1 := by
  obtain ⟨zonereq,hzone,h⟩ := Option.bind_eq_some_iff.mp h
  obtain ⟨request,hrequest,rfl⟩ := Option.map_eq_some_iff.mp h
  exact ⟨zonereq,hzone,hrequest,rfl⟩

theorem shown_iff_details (hrow : rowAt zoneRequests indexPath = some row)
    (hfetched : fetched.Fetched) (h : row.2.LoadedFrom fetched) :
    Shown calculatedHeight zoneRequests indexPath ↔
      row.2.elderlyName.isSome ∧ row.2.elderlyAddressString.isSome := by
  obtain ⟨zonereq,hzone,hrequest,-⟩ := rowAt_some hrow
  have helement := element_ok.mpr hzone
  have helement' := element_ok.mpr hrequest
  constructor
  · rintro ⟨⟨height,hheight⟩,hcell⟩
    constructor
    · obtain ⟨cell',hcell',-⟩ := hcell {}
      simp only [cellForRowAt,helement,helement',bind,Except.bind] at hcell'
      by_contra hname
      rw [Option.not_isSome_iff_eq_none] at hname
      obtain ⟨isNew,hnew⟩ := Option.isSome_iff_exists.mp h.isNew
      obtain ⟨slot,hslot⟩ := Option.isSome_iff_exists.mp hfetched.delSlotStart
      rw [← h.delSlotStart] at hslot
      simp [buildInstance,hname,hnew,hslot,unwrap,bind,Except.bind] at hcell'
    · simp only [heightForRowAt,helement,helement',bind,Except.bind] at hheight
      by_contra haddress
      rw [Option.not_isSome_iff_eq_none] at haddress
      simp [haddress,unwrap] at hheight
  · rintro ⟨hname,haddress⟩
    obtain ⟨name,hname⟩ := Option.isSome_iff_exists.mp hname
    obtain ⟨address,haddress⟩ := Option.isSome_iff_exists.mp haddress
    obtain ⟨isNew,hnew⟩ := Option.isSome_iff_exists.mp h.isNew
    obtain ⟨slot,hslot⟩ := Option.isSome_iff_exists.mp hfetched.delSlotStart
    rw [← h.delSlotStart] at hslot
    have hheight : heightForRowAt calculatedHeight zoneRequests indexPath =
        .ok (223 + calculatedHeight address + row.2.items.length*30 + 22) := by
      simp only [heightForRowAt,helement,helement',haddress,unwrap,bind,Except.bind]
      rfl
    refine ⟨⟨_,hheight⟩,fun cell => ?_⟩
    have hitems : ∀ item ∈ row.2.items, unwrap item.checked = .ok (item.checked.getD false) := by
      intro item hitem
      obtain ⟨checked,hchecked⟩ := Option.isSome_iff_exists.mp (h.checked item hitem)
      simp [hchecked,unwrap]
    obtain ⟨built,hup,hbuilt⟩ := updateCompletionBtn_total
      { cell with request := some row.2, completionBtnEnabled := false } rfl h.checked
    refine ⟨{ built with zoneid := some zonereq.zoneid },?_,fun ord itemID ctx =>
      toggledItemCheck_total { built with zoneid := some zonereq.zoneid } hbuilt
        (h.id ▸ hfetched.id) h.checked ord itemID ctx⟩
    simp only [cellForRowAt,helement,helement',buildInstance,hname,hnew,hslot,unwrap,bind,
      Except.bind]
    change (((row.2.items.mapM fun item => unwrap item.checked).bind fun _ => _).bind _) = _
    rw [mapM_ok hitems]
    simp only [Except.bind,hup]
    rfl

variable {ctx : Context} {ord : FetchOrder}

theorem loadedFrom_readRow {r : CDRequest} (h : r.CopyOf fetched) :
    (readRow ord ctx r).LoadedFrom fetched where
  id := h.id
  dateCreated := h.dateCreated
  senderID := by simp [readRow,readRequest,h.senderID]
  status := h.status
  delSlotStart := h.delSlotStart
  elderlyName := h.elderlyName
  elderlyAddressString := h.elderlyAddressString
  isNew := rfl
  checked item hitem := by
    obtain ⟨i,-,rfl⟩ := List.mem_map.mp hitem
    rfl

theorem Store.Sourced.of_row (hs : ctx.store.Sourced)
    (hrow : rowAt ((sortedZones ord ctx).map (readZone ord ctx)) indexPath = some row) :
    ∃ zh A id req, Delivered zh A row.1 id req ∧ row.2.LoadedFrom req := by
  obtain ⟨zonereq,hzone,hrequest,hzoneid⟩ := rowAt_some hrow
  obtain ⟨c,hc,rfl⟩ := List.mem_map.mp (List.mem_of_getElem? hzone)
  obtain ⟨r,hr,hread⟩ := List.mem_map.mp (List.mem_of_getElem? hrequest)
  obtain ⟨zoneid,zh,A,id,req,hz,hd,hcopy⟩ := hs.origin c ((sortedZones_perm ord ctx).mem_iff.mp hc)
    r ((sortedRequests_perm ord ctx c).mem_iff.mp hr)
  refine ⟨zh,A,id,req,?_,hread ▸ loadedFrom_readRow hcopy⟩
  rw [← hzoneid,readZone,hz,Option.getD_some]
  exact hd

/-- Every sync and every load of the store goes through. A loaded row is that of a
delivered request, and it can be shown exactly if the record of the sender had a name and
an address when the request was fetched. -/
theorem shown_iff (calculatedHeight : String → Rat) (ctx : Context) (h : Stocked ctx)
    (ord : FetchOrder) :
    (∀ snapshot, FromServer snapshot → ∃ ctx', updateSavedRequests ord snapshot ctx = .ok ctx') ∧
    ∃ zones, loadAllZoneRequests ord ctx = .ok zones ∧
      ∀ indexPath row, rowAt zones indexPath = some row →
        (∃ zh A id req, Delivered zh A row.1 id req ∧ row.2.LoadedFrom req) ∧
        ∀ zh A id req, Delivered zh A row.1 id req → row.2.LoadedFrom req →
          (Shown calculatedHeight zones indexPath ↔ HasDetails req.senderID (A [1,0])) := by
  have hs := h.sourced
  refine ⟨fun snapshot _ => ?_,_,loadAllZoneRequests_ok ord hs.saved,fun indexPath row hrow =>
    ⟨hs.of_row hrow,fun zh A id req hd hloaded => ?_⟩⟩
  · obtain ⟨t,ht,-⟩ := updateSavedRequests_ends ord snapshot hs.saved
    exact ⟨_,ht⟩
  · obtain ⟨hname,haddress⟩ := hd.details
    rw [shown_iff_details hrow hd.fetched hloaded,hloaded.elderlyName,
      hloaded.elderlyAddressString,hname,haddress]
    exact and_self_iff

def northRequest (db : Database) : Option Request :=
  (play (RequestRun.step false "north") (fun _ m => m.2 = db) (.start "r1")
    ([[],[0,0],[1,0]].map fun path => (path,db))).bind fun run => run.calls.head?.join

theorem northRequest_delivered {db : Database} {req : Request} (h : northRequest db = some req) :
    Delivered false (fun _ => db) "north" "r1" req := by
  obtain ⟨run,hplay,hjoin⟩ := Option.bind_eq_some_iff.mp h
  exact ⟨run,(reaches_of_play hplay).mono fun _ _ hm => hm,
    List.mem_of_head? (Option.join_eq_some_iff.mp hjoin)⟩

def northStock (db : Database) : Option Context :=
  (northRequest db).bind fun req =>
    (updateSavedRequests .table [⟨"north",[req]⟩] ⟨.empty,[]⟩).toOption

theorem northStock_stocked {db : Database} {ctx : Context} (h : northStock db = some ctx) :
    Stocked ctx := by
  obtain ⟨req,hreq,hsync⟩ := Option.bind_eq_some_iff.mp h
  refine .sync .installed (fun z hz req' hreq' => ?_) (toOption_some.mp hsync)
  obtain rfl := List.mem_singleton.mp hz
  obtain rfl := List.mem_singleton.mp hreq'
  exact ⟨false,_,"r1",northRequest_delivered hreq⟩

theorem shown_iff_north : ∃ ctx zones row, northStock northServer = some ctx ∧
    loadAllZoneRequests .table ctx = .ok zones ∧ rowAt zones (0,0) = some row ∧
    HasDetails "s1" northServer ∧ Shown (fun _ => 20) zones (0,0) := by
  obtain ⟨ctx,zones,row,req,hctx,hload,hrow,hreq,hloaded,hsender,hzone⟩ :
      ∃ ctx zones row req, northStock northServer = some ctx ∧
      loadAllZoneRequests .table ctx = .ok zones ∧ rowAt zones (0,0) = some row ∧
      northRequest northServer = some req ∧ row.2.LoadedFrom req ∧ req.senderID = "s1" ∧
      row.1 = "north" :=
    ⟨_,_,_,_,rfl,rfl,rfl,rfl,⟨rfl,rfl,rfl,rfl,rfl,rfl,rfl,rfl,by decide⟩,rfl,rfl⟩
  obtain ⟨-,zones',hload',hrows⟩ := shown_iff (fun _ => 20) ctx (northStock_stocked hctx) .table
  obtain rfl := Except.ok.inj (hload'.symm.trans hload)
  have hdetails : HasDetails "s1" northServer := ⟨rfl,rfl⟩
  exact ⟨ctx,_,row,hctx,hload,hrow,hdetails,((hrows (0,0) row hrow).2 false (fun _ => northServer)
    "r1" req (hzone ▸ northRequest_delivered hreq) hloaded).mpr (hsender ▸ hdetails)⟩

def namelessServer : Database := remove ["elderly","s1","Name"] northServer

/-- The request is fetched, saved and loaded, and the screen cannot show it. -/
theorem not_shown : ¬ ∀ (calculatedHeight : String → Rat) (ctx : Context), Stocked ctx →
    ∀ ord zones, loadAllZoneRequests ord ctx = .ok zones → ∀ indexPath row,
      rowAt zones indexPath = some row → Shown calculatedHeight zones indexPath := by
  intro h
  obtain ⟨ctx,zones,row,hctx,hload,hrow,hcell⟩ : ∃ ctx zones row,
      northStock namelessServer = some ctx ∧ loadAllZoneRequests .table ctx = .ok zones ∧
      rowAt zones (0,0) = some row ∧ cellForRowAt zones (0,0) {} = .error .nilUnwrap :=
    ⟨_,_,_,rfl,rfl,rfl,rfl⟩
  obtain ⟨cell',hok,-⟩ :=
    (h (fun _ => 20) ctx (northStock_stocked hctx) .table zones hload (0,0) row hrow).cell {}
  rw [hcell] at hok
  cases hok

end Shown

end Answr
