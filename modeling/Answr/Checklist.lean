import Answr.RoundTrip
import Answr.ScreenRuns
set_option autoImplicit false

/-! The checks of the items. The item objects of a load are shared: the list has them, and
so has every cell that is bound to a row of it. The store has the checks too. Between two
scrollings this is the screen whose cells have values of their own. -/

namespace Answr
open Steps

section Objects

/-- Where a request was loaded: the number of the load and the place in its list. -/
structure ObjectRef where
  load : Nat
  indexPath : Nat × Nat
  deriving DecidableEq, Repr

structure SheetCell where
  zoneid : Option String := none
  object : Option ObjectRef := none
  completionBtnEnabled : Bool := false
  deriving DecidableEq, Repr

/-- The results of the loads, with their items as they now are. -/
abbrev Objects := List (List ZoneRequests)

def Objects.requestAt (objects : Objects) (ref : ObjectRef) : Option Request :=
  (objects[ref.load]?.bind (rowAt · ref.indexPath)).map (·.2)

def Objects.update (objects : Objects) (ref : ObjectRef) (request : Request) : Objects :=
  objects.modify ref.load fun zoneRequests =>
    zoneRequests.modify ref.indexPath.1 fun zonereq =>
      { zonereq with requests := zonereq.requests.set ref.indexPath.2 request }

def SheetCell.view (objects : Objects) (cell : SheetCell) : RequestDetailCell :=
  ⟨cell.zoneid,cell.object.bind objects.requestAt,cell.completionBtnEnabled⟩

end Objects

section Sheet

/-- What happened to the checks: rows were inserted, or a toggle wrote a value. -/
inductive Mark where
  | inserted (rows : List Nat)
  | written (reqID itemID : String) (value : Bool)
  deriving DecidableEq, Repr

/-- The value that the last toggle of the request and item wrote since the row was
inserted, false if there was none; the newest mark comes first. -/
def lastWritten : List Mark → Nat → String → String → Bool
  | [], _, _, _ => false
  | .inserted rows :: past, row, reqID, itemID =>
    if row ∈ rows then false else lastWritten past row reqID itemID
  | .written reqID' itemID' value :: past, row, reqID, itemID =>
    if reqID' = reqID ∧ itemID' = itemID then value else lastWritten past row reqID itemID

/-- The rows that a sync inserts. -/
def insertedRows (s s' : Store) : List Nat :=
  (s'.requests.map (·.objectID)).filter fun row => !(s.requests.map (·.objectID)).contains row

/-- The screen and what it shares. The cells are all that the table may ever create. -/
structure Tasksheet where
  ctx : Context
  objects : Objects
  cells : Nat → SheetCell
  displayed : List Nat
  reloads : Nat
  past : List Mark

def Tasksheet.launched (ctx : Context) (past : List Mark) : Tasksheet :=
  ⟨ctx,[],fun _ => {},[],1,past⟩

def Tasksheet.zoneRequests (sheet : Tasksheet) : List ZoneRequests :=
  sheet.objects.getLast?.getD []

def bindObject (objects : Objects) (cells : Nat → SheetCell) (b : Binding) :
    Except Fault (Nat → SheetCell) := do
  let zoneRequests := objects.getLast?.getD []
  let cell ← cellForRowAt zoneRequests b.indexPath ((cells b.cell).view objects)
  pure (Function.update cells b.cell
    ⟨cell.zoneid,some ⟨objects.length-1,b.indexPath⟩,cell.completionBtnEnabled⟩)

def Tasksheet.updateSavedRequests (ord : FetchOrder) (snapshot : List ZoneRequests)
    (sheet : Tasksheet) : Except Fault Tasksheet := do
  let ctx ← Answr.updateSavedRequests ord snapshot sheet.ctx
  pure { sheet with
    ctx := ctx, reloads := sheet.reloads+1
    past := .inserted (insertedRows sheet.ctx.store ctx.store) :: sheet.past }

def Tasksheet.reloadData (ord : FetchOrder) (rows : List Binding) (sheet : Tasksheet) :
    Except Fault Tasksheet := do
  let zoneRequests ← loadAllZoneRequests ord sheet.ctx
  let objects := sheet.objects ++ [zoneRequests]
  let cells ← rows.foldlM (bindObject objects) sheet.cells
  pure { sheet with
    objects := objects, cells := cells, displayed := rows.map (·.cell)
    reloads := sheet.reloads-1 }

def writes (itemID : String) (request : Request) : Option Mark := do
  let item ← request.items.find? fun item => item.id == itemID
  let checked ← item.checked
  let id ← request.id
  return .written id itemID (!checked)

def Tasksheet.toggledItemCheck (ord : FetchOrder) (cell : Nat) (itemID : String)
    (sheet : Tasksheet) : Except Fault Tasksheet := do
  let ref ← unwrap (sheet.cells cell).object
  let before ← unwrap (sheet.objects.requestAt ref)
  let (toggled,ctx) ←
    Answr.toggledItemCheck ord itemID ((sheet.cells cell).view sheet.objects) sheet.ctx
  let request ← unwrap toggled.request
  pure { sheet with
    ctx := ctx, objects := sheet.objects.update ref request
    cells := Function.update sheet.cells cell
      { sheet.cells cell with completionBtnEnabled := toggled.completionBtnEnabled }
    past := (writes itemID before).toList ++ sheet.past }

/-- What can happen: the app is launched again, a refresh has its snapshot, its delay is
over, a row scrolls into the table or out of it, an item of a displayed cell is tapped. -/
inductive SheetEvent where
  | launched
  | updateSavedRequests (ord : FetchOrder) (snapshot : List ZoneRequests)
  | reloadData (ord : FetchOrder) (rows : List Binding)
  | willDisplay (b : Binding)
  | didEndDisplaying (cell : Nat)
  | toggledItemCheck (ord : FetchOrder) (cell : Nat) (itemID : String)

/-- One step; none where it is not possible or stops the app. The table uses a cell for
one row, and asks for a row once. -/
def Tasksheet.step (sheet : Tasksheet) : SheetEvent → Option Tasksheet
  | .launched => some (.launched sheet.ctx sheet.past)
  | .updateSavedRequests ord snapshot => (sheet.updateSavedRequests ord snapshot).toOption
  | .reloadData ord rows =>
    if 0 < sheet.reloads ∧ (rows.map (·.cell)).Nodup ∧ (rows.map (·.indexPath)).Nodup then
      (sheet.reloadData ord rows).toOption
    else none
  | .willDisplay b =>
    if b.cell ∉ sheet.displayed ∧ ∀ cell ∈ sheet.displayed,
        (sheet.cells cell).object ≠ some ⟨sheet.objects.length-1,b.indexPath⟩ then
      match bindObject sheet.objects sheet.cells b with
      | .ok cells => some { sheet with cells := cells, displayed := b.cell :: sheet.displayed }
      | .error _ => none
    else none
  | .didEndDisplaying cell => some { sheet with displayed := sheet.displayed.filter (· ≠ cell) }
  | .toggledItemCheck ord cell itemID =>
    if cell ∈ sheet.displayed then (sheet.toggledItemCheck ord cell itemID).toOption else none

/-- The refreshes are those of a server on which request ids are unique, requests stay in
their zone and the item ids of a request are unique. -/
def SheetEvent.Served (home : Option String → String) (_ : Tasksheet) : SheetEvent → Prop
  | .updateSavedRequests _ snapshot => FetchedFrom home snapshot ∧
    ∀ z ∈ snapshot, ∀ req ∈ z.requests, (req.items.map (·.id)).Nodup
  | _ => True

end Sheet

section Store

variable {s s' : Store} {snapshot : List ZoneRequests} {past : List Mark} {ord : FetchOrder}

/-- The checks are those that were written last. -/
def Flagged (s : Store) (past : List Mark) : Prop :=
  ∀ r ∈ s.requests, ∀ i ∈ s.itemsOf r, ∀ reqID itemID, r.id = some reqID → i.id = some itemID →
    i.checked = lastWritten past r.objectID reqID itemID

def ItemsOnce (s : Store) : Prop := ∀ r ∈ s.requests, ((s.itemsOf r).map (·.id)).Nodup

theorem Reconciled.source (hin : SyncInput s snapshot) (hr : Reconciled s snapshot s')
    {r : CDRequest} (hrow : r ∈ s'.requests) :
    (∃ r₀ ∈ s.requests, r = r₀.old ∧ s'.itemsOf r = s.itemsOf r₀) ∨
    s.nextID ≤ r.objectID ∧ ∃ z ∈ snapshot, ∃ req ∈ z.requests, Holds req (r,s'.itemsOf r) := by
  obtain ⟨c,hc,zoneid,hcz,-,hmem⟩ := hr.saved.exists_zoneEntries hr.zones hrow
  obtain ⟨z,hz,hzid⟩ := hr.zoneids c hc
  obtain rfl : zoneid = z.zoneid := Option.some.inj (hcz.symm.trans hzid)
  obtain ⟨c',-,-,hm⟩ := hr.zone hin hz
  rcases hm.origin hmem with ⟨e,he,-,heq⟩ | ⟨req,hreq,hnew⟩
  · obtain ⟨c₀,-,-,he₀⟩ := (Store.mem_zoneEntries hin.zones).mp he
    obtain ⟨hrow₀,-,hitems⟩ := Store.mem_entries.mp he₀
    obtain ⟨hre,hie⟩ := Prod.mk.inj heq
    exact .inl ⟨e.1,hrow₀,hre,hie.trans hitems⟩
  · refine .inr ⟨?_,z,hz,req,List.mem_of_mem_filter hreq,isNew_holds hnew⟩
    obtain ⟨n,hlo,heq⟩ := hnew
    rw [(Prod.mk.inj heq).1]
    exact hlo

theorem Flagged.sync (h : Flagged s past) (hin : SyncInput s snapshot)
    (hr : Reconciled s snapshot s') : Flagged s' (.inserted (insertedRows s s') :: past) := by
  intro r hrow i hi reqID itemID hid hitemID
  rcases hr.source hin hrow with ⟨r₀,hrow₀,rfl,hitems⟩ | ⟨hlo,z,-,req,-,hholds⟩
  · have hold : r₀.old.objectID ∉ insertedRows s s' := by
      intro hmem
      have hnot := (List.mem_filter.mp hmem).2
      simp only [Bool.not_eq_true',List.contains_eq_mem,decide_eq_false_iff_not] at hnot
      exact hnot (List.mem_map.mpr ⟨r₀,hrow₀,rfl⟩)
    rw [lastWritten,if_neg hold]
    exact h r₀ hrow₀ i (hitems ▸ hi) reqID itemID hid hitemID
  · have hnew : r.objectID ∈ insertedRows s s' := by
      refine List.mem_filter.mpr ⟨List.mem_map_of_mem hrow,?_⟩
      simp only [Bool.not_eq_true',List.contains_eq_mem,decide_eq_false_iff_not]
      intro hmem
      obtain ⟨r₀,hrow₀,heq⟩ := List.mem_map.mp hmem
      have := hin.saved.requestsBelow r₀ hrow₀
      omega
    rw [lastWritten,if_pos hnew]
    obtain ⟨item,-,hitem⟩ := (exists_of_forall₂ hholds.items).1 i hi
    exact hitem.checked

theorem ItemsOnce.sync (h : ItemsOnce s) (hin : SyncInput s snapshot)
    (hr : Reconciled s snapshot s')
    (honce : ∀ z ∈ snapshot, ∀ req ∈ z.requests, (req.items.map (·.id)).Nodup) :
    ItemsOnce s' := by
  intro r hrow
  rcases hr.source hin hrow with ⟨r₀,hrow₀,rfl,hitems⟩ | ⟨-,z,hz,req,hreq,hholds⟩
  · rw [hitems]
    exact h r₀ hrow₀
  · have hids : (s'.itemsOf r).map (·.id) = req.items.map fun item => some item.id := by
      have hitems : List.Forall₂ HoldsItem req.items (s'.itemsOf r) := hholds.items
      rw [← List.forall₂_eq_eq_eq,List.forall₂_map_left_iff,List.forall₂_map_right_iff]
      exact hitems.flip.imp fun _ _ hitem => hitem.id
    rw [hids]
    have hn := (honce z hz req hreq).map (Option.some_injective _)
    rwa [List.map_map] at hn

theorem markChecked_spec (ord : FetchOrder) (reqID itemID : String) (checked : Bool)
    (ctx : Context) (hids : (ctx.store.requests.map (·.id)).Nodup) :
    ((∀ r ∈ ctx.store.requests, r.id = some reqID →
        ∀ i ∈ ctx.store.itemsOf r, i.id ≠ some itemID) ∧
      (markChecked ord reqID itemID checked ctx).store = ctx.store) ∨
    ∃ r ∈ ctx.store.requests, ∃ item ∈ ctx.store.itemsOf r, r.id = some reqID ∧
      item.id = some itemID ∧
      (markChecked ord reqID itemID checked ctx).store = ctx.store.setChecked item checked := by
  cases hh : (fetchRequests ord reqID ctx).head? with
  | none =>
    refine .inl ⟨fun r hr hid => ?_,by simp [markChecked,onFirst,hh]⟩
    have hmem := (mem_fetchRequests ord).mpr ⟨hr,hid⟩
    rw [List.head?_eq_none_iff.mp hh] at hmem
    cases hmem
  | some r =>
    obtain ⟨hr,hid⟩ := (mem_fetchRequests ord).mp (List.mem_of_head? hh)
    cases hi : (ord.items ctx (ctx.store.itemsOf r)).find? (fun i => i.id == some itemID) with
    | none =>
      refine .inl ⟨fun r' hr' hid' i hir hitemID => ?_,by simp [markChecked,onFirst,hh,hi]⟩
      obtain rfl : r' = r := List.inj_on_of_nodup_map hids hr' hr (hid'.trans hid.symm)
      rw [List.find?_eq_none] at hi
      exact hi i ((ord.items_perm ctx _).mem_iff.mpr hir) (by simp [hitemID])
    | some item =>
      refine .inr ⟨r,hr,item,?_,hid,?_,by simp [markChecked,onFirst,hh,hi]⟩
      · exact (ord.items_perm ctx _).mem_iff.mp (List.mem_of_find?_eq_some hi)
      · simpa using List.find?_some hi

theorem Store.itemsOf_setChecked (s : Store) (item : CDRequestItem) (checked : Bool)
    (r : CDRequest) : (s.setChecked item checked).itemsOf r = (s.itemsOf r).map fun i =>
      if i.objectID = item.objectID then { i with checked := checked } else i := by
  rw [itemsOf,setChecked_items,List.filter_map,itemsOf]
  congr 1
  apply List.filter_congr
  intro i _
  simp only [Function.comp]
  split <;> rfl

theorem ItemsOnce.setChecked (h : ItemsOnce s) (item : CDRequestItem) (checked : Bool) :
    ItemsOnce (s.setChecked item checked) := by
  intro r hr
  rw [Store.itemsOf_setChecked,List.map_map]
  have hids : ((fun i : CDRequestItem => i.id) ∘ fun i : CDRequestItem =>
      if i.objectID = item.objectID then { i with checked := checked } else i) =
      fun i => i.id := by
    funext i
    simp only [Function.comp]
    split <;> rfl
  rw [hids]
  exact h r hr

theorem ItemsOnce.markChecked (h : ItemsOnce s) {ctx : Context} (hs : ctx.store = s)
    (reqID itemID : String) (checked : Bool) :
    ItemsOnce (Answr.markChecked ord reqID itemID checked ctx).store := by
  subst hs
  exact markChecked_keeps h fun item => h.setChecked item checked

theorem Flagged.markChecked {ctx : Context} (h : Flagged ctx.store past)
    (hs : ctx.store.Saved) (hids : (ctx.store.requests.map (·.id)).Nodup)
    (honce : ItemsOnce ctx.store) (reqID itemID : String) (checked : Bool) :
    Flagged (Answr.markChecked ord reqID itemID checked ctx).store
      (.written reqID itemID checked :: past) := by
  rcases markChecked_spec ord reqID itemID checked ctx hids with
    ⟨hnone,heq⟩ | ⟨r,hr,item,hitem,hid,hitemID,heq⟩
  · rw [heq]
    intro r hr i hi reqID' itemID' hid hitemID
    rw [lastWritten,if_neg]
    · exact h r hr i hi reqID' itemID' hid hitemID
    · rintro ⟨rfl,rfl⟩
      exact hnone r hr hid i hi hitemID
  · rw [heq]
    intro r' hr' i' hi' reqID' itemID' hid' hitemID'
    have hr' : r' ∈ ctx.store.requests := hr'
    rw [Store.itemsOf_setChecked] at hi'
    obtain ⟨i,hi,rfl⟩ := List.mem_map.mp hi'
    have howner : i.objectID = item.objectID → i = item ∧ r' = r := by
      intro hoid
      obtain ⟨him,hio⟩ := List.mem_filter.mp hi
      obtain ⟨hitm,hito⟩ := List.mem_filter.mp hitem
      obtain rfl := List.inj_on_of_nodup_map hs.itemRows him hitm hoid
      rw [beq_iff_eq] at hio hito
      exact ⟨rfl,hs.row_eq hr' hr (Option.some.inj (hio.symm.trans hito))⟩
    by_cases hoid : i.objectID = item.objectID
    · obtain ⟨rfl,rfl⟩ := howner hoid
      simp only [if_true] at hitemID' ⊢
      rw [lastWritten,if_pos ⟨Option.some.inj (hid.symm.trans hid'),
        Option.some.inj (hitemID.symm.trans hitemID')⟩]
    · rw [if_neg hoid] at hitemID' ⊢
      rw [lastWritten,if_neg]
      · exact h r' hr' i hi reqID' itemID' hid' hitemID'
      · rintro ⟨rfl,rfl⟩
        obtain rfl : r' = r := List.inj_on_of_nodup_map hids hr' hr (hid'.trans hid.symm)
        have hsame : i = item := List.inj_on_of_nodup_map (honce r' hr') hi hitem
          (hitemID'.trans hitemID.symm)
        exact hoid (congrArg CDRequestItem.objectID hsame)

end Store

section Binds

variable {objects : Objects} {cell cell' : RequestDetailCell} {ref ref' : ObjectRef}
  {ord : FetchOrder} {itemID : String} {ctx ctx' : Context} {request : Request}

theorem allChecked_iff {items : List RequestItem} {b : Bool} (h : allChecked items = .ok b) :
    b = true ↔ ∀ item ∈ items, item.checked = some true := by
  induction items with
  | nil =>
    obtain rfl := Except.ok.inj h
    simp
  | cons item items ih =>
    rw [allChecked,bind_ok] at h
    obtain ⟨checked,hitem,hrest⟩ := h
    rw [unwrap_ok] at hitem
    cases checked with
    | false =>
      obtain rfl := Except.ok.inj hrest
      simp [hitem]
    | true => simp [hitem,ih hrest]

theorem updateCompletionBtn_iff (h : updateCompletionBtn cell = .ok cell') :
    ∃ request, cell.request = some request ∧ cell'.request = some request ∧
      cell'.zoneid = cell.zoneid ∧ (cell'.completionBtnEnabled = true ↔ request.AllChecked) := by
  rw [updateCompletionBtn,bind_ok] at h
  obtain ⟨request,hreq,h⟩ := h
  obtain ⟨enabled,hall,h⟩ := bind_ok.mp h
  rw [unwrap_ok] at hreq
  rw [← Except.ok.inj h]
  exact ⟨request,hreq,hreq,rfl,allChecked_iff hall⟩

theorem cellForRowAt_iff {zoneRequests : List ZoneRequests} {indexPath : Nat × Nat}
    (h : cellForRowAt zoneRequests indexPath cell = .ok cell') :
    ∃ row, rowAt zoneRequests indexPath = some row ∧ cell'.request = some row.2 ∧
      (cell'.completionBtnEnabled = true ↔ row.2.AllChecked) := by
  rw [cellForRowAt,bind_ok] at h
  obtain ⟨zonereq,hzone,h⟩ := h
  obtain ⟨request,hrequest,h⟩ := bind_ok.mp h
  obtain ⟨built,hbuilt,h⟩ := bind_ok.mp h
  rw [buildInstance,bind_ok] at hbuilt
  obtain ⟨-,-,hbuilt⟩ := hbuilt
  obtain ⟨-,-,hbuilt⟩ := bind_ok.mp hbuilt
  obtain ⟨-,-,hbuilt⟩ := bind_ok.mp hbuilt
  obtain ⟨-,-,hbuilt⟩ := bind_ok.mp hbuilt
  obtain ⟨request',hsame,hreq,-,hall⟩ := updateCompletionBtn_iff hbuilt
  rw [Option.some.injEq] at hsame
  subst hsame
  rw [element_ok] at hzone hrequest
  rw [← Except.ok.inj h]
  exact ⟨(zonereq.zoneid,request),by simp [rowAt,hzone,hrequest],hreq,hall⟩

theorem toggledItemCheck_effect (h : toggledItemCheck ord itemID cell ctx = .ok (cell',ctx'))
    (hreq : cell.request = some request) :
    ∃ request', cell'.request = some request' ∧ cell'.zoneid = cell.zoneid ∧
      (cell'.completionBtnEnabled = true ↔ request'.AllChecked) ∧
      ((writes itemID request = none ∧ ctx' = ctx) ∨
        ∃ id checked, writes itemID request = some (.written id itemID checked) ∧
          ctx' = markChecked ord id itemID checked ctx) := by
  rw [toggledItemCheck,hreq,bind_ok] at h
  obtain ⟨request₁,hsame,h⟩ := h
  obtain rfl := Option.some.inj (unwrap_ok.mp hsame)
  split at h
  · rename_i i hi
    obtain ⟨item,hitem,h⟩ := bind_ok.mp h
    obtain ⟨checked,hchecked,h⟩ := bind_ok.mp h
    obtain ⟨id,hid,h⟩ := bind_ok.mp h
    obtain ⟨updated,hup,h⟩ := bind_ok.mp h
    obtain ⟨rfl,rfl⟩ := Prod.mk.inj (Except.ok.inj h)
    obtain ⟨request',hr,hr',hzone,hall⟩ := updateCompletionBtn_iff hup
    rw [element_ok] at hitem
    rw [unwrap_ok] at hchecked hid
    refine ⟨request',hr',hzone,hall,.inr ⟨id,!checked,?_,rfl⟩⟩
    have hfind : request.items.find? (fun item => item.id == itemID) = some item := by
      obtain ⟨hlt,hp,hfirst⟩ := List.findIdx?_eq_some_iff_getElem.mp hi
      obtain ⟨_,rfl⟩ := List.getElem?_eq_some_iff.mp hitem
      refine List.find?_eq_some_iff_getElem.mpr ⟨hp,i,hlt,rfl,fun j hj => ?_⟩
      simpa using hfirst j hj
    simp [writes,hfind,hchecked,hid]
  · rename_i hnone
    obtain ⟨updated,hup,h⟩ := bind_ok.mp h
    obtain ⟨rfl,rfl⟩ := Prod.mk.inj (Except.ok.inj h)
    obtain ⟨request',hr,hr',hzone,hall⟩ := updateCompletionBtn_iff hup
    refine ⟨request',hr',hzone,hall,.inl ⟨?_,rfl⟩⟩
    have hfind : request.items.find? (fun item => item.id == itemID) = none := by
      rw [List.find?_eq_none]
      rw [List.findIdx?_eq_none_iff] at hnone
      exact fun item hitem => by simpa using hnone item hitem
    simp [writes,hfind]

theorem rowAt_set (zoneRequests : List ZoneRequests) (path path' : Nat × Nat)
    (request : Request) : (rowAt (zoneRequests.modify path.1 fun zonereq =>
        { zonereq with requests := zonereq.requests.set path.2 request }) path').map (·.2) =
      if path' = path then ((rowAt zoneRequests path').map fun _ => request)
      else (rowAt zoneRequests path').map (·.2) := by
  obtain ⟨i,j⟩ := path
  obtain ⟨i',j'⟩ := path'
  simp only [rowAt,List.getElem?_modify]
  cases hz : zoneRequests[i']? with
  | none => simp
  | some z =>
    by_cases hi : i = i'
    · subst hi
      by_cases hj : j' = j
      · subst hj
        cases hr : z.requests[j']? with
        | none => simpa [hr] using List.getElem?_eq_none_iff.mp hr
        | some req =>
          have hlt := (List.getElem?_eq_some_iff.mp hr).1
          simp [hlt]
      · have hne : (i,j') ≠ (i,j) := by simpa using hj
        simp [hne,List.getElem?_set_ne (Ne.symm hj)]
    · have hne : (i',j') ≠ (i,j) := fun heq => hi (Prod.mk.inj heq).1.symm
      simp [hne,hi]

theorem requestAt_update (h : (objects.requestAt ref').isSome) :
    (objects.update ref request).requestAt ref' =
      if ref' = ref then some request else objects.requestAt ref' := by
  obtain ⟨load,path⟩ := ref
  obtain ⟨load',path'⟩ := ref'
  simp only [Objects.requestAt,Objects.update,List.getElem?_modify] at h ⊢
  cases hz : objects[load']? with
  | none => simp [hz] at h
  | some zoneRequests =>
    simp only [hz,Option.bind_some] at h
    by_cases hl : load = load'
    · subst hl
      simp only [if_true,Option.map_eq_map,Option.map_some,Option.bind_some,rowAt_set]
      by_cases hp : path' = path
      · subst hp
        obtain ⟨row,hrow⟩ := Option.isSome_iff_exists.mp (Option.isSome_map.symm.trans h)
        simp [hrow]
      · simp [hp]
    · have hne : (⟨load',path'⟩ : ObjectRef) ≠ ⟨load,path⟩ := fun heq =>
        hl (ObjectRef.mk.inj heq).1.symm
      simp [hl,hne]

/-- The cell is bound to an object of the last load, and its button is enabled when all
items of the object are checked. -/
def Binds (objects : Objects) (cell : SheetCell) : Prop :=
  ∃ indexPath request, cell.object = some ⟨objects.length-1,indexPath⟩ ∧
    objects.requestAt ⟨objects.length-1,indexPath⟩ = some request ∧
    (cell.completionBtnEnabled = true ↔ request.AllChecked)

theorem requestAt_last (objects : Objects) (indexPath : Nat × Nat) :
    objects.requestAt ⟨objects.length-1,indexPath⟩ =
      (rowAt (objects.getLast?.getD []) indexPath).map (·.2) := by
  rw [Objects.requestAt,List.getLast?_eq_getElem?]
  cases objects[objects.length-1]? with
  | none => simp [rowAt]
  | some zoneRequests => rfl

theorem bindObject_ok {cells cells' : Nat → SheetCell} {b : Binding}
    (h : bindObject objects cells b = .ok cells') :
    (∀ c, c ≠ b.cell → cells' c = cells c) ∧
    (cells' b.cell).object = some ⟨objects.length-1,b.indexPath⟩ ∧
    Binds objects (cells' b.cell) := by
  rw [bindObject,bind_ok] at h
  obtain ⟨built,hbuilt,h⟩ := h
  obtain rfl := Except.ok.inj h
  obtain ⟨row,hrow,-,hall⟩ := cellForRowAt_iff hbuilt
  refine ⟨fun c hc => Function.update_of_ne hc _ _,by simp,b.indexPath,row.2,by simp,?_,?_⟩
  · rw [requestAt_last,hrow]
    rfl
  · simpa using hall

theorem bindObjects_ok {rows : List Binding} {cells cells' : Nat → SheetCell}
    (h : rows.foldlM (bindObject objects) cells = .ok cells')
    (hnodup : (rows.map (·.cell)).Nodup) :
    (∀ c, c ∉ rows.map (·.cell) → cells' c = cells c) ∧
    ∀ b ∈ rows, (cells' b.cell).object = some ⟨objects.length-1,b.indexPath⟩ ∧
      Binds objects (cells' b.cell) := by
  induction rows generalizing cells with
  | nil =>
    obtain rfl := Except.ok.inj h
    simp
  | cons b rows ih =>
    rw [List.foldlM_cons,bind_ok] at h
    obtain ⟨cells₁,hfirst,hrest⟩ := h
    obtain ⟨hsame,hbound⟩ := bindObject_ok hfirst
    rw [List.map_cons,List.nodup_cons] at hnodup
    obtain ⟨hkept,hall⟩ := ih hrest hnodup.2
    constructor
    · intro c hc
      rw [List.map_cons,List.mem_cons,not_or] at hc
      rw [hkept c hc.2,hsame c hc.1]
    · intro b' hb'
      rcases List.mem_cons.mp hb' with rfl | hb'
      · rw [hkept b'.cell hnodup.1]
        exact hbound
      · exact hall b' hb'

end Binds

section Runs

variable {home : Option String → String} {sheet sheet' : Tasksheet} {e : SheetEvent}

theorem Tasksheet.reloadData_ok {ord : FetchOrder} {rows : List Binding}
    (h : sheet.reloadData ord rows = .ok sheet') : ∃ zoneRequests cells,
      loadAllZoneRequests ord sheet.ctx = .ok zoneRequests ∧
      rows.foldlM (bindObject (sheet.objects ++ [zoneRequests])) sheet.cells = .ok cells ∧
      sheet' = { sheet with
        objects := sheet.objects ++ [zoneRequests], cells := cells
        displayed := rows.map (·.cell), reloads := sheet.reloads-1 } := by
  rw [Tasksheet.reloadData,bind_ok] at h
  obtain ⟨zoneRequests,hload,h⟩ := h
  obtain ⟨cells,hbind,h⟩ := bind_ok.mp h
  exact ⟨zoneRequests,cells,hload,hbind,(Except.ok.inj h).symm⟩

theorem Tasksheet.reloadData_list {ord : FetchOrder} {rows : List Binding}
    (h : sheet.reloadData ord rows = .ok sheet') (hs : sheet.ctx.store.Saved) :
    sheet'.ctx = sheet.ctx ∧
      sheet'.zoneRequests = (sortedZones ord sheet.ctx).map (readZone ord sheet.ctx) := by
  obtain ⟨zoneRequests,cells,hload,-,rfl⟩ := Tasksheet.reloadData_ok h
  rw [loadAllZoneRequests_ok ord hs] at hload
  obtain rfl := Except.ok.inj hload
  refine ⟨rfl,?_⟩
  rw [Tasksheet.zoneRequests,List.getLast?_append,List.getLast?_singleton,Option.some_or,
    Option.getD_some]

theorem Tasksheet.toggledItemCheck_ok {ord : FetchOrder} {cell : Nat} {itemID : String}
    (h : sheet.toggledItemCheck ord cell itemID = .ok sheet') :
    ∃ ref before toggled ctx request, (sheet.cells cell).object = some ref ∧
      sheet.objects.requestAt ref = some before ∧
      ((sheet.cells cell).view sheet.objects).request = some before ∧
      Answr.toggledItemCheck ord itemID ((sheet.cells cell).view sheet.objects) sheet.ctx =
        .ok (toggled,ctx) ∧
      toggled.request = some request ∧
      sheet' = { sheet with
        ctx := ctx, objects := sheet.objects.update ref request
        cells := Function.update sheet.cells cell
          { sheet.cells cell with completionBtnEnabled := toggled.completionBtnEnabled }
        past := (writes itemID before).toList ++ sheet.past } := by
  rw [Tasksheet.toggledItemCheck,bind_ok] at h
  obtain ⟨ref,href,h⟩ := h
  obtain ⟨before,hbefore,h⟩ := bind_ok.mp h
  obtain ⟨⟨toggled,ctx⟩,hrun,h⟩ := bind_ok.mp h
  obtain ⟨request,hrequest,h⟩ := bind_ok.mp h
  rw [unwrap_ok] at href hbefore hrequest
  have hview : ((sheet.cells cell).view sheet.objects).request = some before := by
    simp [SheetCell.view,href,hbefore]
  exact ⟨ref,before,toggled,ctx,request,href,hbefore,hview,hrun,hrequest,
    (Except.ok.inj h).symm⟩

/-- What holds of the store, the marks and the cells at any time. -/
structure SheetInv (home : Option String → String) (sheet : Tasksheet) : Prop where
  housed : Housed home sheet.ctx.store
  once : ItemsOnce sheet.ctx.store
  flagged : Flagged sheet.ctx.store sheet.past
  bound : ∀ c ∈ sheet.displayed, Binds sheet.objects (sheet.cells c)
  apart : ∀ c ∈ sheet.displayed, ∀ c' ∈ sheet.displayed,
    (sheet.cells c).object = (sheet.cells c').object → c = c'

theorem sheetInv_installed (home : Option String → String) :
    SheetInv home (.launched ⟨.empty,[]⟩ []) := by
  refine ⟨Reachable.installed.housed,?_,?_,?_,?_⟩
  · simp [ItemsOnce,Tasksheet.launched,Store.empty]
  · simp [Flagged,Tasksheet.launched,Store.empty]
  · simp [Tasksheet.launched]
  · simp [Tasksheet.launched]

theorem SheetInv.updateSavedRequests (h : SheetInv home sheet) {ord : FetchOrder}
    {snapshot : List ZoneRequests} (hf : FetchedFrom home snapshot)
    (honce : ∀ z ∈ snapshot, ∀ req ∈ z.requests, (req.items.map (·.id)).Nodup)
    (hstep : sheet.updateSavedRequests ord snapshot = .ok sheet') : SheetInv home sheet' := by
  rw [Tasksheet.updateSavedRequests,bind_ok] at hstep
  obtain ⟨ctx',hrun,hstep⟩ := hstep
  obtain rfl := Except.ok.inj hstep
  have hin := h.housed.mergeInput hf
  obtain ⟨ctx₁,hrun₁,hr⟩ := updateSavedRequests_of_separated ord hin.syncInput hin.separated
  obtain rfl : ctx₁ = ctx' := Except.ok.inj (hrun₁.symm.trans hrun)
  exact ⟨(hin.isMerge hr).housed hf,h.once.sync hin.syncInput hr honce,
    h.flagged.sync hin.syncInput hr,h.bound,h.apart⟩

theorem SheetInv.reloadData (h : SheetInv home sheet) {ord : FetchOrder} {rows : List Binding}
    (hcells : (rows.map (·.cell)).Nodup) (hpaths : (rows.map (·.indexPath)).Nodup)
    (hstep : sheet.reloadData ord rows = .ok sheet') : SheetInv home sheet' := by
  obtain ⟨zoneRequests,cells,-,hbind,rfl⟩ := Tasksheet.reloadData_ok hstep
  obtain ⟨-,hall⟩ := bindObjects_ok hbind hcells
  refine ⟨h.housed,h.once,h.flagged,fun c hc => ?_,fun c hc c' hc' heq => ?_⟩
  · obtain ⟨b,hb,rfl⟩ := List.mem_map.mp hc
    exact (hall b hb).2
  · obtain ⟨b,hb,rfl⟩ := List.mem_map.mp hc
    obtain ⟨b',hb',rfl⟩ := List.mem_map.mp hc'
    have heq : (cells b.cell).object = (cells b'.cell).object := heq
    rw [(hall b hb).1,(hall b' hb').1,Option.some.injEq,ObjectRef.mk.injEq] at heq
    rw [List.inj_on_of_nodup_map hpaths hb hb' heq.2]

theorem SheetInv.willDisplay (h : SheetInv home sheet) {b : Binding}
    (hnew : b.cell ∉ sheet.displayed) (hrow : ∀ cell ∈ sheet.displayed,
      (sheet.cells cell).object ≠ some ⟨sheet.objects.length-1,b.indexPath⟩)
    {cells : Nat → SheetCell} (hbind : bindObject sheet.objects sheet.cells b = .ok cells) :
    SheetInv home { sheet with cells := cells, displayed := b.cell :: sheet.displayed } := by
  obtain ⟨hsame,hobject,hbound⟩ := bindObject_ok hbind
  have hkept : ∀ c ∈ sheet.displayed, cells c = sheet.cells c := fun c hc =>
    hsame c fun heq => hnew (heq ▸ hc)
  refine ⟨h.housed,h.once,h.flagged,fun c hc => ?_,fun c hc c' hc' heq => ?_⟩
  · rcases List.mem_cons.mp hc with rfl | hc
    · exact hbound
    · dsimp only
      rw [hkept c hc]
      exact h.bound c hc
  · dsimp only at heq
    rcases List.mem_cons.mp hc with rfl | hc
    · rcases List.mem_cons.mp hc' with rfl | hc'
      · rfl
      · rw [hobject,hkept c' hc'] at heq
        exact absurd heq.symm (hrow c' hc')
    · rcases List.mem_cons.mp hc' with rfl | hc'
      · rw [hobject,hkept c hc] at heq
        exact absurd heq (hrow c hc)
      · rw [hkept c hc,hkept c' hc'] at heq
        exact h.apart c hc c' hc' heq

theorem SheetInv.toggled (h : SheetInv home sheet) {ord : FetchOrder} {itemID : String}
    {before : Request} {ctx : Context}
    (heffect : (writes itemID before = none ∧ ctx = sheet.ctx) ∨
      ∃ id checked, writes itemID before = some (.written id itemID checked) ∧
        ctx = markChecked ord id itemID checked sheet.ctx) :
    Housed home ctx.store ∧ ItemsOnce ctx.store ∧
      Flagged ctx.store ((writes itemID before).toList ++ sheet.past) := by
  rcases heffect with ⟨hnone,rfl⟩ | ⟨id,checked,hsome,rfl⟩
  · rw [hnone]
    exact ⟨h.housed,h.once,h.flagged⟩
  · rw [hsome]
    exact ⟨h.housed.markChecked,h.once.markChecked rfl id itemID checked,
      h.flagged.markChecked h.housed.saved h.housed.ids h.once id itemID checked⟩

theorem SheetInv.toggledItemCheck (h : SheetInv home sheet) {ord : FetchOrder} {cell : Nat}
    {itemID : String} (hc : cell ∈ sheet.displayed)
    (hstep : sheet.toggledItemCheck ord cell itemID = .ok sheet') : SheetInv home sheet' := by
  obtain ⟨ref,before,toggled,ctx,request,hobject,hat,hview,hrun,hreq,rfl⟩ :=
    Tasksheet.toggledItemCheck_ok hstep
  obtain ⟨request',hreq',-,hall,heffect⟩ := toggledItemCheck_effect hrun hview
  obtain rfl : request = request' := Option.some.inj (hreq.symm.trans hreq')
  obtain ⟨hhoused,honce,hflagged⟩ := h.toggled heffect
  have hlen : (sheet.objects.update ref request).length = sheet.objects.length :=
    List.length_modify ..
  have hobjects : ∀ c, ((Function.update sheet.cells cell { sheet.cells cell with
      completionBtnEnabled := toggled.completionBtnEnabled }) c).object =
      (sheet.cells c).object := by
    intro c
    by_cases hcell : c = cell
    · subst hcell
      simp
    · rw [Function.update_of_ne hcell]
  refine ⟨hhoused,honce,hflagged,fun c hcd => ?_,fun c hcd c' hcd' heq => ?_⟩
  · obtain ⟨path,other,hobj,hother,hbtn⟩ := h.bound c hcd
    have hread : (sheet.objects.update ref request).requestAt ⟨sheet.objects.length-1,path⟩ =
        if ⟨sheet.objects.length-1,path⟩ = ref then some request else
          sheet.objects.requestAt ⟨sheet.objects.length-1,path⟩ :=
      requestAt_update (by simp [hother])
    by_cases hcell : c = cell
    · subst hcell
      have href : (⟨sheet.objects.length-1,path⟩ : ObjectRef) = ref :=
        Option.some.inj (hobj.symm.trans hobject)
      rw [if_pos href] at hread
      exact ⟨path,request,by rw [hobjects,hlen]; exact hobj,by rw [hlen]; exact hread,
        by simpa using hall⟩
    · -- another cell shows another object
      have hne : (⟨sheet.objects.length-1,path⟩ : ObjectRef) ≠ ref := fun heq =>
        hcell (h.apart c hcd cell hc ((heq ▸ hobj).trans hobject.symm))
      rw [if_neg hne] at hread
      refine ⟨path,other,by rw [hobjects,hlen]; exact hobj,
        by rw [hlen]; exact hread.trans hother,?_⟩
      dsimp only
      rw [Function.update_of_ne hcell]
      exact hbtn
  · dsimp only at heq
    rw [hobjects,hobjects] at heq
    exact h.apart c hcd c' hcd' heq

/-- The step lemma. -/
theorem SheetInv.step (h : SheetInv home sheet) (hserved : e.Served home sheet)
    (hstep : sheet.step e = some sheet') : SheetInv home sheet' := by
  cases e with
  | launched =>
    obtain rfl := Option.some.inj hstep
    exact ⟨h.housed,h.once,h.flagged,by simp [Tasksheet.launched],by simp [Tasksheet.launched]⟩
  | updateSavedRequests ord snapshot =>
    exact h.updateSavedRequests hserved.1 hserved.2 (toOption_some.mp hstep)
  | reloadData ord rows =>
    simp only [Tasksheet.step] at hstep
    split at hstep
    · rename_i hrows
      exact h.reloadData hrows.2.1 hrows.2.2 (toOption_some.mp hstep)
    · cases hstep
  | willDisplay b =>
    simp only [Tasksheet.step] at hstep
    split at hstep
    · rename_i hrow
      split at hstep
      · rename_i cells hbind
        obtain rfl := Option.some.inj hstep
        exact h.willDisplay hrow.1 hrow.2 hbind
      · cases hstep
    · cases hstep
  | didEndDisplaying cell =>
    obtain rfl := Option.some.inj hstep
    refine ⟨h.housed,h.once,h.flagged,fun c hc => h.bound c (List.mem_of_mem_filter hc),
      fun c hc c' hc' => h.apart c (List.mem_of_mem_filter hc) c' (List.mem_of_mem_filter hc')⟩
  | toggledItemCheck ord cell itemID =>
    simp only [Tasksheet.step] at hstep
    split at hstep
    · rename_i hc
      exact h.toggledItemCheck hc (toOption_some.mp hstep)
    · cases hstep

theorem sheetInv_of_reaches (hr : Reaches Tasksheet.step (SheetEvent.Served home)
    (.launched ⟨.empty,[]⟩ []) sheet) : SheetInv home sheet :=
  hr.inv (fun _ _ _ h hserved hstep => h.step hserved hstep) (sheetInv_installed home)

def shownChecks (zoneRequests : List ZoneRequests) :
    List (String × Option String × String × Option Bool) :=
  zoneRequests.flatMap fun zonereq => zonereq.requests.flatMap fun req =>
    req.items.map fun item => (zonereq.zoneid,req.id,item.id,item.checked)

def storedChecks (s : Store) : List (String × Option String × String × Option Bool) :=
  s.zones.flatMap fun c => (s.requestsOf c).flatMap fun r =>
    (s.itemsOf r).map fun i => (c.zoneid.getD "",r.id,i.id.getD "",some i.checked)

theorem shownChecks_loaded (ord : FetchOrder) (ctx : Context) :
    (shownChecks ((sortedZones ord ctx).map (readZone ord ctx))).Perm
      (storedChecks ctx.store) := by
  rw [shownChecks,List.flatMap_map]
  refine (sortedZones_perm ord ctx).flatMap fun c _ => ?_
  rw [readZone,List.flatMap_map]
  refine (sortedRequests_perm ord ctx c).flatMap fun r _ => ?_
  rw [readRow,readRequest,List.map_map]
  exact (sortedItems_perm ord ctx r).map _

/-- In every state that is reached: the stored checks are the values that were written
last, a reload shows exactly the stored checks, and the button of a displayed cell is
enabled exactly when all items are checked of the row of the list that it displays. -/
theorem checks_last_written (home : Option String → String) (sheet : Tasksheet)
    (hr : Reaches Tasksheet.step (SheetEvent.Served home) (.launched ⟨.empty,[]⟩ []) sheet) :
    (∀ r ∈ sheet.ctx.store.requests, ∀ i ∈ sheet.ctx.store.itemsOf r, ∀ reqID itemID,
      r.id = some reqID → i.id = some itemID →
      i.checked = lastWritten sheet.past r.objectID reqID itemID) ∧
    (∀ ord rows sheet', sheet.step (.reloadData ord rows) = some sheet' →
      sheet'.ctx.store = sheet.ctx.store ∧
      (shownChecks sheet'.zoneRequests).Perm (storedChecks sheet.ctx.store)) ∧
    ∀ cell ∈ sheet.displayed, ∃ indexPath row, rowAt sheet.zoneRequests indexPath = some row ∧
      ((sheet.cells cell).view sheet.objects).request = some row.2 ∧
      ((sheet.cells cell).completionBtnEnabled = true ↔
        ∀ item ∈ row.2.items, item.checked = some true) := by
  have h := sheetInv_of_reaches hr
  refine ⟨h.flagged,fun ord rows sheet' hstep => ?_,fun cell hcell => ?_⟩
  · simp only [Tasksheet.step] at hstep
    split at hstep
    · obtain ⟨hctx,hlist⟩ := Tasksheet.reloadData_list (toOption_some.mp hstep) h.housed.saved
      refine ⟨congrArg Context.store hctx,?_⟩
      rw [hlist]
      exact shownChecks_loaded ord sheet.ctx
    · cases hstep
  · obtain ⟨indexPath,request,hobject,hat,hbtn⟩ := h.bound cell hcell
    have hview : ((sheet.cells cell).view sheet.objects).request = some request := by
      simp [SheetCell.view,hobject,hat]
    rw [requestAt_last,Option.map_eq_some_iff] at hat
    obtain ⟨row,hrow,rfl⟩ := hat
    exact ⟨indexPath,row,hrow,hview,hbtn⟩

/-- The request r1 is fetched and displayed, its item is checked, and the list reloads. -/
theorem checks_last_written_rice : ∃ sheet sheet',
    Reaches Tasksheet.step (SheetEvent.Served fun _ => "north") (.launched ⟨.empty,[]⟩ []) sheet ∧
    (∀ r ∈ sheet.ctx.store.requests, ∀ i ∈ sheet.ctx.store.itemsOf r, r.id = some "r1" →
      i.id = some "rice" → i.checked = true) ∧
    sheet.step (.reloadData .table [⟨1,(0,0)⟩]) = some sheet' ∧
    (shownChecks sheet'.zoneRequests).Perm [("north",some "r1","rice",some true)] := by
  have hserved : ∀ sheet, SheetEvent.Served (fun _ => "north") sheet
      (.updateSavedRequests .table (riceSnapshot "r1")) := by
    intro sheet
    refine ⟨⟨by decide,by decide,?_,by decide⟩,by decide⟩
    intro z hz req hreq
    rw [List.mem_singleton.mp hz] at hreq
    rw [List.mem_singleton.mp hreq]
    exact ⟨rfl,rfl,rfl,rfl⟩
  obtain ⟨synced,shown,toggled,again,hsync,hreload,htoggle,hagain,hpast,hstored⟩ :
      ∃ synced shown toggled again,
      (Tasksheet.launched ⟨.empty,[]⟩ []).step
        (.updateSavedRequests .table (riceSnapshot "r1")) = some synced ∧
      synced.step (.reloadData .table [⟨0,(0,0)⟩]) = some shown ∧
      shown.step (.toggledItemCheck .table 0 "rice") = some toggled ∧
      toggled.step (.reloadData .table [⟨1,(0,0)⟩]) = some again ∧
      toggled.past = [.written "r1" "rice" true,.inserted [1]] ∧
      storedChecks toggled.ctx.store = [("north",some "r1","rice",some true)] :=
    ⟨_,_,_,_,rfl,rfl,rfl,rfl,rfl,rfl⟩
  have hr₁ : Reaches Tasksheet.step (SheetEvent.Served fun _ => "north")
      (.launched ⟨.empty,[]⟩ []) synced := .next .start (hserved _) hsync
  have hr₂ := hr₁.next (by trivial) hreload
  have hr₃ := hr₂.next (by trivial) htoggle
  obtain ⟨hflagged,hshown,-⟩ := checks_last_written (fun _ => "north") toggled hr₃
  refine ⟨toggled,again,hr₃,fun r hr i hi hid hitem => ?_,hagain,?_⟩
  · rw [hflagged r hr i hi "r1" "rice" hid hitem,hpast]
    rfl
  · rw [← hstored]
    exact (hshown .table _ again hagain).2

end Runs

section Mirrors

variable {home : Option String → String} {sheet sheet' : Tasksheet} {screen : Screen}
  {objects : Objects} {cells cells' : Nat → SheetCell} {e : SheetEvent} {g : Gesture}

theorem cellForRowAt_dequeued (zoneRequests : List ZoneRequests) (indexPath : Nat × Nat)
    (cell cell' : RequestDetailCell) :
    cellForRowAt zoneRequests indexPath cell = cellForRowAt zoneRequests indexPath cell' := by
  unfold cellForRowAt buildInstance updateCompletionBtn
  simp only [bind_assoc,pure_bind]

theorem bindObject_view {b : Binding} (h : bindObject objects cells b = .ok cells')
    (cell : RequestDetailCell) :
    cellForRowAt (objects.getLast?.getD []) b.indexPath cell =
      .ok ((cells' b.cell).view objects) := by
  rw [bindObject,bind_ok] at h
  obtain ⟨built,hbuilt,h⟩ := h
  obtain rfl := Except.ok.inj h
  obtain ⟨row,hrow,hreq,-⟩ := cellForRowAt_iff hbuilt
  rw [cellForRowAt_dequeued _ _ cell,hbuilt,Function.update_self,SheetCell.view,Option.bind_some,
    requestAt_last,hrow,Option.map_some,← hreq]

theorem bindRows_mirror {rows : List Binding}
    (h : rows.foldlM (bindObject objects) cells = .ok cells')
    (hnodup : (rows.map (·.cell)).Nodup) (shown : Nat → RequestDetailCell) :
    ∃ shown', rows.foldlM (bindRow (objects.getLast?.getD [])) shown = .ok shown' ∧
      (∀ c, c ∉ rows.map (·.cell) → shown' c = shown c) ∧
      ∀ b ∈ rows, shown' b.cell = (cells' b.cell).view objects := by
  induction rows generalizing cells shown with
  | nil => exact ⟨shown,rfl,fun _ _ => rfl,by simp⟩
  | cons b rows ih =>
    rw [List.foldlM_cons,bind_ok] at h
    obtain ⟨cells₁,hfirst,hrest⟩ := h
    rw [List.map_cons,List.nodup_cons] at hnodup
    obtain ⟨shown',hrun,hkept,hall⟩ := ih hrest hnodup.2
      (Function.update shown b.cell ((cells₁ b.cell).view objects))
    have hbind : bindRow (objects.getLast?.getD []) shown b =
        .ok (Function.update shown b.cell ((cells₁ b.cell).view objects)) := by
      rw [bindRow,bindObject_view hfirst]
      rfl
    refine ⟨shown',by rw [List.foldlM_cons,hbind]; exact hrun,fun c hc => ?_,fun b' hb' => ?_⟩
    · rw [List.map_cons,List.mem_cons,not_or] at hc
      rw [hkept c hc.2,Function.update_of_ne hc.1]
    · rcases List.mem_cons.mp hb' with rfl | hb'
      · rw [hkept b'.cell hnodup.1,Function.update_self,
          (bindObjects_ok hrest hnodup.2).1 b'.cell hnodup.1]
      · exact hall b' hb'

/-- The events of both models. Between two scrollings there are no others. -/
def SheetEvent.gesture? : SheetEvent → Option Gesture
  | .updateSavedRequests ord snapshot => some (.updateSavedRequests ord snapshot)
  | .reloadData ord rows => some (.reloadData ord rows)
  | .toggledItemCheck ord cell itemID => some (.toggledItemCheck ord cell itemID)
  | .launched | .willDisplay _ | .didEndDisplaying _ => none

/-- The displayed cells have the values of their objects. -/
structure Mirrors (sheet : Tasksheet) (screen : Screen) : Prop where
  ctx : screen.ctx = sheet.ctx
  alert : screen.alert = none
  reloads : screen.reloads = sheet.reloads
  cells : ∀ c ∈ sheet.displayed, screen.cells c = (sheet.cells c).view sheet.objects

theorem Mirrors.reloadData (h : Mirrors sheet screen) {ord : FetchOrder} {rows : List Binding}
    (hcells : (rows.map (·.cell)).Nodup) (hstep : sheet.reloadData ord rows = .ok sheet') :
    ∃ screen', screen.reloadData ord rows = .ok screen' ∧ Mirrors sheet' screen' := by
  obtain ⟨zoneRequests,cells,hload,hbind,rfl⟩ := Tasksheet.reloadData_ok hstep
  obtain ⟨shown,hrun,-,hall⟩ := bindRows_mirror hbind hcells screen.cells
  rw [List.getLast?_append,List.getLast?_singleton,Option.some_or,Option.getD_some] at hrun
  refine ⟨{ screen with
    zoneRequests := zoneRequests, cells := shown, reloads := screen.reloads-1 },?_,
    h.ctx,h.alert,congrArg (· - 1) h.reloads,fun c hc => ?_⟩
  · rw [Screen.reloadData,h.ctx,hload]
    change (do let cells ← rows.foldlM (bindRow zoneRequests) screen.cells; _) = _
    rw [hrun]
    rfl
  · obtain ⟨b,hb,rfl⟩ := List.mem_map.mp hc
    exact hall b hb

theorem Mirrors.toggledItemCheck (h : Mirrors sheet screen) (hinv : SheetInv home sheet)
    {ord : FetchOrder} {cell : Nat} {itemID : String} (hc : cell ∈ sheet.displayed)
    (hstep : sheet.toggledItemCheck ord cell itemID = .ok sheet') :
    ∃ toggled ctx, Answr.toggledItemCheck ord itemID (screen.cells cell) screen.ctx =
        .ok (toggled,ctx) ∧
      Mirrors sheet' { screen with
        ctx := ctx, cells := Function.update screen.cells cell toggled } := by
  obtain ⟨ref,before,toggled,ctx,request,hobject,hat,hview,hrun,hreq,rfl⟩ :=
    Tasksheet.toggledItemCheck_ok hstep
  obtain ⟨_,-,hzone,-⟩ := toggledItemCheck_effect hrun hview
  refine ⟨toggled,ctx,by rw [h.cells cell hc,h.ctx]; exact hrun,rfl,h.alert,h.reloads,
    fun c hcd => ?_⟩
  obtain ⟨path,other,hobj,hother,-⟩ := hinv.bound c hcd
  have hread : (sheet.objects.update ref request).requestAt ⟨sheet.objects.length-1,path⟩ =
      if ⟨sheet.objects.length-1,path⟩ = ref then some request
      else sheet.objects.requestAt ⟨sheet.objects.length-1,path⟩ :=
    requestAt_update (Option.isSome_of_eq_some hother)
  by_cases hcell : c = cell
  · subst hcell
    have href : (⟨sheet.objects.length-1,path⟩ : ObjectRef) = ref :=
      Option.some.inj (hobj.symm.trans hobject)
    rw [if_pos href] at hread
    have hzone' : toggled.zoneid = (sheet.cells c).zoneid := hzone
    subst href
    simp only [Function.update_self,SheetCell.view,hobj,Option.bind_some]
    rw [hread,← hreq,← hzone']
  · -- another cell shows another object
    have hne : (⟨sheet.objects.length-1,path⟩ : ObjectRef) ≠ ref := fun heq =>
      hcell (hinv.apart c hcd cell hc ((heq ▸ hobj).trans hobject.symm))
    rw [if_neg hne] at hread
    dsimp only
    rw [Function.update_of_ne hcell,Function.update_of_ne hcell,h.cells c hcd]
    simp only [SheetCell.view,hobj,Option.bind_some,hread]

/-- Between two scrollings the cells with values do what the cells with objects do. -/
theorem Mirrors.step (h : Mirrors sheet screen) (hinv : SheetInv home sheet)
    (he : e.gesture? = some g) (hstep : sheet.step e = some sheet') :
    ∃ screen', screen.step g = some screen' ∧ Mirrors sheet' screen' := by
  cases e with
  | updateSavedRequests ord snapshot =>
    obtain rfl := Option.some.inj he
    have hrun := toOption_some.mp hstep
    rw [Tasksheet.updateSavedRequests,bind_ok] at hrun
    obtain ⟨ctx,hsync,hrun⟩ := hrun
    obtain rfl := Except.ok.inj hrun
    refine ⟨{ screen with ctx := ctx, reloads := screen.reloads+1 },?_,rfl,h.alert,
      congrArg (· + 1) h.reloads,h.cells⟩
    simp only [Screen.step,h.ctx,hsync]
  | reloadData ord rows =>
    obtain rfl := Option.some.inj he
    simp only [Tasksheet.step] at hstep
    split at hstep
    · rename_i hrows
      obtain ⟨screen',hrun,hmirrors⟩ := h.reloadData hrows.2.1 (toOption_some.mp hstep)
      refine ⟨screen',?_,hmirrors⟩
      rw [Screen.step,h.reloads,if_pos hrows,hrun]
      rfl
    · cases hstep
  | toggledItemCheck ord cell itemID =>
    obtain rfl := Option.some.inj he
    simp only [Tasksheet.step] at hstep
    split at hstep
    · rename_i hc
      obtain ⟨toggled,ctx,hrun,hmirrors⟩ := h.toggledItemCheck hinv hc (toOption_some.mp hstep)
      exact ⟨_,by simp only [Screen.step,h.alert,if_true,hrun],hmirrors⟩
    · cases hstep
  | launched => cases he
  | willDisplay b => cases he
  | didEndDisplaying cell => cases he

/-- From a launch on, until a row is scrolled. -/
theorem mirrored {ctx : Context} {past : List Mark}
    (hinv : SheetInv home (.launched ctx past))
    (hr : Reaches Tasksheet.step (fun sheet e => e.Served home sheet ∧ e.gesture?.isSome)
      (.launched ctx past) sheet) :
    ∃ screen, Reaches Screen.step (fun _ _ => True) (.loaded ctx) screen ∧
      Mirrors sheet screen := by
  let Both (sheet : Tasksheet) : Prop := SheetInv home sheet ∧ ∃ screen,
    Reaches Screen.step (fun _ _ => True) (.loaded ctx) screen ∧ Mirrors sheet screen
  have hstart : Both (.launched ctx past) :=
    ⟨hinv,.loaded ctx,.start,rfl,rfl,rfl,by simp [Tasksheet.launched]⟩
  refine (hr.inv (fun sheet e sheet' hboth hmeets hstep => ?_) hstart : Both sheet).2
  obtain ⟨hinv,screen,hreach,h⟩ := hboth
  obtain ⟨g,hg⟩ := Option.isSome_iff_exists.mp hmeets.2
  obtain ⟨screen',hs,hmirrors⟩ := h.step hinv hg hstep
  exact ⟨hinv.step hmeets.1 hstep,screen',hreach.next trivial hs,hmirrors⟩

end Mirrors

end Answr
