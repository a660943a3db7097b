import Mathlib.Data.Multiset.Bind
import Mathlib.Data.Multiset.Filter
import Answr.Checklist
import Answr.Resumed
set_option autoImplicit false

/-! What of the requests a store holds and a list shows, without the marks, the order of
the rows and their places in the tables. A sync is a function of it. -/

namespace Answr

section Data

def CDRequestItem.unmarked (i : CDRequestItem) : CDRequestItem :=
  { i.content with checked := false }

/-- A request as it is stored under a zone. -/
structure HeldRequest where
  zoneid : Option String
  row : CDRequest
  items : Multiset CDRequestItem
  deriving DecidableEq

/-- A request as it is shown under a zone. -/
structure ShownRequest where
  zoneid : String
  request : Request
  items : Multiset RequestItem
  deriving DecidableEq

def heldEntry (zoneid : Option String) (e : Entry) : HeldRequest :=
  ⟨zoneid,e.1.content,↑(e.2.map CDRequestItem.unmarked)⟩

def Store.held (s : Store) : Multiset HeldRequest :=
  ↑(s.zones.flatMap fun c => (s.entries c).map (heldEntry c.zoneid))

def shownRequest (zoneid : String) (req : Request) : ShownRequest :=
  ⟨zoneid,{ req with items := [], isNew := none },
    ↑(req.items.map fun item => { item with checked := none })⟩

def shown (zoneRequests : List ZoneRequests) : Multiset ShownRequest :=
  ↑(zoneRequests.flatMap fun z => z.requests.map (shownRequest z.zoneid))

def HeldRequest.load (h : HeldRequest) : ShownRequest :=
  ⟨h.zoneid.getD "",{ readRequest h.row [] with isNew := none },
    h.items.map fun i => { readItem i with checked := none }⟩

end Data

section Load

variable {ord : FetchOrder} {ctx : Context}

theorem shownRequest_perm {zoneid : String} {r : CDRequest} {is js : List CDRequestItem}
    (h : is.Perm js) :
    shownRequest zoneid (readRequest r is) = shownRequest zoneid (readRequest r js) := by
  simp only [shownRequest,readRequest,ShownRequest.mk.injEq,true_and,Multiset.coe_eq_coe]
  exact (h.map readItem).map _

theorem shownRequest_entry (c : CDZoneRequests) (e : Entry) :
    shownRequest (c.zoneid.getD "") (readRequest e.1 e.2) = (heldEntry c.zoneid e).load := by
  simp only [shownRequest,readRequest,heldEntry,HeldRequest.load,CDRequest.content,
    ShownRequest.mk.injEq,true_and,Multiset.map_coe,List.map_map]
  exact ⟨rfl,rfl⟩

theorem shown_loaded (ord : FetchOrder) (ctx : Context) :
    shown ((sortedZones ord ctx).map (readZone ord ctx)) = ctx.store.held.map HeldRequest.load := by
  rw [shown,Store.held,Multiset.map_coe,Multiset.coe_eq_coe,List.flatMap_map,List.map_flatMap]
  refine (sortedZones_perm ord ctx).flatMap fun c _ => ?_
  rw [readZone,List.map_map,Store.entries,List.map_map,List.map_map]
  refine ((sortedRequests_perm ord ctx c).map _).trans (List.Perm.of_eq ?_)
  refine List.map_congr_left fun r _ => ?_
  simp only [Function.comp,readRow]
  rw [shownRequest_perm (sortedItems_perm ord ctx r),
    ← shownRequest_entry c (r,ctx.store.itemsOf r)]

end Load

section Marks

theorem unmarked_setChecked (item i : CDRequestItem) (checked : Bool) :
    (if i.objectID = item.objectID then { i with checked := checked } else i).unmarked =
      i.unmarked := by
  split <;> rfl

theorem Store.held_setChecked (s : Store) (item : CDRequestItem) (checked : Bool) :
    (s.setChecked item checked).held = s.held := by
  rw [held,held]
  congr 1
  refine List.flatMap_congr fun c _ => ?_
  simp only [entries,List.map_map]
  refine List.map_congr_left fun r _ => ?_
  simp only [Function.comp,heldEntry,Store.itemsOf_setChecked,List.map_map]
  simp only [HeldRequest.mk.injEq,true_and,Multiset.coe_eq_coe]
  refine List.Perm.of_eq (List.map_congr_left fun i _ => ?_)
  exact unmarked_setChecked item i checked

theorem held_markChecked (ord : FetchOrder) (reqID itemID : String) (checked : Bool)
    (ctx : Context) : (markChecked ord reqID itemID checked ctx).store.held = ctx.store.held := by
  refine markChecked_keeps (P := fun s => s.held = ctx.store.held) rfl fun item => ?_
  rw [Store.held_setChecked]

end Marks

section Sync

def HeldRequest.equals (h : HeldRequest) (req : Request) : Prop :=
  h.row.id = req.id ∧ h.row.status = req.status ∧ h.row.elderlyName = req.elderlyName ∧
    h.row.elderlyAddressString = req.elderlyAddressString ∧
    ∀ i ∈ h.items, ∃ other ∈ req.items, i.id.getD "" = other.id

instance (h : HeldRequest) (req : Request) : Decidable (h.equals req) :=
  inferInstanceAs (Decidable (_ ∧ _ ∧ _ ∧ _ ∧ _))

def newHeld (zoneid : String) (req : Request) : HeldRequest :=
  ⟨some zoneid,(newRow 0 0 req).content,
    ↑(req.items.map fun item => (newItemRow 0 0 item).unmarked)⟩

def inZone (zoneid : String) (held : Multiset HeldRequest) : Multiset HeldRequest :=
  held.filter fun h => h.zoneid = some zoneid

/-- What a sync makes of what is held: under each zone of the snapshot the requests that
equal one of its own, and those of its own that none equals. -/
def syncHeld (snapshot : List ZoneRequests) (held : Multiset HeldRequest) :
    Multiset HeldRequest :=
  (snapshot : Multiset ZoneRequests).bind fun z =>
    (inZone z.zoneid held).filter (fun h => ∃ req ∈ z.requests, h.equals req) +
      ↑((z.requests.filter fun req => ∀ h ∈ inZone z.zoneid held, ¬ h.equals req).map
        (newHeld z.zoneid))

variable {s s' : Store} {snapshot : List ZoneRequests} {zoneid : String} {e : Entry}
  {req : Request} {reqs : List Request} {stored entries : List Entry}

theorem heldEntry_equals (zoneid : Option String) (e : Entry) (req : Request) :
    (heldEntry zoneid e).equals req ↔ (readRequest e.1 e.2).equals req = true := by
  rw [Request.equals_iff]
  simp only [HeldRequest.equals,heldEntry,CDRequest.content,readRequest,Multiset.mem_coe,
    List.forall_mem_map]
  exact Iff.rfl

theorem Holds.held (h : Holds req e) : heldEntry (some zoneid) e = newHeld zoneid req := by
  obtain ⟨hrow,hitems⟩ := Prod.mk.inj h.content_eq
  simp only [heldEntry,newHeld,HeldRequest.mk.injEq,true_and,Multiset.coe_eq_coe]
  refine ⟨hrow,List.Perm.of_eq ?_⟩
  have hunmarked : ∀ is : List CDRequestItem, is.map CDRequestItem.unmarked =
      (is.map CDRequestItem.content).map fun i => { i with checked := false } := by
    intro is
    rw [List.map_map]
    rfl
  rw [hunmarked,hitems,List.map_map]
  rfl

theorem news_held {lo : Nat} {c : CDZoneRequests} {news : List Entry}
    (h : List.Forall₂ (IsNew lo c) reqs news) :
    news.map (heldEntry (some zoneid)) = reqs.map (newHeld zoneid) := by
  induction h with
  | nil => rfl
  | cons hnew _ ih => rw [List.map_cons,List.map_cons,(isNew_holds hnew).held,ih]

theorem reconciled_held (reqs : List Request) (stored : List Entry) :
    (stored.filterMap (reconciled reqs)).map (heldEntry (some zoneid)) =
      (stored.map (heldEntry (some zoneid))).filter
        fun h => ∃ req ∈ reqs, h.equals req := by
  induction stored with
  | nil => rfl
  | cons e stored ih =>
    have hmatch : (∃ req ∈ reqs, (heldEntry (some zoneid) e).equals req) ↔
        hasCounterpart reqs e = true := by
      simp only [hasCounterpart_iff,heldEntry_equals]
    rw [List.map_cons,List.filter_cons,List.filterMap_cons,reconciled]
    by_cases hc : hasCounterpart reqs e = true
    · simp only [hc,if_true,hmatch.mpr hc,decide_true,List.map_cons,ih]
      rfl
    · simp only [hc,if_false,mt hmatch.mp hc,decide_false,Bool.false_eq_true,ih]

theorem Merged.held {lo : Nat} {c : CDZoneRequests} (h : Merged lo c stored reqs entries) :
    entries.map (heldEntry (some zoneid)) =
      (stored.map (heldEntry (some zoneid))).filter (fun h => ∃ req ∈ reqs, h.equals req) ++
      (reqs.filter fun req => ∀ h ∈ stored.map (heldEntry (some zoneid)),
        ¬ h.equals req).map (newHeld zoneid) := by
  obtain ⟨news,hnews,rfl⟩ := h
  rw [List.map_append,reconciled_held,news_held hnews,unmatched]
  congr 2
  refine List.filter_congr fun req _ => ?_
  rw [Bool.eq_iff_iff,decide_eq_true_eq,List.forall_mem_map]
  simp only [heldEntry_equals,Bool.not_eq_true',List.any_eq_false]

theorem filter_heldEntry (zoneid : String) (z : Option String) (entries : List Entry) :
    (entries.map (heldEntry z)).filter (fun h => h.zoneid = some zoneid) =
      if z = some zoneid then entries.map (heldEntry z) else [] := by
  have hzone : ((fun h : HeldRequest => decide (h.zoneid = some zoneid)) ∘ heldEntry z) =
      fun _ => decide (z = some zoneid) := rfl
  rw [List.filter_map,hzone]
  split
  · rename_i hz
    simp [hz]
  · rename_i hz
    simp [hz]

theorem Store.inZone_held (hn : (s.zones.map (·.zoneid)).Nodup)
    (zoneid : String) :
    inZone zoneid s.held = ↑((s.zoneEntries zoneid).map (heldEntry (some zoneid))) := by
  have hone : ∀ cs : List CDZoneRequests, (cs.map (·.zoneid)).Nodup →
      (cs.flatMap fun c => (s.entries c).map (heldEntry c.zoneid)).filter
          (fun h => h.zoneid = some zoneid) =
        ((cs.find? fun c => c.zoneid == some zoneid).map fun c =>
          (s.entries c).map (heldEntry (some zoneid))).getD [] := by
    intro cs hcs
    induction cs with
    | nil => rfl
    | cons c cs ih =>
      rw [List.map_cons,List.nodup_cons] at hcs
      rw [List.flatMap_cons,List.filter_append,List.find?_cons,ih hcs.2]
      by_cases hc : c.zoneid = some zoneid
      · have hnone : cs.find? (fun c => c.zoneid == some zoneid) = none := by
          rw [List.find?_eq_none]
          intro c' hc' heq
          exact hcs.1 (List.mem_map.mpr ⟨c',hc',(beq_iff_eq.mp heq).trans hc.symm⟩)
        rw [filter_heldEntry,if_pos hc,hnone]
        simp [hc]
      · have hfalse : (c.zoneid == some zoneid) = false := by simpa using hc
        rw [filter_heldEntry,if_neg hc,hfalse]
        rfl
  rw [inZone,held,Multiset.filter_coe,hone _ hn,zoneEntries]
  cases s.zones.find? fun c => c.zoneid == some zoneid with
  | none => rfl
  | some c => rfl

theorem Store.held_zones (hs : s.Saved) (hn : (s.zones.map (·.zoneid)).Nodup)
    (hzones : (s.zones.map (·.zoneid)).Perm (snapshot.map fun z => some z.zoneid)) :
    s.held = ↑(snapshot.flatMap fun z =>
      (s.zoneEntries z.zoneid).map (heldEntry (some z.zoneid))) := by
  have hentries : ∀ c ∈ s.zones, (s.entries c).map (heldEntry c.zoneid) =
      (s.zoneEntries (c.zoneid.getD "")).map (heldEntry c.zoneid) := by
    intro c hc
    obtain ⟨zoneid,hcz⟩ := Option.isSome_iff_exists.mp (hs.zoneFields c hc)
    rw [hcz,Option.getD_some,Store.zoneEntries_eq hn hc hcz]
  have hby : ∀ g : Option String → List HeldRequest,
      ((s.zones.map (·.zoneid)).flatMap g).Perm
        ((snapshot.map fun z => some z.zoneid).flatMap g) :=
    fun g => hzones.flatMap_right g
  rw [held,Multiset.coe_eq_coe,List.flatMap_congr hentries]
  have h := hby fun zoneid => (s.zoneEntries (zoneid.getD "")).map (heldEntry zoneid)
  rwa [List.flatMap_map,List.flatMap_map] at h

/-- A sync makes of what is held what `syncHeld` says. -/
theorem Reconciled.held (hr : Reconciled s snapshot s') (hin : SyncInput s snapshot) :
    s'.held = syncHeld snapshot s.held := by
  have hzones : (s'.zones.map (·.zoneid)).Perm (snapshot.map fun z => some z.zoneid) := by
    have hn : (snapshot.map fun z => some z.zoneid).Nodup := by
      have h := hin.snapshotZones.map (Option.some_injective _)
      rwa [List.map_map] at h
    refine (List.perm_ext_iff_of_nodup hr.zones hn).mpr fun o => ?_
    constructor
    · intro ho
      obtain ⟨c,hc,rfl⟩ := List.mem_map.mp ho
      obtain ⟨z,hz,hcz⟩ := hr.zoneids c hc
      exact List.mem_map.mpr ⟨z,hz,hcz.symm⟩
    · intro ho
      obtain ⟨z,hz,rfl⟩ := List.mem_map.mp ho
      obtain ⟨c,hc,hcz,-⟩ := hr.zone hin hz
      exact List.mem_map.mpr ⟨c,hc,hcz⟩
  rw [Store.held_zones hr.saved hr.zones hzones,syncHeld,← Multiset.coe_bind]
  refine Multiset.bind_congr fun z hz => ?_
  obtain ⟨c,-,-,hm⟩ := hr.zone hin hz
  rw [Store.inZone_held hin.zones,Multiset.filter_coe,Multiset.coe_add,hm.held]
  simp only [Multiset.mem_coe]

end Sync

end Answr
