import Answr.MergeSpec
import Answr.Answers
set_option autoImplicit false

/-! `saveZoneRequest` and then `loadAllZoneRequests`. The relationships are unordered, so
zones are compared up to the order of their requests and items, and the order that the
loader promises is stated of its result. -/

namespace Answr
open Countdown

section Same

theorem SameRequest.refl (req : Request) : SameRequest req req := ⟨.refl _,rfl⟩

theorem SameRequest.symm {req req' : Request} (h : SameRequest req req') :
    SameRequest req' req := ⟨h.1.symm,h.2.symm⟩

theorem SameRequest.trans {req req' req'' : Request} (h : SameRequest req req')
    (h' : SameRequest req' req'') : SameRequest req req'' :=
  ⟨h.1.trans h'.1,h.2.trans h'.2⟩

theorem SameZone.refl (z : ZoneRequests) : SameZone z z :=
  ⟨rfl,z.requests,.refl _,List.forall₂_same.mpr fun req _ => .refl req⟩

theorem SameZone.symm {z z' : ZoneRequests} (h : SameZone z z') : SameZone z' z :=
  ⟨h.1.symm,h.2.symm fun _ _ => SameRequest.symm⟩

theorem SameZone.trans {z z' z'' : ZoneRequests} (h : SameZone z z') (h' : SameZone z' z'') :
    SameZone z z'' :=
  ⟨h.1.trans h'.1,h.2.trans (fun _ _ _ => SameRequest.trans) h'.2⟩

end Same

section Expected

def RequestItem.unticked (item : RequestItem) : RequestItem := { item with checked := some false }

def Request.asSaved (req : Request) : Request :=
  { req with isNew := some true, items := req.items.map RequestItem.unticked }

def ZoneRequests.asSaved (z : ZoneRequests) : ZoneRequests :=
  { z with requests := z.requests.map Request.asSaved }

section

variable {α κ : Type} [LE κ] [DecidableLE κ]

def Ascending (key : α → Option κ) (l : List α) : Prop :=
  l.Pairwise fun a b => keyLE (key a) (key b) = true

end

/-- Zones by their id, requests by date and items by name. -/
structure InOrder (zones : List ZoneRequests) : Prop where
  byID : Ascending (fun z : ZoneRequests => some z.zoneid) zones
  byDate : ∀ z ∈ zones, Ascending Request.dateCreated z.requests
  byName : ∀ z ∈ zones, ∀ req ∈ z.requests,
    Ascending (fun item : RequestItem => some item.name) req.items

/-- Both loads return, the second one in order and with what the first one returned and
the saved zone. -/
def ReadsBack (ord : FetchOrder) (ctx : Context) (zonereq : ZoneRequests) : Prop :=
  ∃ before after, loadAllZoneRequests ord ctx = .ok before ∧
    loadAllZoneRequests ord (saveZoneRequest zonereq ctx) = .ok after ∧
    InOrder after ∧ Agree SameZone after (before ++ [zonereq.asSaved])

/-- The item has none of the numbers that the loader leaves out, and its quantity fits
the attribute. -/
structure RequestItem.Fits (item : RequestItem) : Prop where
  qtyLimit : item.qtyLimit = none
  qtyRemaining : item.qtyRemaining = none
  low : -2^31 ≤ item.qty
  high : item.qty < 2^31

end Expected

section Loaded

/-- What the writer's and the loader's translations make of an item together. -/
def RequestItem.asLoaded (item : RequestItem) : RequestItem where
  id := item.id
  name := item.name
  icon := item.icon
  qty := integer32 item.qty
  bgCol := item.bgCol
  checked := some false

def Request.asLoaded (req : Request) : Request :=
  { req with isNew := some true, items := req.items.map RequestItem.asLoaded }

def ZoneRequests.asLoaded (z : ZoneRequests) : ZoneRequests :=
  { z with requests := z.requests.map Request.asLoaded }

theorem readItem_newItemRows (owner n : Nat) (items : List RequestItem) :
    (newItemRows owner n items).map readItem = items.map RequestItem.asLoaded := by
  induction items generalizing n with
  | nil => rfl
  | cons item items ih =>
    rw [newItemRows,List.map_cons,List.map_cons,ih]
    rfl

theorem readRequest_newEntry (n zone : Nat) (req : Request) :
    readRequest (newEntry n zone req).1 (newEntry n zone req).2 = req.asLoaded := by
  simp [newEntry,readRequest,newRow,readItem_newItemRows,Request.asLoaded]

variable {ord : FetchOrder} {ctx : Context} {zonereq : ZoneRequests}

def zoneOf (c : CDZoneRequests) (entries : List Entry) : ZoneRequests :=
  ⟨c.zoneid.getD "",entries.map fun e => readRequest e.1 e.2⟩

theorem readZone_same (c : CDZoneRequests) :
    SameZone (readZone ord ctx c) (zoneOf c (ctx.store.entries c)) := by
  refine ⟨rfl,?_⟩
  rw [readZone,zoneOf,Store.entries,List.map_map]
  refine agree_map (sortedRequests_perm ord ctx c) ?_
  intro r _
  exact ⟨(sortedItems_perm ord ctx r).map readItem,rfl⟩

theorem loaded_same :
    Agree SameZone ((sortedZones ord ctx).map (readZone ord ctx))
      (ctx.store.zones.map fun c => zoneOf c (ctx.store.entries c)) :=
  agree_map (sortedZones_perm ord ctx) fun c _ => readZone_same c

theorem zoneOf_new {lo : Nat} {c : CDZoneRequests} {reqs : List Request} {news : List Entry}
    (h : List.Forall₂ (IsNew lo c) reqs news) :
    zoneOf c news = ⟨c.zoneid.getD "",reqs.map Request.asLoaded⟩ := by
  simp only [zoneOf,ZoneRequests.mk.injEq,true_and]
  induction h with
  | nil => rfl
  | cons hnew _ ih =>
    obtain ⟨n,-,rfl⟩ := hnew
    rw [List.map_cons,List.map_cons,ih,readRequest_newEntry]

theorem saveZoneRequest_saved (hs : ctx.store.Saved)
    (hreqs : ∀ req ∈ zonereq.requests, req.Fetched) :
    (saveZoneRequest zonereq ctx).store.Saved :=
  (saveZoneRequest_spec hreqs hs (le_refl _)).1

theorem loaded_saveZoneRequest (hs : ctx.store.Saved)
    (hreqs : ∀ req ∈ zonereq.requests, req.Fetched) :
    Agree SameZone
      ((sortedZones ord (saveZoneRequest zonereq ctx)).map
        (readZone ord (saveZoneRequest zonereq ctx)))
      ((sortedZones ord ctx).map (readZone ord ctx) ++ [zonereq.asLoaded]) := by
  obtain ⟨-,hzones,-,hnew,hframe⟩ := saveZoneRequest_spec hreqs hs (le_refl _)
  have hafter := @loaded_same ord (saveZoneRequest zonereq ctx)
  have hbefore : Agree SameZone _ _ := (@loaded_same ord ctx).symm fun _ _ => SameZone.symm
  have hold : ctx.store.zones.map
      (fun c => zoneOf c ((saveZoneRequest zonereq ctx).store.entries c)) =
      ctx.store.zones.map fun c => zoneOf c (ctx.store.entries c) := by
    apply List.map_congr_left
    intro c hc
    rw [hframe c hc]
  rw [hzones,List.map_append,List.map_singleton,zoneOf_new hnew,hold] at hafter
  have hlast : Agree SameZone [zonereq.asLoaded] [zonereq.asLoaded] :=
    ⟨_,.refl _,.cons (.refl _) .nil⟩
  exact hafter.trans (fun _ _ _ => SameZone.trans) (hbefore.append hlast)

theorem ascending_map {α β κ : Type} [LE κ] [DecidableLE κ] {f : α → β} {key : β → Option κ}
    {l : List α} : Ascending key (l.map f) ↔ Ascending (fun a => key (f a)) l := by
  simp only [Ascending,List.pairwise_map]

theorem inOrder_loaded (hs : ctx.store.Saved) :
    InOrder ((sortedZones ord ctx).map (readZone ord ctx)) where
  byID := by
    rw [ascending_map]
    have hsorted := sortByKey_sorted CDZoneRequests.zoneid (ord.zones ctx ctx.store.zones)
    refine hsorted.imp_of_mem ?_
    intro a b ha hb hab
    obtain ⟨x,hx⟩ := Option.isSome_iff_exists.mp
      (hs.zoneFields a ((sortedZones_perm ord ctx).mem_iff.mp ha))
    obtain ⟨y,hy⟩ := Option.isSome_iff_exists.mp
      (hs.zoneFields b ((sortedZones_perm ord ctx).mem_iff.mp hb))
    rw [hx,hy] at hab
    simp only [readZone,hx,hy,Option.getD_some]
    exact hab
  byDate z hz := by
    obtain ⟨c,-,rfl⟩ := List.mem_map.mp hz
    rw [readZone,ascending_map]
    exact sortByKey_sorted CDRequest.dateCreated _
  byName z hz req hreq := by
    obtain ⟨c,-,rfl⟩ := List.mem_map.mp hz
    obtain ⟨r,-,rfl⟩ := List.mem_map.mp hreq
    rw [readRow,readRequest,ascending_map]
    have hsorted := sortByKey_sorted CDRequestItem.name (ord.items ctx (ctx.store.itemsOf r))
    refine hsorted.imp_of_mem ?_
    intro a b ha hb hab
    have hmem : ∀ i ∈ sortedItems ord ctx r, i.name.isSome := fun i hi =>
      (hs.itemFields i (List.mem_of_mem_filter ((sortedItems_perm ord ctx r).mem_iff.mp hi))).2.1
    obtain ⟨x,hx⟩ := Option.isSome_iff_exists.mp (hmem a ha)
    obtain ⟨y,hy⟩ := Option.isSome_iff_exists.mp (hmem b hb)
    rw [hx,hy] at hab
    simp only [readItem,hx,hy,Option.getD_some]
    exact hab

end Loaded

section Fits

variable {ord : FetchOrder} {ctx : Context} {zonereq : ZoneRequests}

theorem RequestItem.Fits.asLoaded {item : RequestItem} (h : item.Fits) :
    item.asLoaded = item.unticked := by
  rw [RequestItem.asLoaded,RequestItem.unticked,integer32_eq_self h.low h.high]
  simp [h.qtyLimit,h.qtyRemaining]

theorem asLoaded_eq_asSaved (h : ∀ req ∈ zonereq.requests, ∀ item ∈ req.items, item.Fits) :
    zonereq.asLoaded = zonereq.asSaved := by
  rw [ZoneRequests.asLoaded,ZoneRequests.asSaved,List.map_congr_left]
  intro req hreq
  rw [Request.asLoaded,Request.asSaved,List.map_congr_left]
  exact fun item hitem => (h req hreq item hitem).asLoaded

theorem integer32_range (n : Int) : -2^31 ≤ integer32 n ∧ integer32 n < 2^31 := by
  have hle : -(((2^32 : Nat) : Int)/2) ≤ n.bmod (2^32) := Int.le_bmod (by decide)
  have hlt : n.bmod (2^32) < (((2^32 : Nat) : Int)+1)/2 := Int.bmod_lt (by decide)
  have hsize : ((2^32 : Nat) : Int) = 4294967296 := rfl
  rw [hsize] at hle hlt
  rw [integer32]
  omega

theorem RequestItem.fits_of_loaded {item item' : RequestItem}
    (h : item.unticked = item'.asLoaded) : item.Fits := by
  obtain ⟨hlow,hhigh⟩ := integer32_range item'.qty
  rw [RequestItem.unticked,RequestItem.asLoaded,RequestItem.mk.injEq] at h
  obtain ⟨-,-,-,hqty,hlimit,hremaining,-,-⟩ := h
  exact ⟨hlimit,hremaining,hqty ▸ hlow,hqty ▸ hhigh⟩

theorem readsBack_of_fits (hs : ctx.store.Saved) (hreqs : ∀ req ∈ zonereq.requests, req.Fetched)
    (hfits : ∀ req ∈ zonereq.requests, ∀ item ∈ req.items, item.Fits) :
    ReadsBack ord ctx zonereq := by
  have hs' := saveZoneRequest_saved hs hreqs
  refine ⟨_,_,loadAllZoneRequests_ok ord hs,loadAllZoneRequests_ok ord hs',
    inOrder_loaded hs',?_⟩
  rw [← asLoaded_eq_asSaved hfits]
  exact loaded_saveZoneRequest hs hreqs

theorem fits_of_readsBack (hs : ctx.store.Saved) (hreqs : ∀ req ∈ zonereq.requests, req.Fetched)
    (hnew : ∀ c ∈ ctx.store.zones, c.zoneid ≠ some zonereq.zoneid)
    (h : ReadsBack ord ctx zonereq) :
    ∀ req ∈ zonereq.requests, ∀ item ∈ req.items, item.Fits := by
  obtain ⟨before,after,hbefore,hafter,-,hsame⟩ := h
  rw [loadAllZoneRequests_ok ord hs] at hbefore
  rw [loadAllZoneRequests_ok ord (saveZoneRequest_saved hs hreqs)] at hafter
  obtain rfl := Except.ok.inj hbefore
  obtain rfl := Except.ok.inj hafter
  -- what is promised of the saved zone can only be what is loaded of it
  have hboth : Agree SameZone _ _ := (hsame.symm fun _ _ => SameZone.symm).trans
    (fun _ _ _ => SameZone.trans) (loaded_saveZoneRequest hs hreqs)
  obtain ⟨z,hz,hzone⟩ := hboth.exists_left (x := zonereq.asSaved) (by simp)
  obtain rfl : z = zonereq.asLoaded := by
    rcases List.mem_append.mp hz with hold | hlast
    · obtain ⟨c,hc,rfl⟩ := List.mem_map.mp hold
      have hcm := (sortedZones_perm ord ctx).mem_iff.mp hc
      obtain ⟨zoneid,hid⟩ := Option.isSome_iff_exists.mp (hs.zoneFields c hcm)
      have heq : zonereq.zoneid = c.zoneid.getD "" := hzone.1
      rw [hid,Option.getD_some] at heq
      exact absurd (by rw [hid,heq]) (hnew c hcm)
    · exact List.mem_singleton.mp hlast
  intro req hreq item hitem
  obtain ⟨req',hreq',hitems,-⟩ := hzone.2.exists_left (List.mem_map_of_mem hreq)
  obtain ⟨req'',-,rfl⟩ := List.mem_map.mp hreq'
  obtain ⟨item',-,heq⟩ := List.mem_map.mp (hitems.mem_iff.mp (List.mem_map_of_mem hitem))
  exact RequestItem.fits_of_loaded heq.symm

/-- The saved zone is read back as it was saved, beside the zones that were there, exactly
if each item's quantity fits and it has neither a limit nor a remaining number. -/
theorem readsBack_iff_fits (ord : FetchOrder) (ctx : Context) (zonereq : ZoneRequests)
    (hs : ctx.store.Saved) (hnew : ∀ c ∈ ctx.store.zones, c.zoneid ≠ some zonereq.zoneid)
    (hreqs : ∀ req ∈ zonereq.requests, req.Fetched) :
    ReadsBack ord ctx zonereq ↔
      ∀ req ∈ zonereq.requests, ∀ item ∈ req.items, item.Fits :=
  ⟨fits_of_readsBack hs hreqs hnew,readsBack_of_fits hs hreqs⟩

def limitedZone : ZoneRequests where
  zoneid := "north"
  requests := [⟨some "r1",some 1,"u1",some "Pending",some 5,
    [⟨"rice","Rice","rice",2,some 3,none,"white",none⟩],none,none,none⟩]

theorem limitedZone_fetched : ∀ req ∈ limitedZone.requests, req.Fetched := by
  intro req hreq
  obtain rfl := List.mem_singleton.mp hreq
  exact ⟨rfl,rfl,rfl,rfl⟩

theorem readsBack_iff_fits_limited : ReadsBack .table ⟨.empty,[]⟩ limitedZone ↔
    ∀ req ∈ limitedZone.requests, ∀ item ∈ req.items, item.Fits :=
  readsBack_iff_fits .table ⟨.empty,[]⟩ limitedZone Store.saved_empty
    (by simp [Store.empty]) limitedZone_fetched

/-- The limit is not read back. -/
theorem not_readsBack : ¬ ∀ (ord : FetchOrder) (ctx : Context) (zonereq : ZoneRequests),
    ctx.store.Saved → (∀ c ∈ ctx.store.zones, c.zoneid ≠ some zonereq.zoneid) →
    (∀ req ∈ zonereq.requests, req.Fetched) → ReadsBack ord ctx zonereq := by
  intro h
  have hback := h .table ⟨.empty,[]⟩ limitedZone Store.saved_empty (by simp [Store.empty])
    limitedZone_fetched
  have hfits := fits_of_readsBack Store.saved_empty limitedZone_fetched
    (by simp [Store.empty]) hback _ (List.mem_singleton.mpr rfl) _ (List.mem_singleton.mpr rfl)
  cases hfits.qtyLimit

end Fits

end Answr
