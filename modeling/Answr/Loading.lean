import Mathlib.Algebra.Order.Ring.Rat
import Mathlib.Data.String.Basic
import Answr.Tables
set_option autoImplicit false

/-! `loadAllZoneRequests` on a saved store: no forced unwrap fails, and each zone
is read off its entries. -/

namespace Answr

theorem mapM_ok {α β ε : Type} {f : α → Except ε β} {g : α → β} {l : List α}
    (h : ∀ x ∈ l, f x = .ok (g x)) : l.mapM f = .ok (l.map g) := by
  induction l with
  | nil => rfl
  | cons x l ih =>
    rw [List.mapM_cons,h x (by simp),ih (fun y hy => h y (by simp [hy]))]
    rfl

section Sorting

variable {α κ : Type} [LinearOrder κ] (key : α → Option κ)

theorem sortByKey_perm (rows : List α) : (sortByKey key rows).Perm rows :=
  List.perm_insertionSort _ rows

theorem sortUnwrapped_ok {rows : List α} (h : ∀ r ∈ rows, (key r).isSome) :
    sortUnwrapped key rows = .ok (sortByKey key rows) := by
  have hn : ¬ (2 ≤ rows.length ∧ ∃ r ∈ rows, key r = none) := by
    rintro ⟨_,r,hr,hk⟩
    simpa [hk] using h r hr
  simp [sortUnwrapped,hn]

theorem keyLE_total (a b : Option κ) : keyLE a b = true ∨ keyLE b a = true := by
  cases a with
  | none => simp [keyLE]
  | some a =>
    cases b with
    | none => simp [keyLE]
    | some b => simpa [keyLE] using le_total a b

theorem keyLE_trans {a b c : Option κ} (hab : keyLE a b = true) (hbc : keyLE b c = true) :
    keyLE a c = true := by
  cases a with
  | none => rfl
  | some a =>
    cases b with
    | none => simp [keyLE] at hab
    | some b =>
      cases c with
      | none => simp [keyLE] at hbc
      | some c =>
        simp only [keyLE,decide_eq_true_eq] at hab hbc ⊢
        exact le_trans hab hbc

theorem sortByKey_sorted (rows : List α) :
    (sortByKey key rows).Pairwise fun a b => keyLE (key a) (key b) = true := by
  have : Std.Total (fun a b : α => keyLE (key a) (key b) = true) :=
    ⟨fun a b => keyLE_total (key a) (key b)⟩
  have : IsTrans α (fun a b : α => keyLE (key a) (key b) = true) :=
    ⟨fun _ _ _ hab hbc => keyLE_trans hab hbc⟩
  exact List.pairwise_insertionSort _ rows

end Sorting

def readItem (cdi : CDRequestItem) : RequestItem where
  id := cdi.id.getD ""
  name := cdi.name.getD ""
  icon := cdi.icon.getD ""
  qty := cdi.qty
  bgCol := cdi.bgCol.getD ""
  checked := some cdi.checked

def readRequest (cdr : CDRequest) (cditems : List CDRequestItem) : Request where
  id := cdr.id
  dateCreated := cdr.dateCreated
  senderID := cdr.senderID.getD ""
  status := cdr.status
  delSlotStart := cdr.delSlotStart
  items := cditems.map readItem
  isNew := some cdr.isNew
  elderlyName := cdr.elderlyName
  elderlyAddressString := cdr.elderlyAddressString

theorem readRequest_equals_perm (r : CDRequest) {is js : List CDRequestItem}
    (h : is.Perm js) (req : Request) :
    (readRequest r is).equals req = (readRequest r js).equals req := by
  rw [Bool.eq_iff_iff,Request.equals_iff,Request.equals_iff]
  have hm : ∀ item, item ∈ is.map readItem ↔ item ∈ js.map readItem :=
    fun item => (h.map readItem).mem_iff
  simp only [readRequest,hm]

section Load

variable (ord : FetchOrder) (ctx : Context)

def sortedItems (cdr : CDRequest) : List CDRequestItem :=
  sortByKey CDRequestItem.name (ord.items ctx (ctx.store.itemsOf cdr))

def sortedRequests (cdzr : CDZoneRequests) : List CDRequest :=
  sortByKey CDRequest.dateCreated (ord.requests ctx (ctx.store.requestsOf cdzr))

def sortedZones : List CDZoneRequests :=
  sortByKey CDZoneRequests.zoneid (ord.zones ctx ctx.store.zones)

def readRow (cdr : CDRequest) : Request := readRequest cdr (sortedItems ord ctx cdr)

def readZone (cdzr : CDZoneRequests) : ZoneRequests :=
  ⟨cdzr.zoneid.getD "",(sortedRequests ord ctx cdzr).map (readRow ord ctx)⟩

theorem sortedItems_perm (cdr : CDRequest) :
    (sortedItems ord ctx cdr).Perm (ctx.store.itemsOf cdr) :=
  (sortByKey_perm _ _).trans (ord.items_perm ctx _)

theorem sortedRequests_perm (cdzr : CDZoneRequests) :
    (sortedRequests ord ctx cdzr).Perm (ctx.store.requestsOf cdzr) :=
  (sortByKey_perm _ _).trans (ord.requests_perm ctx _)

theorem sortedZones_perm : (sortedZones ord ctx).Perm ctx.store.zones :=
  (sortByKey_perm _ _).trans (ord.zones_perm ctx _)

theorem loadItem_ok {cdi : CDRequestItem} (h : cdi.Loadable) :
    loadItem cdi = .ok (readItem cdi) := by
  obtain ⟨hid,hname,hicon,hcol⟩ := h
  obtain ⟨id,hid⟩ := Option.isSome_iff_exists.mp hid
  obtain ⟨name,hname⟩ := Option.isSome_iff_exists.mp hname
  obtain ⟨icon,hicon⟩ := Option.isSome_iff_exists.mp hicon
  obtain ⟨col,hcol⟩ := Option.isSome_iff_exists.mp hcol
  simp only [loadItem,readItem,hid,hname,hicon,hcol,unwrap,Option.getD_some]
  rfl

variable {ctx}

theorem loadRequest_ok (hs : ctx.store.Saved) {cdr : CDRequest} (hr : cdr.Loadable) :
    loadRequest ord ctx cdr = .ok (readRow ord ctx cdr) := by
  obtain ⟨-,-,hsender,hslot⟩ := hr
  obtain ⟨sender,hsender⟩ := Option.isSome_iff_exists.mp hsender
  obtain ⟨slot,hslot⟩ := Option.isSome_iff_exists.mp hslot
  have hload : ∀ i ∈ ord.items ctx (ctx.store.itemsOf cdr), i.Loadable := by
    intro i hi
    have him := (ord.items_perm ctx _).mem_iff.mp hi
    exact hs.itemFields i (List.mem_of_mem_filter him)
  have hsort := sortUnwrapped_ok CDRequestItem.name fun i hi => (hload i hi).2.1
  have hitems := mapM_ok (f := loadItem) (g := readItem) (l := sortedItems ord ctx cdr)
    fun i hi => loadItem_ok (hload i ((sortByKey_perm _ _).mem_iff.mp hi))
  simp only [loadRequest,readRow,readRequest,hsender,hslot,unwrap,Option.getD_some]
  rw [hsort]
  change (do let items ← (sortedItems ord ctx cdr).mapM loadItem; _) = _
  rw [hitems]
  rfl

theorem loadZone_ok (hs : ctx.store.Saved) {cdzr : CDZoneRequests} (hz : cdzr.zoneid.isSome) :
    loadZone ord ctx cdzr = .ok (readZone ord ctx cdzr) := by
  obtain ⟨zoneid,hz⟩ := Option.isSome_iff_exists.mp hz
  have hload : ∀ r ∈ ord.requests ctx (ctx.store.requestsOf cdzr), r.Loadable := by
    intro r hr
    have hrm := (ord.requests_perm ctx _).mem_iff.mp hr
    exact hs.requestFields r (List.mem_of_mem_filter hrm)
  have hsort := sortUnwrapped_ok CDRequest.dateCreated fun r hr => (hload r hr).2.1
  have hrequests := mapM_ok (f := loadRequest ord ctx) (g := readRow ord ctx)
    (l := sortedRequests ord ctx cdzr)
    fun r hr => loadRequest_ok ord hs (hload r ((sortByKey_perm _ _).mem_iff.mp hr))
  simp only [loadZone,readZone,hz,unwrap,Option.getD_some]
  rw [hsort]
  change (do let requests ← (sortedRequests ord ctx cdzr).mapM (loadRequest ord ctx); _) = _
  rw [hrequests]
  rfl

theorem loadAllZoneRequests_ok (hs : ctx.store.Saved) :
    loadAllZoneRequests ord ctx = .ok ((sortedZones ord ctx).map (readZone ord ctx)) :=
  mapM_ok fun c hc => loadZone_ok ord hs
    (hs.zoneFields c ((sortedZones_perm ord ctx).mem_iff.mp hc))

end Load

end Answr
