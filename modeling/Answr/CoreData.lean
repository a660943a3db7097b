import Mathlib.Algebra.Group.Nat.Defs
import Mathlib.Data.List.Sort
import Mathlib.Data.Rat.Defs
import Answr.Requests
set_option autoImplicit false

/-! The Core Data store of the app and the row operations of `CDHandler`. A store
is three tables; a to-one relationship is the object id of the row it points to.
Saving is assumed not to fail. -/

namespace Answr

structure CDZoneRequests where
  objectID : Nat
  zoneid : Option String
  deriving DecidableEq, Repr

structure CDRequest where
  objectID : Nat
  requestZone : Option Nat
  id : Option String
  dateCreated : Option Date
  senderID : Option String
  status : Option String
  delSlotStart : Option Date
  isNew : Bool
  elderlyName : Option String
  elderlyAddressString : Option String
  deriving DecidableEq, Repr

structure CDRequestItem where
  objectID : Nat
  request : Option Nat
  id : Option String
  name : Option String
  icon : Option String
  qty : Int
  bgCol : Option String
  qtyLimit : Option Int
  qtyRemaining : Option Int
  checked : Bool
  deriving DecidableEq, Repr

structure Store where
  zones : List CDZoneRequests
  requests : List CDRequest
  items : List CDRequestItem
  nextID : Nat
  deriving DecidableEq, Repr

def Store.empty : Store := ⟨[],[],[],0⟩

def Store.requestsOf (s : Store) (cdzr : CDZoneRequests) : List CDRequest :=
  s.requests.filter fun r => r.requestZone == some cdzr.objectID

def Store.itemsOf (s : Store) (cdr : CDRequest) : List CDRequestItem :=
  s.items.filter fun i => i.request == some cdr.objectID

/-- The view context: its objects, and every state `context.save` has committed,
the newest first. -/
structure Context where
  store : Store
  commits : List Store
  deriving DecidableEq, Repr

def Context.save (ctx : Context) : Context := { ctx with commits := ctx.store :: ctx.commits }

@[simp] theorem Context.save_store (ctx : Context) : ctx.save.store = ctx.store := rfl

/-- The order in which a fetch or a to-many set hands out its rows. It is not
specified, so it is any rearrangement, which may differ from one state of the
context to the next. -/
structure FetchOrder where
  zones : Context → List CDZoneRequests → List CDZoneRequests
  requests : Context → List CDRequest → List CDRequest
  items : Context → List CDRequestItem → List CDRequestItem
  zones_perm (ctx : Context) (rows : List CDZoneRequests) : (zones ctx rows).Perm rows
  requests_perm (ctx : Context) (rows : List CDRequest) : (requests ctx rows).Perm rows
  items_perm (ctx : Context) (rows : List CDRequestItem) : (items ctx rows).Perm rows

def FetchOrder.table : FetchOrder where
  zones _ rows := rows
  requests _ rows := rows
  items _ rows := rows
  zones_perm _ rows := .refl rows
  requests_perm _ rows := .refl rows
  items_perm _ rows := .refl rows

/-- What an Integer 32 attribute holds of a number. -/
def integer32 (n : Int) : Int := n.bmod (2^32)

section Insert

def newRow (objectID zone : Nat) (req : Request) : CDRequest where
  objectID := objectID
  requestZone := some zone
  id := req.id
  dateCreated := req.dateCreated
  senderID := some req.senderID
  status := req.status
  delSlotStart := req.delSlotStart
  isNew := true
  elderlyName := req.elderlyName
  elderlyAddressString := req.elderlyAddressString

def newItemRow (owner objectID : Nat) (item : RequestItem) : CDRequestItem where
  objectID := objectID
  request := some owner
  id := some item.id
  name := some item.name
  icon := some item.icon
  qty := integer32 item.qty
  bgCol := some item.bgCol
  qtyLimit := item.qtyLimit.map integer32
  qtyRemaining := item.qtyRemaining.map integer32
  checked := false

def newItemRows (owner : Nat) : Nat → List RequestItem → List CDRequestItem
  | _, [] => []
  | objectID, item :: items =>
    newItemRow owner objectID item :: newItemRows owner (objectID+1) items

def Store.addRequest (s : Store) (cdzr : CDZoneRequests) (req : Request) : Store where
  zones := s.zones
  requests := s.requests ++ [newRow s.nextID cdzr.objectID req]
  items := s.items ++ newItemRows s.nextID (s.nextID+1) req.items
  nextID := s.nextID+1+req.items.length

def addRequestToZoneRequest (cdzr : CDZoneRequests) (req : Request) (ctx : Context) : Context :=
  { ctx with store := ctx.store.addRequest cdzr req }.save

def Store.addZone (s : Store) (zoneid : String) : Store :=
  { s with zones := s.zones ++ [⟨s.nextID,some zoneid⟩], nextID := s.nextID+1 }

def saveZoneRequest (zonereq : ZoneRequests) (ctx : Context) : Context :=
  let cdzonerequests : CDZoneRequests := ⟨ctx.store.nextID,some zonereq.zoneid⟩
  let ctx := { ctx with store := ctx.store.addZone zonereq.zoneid }
  (zonereq.requests.foldl (fun ctx req => addRequestToZoneRequest cdzonerequests req ctx) ctx).save

end Insert

section FirstHit

variable (ord : FetchOrder)

/-- The shape the by-id operations share: act on the first row of the fetch, if
there is one, and save. -/
def onFirst {α : Type} (rows : List α) (act : α → Context → Context) (ctx : Context) : Context :=
  match rows.head? with
  | some row => (act row ctx).save
  | none => ctx.save

def fetchZones (zoneID : String) (ctx : Context) : List CDZoneRequests :=
  ord.zones ctx (ctx.store.zones.filter fun c => c.zoneid == some zoneID)

/-- The fetch of `CDRequest` by `id`, which looks in every zone. -/
def fetchRequests (id : String) (ctx : Context) : List CDRequest :=
  ord.requests ctx (ctx.store.requests.filter fun r => r.id == some id)

def addRequestToZoneUsingID (zoneID : String) (req : Request) (ctx : Context) : Context :=
  onFirst (fetchZones ord zoneID ctx) (fun cdzr => addRequestToZoneRequest cdzr req) ctx

/-- Deleting a zone row cascades to its request rows and on to their items. -/
def Store.deleteZone (s : Store) (cdzr : CDZoneRequests) : Store :=
  { s with
    zones := s.zones.filter fun c => c.objectID != cdzr.objectID
    requests := s.requests.filter fun r => r.requestZone != some cdzr.objectID
    items := s.items.filter fun i =>
      !(s.requestsOf cdzr).any fun r => i.request == some r.objectID }

def deleteZoneRequest (zoneID : String) (ctx : Context) : Context :=
  onFirst (fetchZones ord zoneID ctx)
    (fun cdzr ctx => { ctx with store := ctx.store.deleteZone cdzr }) ctx

def Store.deleteRequest (s : Store) (cdr : CDRequest) : Store :=
  { s with
    requests := s.requests.filter fun r => r.objectID != cdr.objectID
    items := s.items.filter fun i => i.request != some cdr.objectID }

def deleteRequest (id : String) (ctx : Context) : Context :=
  onFirst (fetchRequests ord id ctx)
    (fun cdr ctx => { ctx with store := ctx.store.deleteRequest cdr }) ctx

def CDRequest.old (cdr : CDRequest) : CDRequest := { cdr with isNew := false }

def Store.markOld (s : Store) (cdr : CDRequest) : Store :=
  { s with requests := s.requests.map fun r => if r.objectID = cdr.objectID then r.old else r }

def markRequestAsOld (id : String) (ctx : Context) : Context :=
  onFirst (fetchRequests ord id ctx)
    (fun cdr ctx => { ctx with store := ctx.store.markOld cdr }) ctx

def Store.setChecked (s : Store) (item : CDRequestItem) (checked : Bool) : Store :=
  { s with items := s.items.map fun i =>
      if i.objectID = item.objectID then { i with checked := checked } else i }

def markChecked (reqID itemID : String) (checked : Bool) (ctx : Context) : Context :=
  onFirst (fetchRequests ord reqID ctx)
    (fun cdr ctx =>
      match (ord.items ctx (ctx.store.itemsOf cdr)).find? (fun i => i.id == some itemID) with
      | some item => { ctx with store := ctx.store.setChecked item checked }
      | none => ctx) ctx

end FirstHit

section Load

variable {α κ : Type} [LE κ] [DecidableLE κ]

def keyLE : Option κ → Option κ → Bool
  | none, _ => true
  | some _, none => false
  | some a, some b => decide (a ≤ b)

def sortByKey (key : α → Option κ) (rows : List α) : List α :=
  rows.insertionSort fun a b => keyLE (key a) (key b) = true

/-- `rows.sort{$0.key! < $1.key!}`: a sort of two rows or more compares every
one of them, so a single nil key stops it. -/
def sortUnwrapped (key : α → Option κ) (rows : List α) : Except Fault (List α) :=
  if 2 ≤ rows.length ∧ ∃ r ∈ rows, key r = none then .error .nilUnwrap
  else .ok (sortByKey key rows)

variable (ord : FetchOrder) (ctx : Context)

def loadItem (cdi : CDRequestItem) : Except Fault RequestItem := do
  let id ← unwrap cdi.id
  let name ← unwrap cdi.name
  let icon ← unwrap cdi.icon
  let bgCol ← unwrap cdi.bgCol
  return { id, name, icon, qty := cdi.qty, bgCol, checked := some cdi.checked }

def loadRequest (cdr : CDRequest) : Except Fault Request := do
  let senderID ← unwrap cdr.senderID
  let delSlotStart ← unwrap cdr.delSlotStart
  let cditems ← sortUnwrapped CDRequestItem.name (ord.items ctx (ctx.store.itemsOf cdr))
  let items ← cditems.mapM loadItem
  return {
    id := cdr.id, dateCreated := cdr.dateCreated, senderID, status := cdr.status
    delSlotStart := some delSlotStart, items, isNew := some cdr.isNew
    elderlyName := cdr.elderlyName, elderlyAddressString := cdr.elderlyAddressString }

def loadZone (cdzr : CDZoneRequests) : Except Fault ZoneRequests := do
  let zoneid ← unwrap cdzr.zoneid
  let cdrequests ←
    sortUnwrapped CDRequest.dateCreated (ord.requests ctx (ctx.store.requestsOf cdzr))
  let requests ← cdrequests.mapM (loadRequest ord ctx)
  return ⟨zoneid,requests⟩

def loadAllZoneRequests : Except Fault (List ZoneRequests) :=
  (sortByKey CDZoneRequests.zoneid (ord.zones ctx ctx.store.zones)).mapM (loadZone ord ctx)

end Load

end Answr
