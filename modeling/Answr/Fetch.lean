import Answr.Countdown
import Answr.Completion
set_option autoImplicit false

/-! `fetchAllZoneRequests` and what it calls. Every read is answered later, with the
database as it then is; an answer to a read that is not outstanding is ignored. -/

namespace Answr
open LeafTree Countdown

section Values

/-- `value as? String` -/
def Leaf.asString : Leaf → Option String
  | .string s => some s
  | _ => none

/-- The integer has at most 53 binary digits before its trailing zeros. -/
def fitsDouble (n : Int) : Bool := n.natAbs % 2^(n.natAbs.log2-52) = 0

/-- `value as? Double`. A number that is no integer was a double before. -/
def Leaf.asDouble : Leaf → Option Rat
  | .number q => if q.den = 1 ∧ !fitsDouble q.num then none else some q
  | .bool b => some (if b then 1 else 0)
  | .string _ => none

/-- `value as! Int` -/
def forcedInt (value : Option Leaf) : Except Fault Int :=
  match value.bind Leaf.asInt with
  | some n => .ok n
  | none => .error .castFailed

def childValue (ref : Path) (key : String) (db : Database) : Option Leaf := get (ref ++ [key]) db

def childString (ref : Path) (key : String) (db : Database) : Option String :=
  (childValue ref key db).bind Leaf.asString

/-- `components(separatedBy: ",")` -/
def components (s : String) : List String := (s.toList.splitOn ',').map String.ofList

def volunteerRef (uid : String) : Path := childFromString ["volunteer",uid]
def elderlyRef (uid : String) : Path := childFromString ["elderly",uid]
def itemRef (id : String) : Path := childFromString ["items",id]
def zoneRef (zoneid : String) : Path := childFromString ["requests",zoneid]

/-- A read of `child("a/b/c")` is issued, to which the call then waits for an answer. -/
def observeSingleEvent {α : Type} (parts : List String) (call : α) : Except Fault α :=
  (child parts).map fun _ => call

theorem observeSingleEvent_ok_iff {α : Type} {name : String} (hname : ValidPart name)
    (hne : name.toList ≠ []) {parts : List String} {call issued : α} :
    observeSingleEvent (name :: parts) call = .ok issued ↔
      (∀ part ∈ parts, ValidPart part) ∧ issued = call := by
  cases hc : child (name :: parts) with
  | ok path =>
    have hvalid := ((child_ok_iff hname hne).mp hc).1
    simp only [observeSingleEvent,hc,Except.map,Except.ok.injEq]
    exact ⟨fun h => ⟨hvalid,h.symm⟩,fun h => h.2.symm⟩
  | error e =>
    simp only [observeSingleEvent,hc,Except.map]
    refine ⟨fun h => (nomatch h),fun h => ?_⟩
    rw [(child_ok_iff hname hne).mpr ⟨h.1,rfl⟩] at hc
    cases hc

theorem mapM_ok_iff {α β : Type} {issue : α → Except Fault β} {ok : α → Prop} {g : α → β}
    (h : ∀ a b, issue a = .ok b ↔ ok a ∧ b = g a) {as : List α} {bs : List β} :
    as.mapM issue = .ok bs ↔ (∀ a ∈ as, ok a) ∧ bs = as.map g := by
  induction as generalizing bs with
  | nil => simp [pure,Except.pure,eq_comm]
  | cons a as ih =>
    rw [List.mapM_cons,List.forall_mem_cons,List.map_cons]
    cases ha : issue a with
    | error e =>
      have hrefused : ¬ ok a := fun hok => by
        rw [(h a (g a)).mpr ⟨hok,rfl⟩] at ha
        cases ha
      exact ⟨fun herr => (nomatch herr),fun hall => absurd hall.1.1 hrefused⟩
    | ok b =>
      obtain ⟨hok,rfl⟩ := (h a b).mp ha
      cases has : as.mapM issue with
      | error e =>
        refine ⟨fun herr => (nomatch herr),fun hall => ?_⟩
        rw [ih.mpr ⟨hall.1.2,rfl⟩] at has
        cases has
      | ok rest =>
        obtain ⟨hrest,rfl⟩ := ih.mp has
        exact ⟨fun heq => ⟨⟨hok,hrest⟩,(Except.ok.inj heq).symm⟩,fun heq => heq.2 ▸ rfl⟩

end Values

section Reads

def retrieveZones (uid : String) (db : Database) : Option (List String) :=
  (childString (volunteerRef uid) "AssignedZones" db).map components

structure ElderlyDetails where
  address : String
  name : String
  deriving DecidableEq, Repr

def retrieveElderlyDetails (uid : String) (db : Database) : Option ElderlyDetails := do
  let ref := elderlyRef uid
  let name ← childString ref "Name" db
  let address ← childString ref "Address" db
  let postalCode := (childString ref "PostalCode" db).getD
    (toString (((childValue ref "PostalCode" db).bind Leaf.asInt).getD (-1)))
  let postalCode := if postalCode = "-1" then "Unavailable" else postalCode
  return ⟨address ++ ", Singapore " ++ postalCode,name⟩

/-- What the read of `getRequestItem` gives; `zh` is the language of the device. -/
def getRequestItem (zh : Bool) (id : String) (db : Database) : Option RequestItem := do
  let ref := itemRef id
  let path := if zh then "name_zh" else "name"
  let name ← (childString ref path db).or (childString ref "name" db)
  let icon ← childString ref "icon" db
  let bgCol ← childString ref "bgCol" db
  return {
    id, name, icon, qty := 0, bgCol
    qtyLimit := (childValue ref "limit" db).bind Leaf.asInt
    qtyRemaining := (childValue ref "remaining" db).bind Leaf.asInt }

/-- The fields that `getRequest` reads off the node. Its key is the last piece of the
path. -/
def requestFields (zoneID id : String) (db : Database) : Option Request := do
  let ref := requestRef zoneID id
  let dateCreated ← (childValue ref "dateCreated" db).bind Leaf.asDouble
  let senderID ← childString ref "senderID" db
  let status ← childString ref "status" db
  let delSlotStart ← (childValue ref "delSlotStart" db).bind Leaf.asInt
  return {
    id := ref.getLast?, dateCreated := some dateCreated, senderID, status := some status
    delSlotStart := some ((delSlotStart : Rat) / 1000), items := [] }

end Reads

section Items

structure ItemRead where
  itemID : String
  value : Option Leaf
  answered : Bool
  deriving DecidableEq, Repr

/-- The completion handler in `getAllItems`: a well-formed item takes the child's value
for its quantity. -/
def ItemRead.answer (zh : Bool) (db : Database) (read : ItemRead) :
    Except Fault (ItemRead × Option (Option RequestItem)) :=
  if read.answered then .ok (read,none)
  else match getRequestItem zh read.itemID db with
    | none => .ok ({ read with answered := true },some none)
    | some item =>
      match forcedInt read.value with
      | .ok qty => .ok ({ read with answered := true },some (some { item with qty := qty }))
      | .error e => .error e

def contentReads (zoneID id : String) (db : Database) : List ItemRead :=
  let ref := requestRef zoneID id ++ ["content"]
  (keys ref db).map fun itemID => ⟨itemID,childValue ref itemID db,false⟩

def getAllItems (zoneID id : String) (db : Database) : Except Fault (List ItemRead) :=
  (contentReads zoneID id db).mapM fun read => observeSingleEvent ["items",read.itemID] read

end Items

section Requests

structure ElderlyRead where
  items : List RequestItem
  answered : Bool
  deriving DecidableEq, Repr

/-- A request whose node was well formed: its fields, the join of its items, and a read
of the sender for every call of the items' handler. -/
structure Body where
  fields : Request
  items : Join ItemRead RequestItem
  elderly : List ElderlyRead
  deriving DecidableEq, Repr

/-- A call of `getRequest`. -/
inductive RequestFetch where
  | reading (id : String)
  | malformed (id : String)
  | wellFormed (id : String) (body : Body)
  deriving DecidableEq, Repr

def getRequest (zoneID id : String) : Except Fault RequestFetch :=
  observeSingleEvent ["requests",zoneID,id] (.reading id)

def RequestFetch.id : RequestFetch → String
  | .reading id => id
  | .malformed id => id
  | .wellFormed id _ => id

def addDetails (req : Request) (items : List RequestItem) (details : Option ElderlyDetails) :
    Request :=
  { req with
    items := items
    elderlyName := details.map (·.name)
    elderlyAddressString := details.map (·.address) }

abbrev Reply := List Nat × Database

/-- The answers to `getRequest`: to its own read, to an item's (0) and to the sender's (1). -/
def RequestFetch.answer (zh : Bool) (zoneID : String) (m : Reply) :
    RequestFetch → Except Fault (RequestFetch × Option (Option Request))
  | .reading id =>
    if m.1 = [] then
      match requestFields zoneID id m.2 with
      | none => .ok (.malformed id,some none)
      | some req =>
        match getAllItems zoneID id m.2 with
        | .error e => .error e
        | .ok items => .ok (.wellFormed id ⟨req,.start items,[]⟩,none)
    else .ok (.reading id,none)
  | .malformed id => .ok (.malformed id,none)
  | .wellFormed id body =>
    match m.1 with
    | [0,i] =>
      match body.items.answer (ItemRead.answer zh) i m.2 with
      | .error e => .error e
      | .ok (items,none) => .ok (.wellFormed id { body with items := items },none)
      | .ok (items,some collected) =>
        match observeSingleEvent ["elderly",body.fields.senderID] ⟨collected,false⟩ with
        | .error e => .error e
        | .ok read =>
          .ok (.wellFormed id { body with items := items, elderly := body.elderly ++ [read] },none)
    | [1,k] =>
      match body.elderly[k]? with
      | some ⟨items,false⟩ =>
        .ok (.wellFormed id { body with elderly := body.elderly.set k ⟨items,true⟩ },
          some (some (addDetails body.fields items
            (retrieveElderlyDetails body.fields.senderID m.2))))
      | _ => .ok (.wellFormed id body,none)
    | _ => .ok (.wellFormed id body,none)

end Requests

section Zones

/-- A call of `getZoneRequests`. -/
inductive ZoneFetch where
  | reading (zoneid : String)
  | absent (zoneid : String)
  | present (zoneid : String) (requests : Join RequestFetch Request)
  deriving DecidableEq, Repr

def getZoneRequests (zoneid : String) : Except Fault ZoneFetch :=
  observeSingleEvent ["requests",zoneid] (.reading zoneid)

def ZoneFetch.zoneid : ZoneFetch → String
  | .reading zoneid => zoneid
  | .absent zoneid => zoneid
  | .present zoneid _ => zoneid

def ZoneFetch.answer (zh : Bool) (m : Reply) :
    ZoneFetch → Except Fault (ZoneFetch × Option (Option ZoneRequests))
  | .reading zoneid =>
    if m.1 = [] then
      if below (zoneRef zoneid) m.2 = [] then .ok (.absent zoneid,some none)
      else
        match (keys (zoneRef zoneid) m.2).mapM (getRequest zoneid) with
        | .error e => .error e
        | .ok requests => .ok (.present zoneid (.start requests),none)
    else .ok (.reading zoneid,none)
  | .absent zoneid => .ok (.absent zoneid,none)
  | .present zoneid requests =>
    match m.1 with
    | i :: path =>
      match requests.answer (RequestFetch.answer zh zoneid) i (path,m.2) with
      | .error e => .error e
      | .ok (requests,called) =>
        .ok (.present zoneid requests,called.map fun reqs => some ⟨zoneid,reqs⟩)
    | [] => .ok (.present zoneid requests,none)

/-- A call of `fetchAllZoneRequests`. Without a user or zones it never calls. -/
inductive Fetch where
  | reading (uid : String)
  | refused
  | fetching (zones : Join ZoneFetch ZoneRequests)
  deriving DecidableEq, Repr

def fetchAllZoneRequests : (uid : Option String) → Except Fault Fetch
  | some uid => observeSingleEvent ["volunteer",uid] (.reading uid)
  | none => .ok .refused

def Fetch.answer (zh : Bool) (m : Reply) :
    Fetch → Except Fault (Fetch × Option (List ZoneRequests))
  | .reading uid =>
    if m.1 = [] then
      match retrieveZones uid m.2 with
      | none => .ok (.refused,none)
      | some zones =>
        match zones.mapM getZoneRequests with
        | .error e => .error e
        | .ok zones => .ok (.fetching (.start zones),none)
    else .ok (.reading uid,none)
  | .refused => .ok (.refused,none)
  | .fetching zones =>
    match m.1 with
    | i :: path =>
      match zones.answer (ZoneFetch.answer zh) i (path,m.2) with
      | .error e => .error e
      | .ok (zones,called) => .ok (.fetching zones,called)
    | [] => .ok (.fetching zones,none)

end Zones

section Accepted

variable {zoneID id zoneid uid : String} {db : Database}

theorem getAllItems_ok_iff {items : List ItemRead} : getAllItems zoneID id db = .ok items ↔
    (∀ read ∈ contentReads zoneID id db, ValidPart read.itemID) ∧
      items = contentReads zoneID id db := by
  have hissue : ∀ read issued : ItemRead,
      observeSingleEvent ["items",read.itemID] read = .ok issued ↔
        ValidPart read.itemID ∧ issued = read := by
    intro read issued
    rw [observeSingleEvent_ok_iff (by decide) (by decide)]
    simp
  rw [getAllItems,mapM_ok_iff (g := fun read => read) hissue,List.map_id']

theorem getRequest_ok_iff {f : RequestFetch} :
    getRequest zoneID id = .ok f ↔ (ValidPart zoneID ∧ ValidPart id) ∧ f = .reading id := by
  rw [getRequest,observeSingleEvent_ok_iff (by decide) (by decide)]
  simp

theorem getRequests_ok_iff {ids : List String} {fs : List RequestFetch} :
    ids.mapM (getRequest zoneID) = .ok fs ↔
      (∀ id ∈ ids, ValidPart zoneID ∧ ValidPart id) ∧ fs = ids.map RequestFetch.reading :=
  mapM_ok_iff fun _ _ => getRequest_ok_iff

theorem getZoneRequests_ok_iff {zones : List String} {zs : List ZoneFetch} :
    zones.mapM getZoneRequests = .ok zs ↔
      (∀ zone ∈ zones, ValidPart zone) ∧ zs = zones.map ZoneFetch.reading :=
  mapM_ok_iff fun zone z => by
    rw [getZoneRequests,observeSingleEvent_ok_iff (by decide) (by decide)]
    simp

theorem fetchAllZoneRequests_ok_iff {fetch : Fetch} :
    fetchAllZoneRequests (some uid) = .ok fetch ↔ ValidPart uid ∧ fetch = .reading uid := by
  rw [fetchAllZoneRequests,observeSingleEvent_ok_iff (by decide) (by decide)]
  simp

theorem started_of_ok {user : Option String} {fetch : Fetch}
    (h : fetchAllZoneRequests user = .ok fetch) :
    (∃ uid, user = some uid ∧ fetch = .reading uid) ∨ user = none ∧ fetch = .refused := by
  cases user with
  | none => exact .inr ⟨rfl,(Except.ok.inj h).symm⟩
  | some uid => exact .inl ⟨uid,rfl,(fetchAllZoneRequests_ok_iff.mp h).2⟩

end Accepted

end Answr
