import Answr.Delivery
import Answr.FetchRuns
set_option autoImplicit false

/-! What a fetch hands over as a function of the answers to its reads alone: the order
in which they arrive decides no more than the order of the results. -/

namespace Answr
open LeafTree Countdown

section Fetched

/-- The database that each read of a call is answered from, by the place of the read. -/
abbrev Answers := List Nat → Database

/-- The answers to the reads of the sub-call with the given number. -/
def Answers.below (A : Answers) (i : Nat) : Answers := fun path => A (i :: path)

def fetchedItem (zh : Bool) (db : Database) (read : ItemRead) : Option RequestItem :=
  (getRequestItem zh read.itemID db).bind fun item =>
    (read.value.bind Leaf.asInt).map fun qty => { item with qty := qty }

def fetchedItems (zh : Bool) (A : Answers) (zoneID id : String) : List RequestItem :=
  numbered (fun i => fetchedItem zh (A [0,i])) (contentReads zoneID id (A []))

def fetchedRequest (zh : Bool) (A : Answers) (zoneID id : String) : Option Request :=
  (requestFields zoneID id (A [])).map fun req =>
    addDetails req (fetchedItems zh A zoneID id)
      (retrieveElderlyDetails req.senderID (A [1,0]))

def fetchedZone (zh : Bool) (A : Answers) (zoneid : String) : Option ZoneRequests :=
  if below (zoneRef zoneid) (A []) = [] then none
  else some ⟨zoneid,numbered (fun i => fetchedRequest zh (A.below i) zoneid)
    (keys (zoneRef zoneid) (A []))⟩

/-- Every listed zone that exists, in the order of the list. -/
def fetchedZones (zh : Bool) (A : Answers) (zones : List String) : List ZoneRequests :=
  numbered (fun i => fetchedZone zh (A.below i)) zones

/-- The same request up to the order of its items. -/
def SameRequest (req req' : Request) : Prop :=
  req.items.Perm req'.items ∧ { req with items := [] } = { req' with items := [] }

/-- The same zone up to the order of its requests and of their items. -/
def SameZone (z z' : ZoneRequests) : Prop :=
  z.zoneid = z'.zoneid ∧ Agree SameRequest z.requests z'.requests

def northServer : Database := [
  (["volunteer","u1","AssignedZones"],.string "north"),
  (["requests","north","r1","dateCreated"],.number 1),
  (["requests","north","r1","senderID"],.string "s1"),
  (["requests","north","r1","status"],.string "Pending"),
  (["requests","north","r1","delSlotStart"],.number 5000),
  (["requests","north","r1","content","rice"],.number 2),
  (["items","rice","name"],.string "Rice"),
  (["items","rice","icon"],.string "rice"),
  (["items","rice","bgCol"],.string "white"),
  (["elderly","s1","Name"],.string "Tan"),
  (["elderly","s1","Address"],.string "Block 1")]

/-- All reads are answered from it. -/
example : ((fetchedZones false (fun _ => northServer) ["north"]).map fun z =>
    (z.zoneid,z.requests.map fun req => (req.id,req.items.map fun item => (item.id,item.qty)))) =
    [("north",[(some "r1",[("rice",2)])])] := rfl

end Fetched

section Items

variable {zh : Bool} {db : Database} {read read' : ItemRead}

def ItemRead.Fits (zh : Bool) (db : Database) (read : ItemRead) : Prop :=
  (getRequestItem zh read.itemID db).isSome = true → (read.value.bind Leaf.asInt).isSome = true

structure ItemRead.Tracks (zh : Bool) (db : Database) (read read' : ItemRead) : Prop where
  itemID : read'.itemID = read.itemID
  value : read'.value = read.value
  fits : read'.answered = true → read.Fits zh db

theorem ItemRead.answer_ok {called : Option (Option RequestItem)}
    (h : read.answer zh db = .ok (read',called)) :
    read.answered = true ∧ read' = read ∧ called = none ∨
    read.answered = false ∧ read' = { read with answered := true } ∧
      called = some (fetchedItem zh db read) ∧ read.Fits zh db := by
  unfold ItemRead.answer at h
  split at h
  · rename_i hanswered
    obtain ⟨rfl,rfl⟩ := Prod.mk.inj (Except.ok.inj h)
    exact .inl ⟨hanswered,rfl,rfl⟩
  · rename_i hopen
    have hopen' : read.answered = false := by simpa using hopen
    right
    split at h
    · rename_i hitem
      obtain ⟨rfl,rfl⟩ := Prod.mk.inj (Except.ok.inj h)
      exact ⟨hopen',rfl,by simp [fetchedItem,hitem],by simp [ItemRead.Fits,hitem]⟩
    · rename_i item hitem
      split at h
      · rename_i qty hqty
        obtain ⟨rfl,rfl⟩ := Prod.mk.inj (Except.ok.inj h)
        unfold forcedInt at hqty
        split at hqty
        · rename_i n hn
          obtain rfl := Except.ok.inj hqty
          exact ⟨hopen',rfl,by simp [fetchedItem,hitem,hn],by simp [ItemRead.Fits,hn]⟩
        · cases hqty
      · cases h

theorem ItemRead.Tracks.fetched (h : read.Tracks zh db read') :
    fetchedItem zh db read' = fetchedItem zh db read ∧ (read'.Fits zh db ↔ read.Fits zh db) := by
  simp [fetchedItem,ItemRead.Fits,h.itemID,h.value]

theorem delivers_item (zh : Bool) (db : Database) (read : ItemRead) :
    Delivers (ItemRead.answer zh) ItemRead.answered (fun m => m = db) (read.Tracks zh db)
      (fun r => Option.Rel Eq r (fetchedItem zh db read)) where
  quiet m s s' _ hok h := by
    obtain ⟨-,rfl,-⟩ | ⟨-,-,hcalled,-⟩ := ItemRead.answer_ok h
    · exact ⟨hok,rfl⟩
    · cases hcalled
  calls m s s' r hm hok h := by
    obtain ⟨-,-,hcalled⟩ | ⟨hopen,rfl,-,hfits⟩ := ItemRead.answer_ok h
    · cases hcalled
    · subst hm
      exact ⟨⟨hok.itemID,hok.value,fun _ => hok.fetched.2.mp hfits⟩,hopen,rfl⟩
  result m s s' r hm hok h := by
    obtain ⟨-,-,hcalled⟩ | ⟨-,-,hcalled,-⟩ := ItemRead.answer_ok h
    · cases hcalled
    · obtain rfl := Option.some.inj hcalled
      subst hm
      exact rel_self hok.fetched.1

end Items

section Requests

variable {zh : Bool} {A : Answers} {zoneID id : String}

def expectedItem (zh : Bool) (A : Answers) (zoneID id : String) (i : Nat) : Option RequestItem :=
  (contentReads zoneID id (A []))[i]?.bind (fetchedItem zh (A [0,i]))

def ItemAt (zh : Bool) (A : Answers) (zoneID id : String) (i : Nat) (read : ItemRead) : Prop :=
  ∃ read₀, (contentReads zoneID id (A []))[i]? = some read₀ ∧ read₀.Tracks zh (A [0,i]) read

abbrev TracksItems (zh : Bool) (A : Answers) (zoneID id : String)
    (items : Join ItemRead RequestItem) : Prop :=
  items.Tracking ItemRead.answered (ItemAt zh A zoneID id) Eq
    (expectedItem zh A zoneID id) (contentReads zoneID id (A [])).length

theorem delivers_items (zh : Bool) (A : Answers) (zoneID id : String) :
    Delivers (fun (m : Nat × Database) (j : Join ItemRead RequestItem) =>
        j.answer (ItemRead.answer zh) m.1 m.2) (Join.ended ItemRead.answered)
      (fun m => m.2 = A [0,m.1]) (TracksItems zh A zoneID id)
      (fun items => items.Perm (fetchedItems zh A zoneID id)) := by
  have hsub : ∀ i, Delivers (ItemRead.answer zh) ItemRead.answered (fun m => m = A [0,i])
      (ItemAt zh A zoneID id i)
      (fun r => Option.Rel Eq r (expectedItem zh A zoneID id i)) := fun i =>
    delivers_at (delivers_item zh (A [0,i])) fun read r hread hr => by
      simpa [expectedItem,hread] using hr
  have hjoin := delivers_join (n := (contentReads zoneID id (A [])).length) hsub
  refine ⟨⟨hjoin.quiet,hjoin.calls⟩,fun m j j' r hm hok h => ?_⟩
  have hr := hjoin.result m j j' r hm hok h
  rw [agree_eq,show expectedItem zh A zoneID id = fun i =>
    (contentReads zoneID id (A []))[i]?.bind (fetchedItem zh (A [0,i])) from rfl,
    filterMap_range] at hr
  exact hr

structure Body.Tracks (zh : Bool) (A : Answers) (zoneID id : String) (body : Body) : Prop where
  fields : requestFields zoneID id (A []) = some body.fields
  valid : ∀ read ∈ contentReads zoneID id (A []), ValidPart read.itemID
  items : TracksItems zh A zoneID id body.items
  elderly : body.items.ended ItemRead.answered = false ∧ body.elderly = [] ∨
    body.items.ended ItemRead.answered = true ∧ ValidPart body.fields.senderID ∧
      ∃ read, body.elderly = [read] ∧ read.items.Perm (fetchedItems zh A zoneID id)

def RequestFetch.Tracks (zh : Bool) (A : Answers) (zoneID id : String) : RequestFetch → Prop
  | .reading id' => id' = id
  | .malformed id' => id' = id ∧ requestFields zoneID id (A []) = none
  | .wellFormed id' body => id' = id ∧ body.Tracks zh A zoneID id

theorem Body.Tracks.sole {zh : Bool} {A : Answers} {body : Body} {k : Nat}
    {read : ElderlyRead} (h : body.Tracks zh A zoneID id) (hread : body.elderly[k]? = some read) :
    k = 0 ∧ body.elderly = [read] ∧ body.items.ended ItemRead.answered = true ∧
      ValidPart body.fields.senderID ∧ read.items.Perm (fetchedItems zh A zoneID id) := by
  rcases h.elderly with ⟨-,hnone⟩ | ⟨hended,hvalid,read',hone,hitems⟩
  · simp [hnone] at hread
  · rw [hone,List.getElem?_singleton] at hread
    split at hread
    · rename_i hk
      obtain rfl := Option.some.inj hread
      exact ⟨hk,hone,hended,hvalid,hitems⟩
    · cases hread

theorem contentReads_unanswered {db : Database} {read : ItemRead}
    (h : read ∈ contentReads zoneID id db) : read.answered = false := by
  obtain ⟨_,-,rfl⟩ := List.mem_map.mp h
  rfl

theorem tracksItems_start (zh : Bool) (A : Answers) (zoneID id : String) :
    TracksItems zh A zoneID id (.start (contentReads zoneID id (A []))) :=
  Join.tracking_start
    (fun _ read h => ⟨read,h,rfl,rfl,fun ha => by
      rw [contentReads_unanswered (List.mem_of_getElem? h)] at ha
      cases ha⟩)
    fun _ => contentReads_unanswered

theorem delivers_request (zh : Bool) (A : Answers) (zoneID id : String) :
    Delivers (RequestFetch.answer zh zoneID) RequestFetch.fired (fun m => m.2 = A m.1)
      (RequestFetch.Tracks zh A zoneID id)
      (fun r => Option.Rel SameRequest r (fetchedRequest zh A zoneID id)) where
  quiet m f f' hm hok h := by
    cases RequestFetch.moves_of_answer h with
    | ignored => exact ⟨hok,rfl⟩
    | wellFormed id' req hfields hpath hvalid =>
      obtain rfl : id' = id := hok
      rw [hm,hpath] at hfields hvalid ⊢
      have hopen : (Join.start (ρ := RequestItem) (contentReads zoneID id' (A []))).ended
          ItemRead.answered = false :=
        Join.ended_start fun _ => contentReads_unanswered
      exact ⟨⟨rfl,hfields,hvalid,tracksItems_start zh A zoneID id',.inl ⟨hopen,rfl⟩⟩,rfl⟩
    | item id' body i items hitems hpath =>
      obtain ⟨rfl,hbody⟩ := hok
      have hdb : m.2 = A [0,i] := by rw [hm,hpath]
      obtain ⟨htracks,hended⟩ :=
        (delivers_items zh A zoneID id').quiet (i,m.2) _ _ hdb hbody.items hitems
      exact ⟨⟨rfl,hbody.fields,hbody.valid,htracks,hended ▸ hbody.elderly⟩,rfl⟩
    | allItems id' body i items collected hitems hpath hvalid =>
      obtain ⟨rfl,hbody⟩ := hok
      have hdb : m.2 = A [0,i] := by rw [hm,hpath]
      have hdel := delivers_items zh A zoneID id'
      obtain ⟨htracks,hbefore,hended⟩ := hdel.calls (i,m.2) _ _ _ hdb hbody.items hitems
      have hresult := hdel.result (i,m.2) _ _ _ hdb hbody.items hitems
      rcases hbody.elderly with ⟨-,hnone⟩ | ⟨hafter,-⟩
      · refine ⟨⟨rfl,hbody.fields,hbody.valid,htracks,
          .inr ⟨hended,hvalid,⟨collected,false⟩,?_,hresult⟩⟩,?_⟩
        · simp [hnone]
        · simp [RequestFetch.fired,hnone]
      · rw [hbefore] at hafter
        cases hafter
  calls m f f' r hm hok h := by
    cases RequestFetch.moves_of_answer h with
    | malformed id' hfields hpath =>
      obtain rfl : id' = id := hok
      rw [hm,hpath] at hfields
      exact ⟨⟨rfl,hfields⟩,rfl,rfl⟩
    | details id' body k items hread hpath =>
      obtain ⟨rfl,hbody⟩ := hok
      obtain ⟨rfl,hone,hended,hvalid,hitems⟩ := hbody.sole hread
      refine ⟨⟨rfl,hbody.fields,hbody.valid,hbody.items,
        .inr ⟨hended,hvalid,⟨items,true⟩,?_,hitems⟩⟩,?_,?_⟩
      · simp [hone]
      · simp [RequestFetch.fired,hone]
      · simp [RequestFetch.fired,hone]
  result m f f' r hm hok h := by
    cases RequestFetch.moves_of_answer h with
    | malformed id' hfields hpath =>
      obtain rfl : id' = id := hok
      rw [hm,hpath] at hfields
      rw [fetchedRequest,hfields]
      exact .none
    | details id' body k items hread hpath =>
      obtain ⟨rfl,hbody⟩ := hok
      obtain ⟨rfl,-,-,-,hitems⟩ := hbody.sole hread
      rw [fetchedRequest,hbody.fields,Option.map_some,hm,hpath]
      exact .some ⟨hitems,rfl⟩

end Requests

section Zones

variable {zh : Bool} {A : Answers} {zoneid : String}

def RequestAt (zh : Bool) (A : Answers) (zoneid : String) (i : Nat) (f : RequestFetch) : Prop :=
  ∃ id, (keys (zoneRef zoneid) (A []))[i]? = some id ∧ f.Tracks zh (A.below i) zoneid id

def expectedRequest (zh : Bool) (A : Answers) (zoneid : String) (i : Nat) : Option Request :=
  (keys (zoneRef zoneid) (A []))[i]?.bind (fetchedRequest zh (A.below i) zoneid)

abbrev TracksRequests (zh : Bool) (A : Answers) (zoneid : String)
    (requests : Join RequestFetch Request) : Prop :=
  requests.Tracking RequestFetch.fired (RequestAt zh A zoneid) SameRequest
    (expectedRequest zh A zoneid) (keys (zoneRef zoneid) (A [])).length

theorem delivers_requestAt (zh : Bool) (A : Answers) (zoneid : String) (i : Nat) :
    Delivers (RequestFetch.answer zh zoneid) RequestFetch.fired
      (fun m => m.2 = A (i :: m.1)) (RequestAt zh A zoneid i)
      (fun r => Option.Rel SameRequest r (expectedRequest zh A zoneid i)) :=
  delivers_at (delivers_request zh (A.below i) zoneid) fun id r hid hr => by
    simpa [expectedRequest,hid] using hr

theorem delivers_requests (zh : Bool) (A : Answers) (zoneid : String) :
    Delivers (fun (m : Nat × Reply) (j : Join RequestFetch Request) =>
        j.answer (RequestFetch.answer zh zoneid) m.1 m.2) (Join.ended RequestFetch.fired)
      (fun m => m.2.2 = A (m.1 :: m.2.1)) (TracksRequests zh A zoneid)
      (fun reqs => Agree SameRequest reqs
        (numbered (fun i => fetchedRequest zh (A.below i) zoneid)
          (keys (zoneRef zoneid) (A [])))) := by
  have hjoin := delivers_join (n := (keys (zoneRef zoneid) (A [])).length)
    (delivers_requestAt zh A zoneid)
  refine ⟨⟨hjoin.quiet,hjoin.calls⟩,fun m j j' r hm hok h => ?_⟩
  rw [← filterMap_range]
  exact hjoin.result m j j' r hm hok h

def ZoneFetch.Tracks (zh : Bool) (A : Answers) (zoneid : String) : ZoneFetch → Prop
  | .reading zoneid' => zoneid' = zoneid
  | .absent zoneid' => zoneid' = zoneid ∧ below (zoneRef zoneid) (A []) = []
  | .present zoneid' requests => zoneid' = zoneid ∧ below (zoneRef zoneid) (A []) ≠ [] ∧
    (∀ id ∈ keys (zoneRef zoneid) (A []), ValidPart zoneid ∧ ValidPart id) ∧
    TracksRequests zh A zoneid requests

theorem tracksRequests_start (zh : Bool) (A : Answers) (zoneid : String) :
    TracksRequests zh A zoneid
      (.start ((keys (zoneRef zoneid) (A [])).map RequestFetch.reading)) :=
  Join.tracking_map (fun _ id hid => ⟨id,hid,rfl⟩) fun _ => rfl

theorem delivers_zone (zh : Bool) (A : Answers) (zoneid : String) :
    Delivers (ZoneFetch.answer zh) ZoneFetch.fired (fun m => m.2 = A m.1)
      (ZoneFetch.Tracks zh A zoneid)
      (fun r => Option.Rel SameZone r (fetchedZone zh A zoneid)) where
  quiet m z z' hm hok h := by
    generalize hcalled : (none : Option (Option ZoneRequests)) = called at h
    cases ZoneFetch.moves_of_answer h with
    | ignored => exact ⟨hok,rfl⟩
    | absent => cases hcalled
    | present zoneid' hsome hpath hvalid =>
      obtain rfl : zoneid' = zoneid := hok
      rw [hm,hpath] at hsome hvalid ⊢
      refine ⟨⟨rfl,hsome,hvalid,tracksRequests_start zh A zoneid'⟩,
        Join.ended_start fun f hf => ?_⟩
      obtain ⟨id,-,rfl⟩ := List.mem_map.mp hf
      rfl
    | request zoneid' i path requests requests' reqs hrun hpath =>
      obtain rfl : reqs = none := by
        cases reqs with
        | none => rfl
        | some reqs => cases hcalled
      obtain ⟨rfl,hsome,hvalid,htracks⟩ := hok
      have hdb : m.2 = A (i :: path) := by rw [hm,hpath]
      obtain ⟨htracks',hended⟩ :=
        (delivers_requests zh A zoneid').quiet (i,path,m.2) _ _ hdb htracks hrun
      exact ⟨⟨rfl,hsome,hvalid,htracks'⟩,hended⟩
  calls m z z' r hm hok h := by
    generalize hcalled : some r = called at h
    cases ZoneFetch.moves_of_answer h with
    | ignored => cases hcalled
    | absent zoneid' hnone hpath =>
      obtain rfl : zoneid' = zoneid := hok
      rw [hm,hpath] at hnone
      exact ⟨⟨rfl,hnone⟩,rfl,rfl⟩
    | present => cases hcalled
    | request zoneid' i path requests requests' reqs hrun hpath =>
      cases reqs with
      | none => cases hcalled
      | some reqs =>
        obtain ⟨rfl,hsome,hvalid,htracks⟩ := hok
        have hdb : m.2 = A (i :: path) := by rw [hm,hpath]
        obtain ⟨htracks',hended⟩ :=
          (delivers_requests zh A zoneid').calls (i,path,m.2) _ _ _ hdb htracks hrun
        exact ⟨⟨rfl,hsome,hvalid,htracks'⟩,hended⟩
  result m z z' r hm hok h := by
    generalize hcalled : some r = called at h
    cases ZoneFetch.moves_of_answer h with
    | ignored => cases hcalled
    | absent zoneid' hnone hpath =>
      obtain rfl : zoneid' = zoneid := hok
      obtain rfl := Option.some.inj hcalled
      rw [hm,hpath] at hnone
      rw [fetchedZone,if_pos hnone]
      exact .none
    | present => cases hcalled
    | request zoneid' i path requests requests' reqs hrun hpath =>
      cases reqs with
      | none => cases hcalled
      | some reqs =>
        obtain rfl := Option.some.inj hcalled
        obtain ⟨rfl,hsome,-,htracks⟩ := hok
        have hdb : m.2 = A (i :: path) := by rw [hm,hpath]
        rw [fetchedZone,if_neg hsome]
        exact .some ⟨rfl,(delivers_requests zh A zoneid').result (i,path,m.2) _ _ _ hdb htracks
          hrun⟩

end Zones

section Fetching

variable {zh : Bool} {A : Answers} {uid : String} {zones : List String}

def ZoneAt (zh : Bool) (A : Answers) (zones : List String) (i : Nat) (z : ZoneFetch) : Prop :=
  ∃ zoneid, zones[i]? = some zoneid ∧ z.Tracks zh (A.below i) zoneid

def expectedZone (zh : Bool) (A : Answers) (zones : List String) (i : Nat) :
    Option ZoneRequests :=
  zones[i]?.bind (fetchedZone zh (A.below i))

abbrev TracksZones (zh : Bool) (A : Answers) (zones : List String)
    (j : Join ZoneFetch ZoneRequests) : Prop :=
  j.Tracking ZoneFetch.fired (ZoneAt zh A zones) SameZone (expectedZone zh A zones) zones.length

theorem delivers_zoneAt (zh : Bool) (A : Answers) (zones : List String) (i : Nat) :
    Delivers (ZoneFetch.answer zh) ZoneFetch.fired (fun m => m.2 = A (i :: m.1))
      (ZoneAt zh A zones i) (fun r => Option.Rel SameZone r (expectedZone zh A zones i)) :=
  delivers_at (delivers_zone zh (A.below i)) fun zoneid r hid hr => by
    simpa [expectedZone,hid] using hr

theorem delivers_zones (zh : Bool) (A : Answers) (zones : List String) :
    Delivers (fun (m : Nat × Reply) (j : Join ZoneFetch ZoneRequests) =>
        j.answer (ZoneFetch.answer zh) m.1 m.2) (Join.ended ZoneFetch.fired)
      (fun m => m.2.2 = A (m.1 :: m.2.1)) (TracksZones zh A zones)
      (fun snapshot => Agree SameZone snapshot (fetchedZones zh A zones)) := by
  have hjoin := delivers_join (n := zones.length) (delivers_zoneAt zh A zones)
  refine ⟨⟨hjoin.quiet,hjoin.calls⟩,fun m j j' r hm hok h => ?_⟩
  rw [fetchedZones,← filterMap_range]
  exact hjoin.result m j j' r hm hok h

def Fetch.Tracks (zh : Bool) (A : Answers) (uid : String) : Fetch → Prop
  | .reading uid' => uid' = uid
  | .refused => retrieveZones uid (A []) = none
  | .fetching j => ∃ zones, retrieveZones uid (A []) = some zones ∧
    (∀ zone ∈ zones, ValidPart zone) ∧ TracksZones zh A zones j

theorem tracksZones_start (zh : Bool) (A : Answers) (zones : List String) :
    TracksZones zh A zones (.start (zones.map ZoneFetch.reading)) :=
  Join.tracking_map (fun _ zoneid hid => ⟨zoneid,hid,rfl⟩) fun _ => rfl

theorem delivers_fetch (zh : Bool) (A : Answers) (uid : String) :
    Delivers (Fetch.answer zh) Fetch.fired (fun m => m.2 = A m.1) (Fetch.Tracks zh A uid)
      (fun snapshot => ∃ zones, retrieveZones uid (A []) = some zones ∧
        Agree SameZone snapshot (fetchedZones zh A zones)) where
  quiet m f f' hm hok h := by
    generalize hcalled : (none : Option (List ZoneRequests)) = called at h
    cases Fetch.moves_of_answer h with
    | ignored => exact ⟨hok,rfl⟩
    | refused uid' hnone hpath =>
      obtain rfl : uid' = uid := hok
      rw [hm,hpath] at hnone
      exact ⟨hnone,rfl⟩
    | zones uid' zones hread hpath hvalid =>
      obtain rfl : uid' = uid := hok
      rw [hm,hpath] at hread
      refine ⟨⟨zones,hread,hvalid,tracksZones_start zh A zones⟩,Join.ended_start fun z hz => ?_⟩
      obtain ⟨zoneid,-,rfl⟩ := List.mem_map.mp hz
      rfl
    | zone i path j j' called hrun hpath =>
      subst hcalled
      obtain ⟨zones,hread,hvalid,htracks⟩ := hok
      have hdb : m.2 = A (i :: path) := by rw [hm,hpath]
      obtain ⟨htracks',hended⟩ :=
        (delivers_zones zh A zones).quiet (i,path,m.2) _ _ hdb htracks hrun
      exact ⟨⟨zones,hread,hvalid,htracks'⟩,hended⟩
  calls m f f' r hm hok h := by
    generalize hcalled : some r = called at h
    cases Fetch.moves_of_answer h with
    | ignored => cases hcalled
    | refused => cases hcalled
    | zones => cases hcalled
    | zone i path j j' called hrun hpath =>
      subst hcalled
      obtain ⟨zones,hread,hvalid,htracks⟩ := hok
      have hdb : m.2 = A (i :: path) := by rw [hm,hpath]
      obtain ⟨htracks',hended⟩ :=
        (delivers_zones zh A zones).calls (i,path,m.2) _ _ _ hdb htracks hrun
      exact ⟨⟨zones,hread,hvalid,htracks'⟩,hended⟩
  result m f f' r hm hok h := by
    generalize hcalled : some r = called at h
    cases Fetch.moves_of_answer h with
    | ignored => cases hcalled
    | refused => cases hcalled
    | zones => cases hcalled
    | zone i path j j' called hrun hpath =>
      subst hcalled
      obtain ⟨zones,hread,-,htracks⟩ := hok
      have hdb : m.2 = A (i :: path) := by rw [hm,hpath]
      exact ⟨zones,hread,(delivers_zones zh A zones).result (i,path,m.2) _ _ _ hdb htracks hrun⟩

end Fetching

end Answr
