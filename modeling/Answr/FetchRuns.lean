import Answr.Fetch
import Answr.Staleness
set_option autoImplicit false

/-! What a fetch hands to its handler: each zone and each request once, as long as every
countdown is the number of calls that are still out. -/

namespace Answr
open LeafTree Countdown

section Counting

theorem once_item (zh : Bool) :
    Once (ItemRead.answer zh) ItemRead.answered (fun _ => True) (fun _ => True) where
  quiet db s s' _ _ h := by
    unfold ItemRead.answer at h
    split at h
    · obtain ⟨rfl,-⟩ := Prod.mk.inj (Except.ok.inj h)
      exact ⟨trivial,rfl⟩
    · split at h
      · cases h
      · split at h
        · cases h
        · cases h
  calls db s s' r _ _ h := by
    unfold ItemRead.answer at h
    split at h
    · cases h
    · rename_i hopen
      have hopen' : s.answered = false := by simpa using hopen
      split at h
      · obtain ⟨rfl,-⟩ := Prod.mk.inj (Except.ok.inj h)
        exact ⟨trivial,hopen',rfl⟩
      · split at h
        · obtain ⟨rfl,-⟩ := Prod.mk.inj (Except.ok.inj h)
          exact ⟨trivial,hopen',rfl⟩
        · cases h

/-- The key that a request fetch gives its request. -/
def keyIn (zoneID id : String) : Option String := (requestRef zoneID id).getLast?

/-- The items are joined once at most, so the sender is read once at most. -/
structure Body.Ok (zoneID id : String) (body : Body) : Prop where
  fetched : body.fields.Fetched
  id : body.fields.id = keyIn zoneID id
  items : body.items.Counting ItemRead.answered fun _ => True
  elderly : body.items.ended ItemRead.answered = false ∧ body.elderly = [] ∨
    body.items.ended ItemRead.answered = true ∧ ∃ read, body.elderly = [read]

def RequestFetch.Ok (zoneID : String) : RequestFetch → Prop
  | .wellFormed id body => body.Ok zoneID id
  | _ => True

def RequestFetch.fired : RequestFetch → Bool
  | .reading _ => false
  | .malformed _ => true
  | .wellFormed _ body => body.elderly.any (·.answered)

theorem requestFields_ok {zoneID id : String} {db : Database} {req : Request}
    (h : requestFields zoneID id db = some req) : req.Fetched ∧ req.id = keyIn zoneID id := by
  simp only [requestFields,Option.bind_eq_bind,Option.bind_eq_some_iff,Option.pure_def,
    Option.some.injEq] at h
  obtain ⟨_,-,_,-,_,-,_,-,rfl⟩ := h
  refine ⟨⟨?_,rfl,rfl,rfl⟩,rfl⟩
  simp [child_requests]

variable {zh : Bool} {zoneID : String} {m : Reply} {f f' : RequestFetch}
  {called : Option (Option Request)}

/-- The ways in which an answer can move a request fetch. -/
inductive RequestFetch.Moves (zh : Bool) (zoneID : String) (m : Reply) :
    RequestFetch → RequestFetch → Option (Option Request) → Prop where
  | ignored (f : RequestFetch) : Moves zh zoneID m f f none
  | malformed (id : String) : requestFields zoneID id m.2 = none → m.1 = [] →
      Moves zh zoneID m (.reading id) (.malformed id) (some none)
  | wellFormed (id : String) (req : Request) :
      requestFields zoneID id m.2 = some req → m.1 = [] →
      (∀ read ∈ contentReads zoneID id m.2, ValidPart read.itemID) →
      Moves zh zoneID m (.reading id)
        (.wellFormed id ⟨req,.start (contentReads zoneID id m.2),[]⟩) none
  | item (id : String) (body : Body) (i : Nat) (items : Join ItemRead RequestItem) :
      body.items.answer (ItemRead.answer zh) i m.2 = .ok (items,none) → m.1 = [0,i] →
      Moves zh zoneID m (.wellFormed id body) (.wellFormed id { body with items := items }) none
  | allItems (id : String) (body : Body) (i : Nat) (items : Join ItemRead RequestItem)
      (collected : List RequestItem) :
      body.items.answer (ItemRead.answer zh) i m.2 = .ok (items,some collected) →
      m.1 = [0,i] → ValidPart body.fields.senderID →
      Moves zh zoneID m (.wellFormed id body) (.wellFormed id
        { body with items := items, elderly := body.elderly ++ [⟨collected,false⟩] }) none
  | details (id : String) (body : Body) (k : Nat) (items : List RequestItem) :
      body.elderly[k]? = some ⟨items,false⟩ → m.1 = [1,k] →
      Moves zh zoneID m (.wellFormed id body)
        (.wellFormed id { body with elderly := body.elderly.set k ⟨items,true⟩ })
        (some (some (addDetails body.fields items
          (retrieveElderlyDetails body.fields.senderID m.2))))

theorem RequestFetch.moves_of_answer (h : f.answer zh zoneID m = .ok (f',called)) :
    Moves zh zoneID m f f' called := by
  cases f with
  | reading id =>
    simp only [RequestFetch.answer] at h
    split at h
    · rename_i hpath
      split at h
      · rename_i hfields
        obtain ⟨rfl,rfl⟩ := Prod.mk.inj (Except.ok.inj h)
        exact .malformed id hfields hpath
      · rename_i req hfields
        split at h
        · cases h
        · rename_i items hitems
          obtain ⟨hvalid,rfl⟩ := getAllItems_ok_iff.mp hitems
          obtain ⟨rfl,rfl⟩ := Prod.mk.inj (Except.ok.inj h)
          exact .wellFormed id req hfields hpath hvalid
    · obtain ⟨rfl,rfl⟩ := Prod.mk.inj (Except.ok.inj h)
      exact .ignored _
  | malformed id =>
    obtain ⟨rfl,rfl⟩ := Prod.mk.inj (Except.ok.inj h)
    exact .ignored _
  | wellFormed id body =>
    simp only [RequestFetch.answer] at h
    split at h
    · rename_i i hpath
      split at h
      · cases h
      · rename_i items hitems
        obtain ⟨rfl,rfl⟩ := Prod.mk.inj (Except.ok.inj h)
        exact .item id body i items hitems hpath
      · rename_i items collected hitems
        split at h
        · cases h
        · rename_i read hread
          obtain ⟨hvalid,rfl⟩ := (observeSingleEvent_ok_iff (by decide) (by decide)).mp hread
          obtain ⟨rfl,rfl⟩ := Prod.mk.inj (Except.ok.inj h)
          exact .allItems id body i items collected hitems hpath (hvalid _ (by simp))
    · rename_i k hpath
      split at h
      · rename_i items hread
        obtain ⟨rfl,rfl⟩ := Prod.mk.inj (Except.ok.inj h)
        exact .details id body k items hread hpath
      · obtain ⟨rfl,rfl⟩ := Prod.mk.inj (Except.ok.inj h)
        exact .ignored _
    · obtain ⟨rfl,rfl⟩ := Prod.mk.inj (Except.ok.inj h)
      exact .ignored _

theorem once_request (zh : Bool) (zoneID : String) :
    Once (RequestFetch.answer zh zoneID) RequestFetch.fired (fun _ => True)
      (RequestFetch.Ok zoneID) where
  quiet m f f' _ hok h := by
    cases RequestFetch.moves_of_answer h with
    | ignored => exact ⟨hok,rfl⟩
    | wellFormed id req hfields =>
      obtain ⟨hfetched,hid⟩ := requestFields_ok hfields
      have hnone : ∀ read ∈ contentReads zoneID id m.2, read.answered = false := by
        simp [contentReads]
      have hstart : (Join.start (ρ := RequestItem) (contentReads zoneID id m.2)).Counting
          ItemRead.answered fun _ => True := Join.counting_start (fun _ _ => trivial) hnone
      have hopen : (Join.start (ρ := RequestItem) (contentReads zoneID id m.2)).ended
          ItemRead.answered = false := Join.ended_start hnone
      exact ⟨⟨hfetched,hid,hstart,.inl ⟨hopen,rfl⟩⟩,rfl⟩
    | item id body i items hitems =>
      obtain ⟨hcounting,hended⟩ :=
        (once_join (once_item zh)).quiet (i,m.2) _ _ trivial hok.items hitems
      exact ⟨⟨hok.fetched,hok.id,hcounting,hended ▸ hok.elderly⟩,rfl⟩
    | allItems id body i items collected hitems =>
      obtain ⟨hcounting,hbefore,hended⟩ :=
        (once_join (once_item zh)).calls (i,m.2) _ _ _ trivial hok.items hitems
      rcases hok.elderly with ⟨-,hnone⟩ | ⟨hafter,-⟩
      · refine ⟨⟨hok.fetched,hok.id,hcounting,.inr ⟨hended,⟨collected,false⟩,?_⟩⟩,?_⟩
        · simp [hnone]
        · simp [RequestFetch.fired,hnone]
      · rw [hbefore] at hafter
        cases hafter
  calls m f f' r _ hok h := by
    cases RequestFetch.moves_of_answer h with
    | malformed id hfields => exact ⟨trivial,rfl,rfl⟩
    | details id body k items hread =>
      rcases hok.elderly with ⟨-,hnone⟩ | ⟨hended,read,hone⟩
      · simp [hnone] at hread
      · -- the only read of the sender
        rw [hone,List.getElem?_singleton] at hread
        split at hread
        · rename_i hk
          subst hk
          obtain rfl := Option.some.inj hread
          refine ⟨⟨hok.fetched,hok.id,hok.items,.inr ⟨hended,⟨items,true⟩,?_⟩⟩,?_,?_⟩
          · simp [hone]
          · simp [RequestFetch.fired,hone]
          · simp [RequestFetch.fired,hone]
        · cases hread

theorem request_tagged (zh : Bool) (zoneID : String) (m : Reply) :
    Tagged (fun f => keyIn zoneID f.id) Request.id Request.Fetched
      (RequestFetch.answer zh zoneID) (RequestFetch.Ok zoneID) m where
  keeps f f' called _ h := by
    cases RequestFetch.moves_of_answer h <;> rfl
  gives f f' r hok h := by
    cases RequestFetch.moves_of_answer h with
    | details id body k items hread =>
      obtain ⟨hid,hcreated,hstatus,hslot⟩ := hok.fetched
      exact ⟨hok.id,hid,hcreated,hstatus,hslot⟩

end Counting

section Zones

/-- What the join of a zone's requests collects. -/
abbrev Collects (zoneid : String) : Join RequestFetch Request → Prop :=
  Join.Collecting RequestFetch.fired (fun f => keyIn zoneid f.id) Request.id Request.Fetched

structure ZoneFetch.PresentOk (held : String → String → Prop) (zoneid : String)
    (requests : Join RequestFetch Request) : Prop where
  counting : requests.Counting RequestFetch.fired (RequestFetch.Ok zoneid)
  collecting : Collects zoneid requests
  once : (requests.subs.map RequestFetch.id).Nodup
  held : ∀ f ∈ requests.subs, held zoneid f.id

def ZoneFetch.Ok (held : String → String → Prop) : ZoneFetch → Prop
  | .present zoneid requests => PresentOk held zoneid requests
  | _ => True

def ZoneFetch.fired : ZoneFetch → Bool
  | .reading _ => false
  | .absent _ => true
  | .present _ requests => requests.ended RequestFetch.fired

/-- A fetched zone: well-formed requests under distinct keys that it held. -/
structure GoodZone (held : String → String → Prop) (z : ZoneRequests) : Prop where
  fetched : ∀ req ∈ z.requests, req.Fetched
  keys : ∃ ids : List String, ids.Nodup ∧ (∀ id ∈ ids, held z.zoneid id) ∧
    (z.requests.map (·.id)).Subperm (ids.map (keyIn z.zoneid))

variable {held held' : String → String → Prop} {zh : Bool} {m : Reply} {z z' : ZoneFetch}
  {called : Option (Option ZoneRequests)}

inductive ZoneFetch.Moves (zh : Bool) (m : Reply) :
    ZoneFetch → ZoneFetch → Option (Option ZoneRequests) → Prop where
  | ignored (z : ZoneFetch) : Moves zh m z z none
  | absent (zoneid : String) : below (zoneRef zoneid) m.2 = [] → m.1 = [] →
      Moves zh m (.reading zoneid) (.absent zoneid) (some none)
  | present (zoneid : String) : below (zoneRef zoneid) m.2 ≠ [] → m.1 = [] →
      (∀ id ∈ keys (zoneRef zoneid) m.2, ValidPart zoneid ∧ ValidPart id) →
      Moves zh m (.reading zoneid) (.present zoneid
      (.start ((keys (zoneRef zoneid) m.2).map RequestFetch.reading))) none
  | request (zoneid : String) (i : Nat) (path : List Nat)
      (requests requests' : Join RequestFetch Request) (called : Option (List Request)) :
      requests.answer (RequestFetch.answer zh zoneid) i (path,m.2) = .ok (requests',called) →
      m.1 = i :: path →
      Moves zh m (.present zoneid requests) (.present zoneid requests')
        (called.map fun reqs => some ⟨zoneid,reqs⟩)

theorem ZoneFetch.moves_of_answer (h : z.answer zh m = .ok (z',called)) :
    Moves zh m z z' called := by
  cases z with
  | reading zoneid =>
    simp only [ZoneFetch.answer] at h
    split at h
    · rename_i hpath
      split at h
      · rename_i hnone
        obtain ⟨rfl,rfl⟩ := Prod.mk.inj (Except.ok.inj h)
        exact .absent zoneid hnone hpath
      · rename_i hsome
        split at h
        · cases h
        · rename_i requests hrequests
          obtain ⟨hvalid,rfl⟩ := getRequests_ok_iff.mp hrequests
          obtain ⟨rfl,rfl⟩ := Prod.mk.inj (Except.ok.inj h)
          exact .present zoneid hsome hpath hvalid
    · obtain ⟨rfl,rfl⟩ := Prod.mk.inj (Except.ok.inj h)
      exact .ignored _
  | absent zoneid =>
    obtain ⟨rfl,rfl⟩ := Prod.mk.inj (Except.ok.inj h)
    exact .ignored _
  | present zoneid requests =>
    simp only [ZoneFetch.answer] at h
    split at h
    · rename_i i path hpath
      split at h
      · cases h
      · rename_i requests' called hrun
        obtain ⟨rfl,rfl⟩ := Prod.mk.inj (Except.ok.inj h)
        exact .request zoneid i path requests requests' called hrun hpath
    · obtain ⟨rfl,rfl⟩ := Prod.mk.inj (Except.ok.inj h)
      exact .ignored _

/-- The zones hold what an answer finds in them. -/
def HeldIn (held : String → String → Prop) (m : Reply) : Prop :=
  ∀ zoneid, ∀ id ∈ keys (zoneRef zoneid) m.2, held zoneid id

theorem presentOk_start (hm : HeldIn held m) (zoneid : String) :
    ZoneFetch.PresentOk held zoneid
      (.start ((keys (zoneRef zoneid) m.2).map RequestFetch.reading)) where
  counting := by
    refine Join.counting_start (fun f hf => ?_) (fun f hf => ?_)
    · obtain ⟨id,-,rfl⟩ := List.mem_map.mp hf
      trivial
    · obtain ⟨id,-,rfl⟩ := List.mem_map.mp hf
      rfl
  collecting := Join.collecting_start _
  once := by
    have hids : RequestFetch.id ∘ RequestFetch.reading = id := rfl
    rw [Join.start,List.map_map,hids,List.map_id]
    exact keys_nodup _ _
  held f hf := by
    obtain ⟨id,hid,rfl⟩ := List.mem_map.mp hf
    exact hm zoneid id hid

theorem ZoneFetch.PresentOk.next {zoneid : String} {requests requests' : Join RequestFetch Request}
    (h : ZoneFetch.PresentOk held zoneid requests) {i : Nat} {reqs : Option (List Request)}
    (hrun : requests.answer (RequestFetch.answer zh zoneid) i m = .ok (requests',reqs)) :
    ZoneFetch.PresentOk held zoneid requests' := by
  have hids : requests'.subs.map RequestFetch.id = requests.subs.map RequestFetch.id :=
    Join.answer_tags (fun f f' _ _ ha => by cases RequestFetch.moves_of_answer ha <;> rfl)
      h.counting.subs hrun
  have honce := once_join (once_request zh zoneid)
  refine ⟨?_,h.collecting.next (once_request zh zoneid) trivial (request_tagged zh zoneid m)
    h.counting.subs hrun,hids ▸ h.once,fun f hf => ?_⟩
  · cases reqs with
    | none => exact (honce.quiet (i,m) _ _ trivial h.counting hrun).1
    | some reqs => exact (honce.calls (i,m) _ _ _ trivial h.counting hrun).1
  · have hmem : f.id ∈ requests'.subs.map RequestFetch.id := List.mem_map_of_mem hf
    rw [hids] at hmem
    obtain ⟨f₀,hf₀,hid⟩ := List.mem_map.mp hmem
    exact hid ▸ h.held f₀ hf₀

theorem ZoneFetch.PresentOk.good {zoneid : String} {requests : Join RequestFetch Request}
    (h : ZoneFetch.PresentOk held zoneid requests) :
    GoodZone held ⟨zoneid,requests.collected⟩ where
  fetched := h.collecting.good
  keys := by
    refine ⟨requests.subs.map RequestFetch.id,h.once,fun id hid => ?_,?_⟩
    · obtain ⟨f,hf,rfl⟩ := List.mem_map.mp hid
      exact h.held f hf
    · rw [List.map_map]
      exact h.collecting.tags.trans (List.filter_sublist.map _).subperm

theorem once_zone (zh : Bool) (held : String → String → Prop) :
    Once (ZoneFetch.answer zh) ZoneFetch.fired (HeldIn held) (ZoneFetch.Ok held) where
  quiet m z z' hm hok h := by
    generalize hcalled : (none : Option (Option ZoneRequests)) = called at h
    cases ZoneFetch.moves_of_answer h with
    | ignored => exact ⟨hok,rfl⟩
    | absent => cases hcalled
    | present zoneid =>
      refine ⟨presentOk_start hm zoneid,Join.ended_start fun f hf => ?_⟩
      obtain ⟨id,-,rfl⟩ := List.mem_map.mp hf
      rfl
    | request zoneid i path requests requests' reqs hrun =>
      obtain rfl : reqs = none := by
        cases reqs with
        | none => rfl
        | some reqs => cases hcalled
      exact ⟨hok.next hrun,((once_join (once_request zh zoneid)).quiet (i,path,m.2) _ _ trivial
        hok.counting hrun).2⟩
  calls m z z' r hm hok h := by
    generalize hcalled : some r = called at h
    cases ZoneFetch.moves_of_answer h with
    | ignored => cases hcalled
    | absent zoneid => exact ⟨trivial,rfl,rfl⟩
    | present zoneid => cases hcalled
    | request zoneid i path requests requests' reqs hrun =>
      cases reqs with
      | none => cases hcalled
      | some reqs =>
        exact ⟨hok.next hrun,((once_join (once_request zh zoneid)).calls (i,path,m.2) _ _ _
          trivial hok.counting hrun).2⟩

theorem zone_tagged (zh : Bool) (held : String → String → Prop) (m : Reply) :
    Tagged ZoneFetch.zoneid ZoneRequests.zoneid (GoodZone held) (ZoneFetch.answer zh)
      (ZoneFetch.Ok held) m where
  keeps z z' called _ h := by
    cases ZoneFetch.moves_of_answer h <;> rfl
  gives z z' r hok h := by
    generalize hcalled : some (some r) = called at h
    cases ZoneFetch.moves_of_answer h with
    | ignored => cases hcalled
    | absent => cases hcalled
    | present => cases hcalled
    | request zoneid i path requests requests' reqs hrun =>
      cases reqs with
      | none => cases hcalled
      | some reqs =>
        obtain rfl := Option.some.inj (Option.some.inj hcalled)
        refine ⟨rfl,?_⟩
        rw [← Join.called_eq hrun]
        exact (hok.next hrun).good

end Zones

section Snapshot

variable {held held' : String → String → Prop} {zh : Bool} {m : Reply} {f f' : Fetch}
  {called : Option (List ZoneRequests)} {snapshot : List ZoneRequests}

/-- What is fetched: distinct zones, each a good one. -/
structure GoodSnapshot (held : String → String → Prop) (snapshot : List ZoneRequests) :
    Prop where
  once : (snapshot.map (·.zoneid)).Nodup
  keys : ∀ z ∈ snapshot, IsKey z.zoneid
  good : ∀ z ∈ snapshot, GoodZone held z

structure Fetch.FetchingOk (held : String → String → Prop)
    (zones : Join ZoneFetch ZoneRequests) : Prop where
  counting : zones.Counting ZoneFetch.fired (ZoneFetch.Ok held)
  collecting : zones.Collecting ZoneFetch.fired ZoneFetch.zoneid ZoneRequests.zoneid
    (GoodZone held)
  once : (zones.subs.map ZoneFetch.zoneid).Nodup
  keys : ∀ z ∈ zones.subs, IsKey z.zoneid

def Fetch.Ok (held : String → String → Prop) : Fetch → Prop
  | .fetching zones => FetchingOk held zones
  | _ => True

def Fetch.fired : Fetch → Bool
  | .fetching zones => zones.ended ZoneFetch.fired
  | _ => false

inductive Fetch.Moves (zh : Bool) (m : Reply) : Fetch → Fetch → Option (List ZoneRequests) →
    Prop where
  | ignored (f : Fetch) : Moves zh m f f none
  | refused (uid : String) : retrieveZones uid m.2 = none → m.1 = [] →
      Moves zh m (.reading uid) .refused none
  | zones (uid : String) (zones : List String) :
      retrieveZones uid m.2 = some zones → m.1 = [] → (∀ zone ∈ zones, ValidPart zone) →
      Moves zh m (.reading uid) (.fetching (.start (zones.map ZoneFetch.reading))) none
  | zone (i : Nat) (path : List Nat) (zones zones' : Join ZoneFetch ZoneRequests)
      (called : Option (List ZoneRequests)) :
      zones.answer (ZoneFetch.answer zh) i (path,m.2) = .ok (zones',called) →
      m.1 = i :: path →
      Moves zh m (.fetching zones) (.fetching zones') called

theorem Fetch.moves_of_answer (h : f.answer zh m = .ok (f',called)) : Moves zh m f f' called := by
  cases f with
  | reading uid =>
    simp only [Fetch.answer] at h
    split at h
    · rename_i hpath
      split at h
      · rename_i hnone
        obtain ⟨rfl,rfl⟩ := Prod.mk.inj (Except.ok.inj h)
        exact .refused uid hnone hpath
      · rename_i zones hzones
        split at h
        · cases h
        · rename_i fetches hfetches
          obtain ⟨hvalid,rfl⟩ := getZoneRequests_ok_iff.mp hfetches
          obtain ⟨rfl,rfl⟩ := Prod.mk.inj (Except.ok.inj h)
          exact .zones uid zones hzones hpath hvalid
    · obtain ⟨rfl,rfl⟩ := Prod.mk.inj (Except.ok.inj h)
      exact .ignored _
  | refused =>
    obtain ⟨rfl,rfl⟩ := Prod.mk.inj (Except.ok.inj h)
    exact .ignored _
  | fetching zones =>
    simp only [Fetch.answer] at h
    split at h
    · rename_i i path hpath
      split at h
      · cases h
      · rename_i zones' called hrun
        obtain ⟨rfl,rfl⟩ := Prod.mk.inj (Except.ok.inj h)
        exact .zone i path zones zones' called hrun hpath
    · obtain ⟨rfl,rfl⟩ := Prod.mk.inj (Except.ok.inj h)
      exact .ignored _

def ZonesIn (db : Database) : Prop :=
  ∀ uid zones, retrieveZones uid db = some zones → zones.Nodup ∧ ∀ zone ∈ zones, IsKey zone

theorem fetchingOk_start {zones : List String} (hn : zones.Nodup)
    (hk : ∀ zone ∈ zones, IsKey zone) :
    Fetch.FetchingOk held (.start (zones.map ZoneFetch.reading)) where
  counting := by
    refine Join.counting_start (fun z hz => ?_) (fun z hz => ?_)
    · obtain ⟨zoneid,-,rfl⟩ := List.mem_map.mp hz
      trivial
    · obtain ⟨zoneid,-,rfl⟩ := List.mem_map.mp hz
      rfl
  collecting := Join.collecting_start _
  once := by
    have hids : ZoneFetch.zoneid ∘ ZoneFetch.reading = id := rfl
    rwa [Join.start,List.map_map,hids,List.map_id]
  keys z hz := by
    obtain ⟨zoneid,hzone,rfl⟩ := List.mem_map.mp hz
    exact hk zoneid hzone

theorem Fetch.FetchingOk.next {zones zones' : Join ZoneFetch ZoneRequests}
    (h : Fetch.FetchingOk held zones) (hm : HeldIn held m) {i : Nat}
    (hrun : zones.answer (ZoneFetch.answer zh) i m = .ok (zones',called)) :
    Fetch.FetchingOk held zones' := by
  have hids : zones'.subs.map ZoneFetch.zoneid = zones.subs.map ZoneFetch.zoneid :=
    Join.answer_tags (zone_tagged zh held m).keeps h.counting.subs hrun
  have honce := once_join (once_zone zh held)
  refine ⟨?_,h.collecting.next (once_zone zh held) hm (zone_tagged zh held m) h.counting.subs hrun,
    hids ▸ h.once,fun z hz => ?_⟩
  · cases called with
    | none => exact (honce.quiet (i,m) _ _ hm h.counting hrun).1
    | some snapshot => exact (honce.calls (i,m) _ _ _ hm h.counting hrun).1
  · have hmem : z.zoneid ∈ zones'.subs.map ZoneFetch.zoneid := List.mem_map_of_mem hz
    rw [hids] at hmem
    obtain ⟨z₀,hz₀,hid⟩ := List.mem_map.mp hmem
    exact hid ▸ h.keys z₀ hz₀

theorem Fetch.FetchingOk.fetched {zones : Join ZoneFetch ZoneRequests}
    (h : Fetch.FetchingOk held zones) : GoodSnapshot held zones.collected where
  once := nodup_of_subperm (h.collecting.tags.trans (List.filter_sublist.map _).subperm) h.once
  keys z hz := by
    have hmem := (h.collecting.tags.trans (List.filter_sublist.map _).subperm).subset
      (List.mem_map_of_mem (f := ZoneRequests.zoneid) hz)
    obtain ⟨z₀,hz₀,hid⟩ := List.mem_map.mp hmem
    exact hid ▸ h.keys z₀ hz₀
  good := h.collecting.good

theorem Fetch.Ok.next (h : f.Ok held) (hm : HeldIn held m) (hzones : ZonesIn m.2)
    (hrun : f.answer zh m = .ok (f',called)) :
    f'.Ok held ∧ ∀ snapshot, called = some snapshot → GoodSnapshot held snapshot := by
  cases Fetch.moves_of_answer hrun with
  | ignored => exact ⟨h,fun _ hc => (nomatch hc)⟩
  | refused uid => exact ⟨trivial,fun _ hc => (nomatch hc)⟩
  | zones uid zones hread =>
    obtain ⟨hn,hk⟩ := hzones uid zones hread
    exact ⟨fetchingOk_start hn hk,fun _ hc => (nomatch hc)⟩
  | zone i path zones zones' called hanswer =>
    have hnext := Fetch.FetchingOk.next h (m := (path,m.2)) hm hanswer
    refine ⟨hnext,?_⟩
    rintro snapshot rfl
    rw [← Join.called_eq hanswer]
    exact hnext.fetched

/-- A call that has called its handler does not call it again. -/
theorem once_fetch (zh : Bool) (held : String → String → Prop) :
    Once (Fetch.answer zh) Fetch.fired (fun m => HeldIn held m ∧ ZonesIn m.2)
      (Fetch.Ok held) where
  quiet m f f' hm hok h := by
    refine ⟨(hok.next hm.1 hm.2 h).1,?_⟩
    generalize hcalled : (none : Option (List ZoneRequests)) = called at h
    cases Fetch.moves_of_answer h with
    | ignored => rfl
    | refused uid => rfl
    | zones uid zones hread =>
      refine Join.ended_start fun z hz => ?_
      obtain ⟨zoneid,-,rfl⟩ := List.mem_map.mp hz
      rfl
    | zone i path zones zones' called hanswer =>
      subst hcalled
      exact ((once_join (once_zone zh held)).quiet (i,path,m.2) _ _ hm.1 hok.counting hanswer).2
  calls m f f' r hm hok h := by
    refine ⟨(hok.next hm.1 hm.2 h).1,?_⟩
    generalize hcalled : some r = called at h
    cases Fetch.moves_of_answer h with
    | ignored => cases hcalled
    | refused uid => cases hcalled
    | zones uid zones hread => cases hcalled
    | zone i path zones zones' called hanswer =>
      subst hcalled
      exact ((once_join (once_zone zh held)).calls (i,path,m.2) _ _ _ hm.1 hok.counting
        hanswer).2

theorem ZoneFetch.Ok.mono (h : ∀ zoneid id, held zoneid id → held' zoneid id) {z : ZoneFetch}
    (hz : z.Ok held) : z.Ok held' := by
  cases z with
  | present zoneid requests =>
    exact ⟨hz.counting,hz.collecting,hz.once,fun f hf => h _ _ (hz.held f hf)⟩
  | reading zoneid => trivial
  | absent zoneid => trivial

theorem GoodZone.mono (h : ∀ zoneid id, held zoneid id → held' zoneid id) {z : ZoneRequests}
    (hz : GoodZone held z) : GoodZone held' z where
  fetched := hz.fetched
  keys := by
    obtain ⟨ids,hn,hids,hsub⟩ := hz.keys
    exact ⟨ids,hn,fun id hid => h _ _ (hids id hid),hsub⟩

theorem Fetch.Ok.mono (h : ∀ zoneid id, held zoneid id → held' zoneid id) (hf : f.Ok held) :
    f.Ok held' := by
  cases f with
  | fetching zones =>
    exact ⟨⟨fun z hz => (hf.counting.subs z hz).mono h,hf.counting.counter⟩,
      ⟨hf.collecting.tags,fun z hz => (hf.collecting.good z hz).mono h⟩,hf.once,hf.keys⟩
  | reading uid => trivial
  | refused => trivial

theorem keyIn_eq {zoneID id : String} (h : IsKey id) : keyIn zoneID id = some id := by
  rw [keyIn,child_requests,h,List.getLast?_cons,List.getLast?_append]
  rfl

theorem GoodSnapshot.fetchedFrom (h : GoodSnapshot held snapshot)
    {home : Option String → String}
    (hhome : ∀ zoneid id, IsKey zoneid → held zoneid id → IsKey id ∧ home (some id) = zoneid) :
    FetchedFrom home snapshot := by
  have hreq : ∀ z ∈ snapshot, (z.requests.map (·.id)).Nodup ∧
      ∀ req ∈ z.requests, home req.id = z.zoneid := by
    intro z hz
    obtain ⟨ids,hn,hheld,hsub⟩ := (h.good z hz).keys
    have hkeys : ids.map (keyIn z.zoneid) = ids.map some :=
      List.map_congr_left fun id hid => keyIn_eq (hhome _ _ (h.keys z hz) (hheld id hid)).1
    rw [hkeys] at hsub
    refine ⟨nodup_of_subperm hsub (hn.map (Option.some_injective _)),fun req hreq => ?_⟩
    obtain ⟨id,hid,heq⟩ := List.mem_map.mp
      (hsub.subset (List.mem_map_of_mem (f := Request.id) hreq))
    rw [← heq]
    exact (hhome _ _ (h.keys z hz) (hheld id hid)).2
  refine ⟨h.once,?_,fun z hz => (h.good z hz).fetched,
    fun z hz req hr => ((hreq z hz).2 req hr).symm⟩
  rw [List.map_flatMap,List.nodup_flatMap]
  refine ⟨fun z hz => (hreq z hz).1,(List.pairwise_map.mp h.once).imp_of_mem ?_⟩
  -- an id in two zones would have two homes
  intro z z' hz hz' hne id hid hid'
  obtain ⟨req,hr,rfl⟩ := List.mem_map.mp hid
  obtain ⟨req',hr',heq⟩ := List.mem_map.mp hid'
  apply hne
  rw [← (hreq z hz).2 req hr,← (hreq z' hz').2 req' hr',heq]

end Snapshot

end Answr
