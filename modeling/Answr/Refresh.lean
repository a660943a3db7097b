import Answr.Steps
import Answr.Answers
import Answr.ZoneFrame
set_option autoImplicit false

/-! `refreshData`: refreshes that overlap. Each fetches with reads of its own, and its
handler merges what it fetched into the one store; nothing orders or cancels them. -/

namespace Answr
open LeafTree Steps

section Machine

/-- A call of `refreshData`, with the databases that the server has held since. -/
structure Refresh where
  fetch : Fetch
  since : List Database
  deriving DecidableEq, Repr

/-- A call of its handler: the number of the refresh, what it fetched, and the
databases of the server in the meantime. -/
structure Finish where
  refresh : Nat
  snapshot : List ZoneRequests
  since : List Database
  deriving DecidableEq, Repr

/-- The server and the app, with the refreshes as they were started. The finishes are a
log, the latest first. -/
structure Landing where
  server : Database
  ctx : Context
  refreshes : List Refresh
  finished : List Finish

def Landing.installed (db : Database) : Landing := ⟨db,⟨.empty,[]⟩,[],[]⟩

inductive Landing.Event where
  /-- `refreshData` is called: at launch, by a pull, after a completion -/
  | refreshData (uid : Option String)
  /-- the server's data changes -/
  | server (db : Database)
  /-- a read of a refresh is answered -/
  | answer (ord : FetchOrder) (n : Nat) (path : List Nat)
  /-- an item of a stored request is ticked -/
  | tick (ord : FetchOrder) (reqID itemID : String) (checked : Bool)

/-- An event that stops the app has no next state. -/
def Landing.step (zh : Bool) (sys : Landing) : Landing.Event → Option Landing
  | .refreshData uid =>
    match fetchAllZoneRequests uid with
    | .error _ => none
    | .ok fetch => some { sys with refreshes := sys.refreshes ++ [⟨fetch,[sys.server]⟩] }
  | .server db =>
    some { sys with
      server := db
      refreshes := sys.refreshes.map fun r => { r with since := db :: r.since } }
  | .answer ord n path =>
    match sys.refreshes[n]? with
    | none => some sys
    | some r =>
      match r.fetch.answer zh (path,sys.server) with
      | .error _ => none
      | .ok (fetch,none) =>
        some { sys with refreshes := sys.refreshes.set n { r with fetch := fetch } }
      | .ok (fetch,some newZoneReqs) =>
        match updateSavedRequests ord newZoneReqs sys.ctx with
        | .error _ => none
        | .ok ctx =>
          some { sys with
            ctx := ctx
            refreshes := sys.refreshes.set n { r with fetch := fetch }
            finished := ⟨n,newZoneReqs,r.since⟩ :: sys.finished }
  | .tick ord reqID itemID checked =>
    some { sys with ctx := markChecked ord reqID itemID checked sys.ctx }

variable {zh : Bool} {sys sys' : Landing} {e : Landing.Event}

inductive Landing.Moves (zh : Bool) (sys : Landing) : Landing → Prop where
  | refreshData (uid : Option String) (fetch : Fetch) :
      fetchAllZoneRequests uid = .ok fetch →
      Moves zh sys { sys with refreshes := sys.refreshes ++ [⟨fetch,[sys.server]⟩] }
  | ignored : Moves zh sys sys
  | fetching (n : Nat) (path : List Nat) (r : Refresh) (fetch : Fetch) :
      sys.refreshes[n]? = some r → r.fetch.answer zh (path,sys.server) = .ok (fetch,none) →
      Moves zh sys { sys with refreshes := sys.refreshes.set n { r with fetch := fetch } }
  | finishing (ord : FetchOrder) (n : Nat) (path : List Nat) (r : Refresh) (fetch : Fetch)
      (newZoneReqs : List ZoneRequests) (ctx : Context) :
      sys.refreshes[n]? = some r →
      r.fetch.answer zh (path,sys.server) = .ok (fetch,some newZoneReqs) →
      updateSavedRequests ord newZoneReqs sys.ctx = .ok ctx →
      Moves zh sys { sys with
        ctx := ctx
        refreshes := sys.refreshes.set n { r with fetch := fetch }
        finished := ⟨n,newZoneReqs,r.since⟩ :: sys.finished }
  | tick (ord : FetchOrder) (reqID itemID : String) (checked : Bool) : Moves zh sys
      { sys with ctx := markChecked ord reqID itemID checked sys.ctx }

theorem Landing.moves_of_step (h : sys.step zh e = some sys') :
    (∃ db, e = .server db ∧ sys' = { sys with
      server := db
      refreshes := sys.refreshes.map fun r => { r with since := db :: r.since } }) ∨
    Moves zh sys sys' := by
  cases e with
  | refreshData uid =>
    simp only [Landing.step] at h
    split at h
    · cases h
    · rename_i fetch hfetch
      obtain rfl := Option.some.inj h
      exact .inr (.refreshData uid fetch hfetch)
  | server db =>
    obtain rfl := Option.some.inj h
    exact .inl ⟨db,rfl,rfl⟩
  | tick ord reqID itemID checked =>
    obtain rfl := Option.some.inj h
    exact .inr (.tick ord reqID itemID checked)
  | answer ord n path =>
    right
    simp only [Landing.step] at h
    split at h
    · obtain rfl := Option.some.inj h
      exact .ignored
    · rename_i r hr
      split at h
      · cases h
      · rename_i fetch hrun
        obtain rfl := Option.some.inj h
        exact .fetching n path r fetch hr hrun
      · rename_i fetch newZoneReqs hrun
        split at h
        · cases h
        · rename_i ctx hsync
          obtain rfl := Option.some.inj h
          exact .finishing ord n path r fetch newZoneReqs ctx hr hrun hsync

end Machine

section Served

/-- Request `id` has lain in zone `zoneid` in one of the databases. -/
def HeldSince (since : List Database) (zoneid id : String) : Prop :=
  ∃ db ∈ since, id ∈ keys (zoneRef zoneid) db

/-- A volunteer's zones are distinct keys, and every request is a key in its home zone. -/
structure Served (home : Option String → String) (db : Database) : Prop where
  zones : ZonesIn db
  home : ∀ zoneid id, IsKey zoneid → id ∈ keys (zoneRef zoneid) db →
    IsKey id ∧ home (some id) = zoneid

def Landing.Serves (home : Option String → String) (_ : Landing) (e : Landing.Event) : Prop :=
  ∀ db, e = .server db → Served home db

/-- The stored requests are those that the refresh fetched, and the server has held
each of them since the refresh started. -/
structure Finish.Stored (f : Finish) (s : Store) : Prop where
  pairs : SamePairs f.snapshot s
  held : ∀ c ∈ s.zones, ∀ r ∈ s.requestsOf c, ∃ zoneid id, c.zoneid = some zoneid ∧
    r.id = some id ∧ HeldSince f.since zoneid id

structure Refresh.Ok (home : Option String → String) (server : Database) (r : Refresh) :
    Prop where
  server : server ∈ r.since
  served : ∀ db ∈ r.since, Served home db
  fetch : r.fetch.Ok (HeldSince r.since)

/-- Every refresh is logged at most once, when it has called its handler. -/
structure Landing.Logged (sys : Landing) : Prop where
  once : (sys.finished.map (·.refresh)).Nodup
  started : ∀ n ∈ sys.finished.map (·.refresh), n < sys.refreshes.length
  fired : ∀ n r, sys.refreshes[n]? = some r →
    (r.fetch.fired = true ↔ n ∈ sys.finished.map (·.refresh))

structure Landing.Ok (home : Option String → String) (sys : Landing) : Prop where
  reachable : Reachable home sys.ctx
  server : Served home sys.server
  refreshes : ∀ r ∈ sys.refreshes, r.Ok home sys.server
  stored : ∀ f rest, sys.finished = f :: rest → f.Stored sys.ctx.store

variable {home : Option String → String} {zh : Bool} {sys sys' : Landing}
  {e : Landing.Event} {r : Refresh} {snapshot : List ZoneRequests}

theorem Refresh.Ok.homes (h : r.Ok home sys.server) : ∀ zoneid id, IsKey zoneid →
    HeldSince r.since zoneid id → IsKey id ∧ home (some id) = zoneid := by
  rintro zoneid id hz ⟨db,hdb,hid⟩
  exact (h.served db hdb).home zoneid id hz hid

theorem Refresh.Ok.heldIn (h : r.Ok home sys.server) (path : List Nat) :
    HeldIn (HeldSince r.since) (path,sys.server) :=
  fun _ _ hid => ⟨sys.server,h.server,hid⟩

theorem GoodSnapshot.heldSince (h : GoodSnapshot (HeldSince r.since) snapshot)
    (hr : r.Ok home sys.server) {z : ZoneRequests} (hz : z ∈ snapshot) {req : Request}
    (hreq : req ∈ z.requests) : ∃ id, req.id = some id ∧ HeldSince r.since z.zoneid id := by
  obtain ⟨ids,-,hheld,hsub⟩ := (h.good z hz).keys
  obtain ⟨id,hid,heq⟩ := List.mem_map.mp
    (hsub.subset (List.mem_map_of_mem (f := Request.id) hreq))
  have hkey := (hr.homes z.zoneid id (h.keys z hz) (hheld id hid)).1
  exact ⟨id,by rw [← heq,keyIn_eq hkey],hheld id hid⟩

theorem sync_stored {ord : FetchOrder} {ctx ctx' : Context} {n : Nat}
    (hctx : Reachable home ctx) (hr : r.Ok home sys.server)
    (hgood : GoodSnapshot (HeldSince r.since) snapshot)
    (hrun : updateSavedRequests ord snapshot ctx = .ok ctx') :
    Finish.Stored ⟨n,snapshot,r.since⟩ ctx'.store := by
  have hin := hctx.housed.mergeInput (hgood.fetchedFrom hr.homes)
  obtain ⟨ctx₁,hrun₁,hrec⟩ := updateSavedRequests_of_separated ord hin.syncInput hin.separated
  obtain rfl : ctx₁ = ctx' := Except.ok.inj (hrun₁.symm.trans hrun)
  have hpairs := hrec.samePairs hin.syncInput
  refine ⟨hpairs,fun c hc row hrow => ?_⟩
  obtain ⟨zoneid,hzone⟩ :=
    Option.isSome_iff_exists.mp ((hin.isMerge hrec).saved.zoneFields c hc)
  obtain ⟨z,hz,rfl,req,hreq,hid⟩ := (hpairs zoneid row.id).mp ⟨c,hc,hzone,row,hrow,rfl⟩
  obtain ⟨id,hsome,hheld⟩ := hgood.heldSince hr hz hreq
  exact ⟨z.zoneid,id,hzone,hid ▸ hsome,hheld⟩

theorem Finish.Stored.setChecked {f : Finish} {s : Store} (h : f.Stored s)
    (item : CDRequestItem) (checked : Bool) : f.Stored (s.setChecked item checked) :=
  ⟨h.pairs,h.held⟩

theorem Refresh.Ok.server_changed {db : Database} (h : r.Ok home sys.server)
    (hdb : Served home db) : Refresh.Ok home db { r with since := db :: r.since } where
  server := List.mem_cons_self
  served db' hdb' := by
    rcases List.mem_cons.mp hdb' with rfl | hdb'
    · exact hdb
    · exact h.served db' hdb'
  fetch := h.fetch.mono fun _ _ ⟨db',hdb',hid⟩ => ⟨db',List.mem_cons_of_mem db hdb',hid⟩

theorem Landing.Ok.set (h : sys.Ok home) {n : Nat} {fetch : Fetch}
    (hr : sys.refreshes[n]? = some r) (hfetch : fetch.Ok (HeldSince r.since)) :
    ∀ r' ∈ sys.refreshes.set n { r with fetch := fetch }, r'.Ok home sys.server := by
  intro r' hr'
  rcases List.mem_or_eq_of_mem_set hr' with hr' | rfl
  · exact h.refreshes r' hr'
  · have hok := h.refreshes r (List.mem_of_getElem? hr)
    exact ⟨hok.server,hok.served,hfetch⟩

theorem Landing.Ok.step (h : sys.Ok home) (hserves : sys.Serves home e)
    (hs : sys.step zh e = some sys') : sys'.Ok home := by
  obtain ⟨db,rfl,rfl⟩ | hmoves := Landing.moves_of_step hs
  · have hdb := hserves db rfl
    refine ⟨h.reachable,hdb,fun r hr => ?_,h.stored⟩
    obtain ⟨r₀,hr₀,rfl⟩ := List.mem_map.mp hr
    exact (h.refreshes r₀ hr₀).server_changed hdb
  cases hmoves with
  | ignored => exact h
  | refreshData uid fetch hfetch =>
    refine ⟨h.reachable,h.server,fun r hr => ?_,h.stored⟩
    rcases List.mem_append.mp hr with hr | hr
    · exact h.refreshes r hr
    · obtain rfl := List.mem_singleton.mp hr
      refine ⟨List.mem_cons_self,fun db hdb => List.mem_singleton.mp hdb ▸ h.server,?_⟩
      rcases started_of_ok hfetch with ⟨_,_,rfl⟩ | ⟨_,rfl⟩ <;> trivial
  | fetching n path r fetch hr hrun =>
    have hok := h.refreshes r (List.mem_of_getElem? hr)
    have hnext := hok.fetch.next (hok.heldIn path) h.server.zones hrun
    exact ⟨h.reachable,h.server,h.set hr hnext.1,h.stored⟩
  | finishing ord n path r fetch newZoneReqs ctx hr hrun hsync =>
    have hok := h.refreshes r (List.mem_of_getElem? hr)
    have hnext := hok.fetch.next (hok.heldIn path) h.server.zones hrun
    have hgood := hnext.2 newZoneReqs rfl
    refine ⟨.sync h.reachable (hgood.fetchedFrom hok.homes) hsync,h.server,h.set hr hnext.1,?_⟩
    intro f rest hf
    obtain ⟨rfl,-⟩ := List.cons.inj hf
    exact sync_stored h.reachable hok hgood hsync
  | tick ord reqID itemID checked =>
    refine ⟨.tick ord reqID itemID checked h.reachable,h.server,h.refreshes,fun f rest hf => ?_⟩
    have hstored := h.stored f rest hf
    exact markChecked_keeps hstored fun item => hstored.setChecked item checked

theorem Landing.Ok.finishes (h : sys.Ok home) {ord : FetchOrder} {n : Nat} {path : List Nat}
    {fetch : Fetch} (hr : sys.refreshes[n]? = some r)
    (hrun : r.fetch.answer zh (path,sys.server) = .ok (fetch,some snapshot)) :
    ∃ sys', sys.step zh (.answer ord n path) = some sys' ∧
      sys'.finished = ⟨n,snapshot,r.since⟩ :: sys.finished := by
  have hok := h.refreshes r (List.mem_of_getElem? hr)
  have hgood := (hok.fetch.next (hok.heldIn path) h.server.zones hrun).2 snapshot rfl
  have hin := h.reachable.housed.mergeInput (hgood.fetchedFrom hok.homes)
  obtain ⟨ctx,hsync,-⟩ := updateSavedRequests_of_separated ord hin.syncInput hin.separated
  simp [Landing.step,hr,hrun,hsync]

theorem Landing.Logged.step (h : sys.Logged) (hok : sys.Ok home)
    (hs : sys.step zh e = some sys') : sys'.Logged := by
  have honce := once_fetch zh
  obtain ⟨db,-,rfl⟩ | hmoves := Landing.moves_of_step hs
  · refine ⟨h.once,by simpa using h.started,fun n r hr => ?_⟩
    rw [List.getElem?_map,Option.map_eq_some_iff] at hr
    obtain ⟨r₀,hr₀,rfl⟩ := hr
    exact h.fired n r₀ hr₀
  cases hmoves with
  | ignored => exact h
  | tick ord reqID itemID checked => exact ⟨h.once,h.started,h.fired⟩
  | refreshData uid fetch hfetch =>
    refine ⟨h.once,fun n hn => ?_,fun n r hr => ?_⟩
    · have := h.started n hn
      simp
      omega
    · rw [List.getElem?_append] at hr
      split at hr
      · exact h.fired n r hr
      · -- the new refresh has neither called nor been logged
        obtain rfl := List.mem_singleton.mp (List.mem_of_getElem? hr)
        have hnone : n ∉ sys.finished.map (·.refresh) := fun hn => by
          have := h.started n hn
          omega
        rcases started_of_ok hfetch with ⟨_,_,rfl⟩ | ⟨_,rfl⟩ <;> simp [Fetch.fired,hnone]
  | fetching n path r fetch hr hrun =>
    have hrok := hok.refreshes r (List.mem_of_getElem? hr)
    have hq := ((honce (HeldSince r.since)).quiet (path,sys.server) _ _
      ⟨hrok.heldIn path,hok.server.zones⟩ hrok.fetch hrun).2
    refine ⟨h.once,by simpa using h.started,fun m r' hr' => ?_⟩
    rw [List.getElem?_set] at hr'
    split at hr'
    · rename_i hnm
      subst hnm
      split at hr'
      · obtain rfl := Option.some.inj hr'
        rw [hq]
        exact h.fired n r hr
      · cases hr'
    · exact h.fired m r' hr'
  | finishing ord n path r fetch newZoneReqs ctx hr hrun hsync =>
    have hrok := hok.refreshes r (List.mem_of_getElem? hr)
    obtain ⟨-,hbefore,hafter⟩ := (honce (HeldSince r.since)).calls (path,sys.server) _ _ _
      ⟨hrok.heldIn path,hok.server.zones⟩ hrok.fetch hrun
    have hnew : n ∉ sys.finished.map (·.refresh) := fun hn => by
      rw [(h.fired n r hr).mpr hn] at hbefore
      cases hbefore
    have hlt : n < sys.refreshes.length := (List.getElem?_eq_some_iff.mp hr).1
    refine ⟨List.nodup_cons.mpr ⟨hnew,h.once⟩,fun m hm => ?_,fun m r' hr' => ?_⟩
    · rw [List.length_set]
      rcases List.mem_cons.mp hm with rfl | hm
      · exact hlt
      · exact h.started m hm
    · rw [List.getElem?_set] at hr'
      split at hr'
      · rename_i hnm
        subst hnm
        obtain rfl := Option.some.inj hr'
        simp [hafter]
      · rename_i hnm
        rw [h.fired m r' hr']
        simp [Ne.symm hnm]

theorem Landing.ok_installed {db : Database} (hdb : Served home db) :
    (Landing.installed db).Ok home ∧ (Landing.installed db).Logged :=
  ⟨⟨.installed,hdb,by simp [Landing.installed],by simp [Landing.installed]⟩,
    ⟨by simp [Landing.installed],by simp [Landing.installed],by simp [Landing.installed]⟩⟩

theorem Landing.ok_of_reaches {db : Database} (hdb : Served home db)
    (hr : Reaches (Landing.step zh) (Landing.Serves home) (.installed db) sys) :
    sys.Ok home ∧ sys.Logged := by
  have hstep : ∀ s e s', s.Ok home ∧ s.Logged → Landing.Serves home s e →
      s.step zh e = some s' → s'.Ok home ∧ s'.Logged :=
    fun s e s' h hserves hs => ⟨h.1.step hserves hs,h.2.step h.1 hs⟩
  exact hr.inv hstep (Landing.ok_installed hdb)

end Served

section LastFinished

/-- However the refreshes overlap, the store holds what the one fetched that finished
last, and each refresh finishes once, when it calls its handler. -/
theorem stored_asFinished (zh : Bool) (home : Option String → String) (db : Database)
    (hdb : Served home db) (sys : Landing)
    (hr : Reaches (Landing.step zh) (Landing.Serves home) (.installed db) sys) :
    (∀ f rest, sys.finished = f :: rest → f.Stored sys.ctx.store) ∧ sys.Logged ∧
    ∀ ord n path r fetch snapshot, sys.refreshes[n]? = some r →
      r.fetch.answer zh (path,sys.server) = .ok (fetch,some snapshot) →
      ∃ sys', sys.step zh (.answer ord n path) = some sys' ∧
        sys'.finished = ⟨n,snapshot,r.since⟩ :: sys.finished := by
  obtain ⟨hok,hlogged⟩ := Landing.ok_of_reaches hdb hr
  exact ⟨hok.stored,hlogged,fun _ _ _ _ _ _ hget hrun => hok.finishes hget hrun⟩

def removedServer : Database := remove (requestRef "north" "r1") northServer

def ServedLeaf (home : Option String → String) (e : Path × Leaf) : Prop :=
  (e.1.getLast? = some "AssignedZones" → ∀ s ∈ e.2.asString,
    (components s).Nodup ∧ ∀ zone ∈ components s, IsKey zone) ∧
  (e.1.head? = some "requests" → ∀ zoneid ∈ e.1[1]?, ∀ id ∈ e.1[2]?,
    IsKey id ∧ home (some id) = zoneid)

instance (home : Option String → String) (e : Path × Leaf) : Decidable (ServedLeaf home e) :=
  inferInstanceAs (Decidable (_ ∧ _))

theorem zoneRef_key {zoneid : String} (h : IsKey zoneid) :
    zoneRef zoneid = ["requests",zoneid] := by
  have hs : segments "requests" = ["requests"] := rfl
  rw [IsKey] at h
  simp [zoneRef,childFromString,hs,h]

theorem served_of_leaves {home : Option String → String} {db : Database}
    (h : ∀ e ∈ db, ServedLeaf home e) : Served home db where
  zones uid zones hzones := by
    obtain ⟨s,hs,rfl⟩ := Option.map_eq_some_iff.mp hzones
    obtain ⟨v,hv,hvs⟩ := Option.bind_eq_some_iff.mp hs
    exact (h _ (mem_of_get _ db hv)).1 List.getLast?_concat s hvs
  home zoneid id hz hid := by
    obtain ⟨q,v,hmem⟩ := (mem_keys _ db).mp hid
    rw [zoneRef_key hz] at hmem
    exact (h _ hmem).2 rfl zoneid rfl id rfl

theorem northServer_leaves : ∀ e ∈ northServer, ServedLeaf (fun _ => "north") e := by decide

theorem northServer_served : Served (fun _ => "north") northServer :=
  served_of_leaves northServer_leaves

theorem removedServer_served : Served (fun _ => "north") removedServer := by
  refine served_of_leaves fun e he => northServer_leaves e ?_
  rw [removedServer,remove] at he
  exact List.mem_of_mem_filter he

/-- A refresh has read the request and its item; the request is removed; another
refresh starts, and finds nothing; then the first gets the elderly record. -/
def overtakenEvents : List Landing.Event := [
  .refreshData (some "u1"),.answer .table 0 [],.answer .table 0 [0],.answer .table 0 [0,0],
  .answer .table 0 [0,0,0,0],.server removedServer,.refreshData (some "u1"),
  .answer .table 1 [],.answer .table 1 [0],.answer .table 0 [0,0,1,0]]

def Landing.Event.removes : Landing.Event → Bool
  | .server db => db == removedServer
  | _ => true

def overtaken : Option Landing :=
  play (Landing.step false) (fun _ e => e.removes = true) (.installed northServer) overtakenEvents

theorem reaches_overtaken {sys : Landing} (h : overtaken = some sys) :
    Reaches (Landing.step false) (Landing.Serves fun _ => "north")
      (.installed northServer) sys := by
  refine (reaches_of_play h).mono fun s e he db hdb => ?_
  subst hdb
  obtain rfl : db = removedServer := by simpa [Landing.Event.removes] using he
  exact removedServer_served

theorem overtaken_stored : overtaken.map (fun sys => (sys.refreshes.map (·.fetch.fired),
    sys.finished.map fun f => (f.refresh,f.snapshot.map (·.zoneid)),
    sys.ctx.store.zones.map fun c => (c.zoneid,(sys.ctx.store.requestsOf c).map (·.id)))) =
    some ([true,true],[(0,["north"]),(1,[])],[(some "north",[some "r1"])]) := rfl

theorem stored_asFinished_overtaken : ∃ sys,
    Reaches (Landing.step false) (Landing.Serves fun _ => "north") (.installed northServer) sys ∧
    sys.finished.map (·.refresh) = [0,1] ∧
    (∀ f rest, sys.finished = f :: rest → f.Stored sys.ctx.store) ∧ sys.Logged ∧
    ∀ ord n path r fetch snapshot, sys.refreshes[n]? = some r →
      r.fetch.answer false (path,sys.server) = .ok (fetch,some snapshot) →
      ∃ sys', sys.step false (.answer ord n path) = some sys' ∧
        sys'.finished = ⟨n,snapshot,r.since⟩ :: sys.finished := by
  obtain ⟨sys,hsys,hrun⟩ := Option.map_eq_some_iff.mp overtaken_stored
  have hr := reaches_overtaken hsys
  have hfin : sys.finished.map (fun f => (f.refresh,f.snapshot.map (·.zoneid))) =
      [(0,["north"]),(1,[])] := (Prod.mk.inj (Prod.mk.inj hrun).2).1
  refine ⟨sys,hr,?_,stored_asFinished false (fun _ => "north") northServer northServer_served
    sys hr⟩
  have h := congrArg (List.map Prod.fst) hfin
  simpa [Function.comp_def] using h

/-- The refresh that started last fetched nothing, and the removed request is stored. -/
theorem not_stored_asStarted : ¬ ∀ (zh : Bool) (home : Option String → String) (db : Database),
    Served home db → ∀ sys,
    Reaches (Landing.step zh) (Landing.Serves home) (.installed db) sys →
    (∀ r ∈ sys.refreshes, r.fetch.fired = true) →
    ∀ f ∈ sys.finished, f.refresh + 1 = sys.refreshes.length →
      SamePairs f.snapshot sys.ctx.store := by
  intro h
  obtain ⟨sys,hsys,hrun⟩ := Option.map_eq_some_iff.mp overtaken_stored
  obtain ⟨hfired,hrest⟩ := Prod.mk.inj hrun
  obtain ⟨hfin,hzones⟩ := Prod.mk.inj hrest
  have hlen : sys.refreshes.length = 2 := by simpa using congrArg List.length hfired
  have hall : ∀ r ∈ sys.refreshes, r.fetch.fired = true := fun r hr => by
    have hmem := List.mem_map_of_mem (f := fun r : Refresh => r.fetch.fired) hr
    rw [hfired] at hmem
    simpa using hmem
  obtain ⟨f,hf,hfe⟩ := List.mem_map.mp
    (show (1,[]) ∈ sys.finished.map (fun f => (f.refresh,f.snapshot.map (·.zoneid))) by simp [hfin])
  obtain ⟨hnum,hsnap⟩ := Prod.mk.inj hfe
  have hpairs := h false (fun _ => "north") northServer northServer_served sys
    (reaches_overtaken hsys) hall f hf (by omega)
  have hzone : (some "north",[some "r1"]) ∈ sys.ctx.store.zones.map fun c =>
      (c.zoneid,(sys.ctx.store.requestsOf c).map (·.id)) := by simp [hzones]
  obtain ⟨c,hc,hce⟩ := List.mem_map.mp hzone
  obtain ⟨hz,hreqs⟩ := Prod.mk.inj hce
  obtain ⟨r,hr,hid⟩ := List.mem_map.mp
    (show some "r1" ∈ (sys.ctx.store.requestsOf c).map (·.id) by simp [hreqs])
  obtain ⟨z,hzmem,-⟩ := (hpairs "north" (some "r1")).mp ⟨c,hc,hz,r,hr,hid⟩
  rw [List.map_eq_nil_iff] at hsnap
  simp [hsnap] at hzmem

end LastFinished

end Answr
