import Answr.Fleet
set_option autoImplicit false

/-! What holds of every phone of a fleet, whatever the others do: each request that is
stored, shown or completed was one that the server held, in a zone assigned to the user
whose refresh fetched it. -/

namespace Answr
open LeafTree Steps Countdown

section Durable

variable {home : Option String → String} {ctx : Context}

/-- Between two events the store is the one committed last, so that ending the app there
loses nothing. -/
theorem Reachable.persisted (h : Reachable home ctx) : ctx.persisted = ctx := by
  have hlast : ctx.commits.headD .empty = ctx.store := by
    induction h with
    | installed => rfl
    | @sync ctx ctx' ord snapshot hreach hf hrun ih =>
      have hin := hreach.housed.mergeInput hf
      obtain ⟨log,hlog,hhead,-⟩ := commits_sync hin.syncInput hin.separated hrun
      rw [hlog,← hhead]
      cases log with
      | nil => exact ih
      | cons p log => rfl
    | tick ord reqID itemID checked hreach ih =>
      rw [markChecked,onFirst]
      split <;> rfl
  rw [Context.persisted,hlast]

end Durable

section OnServer

/-- A request that the server has held, under keys. -/
structure OnServer (held : List Database) (zoneid id : String) : Prop where
  zoneKey : IsKey zoneid
  idKey : IsKey id
  held : HeldSince held zoneid id

def Store.OnServer (held : List Database) (s : Store) : Prop :=
  ∀ c ∈ s.zones, ∀ r ∈ s.requestsOf c, ∃ zoneid id, c.zoneid = some zoneid ∧
    r.id = some id ∧ Answr.OnServer held zoneid id

def RequestDetailCell.OnServer (held : List Database) (cell : RequestDetailCell) : Prop :=
  ∀ req, cell.request = some req → ∃ zoneid id, cell.zoneid = some zoneid ∧
    req.id = some id ∧ Answr.OnServer held zoneid id

variable {held held' : List Database} {s : Store} {cell cell' : RequestDetailCell}
  {zoneid id : String}

theorem HeldSince.mono (h : HeldSince held zoneid id) (hsub : ∀ db ∈ held, db ∈ held') :
    HeldSince held' zoneid id := by
  obtain ⟨db,hdb,hid⟩ := h
  exact ⟨db,hsub db hdb,hid⟩

theorem OnServer.mono (h : OnServer held zoneid id) (hsub : ∀ db ∈ held, db ∈ held') :
    OnServer held' zoneid id := ⟨h.zoneKey,h.idKey,h.held.mono hsub⟩

theorem Store.OnServer.mono (h : s.OnServer held) (hsub : ∀ db ∈ held, db ∈ held') :
    s.OnServer held' := by
  intro c hc r hr
  obtain ⟨zoneid,id,hzone,hid,hknown⟩ := h c hc r hr
  exact ⟨zoneid,id,hzone,hid,hknown.mono hsub⟩

theorem RequestDetailCell.OnServer.mono (h : cell.OnServer held) (hsub : ∀ db ∈ held, db ∈ held') :
    cell.OnServer held' := by
  intro req hreq
  obtain ⟨zoneid,id,hzone,hid,hknown⟩ := h req hreq
  exact ⟨zoneid,id,hzone,hid,hknown.mono hsub⟩

theorem Store.onServer_empty (held : List Database) : Store.empty.OnServer held :=
  fun _ hc => (nomatch hc)

theorem Store.OnServer.setChecked (h : s.OnServer held) (item : CDRequestItem) (checked : Bool) :
    (s.setChecked item checked).OnServer held := h

theorem sync_onServer {home : Option String → String} {ord : FetchOrder} {ctx ctx' : Context}
    {server : Database} {r : Refresh} {snapshot : List ZoneRequests} (hctx : Reachable home ctx)
    (hr : r.Ok home server) (hsub : ∀ db ∈ r.since, db ∈ held)
    (hgood : GoodSnapshot (HeldSince r.since) snapshot)
    (hrun : updateSavedRequests ord snapshot ctx = .ok ctx') : ctx'.store.OnServer held := by
  have hlanding : r.Ok home (Landing.server ⟨server,ctx,[],[]⟩) := hr
  have hstored := sync_stored (n := 0) hctx hlanding hgood hrun
  intro c hc row hrow
  obtain ⟨zoneid,id,hzone,hid,hheld⟩ := hstored.held c hc row hrow
  obtain ⟨z,hz,rfl,-⟩ := (hstored.pairs zoneid row.id).mp ⟨c,hc,hzone,row,hrow,rfl⟩
  have hkey := hgood.keys z hz
  obtain ⟨db,hdb,hmem⟩ := hheld
  exact ⟨z.zoneid,id,hzone,hid,hkey,((hr.served db hdb).home z.zoneid id hkey hmem).1,
    db,hsub db hdb,hmem⟩

theorem rowAt_onServer {ord : FetchOrder} {ctx : Context} {zoneRequests : List ZoneRequests}
    (hs : ctx.store.Saved) (h : ctx.store.OnServer held)
    (hload : loadAllZoneRequests ord ctx = .ok zoneRequests) {indexPath : Nat × Nat}
    {row : String × Request} (hrow : rowAt zoneRequests indexPath = some row) :
    ∃ id, row.2.id = some id ∧ OnServer held row.1 id := by
  obtain rfl := Except.ok.inj (hload.symm.trans (loadAllZoneRequests_ok ord hs))
  obtain ⟨z,hz,hcell⟩ := Option.bind_eq_some_iff.mp hrow
  obtain ⟨req,hreq,rfl⟩ := Option.map_eq_some_iff.mp hcell
  obtain ⟨c,hc,rfl⟩ := List.mem_map.mp (List.mem_of_getElem? hz)
  obtain ⟨r,hr,rfl⟩ := List.mem_map.mp (List.mem_of_getElem? hreq)
  obtain ⟨zoneid,id,hzone,hid,hknown⟩ := h c ((sortedZones_perm ord ctx).mem_iff.mp hc) r
    ((sortedRequests_perm ord ctx c).mem_iff.mp hr)
  have hread : (readZone ord ctx c).zoneid = zoneid := by simp [readZone,hzone]
  exact ⟨id,hid,hread ▸ hknown⟩

theorem toggledItemCheck_onServer {ord : FetchOrder} {itemID : String} {ctx ctx' : Context}
    (h : cell.OnServer held) (hrun : toggledItemCheck ord itemID cell ctx = .ok (cell',ctx')) :
    cell'.OnServer held ∧ (ctx' = ctx ∨ ∃ reqID checked,
      ctx' = markChecked ord reqID itemID checked ctx) := by
  rw [toggledItemCheck,bind_ok] at hrun
  obtain ⟨request,hrequest,hrun⟩ := hrun
  obtain ⟨zoneid,id,hzone,hid,hknown⟩ := h request (unwrap_ok.mp hrequest)
  split at hrun
  · obtain ⟨item,-,hrun⟩ := bind_ok.mp hrun
    obtain ⟨checked,-,hrun⟩ := bind_ok.mp hrun
    obtain ⟨reqID,-,hrun⟩ := bind_ok.mp hrun
    obtain ⟨toggled,hup,hrun⟩ := bind_ok.mp hrun
    obtain ⟨rfl,rfl⟩ := Prod.mk.inj (Except.ok.inj hrun)
    obtain ⟨req,hreq,hreq',hzone',-⟩ := updateCompletionBtn_ok hup
    refine ⟨fun req' hr' => ⟨zoneid,id,hzone'.trans hzone,?_,hknown⟩,.inr ⟨reqID,_,rfl⟩⟩
    obtain rfl := Option.some.inj (hreq'.symm.trans hr')
    rw [← Option.some.inj hreq]
    exact hid
  · obtain ⟨toggled,hup,hrun⟩ := bind_ok.mp hrun
    obtain ⟨rfl,rfl⟩ := Prod.mk.inj (Except.ok.inj hrun)
    obtain ⟨req,hreq,hreq',hzone',-⟩ := updateCompletionBtn_ok hup
    refine ⟨fun req' hr' => ⟨zoneid,id,hzone'.trans hzone,?_,hknown⟩,.inl rfl⟩
    obtain rfl := Option.some.inj (hreq'.symm.trans hr')
    rw [Option.some.inj (hreq.symm.trans (unwrap_ok.mp hrequest))]
    exact hid

end OnServer

section Assigned

/-- The zone was assigned to the user in one of the databases. -/
def Assigned (uid : Option String) (since : List Database) (zoneid : String) : Prop :=
  ∃ user db zones, uid = some user ∧ db ∈ since ∧ retrieveZones user db = some zones ∧
    zoneid ∈ zones

/-- A fetch that was started for the user, and asks only for zones assigned to them. -/
def Fetch.AsksFor (uid : Option String) (since : List Database) : Fetch → Prop
  | .reading user => uid = some user
  | .refused => True
  | .fetching zones => ∀ z ∈ zones.subs, Assigned uid since z.zoneid

variable {uid : Option String} {since since' : List Database} {f f' : Fetch} {zh : Bool}
  {server : Database} {path : List Nat} {called : Option (List ZoneRequests)}
  {held : String → String → Prop}

theorem Assigned.mono {zoneid : String} (h : Assigned uid since zoneid)
    (hsub : ∀ db ∈ since, db ∈ since') : Assigned uid since' zoneid := by
  obtain ⟨user,db,zones,huid,hdb,hzones,hz⟩ := h
  exact ⟨user,db,zones,huid,hsub db hdb,hzones,hz⟩

theorem Fetch.AsksFor.mono (h : f.AsksFor uid since) (hsub : ∀ db ∈ since, db ∈ since') :
    f.AsksFor uid since' := by
  cases f with
  | reading user => exact h
  | refused => trivial
  | fetching zones => exact fun z hz => (h z hz).mono hsub

theorem asksFor_fetchAllZoneRequests (h : fetchAllZoneRequests uid = .ok f)
    (since : List Database) : f.AsksFor uid since := by
  rcases started_of_ok h with ⟨user,rfl,rfl⟩ | ⟨-,rfl⟩
  · rfl
  · trivial

theorem Fetch.AsksFor.answer (h : f.AsksFor uid since) (hok : f.Ok held)
    (hm : HeldIn held (path,server)) (hserver : server ∈ since)
    (hrun : f.answer zh (path,server) = .ok (f',called)) : f'.AsksFor uid since ∧
      ∀ snapshot, called = some snapshot → ∀ z ∈ snapshot, Assigned uid since z.zoneid := by
  cases Fetch.moves_of_answer hrun with
  | ignored => exact ⟨h,fun _ hc => (nomatch hc)⟩
  | refused user => exact ⟨trivial,fun _ hc => (nomatch hc)⟩
  | zones user zones hread =>
    refine ⟨fun z hz => ?_,fun _ hc => (nomatch hc)⟩
    obtain ⟨zone,hzone,rfl⟩ := List.mem_map.mp hz
    exact ⟨user,server,zones,h,hserver,hread,hzone⟩
  | zone i path' zones zones' called hanswer =>
    have hids : zones'.subs.map ZoneFetch.zoneid = zones.subs.map ZoneFetch.zoneid :=
      Join.answer_tags (zone_tagged zh held (path',server)).keeps hok.counting.subs hanswer
    have hasks : ∀ z ∈ zones'.subs, Assigned uid since z.zoneid := fun z hz => by
      have hmem := List.mem_map_of_mem (f := ZoneFetch.zoneid) hz
      rw [hids] at hmem
      obtain ⟨z₀,hz₀,heq⟩ := List.mem_map.mp hmem
      exact heq ▸ h z₀ hz₀
    refine ⟨hasks,?_⟩
    rintro snapshot rfl z hz
    have hnext := Fetch.FetchingOk.next hok (m := (path',server)) hm hanswer
    rw [← Join.called_eq hanswer] at hz
    have hmem := (hnext.collecting.tags.trans (List.filter_sublist.map _).subperm).subset
      (List.mem_map_of_mem (f := ZoneRequests.zoneid) hz)
    obtain ⟨z₀,hz₀,heq⟩ := List.mem_map.mp hmem
    exact heq ▸ hasks z₀ hz₀

end Assigned

section Phones

variable {home : Option String → String} {server : Database} {held : List Database}
  {d d' : Phone} {zh : Bool}

structure Phone.Ok (home : Option String → String) (server : Database)
    (held : List Database) (d : Phone) : Prop where
  landing : (d.landing server).Ok home
  since : ∀ r ∈ d.refreshes, ∀ db ∈ r.since, db ∈ held
  stored : d.screen.ctx.store.OnServer held
  cells : ∀ c, (d.screen.cells c).OnServer held
  uids : d.uids.length = d.refreshes.length
  asks : ∀ (n : Nat) (r : Refresh), d.refreshes[n]? = some r → ∃ uid, d.uids[n]? = some uid ∧
    r.fetch.AsksFor uid r.since
  finished : ∀ f ∈ d.finished, ∃ uid, d.uids[f.refresh]? = some uid ∧
    ∀ z ∈ f.snapshot, Assigned uid f.since z.zoneid
  fresh : d.finished = [] → d.screen.ctx.store.zones = []

theorem Phone.Ok.saved (h : d.Ok home server held) : d.screen.ctx.store.Saved :=
  h.landing.reachable.housed.saved

theorem phone_ok_installed (hserver : Served home server) :
    Phone.installed.Ok home server held where
  landing := ⟨.installed,hserver,fun _ hr => (nomatch hr),fun _ _ hf => (nomatch hf)⟩
  since _ hr := nomatch hr
  stored := Store.onServer_empty held
  cells _ _ hreq := nomatch hreq
  uids := rfl
  asks _ _ hr := by simp [Phone.installed] at hr
  finished _ hf := nomatch hf
  fresh _ := rfl

theorem Phone.Ok.signed (h : d.Ok home server held) (user : Option String) :
    Phone.Ok home server held { d with user := user } :=
  ⟨h.landing,h.since,h.stored,h.cells,h.uids,h.asks,h.finished,h.fresh⟩

theorem Phone.Ok.serves (h : d.Ok home server held) {db : Database} (hdb : Served home db) :
    (d.serves db).Ok home db (db :: held) := by
  have hsub : ∀ db' ∈ held, db' ∈ db :: held := fun _ => List.mem_cons_of_mem db
  have hstep : (d.landing server).step false (.server db) = some ((d.serves db).landing db) := rfl
  refine ⟨h.landing.step (e := .server db) (fun _ heq => ?_) hstep,?_,
    h.stored.mono hsub,fun c => (h.cells c).mono hsub,?_,fun n r hr => ?_,h.finished,h.fresh⟩
  · obtain rfl := Landing.Event.server.inj heq
    exact hdb
  · intro r hr db' hdb'
    obtain ⟨r₀,hr₀,rfl⟩ := List.mem_map.mp hr
    rcases List.mem_cons.mp hdb' with rfl | hdb'
    · exact List.mem_cons_self
    · exact hsub db' (h.since r₀ hr₀ db' hdb')
  · simpa [Phone.serves] using h.uids
  · simp only [Phone.serves,List.getElem?_map,Option.map_eq_some_iff] at hr
    obtain ⟨r₀,hr₀,rfl⟩ := hr
    obtain ⟨uid,huid,hasks⟩ := h.asks n r₀ hr₀
    exact ⟨uid,huid,hasks.mono fun db' => List.mem_cons_of_mem db⟩

theorem Phone.refreshData_some (h : d.refreshData server = some d') :
    ∃ fetch, fetchAllZoneRequests d.user = .ok fetch ∧ d' = d.fetches server fetch := by
  simp only [Phone.refreshData] at h
  split at h
  · cases h
  · rename_i fetch hfetch
    exact ⟨fetch,hfetch,(Option.some.inj h).symm⟩

theorem Phone.Ok.fetches (h : d.Ok home server held) (hserver : server ∈ held) {fetch : Fetch}
    (hfetch : fetchAllZoneRequests d.user = .ok fetch) :
    (d.fetches server fetch).Ok home server held where
  landing := by
    have hstep : (d.landing server).step false (.refreshData d.user) =
        some ((d.fetches server fetch).landing server) := by
      simp only [Landing.step,hfetch]
      rfl
    exact h.landing.step (e := .refreshData d.user) (fun _ heq => by cases heq) hstep
  since r hr db hdb := by
    rcases List.mem_append.mp hr with hr | hr
    · exact h.since r hr db hdb
    · obtain rfl := List.mem_singleton.mp hr
      rw [List.mem_singleton.mp hdb]
      exact hserver
  stored := h.stored
  cells := h.cells
  uids := by simp [Phone.fetches,h.uids]
  asks n r hr := by
    simp only [Phone.fetches] at hr ⊢
    rw [List.getElem?_append] at hr
    split at hr
    · rename_i hlt
      obtain ⟨uid,huid,hasks⟩ := h.asks n r hr
      exact ⟨uid,by rw [List.getElem?_append_left (h.uids ▸ hlt),huid],hasks⟩
    · rename_i hge
      obtain ⟨hn,hr⟩ := List.getElem?_eq_some_iff.mp hr
      have hlast : n = d.uids.length := by
        have := h.uids
        simp only [List.length_singleton] at hn
        omega
      refine ⟨d.user,by simp [hlast],?_⟩
      obtain rfl : _ = r := by simpa using hr
      exact asksFor_fetchAllZoneRequests hfetch _
  finished f hf := by
    obtain ⟨uid,huid,hzones⟩ := h.finished f hf
    exact ⟨uid,by
      rw [Phone.fetches,List.getElem?_append_left (List.getElem?_eq_some_iff.mp huid).1,
        huid],hzones⟩
  fresh := h.fresh

theorem Phone.Ok.launched (h : d.Ok home server held) : d.launched.Ok home server held := by
  have hctx : d.screen.ctx.persisted = d.screen.ctx := h.landing.reachable.persisted
  have hscreen : d.launched.screen = .loaded d.screen.ctx := by rw [Phone.launched,hctx]
  refine ⟨⟨?_,h.landing.server,fun r hr => ?_,?_⟩,fun r hr => ?_,?_,?_,?_,fun n r hr => ?_,
    h.finished,?_⟩
  · rw [Phone.landing,hscreen]
    exact h.landing.reachable
  · obtain ⟨r₀,hr₀,rfl⟩ := List.mem_map.mp hr
    have hok := h.landing.refreshes r₀ hr₀
    exact ⟨hok.server,hok.served,trivial⟩
  · rw [Phone.landing,hscreen]
    exact h.landing.stored
  · obtain ⟨r₀,hr₀,rfl⟩ := List.mem_map.mp hr
    exact h.since r₀ hr₀
  · rw [hscreen]
    exact h.stored
  · rw [hscreen]
    exact fun _ _ hreq => (nomatch hreq)
  · simpa [Phone.launched] using h.uids
  · simp only [Phone.launched,List.getElem?_map,Option.map_eq_some_iff] at hr
    obtain ⟨r₀,hr₀,rfl⟩ := hr
    obtain ⟨uid,huid,-⟩ := h.asks n r₀ hr₀
    exact ⟨uid,huid,trivial⟩
  · rw [hscreen]
    exact h.fresh

/-- What an answer to a read can do to the phone. -/
inductive Phone.Answered (zh : Bool) (server : Database) (n : Nat) (d : Phone) :
    Phone → Prop where
  | ignored : Answered zh server n d d
  | fetching (path : List Nat) (r : Refresh) (fetch : Fetch) : d.refreshes[n]? = some r →
      r.fetch.answer zh (path,server) = .ok (fetch,none) → Answered zh server n d
        { d with refreshes := d.refreshes.set n { r with fetch := fetch } }
  | finishing (ord : FetchOrder) (path : List Nat) (r : Refresh) (fetch : Fetch)
      (newZoneReqs : List ZoneRequests) (ctx : Context) : d.refreshes[n]? = some r →
      r.fetch.answer zh (path,server) = .ok (fetch,some newZoneReqs) →
      updateSavedRequests ord newZoneReqs d.screen.ctx = .ok ctx → Answered zh server n d
        { d with
          refreshes := d.refreshes.set n { r with fetch := fetch }
          finished := ⟨n,newZoneReqs,r.since⟩ :: d.finished
          screen := { d.screen with ctx := ctx, reloads := d.screen.reloads+1 } }

theorem Phone.answered {ord : FetchOrder} {n : Nat} {path : List Nat}
    (h : d.answer zh server ord n path = some d') : d.Answered zh server n d' := by
  simp only [Phone.answer] at h
  split at h
  · obtain rfl := Option.some.inj h
    exact .ignored
  · rename_i r hr
    split at h
    · cases h
    · rename_i fetch hrun
      obtain rfl := Option.some.inj h
      exact .fetching path r fetch hr hrun
    · rename_i fetch newZoneReqs hrun
      obtain ⟨screen,hscreen,rfl⟩ := Option.map_eq_some_iff.mp h
      simp only [Screen.step] at hscreen
      split at hscreen
      · rename_i ctx hsync
        obtain rfl := Option.some.inj hscreen
        exact .finishing ord path r fetch newZoneReqs ctx hr hrun hsync
      · cases hscreen

theorem Phone.Ok.next (h : d.Ok home server held) {n : Nat} {path : List Nat} {r : Refresh}
    {fetch : Fetch} {called : Option (List ZoneRequests)} (hr : d.refreshes[n]? = some r)
    (hrun : r.fetch.answer zh (path,server) = .ok (fetch,called)) :
    (∀ r' ∈ d.refreshes.set n { r with fetch := fetch }, ∀ db ∈ r'.since, db ∈ held) ∧
    (∀ (m : Nat) (r' : Refresh), (d.refreshes.set n { r with fetch := fetch })[m]? = some r' →
      ∃ uid, d.uids[m]? = some uid ∧ r'.fetch.AsksFor uid r'.since) ∧
    ∃ uid, d.uids[n]? = some uid ∧
      ∀ snapshot, called = some snapshot → ∀ z ∈ snapshot, Assigned uid r.since z.zoneid := by
  have hok := h.landing.refreshes r (List.mem_of_getElem? hr)
  obtain ⟨uid,huid,hasks⟩ := h.asks n r hr
  obtain ⟨hasks,hcalled⟩ := hasks.answer hok.fetch (hok.heldIn path) hok.server hrun
  refine ⟨fun r' hr' => ?_,fun m r' hr' => ?_,uid,huid,hcalled⟩
  · rcases List.mem_or_eq_of_mem_set hr' with hr' | rfl
    · exact h.since r' hr'
    · exact h.since r (List.mem_of_getElem? hr)
  · rw [List.getElem?_set] at hr'
    split at hr'
    · rename_i hnm
      subst hnm
      split at hr'
      · obtain rfl := Option.some.inj hr'
        exact ⟨uid,huid,hasks⟩
      · cases hr'
    · exact h.asks m r' hr'

theorem Phone.Ok.answer (h : d.Ok home server held) {n : Nat}
    (ha : d.Answered zh server n d') :
    d'.Ok home server held := by
  cases ha with
  | ignored => exact h
  | fetching path r fetch hr hrun =>
    obtain ⟨hsince,hasks,-⟩ := h.next hr hrun
    have hstep : (d.landing server).step zh (.answer .table n path) =
        some { d.landing server with
          refreshes := d.refreshes.set n { r with fetch := fetch } } := by
      simp [Landing.step,Phone.landing,hr,hrun]
    exact ⟨h.landing.step (e := .answer .table n path) (fun _ heq => by cases heq) hstep,hsince,
      h.stored,h.cells,by simpa using h.uids,hasks,h.finished,h.fresh⟩
  | finishing ord path r fetch newZoneReqs ctx hr hrun hsync =>
    obtain ⟨hsince,hasks,uid,huid,hzones⟩ := h.next hr hrun
    have hok := h.landing.refreshes r (List.mem_of_getElem? hr)
    have hgood := (hok.fetch.next (hok.heldIn path) h.landing.server.zones hrun).2 newZoneReqs rfl
    have hstep : (d.landing server).step zh (.answer ord n path) = some ⟨server,ctx,
        d.refreshes.set n { r with fetch := fetch },⟨n,newZoneReqs,r.since⟩ :: d.finished⟩ := by
      simp [Landing.step,Phone.landing,hr,hrun,hsync]
    refine ⟨h.landing.step (e := .answer ord n path) (fun _ heq => by cases heq) hstep,hsince,
      sync_onServer h.landing.reachable hok (h.since r (List.mem_of_getElem? hr)) hgood hsync,
      h.cells,by simpa using h.uids,hasks,fun f hf => ?_,
      fun hnone => absurd hnone (List.cons_ne_nil _ _)⟩
    rcases List.mem_cons.mp hf with rfl | hf
    · exact ⟨uid,huid,hzones newZoneReqs rfl⟩
    · exact h.finished f hf

theorem Phone.Ok.screen (h : d.Ok home server held) {screen : Screen}
    (hctx : screen.ctx = d.screen.ctx) (hcells : ∀ c, (screen.cells c).OnServer held) :
    Phone.Ok home server held { d with screen := screen } where
  landing := by
    rw [Phone.landing,hctx]
    exact h.landing
  since := h.since
  stored := by
    rw [hctx]
    exact h.stored
  cells := hcells
  uids := h.uids
  asks := h.asks
  finished := h.finished
  fresh := by
    rw [hctx]
    exact h.fresh

theorem Phone.Ok.reloadData (h : d.Ok home server held) {ord : FetchOrder} {rows : List Binding}
    {screen : Screen} (hstep : d.screen.step (.reloadData ord rows) = some screen) :
    Phone.Ok home server held { d with screen := screen } := by
  obtain ⟨hnodup,hreload⟩ := step_reloadData hstep
  obtain ⟨zoneRequests,cells,hload,hbind,rfl⟩ := reloadData_ok hreload
  obtain ⟨hkept,hbound⟩ := bindRows_ok hbind hnodup
  refine h.screen rfl fun c => ?_
  by_cases hc : c ∈ rows.map (·.cell)
  · obtain ⟨b,hb,rfl⟩ := List.mem_map.mp hc
    obtain ⟨row,hrow,hzone,hreq,-⟩ := hbound b hb
    obtain ⟨id,hid,hknown⟩ := rowAt_onServer h.saved h.stored hload hrow
    intro req hreq'
    obtain rfl := Option.some.inj (hreq.symm.trans hreq')
    exact ⟨row.1,id,hzone,hid,hknown⟩
  · simp only [hkept c hc]
    exact h.cells c

theorem Phone.Ok.toggledItemCheck (h : d.Ok home server held) {ord : FetchOrder} {cell : Nat}
    {itemID : String} {screen : Screen}
    (hstep : d.screen.step (.toggledItemCheck ord cell itemID) = some screen) :
    Phone.Ok home server held { d with screen := screen } := by
  simp only [Screen.step] at hstep
  split at hstep
  · split at hstep
    · rename_i toggled ctx htoggle
      obtain ⟨hknown,hctx⟩ := toggledItemCheck_onServer (h.cells cell) htoggle
      obtain rfl := Option.some.inj hstep
      have hcells : ∀ c, (Function.update d.screen.cells cell toggled c).OnServer held := by
        intro c
        by_cases hc : c = cell
        · subst hc
          rw [Function.update_self]
          exact hknown
        · rw [Function.update_of_ne hc]
          exact h.cells c
      rcases hctx with rfl | ⟨reqID,checked,rfl⟩
      · exact h.screen rfl hcells
      · have htick : (d.landing server).step false (.tick ord reqID itemID checked) =
            some { d.landing server with
              ctx := markChecked ord reqID itemID checked d.screen.ctx } := rfl
        exact ⟨h.landing.step (e := .tick ord reqID itemID checked)
            (fun _ heq => by cases heq) htick,
          h.since,markChecked_keeps h.stored fun _ => h.stored,hcells,h.uids,h.asks,h.finished,
          fun hnone => markChecked_keeps (P := fun s => s.zones = []) (h.fresh hnone) fun _ =>
            h.fresh hnone⟩
    · cases hstep
  · cases hstep

theorem Phone.Ok.gesture (h : d.Ok home server held) {e : Gesture} (hg : d.gesture e = some d') :
    d'.Ok home server held := by
  cases e with
  | updateSavedRequests ord snapshot => cases hg
  | confirm => cases hg
  | reloadData ord rows =>
    obtain ⟨screen,hstep,rfl⟩ := Option.map_eq_some_iff.mp hg
    exact h.reloadData hstep
  | toggledItemCheck ord cell itemID =>
    obtain ⟨screen,hstep,rfl⟩ := Option.map_eq_some_iff.mp hg
    exact h.toggledItemCheck hstep
  | completionBtnClicked cell =>
    obtain ⟨screen,hstep,rfl⟩ := Option.map_eq_some_iff.mp hg
    simp only [Screen.step] at hstep
    split at hstep
    · obtain rfl := Option.some.inj hstep
      exact h.screen rfl h.cells
    · cases hstep
  | cancel =>
    obtain ⟨screen,hstep,rfl⟩ := Option.map_eq_some_iff.mp hg
    simp only [Screen.step] at hstep
    split at hstep
    · cases hstep
    · obtain rfl := Option.some.inj hstep
      exact h.screen rfl h.cells

theorem Phone.Ok.confirm (h : d.Ok home server held) {c : Confirmation} {ops : List Op}
    (hc : d.confirm = some (d',c,ops)) : d'.Ok home server held ∧
      markRequestAsComplete (some c.uid) c.request c.zoneid = .ok ops ∧
      ∃ id, c.request.id = some id ∧ OnServer held c.zoneid id := by
  obtain ⟨screen,handed,hstep,hhead,-,hreq,hzone,hops,rfl⟩ := Phone.confirm_some hc
  simp only [Screen.step] at hstep
  split at hstep
  · rename_i alert halert
    obtain ⟨req,zoneid,hcell,hcellzone,rfl⟩ := confirm_ok (toOption_some.mp hstep)
    obtain rfl := Option.some.inj hhead
    refine ⟨h.screen rfl h.cells,hops,?_⟩
    obtain ⟨zoneid',id,hzone',hid,hknown⟩ := h.cells alert.cell req hcell
    obtain rfl := Option.some.inj (hcellzone.symm.trans hzone')
    rw [← hreq,← hzone]
    exact ⟨id,hid,hknown⟩
  · cases hstep

end Phones

end Answr
