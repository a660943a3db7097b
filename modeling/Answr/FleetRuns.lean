import Answr.Phones
import Answr.Assigned
import Answr.Completions
set_option autoImplicit false

/-! Runs of a whole fleet: what its writes can reach, and what is stored where after a
request is gone. -/

namespace Answr
open LeafTree Steps

section Writes

variable {succeeds : Op → Bool} {op : Op} {s s' : Server} {more : List Op} {p : Path}
  {db : Database}

def Op.Sets : Op → Prop
  | .lower _ _ | .raise _ => True
  | _ => False

theorem mem_commit {e : Path × Leaf} (hop : ∀ ref id, op ≠ .findEntry ref id)
    (h : e ∈ commit succeeds op db) : e ∈ db ∨ op.Sets ∧ e.1 = op.ref := by
  have hwrite : ∀ ref o, e ∈ write ref o db → e ∈ db ∨ e.1 = ref := by
    intro ref o he
    cases o with
    | none => exact .inl (List.mem_of_mem_filter he)
    | some v =>
      rcases List.mem_append.mp he with he | he
      · exact .inl (List.mem_of_mem_filter he)
      · exact .inr (by rw [List.mem_singleton.mp he])
  rw [commit] at h
  split at h
  · cases op with
    | lower ref qty => exact (hwrite ref _ h).imp_right fun heq => ⟨trivial,heq⟩
    | raise ref => exact (hwrite ref _ h).imp_right fun heq => ⟨trivial,heq⟩
    | findEntry ref id => exact absurd rfl (hop ref id)
    | dropEntry ref => exact .inl (List.mem_of_mem_filter h)
    | dropRequest ref => exact .inl (List.mem_of_mem_filter h)
  · exact .inl h

theorem mem_perform {e : Path × Leaf} (h : perform succeeds op s = .ok (s',more))
    (he : e ∈ s'.db) : e ∈ s.db ∨ op.Sets ∧ e.1 = op.ref := by
  by_cases hop : ∃ ref id, op = .findEntry ref id
  · obtain ⟨ref,id,rfl⟩ := hop
    cases hentry : entryOf id ref s.db with
    | error e => simp [perform,hentry,bind,Except.bind] at h
    | ok entry =>
      rw [perform_findEntry hentry,Except.ok.injEq,Prod.mk.injEq] at h
      exact .inl (h.1 ▸ he)
  · obtain ⟨s₁,hs₁,hdb⟩ := perform_write succeeds s fun ref id heq => hop ⟨ref,id,heq⟩
    rw [hs₁,Except.ok.injEq,Prod.mk.injEq] at h
    rw [← h.1,hdb] at he
    exact mem_commit (fun ref id heq => hop ⟨ref,id,heq⟩) he

theorem get_perform {v : Leaf} (h : perform succeeds op s = .ok (s',more)) (hp : p ≠ op.ref)
    (hv : get p s'.db = some v) : get p s.db = some v := by
  by_cases hop : ∃ ref id, op = .findEntry ref id
  · obtain ⟨ref,id,rfl⟩ := hop
    cases hentry : entryOf id ref s.db with
    | error e => simp [perform,hentry,bind,Except.bind] at h
    | ok entry =>
      rw [perform_findEntry hentry,Except.ok.injEq,Prod.mk.injEq] at h
      exact h.1 ▸ hv
  · obtain ⟨s₁,hs₁,hdb⟩ := perform_write succeeds s fun ref id heq => hop ⟨ref,id,heq⟩
    rw [hs₁,Except.ok.injEq,Prod.mk.injEq] at h
    rw [← h.1,hdb,commit] at hv
    split at hv
    · cases hact : op.act (get op.ref s.db) with
      | none =>
        rw [hact,write,get_remove] at hv
        split at hv
        · cases hv
        · exact hv
      | some w =>
        rw [hact,write,get_put _ _ _ _ (Ne.symm hp)] at hv
        split at hv
        · exact hv
        · cases hv
    · exact hv

end Writes

section Issued

def IssuedFor (confirmed : List Confirmation) (op : Op) : Prop :=
  ∃ c ∈ confirmed, ∃ id, c.request.id = some id ∧ op ∈ issuedBy c.request c.zoneid id c.uid

/-- An operation that comes up in a run after the confirmations, by the first piece of its
path. -/
inductive Op.Kind (confirmed : List Confirmation) : Op → Prop where
  | requestCounter (ref : Path) (qty : Int) : Kind confirmed (.lower ("requestCounter" :: ref) qty)
  | requested (ref : Path) (qty : Int) : Kind confirmed (.lower ("items" :: ref) qty)
  | read (ref : Path) (id : Option String) : Kind confirmed (.findEntry ("userRequests" :: ref) id)
  | entry (ref : Path) : Kind confirmed (.dropEntry ("userRequests" :: ref))
  | raise (c : Confirmation) : c ∈ confirmed → Kind confirmed (.raise (completedRequestsRef c.uid))
  | request (c : Confirmation) (id : String) : c ∈ confirmed → c.request.id = some id →
      Kind confirmed (.dropRequest (requestRef c.zoneid id))

variable {confirmed : List Confirmation} {op : Op}

theorem Op.Arises.kind (h : op.Arises (IssuedFor confirmed)) : op.Kind confirmed := by
  rcases h with ⟨c,hc,id,hid,hop⟩ | ⟨ref,id,key,⟨c,hc,id',hid',hop⟩,rfl⟩
  · rcases mem_issuedBy.mp hop with ⟨item,hi,rfl | rfl⟩ | rfl | rfl | rfl
    · rw [child_requestCounter]
      exact .requestCounter _ _
    · rw [child_requested]
      exact .requested _ _
    · rw [child_userRequests]
      exact .read _ _
    · exact .raise c hc
    · exact .request c id hc hid
  · rcases mem_issuedBy.mp hop with ⟨item,hi,heq | heq⟩ | heq | heq | heq
    · cases heq
    · cases heq
    · obtain ⟨rfl,-⟩ := Op.findEntry.inj heq
      rw [child_userRequests]
      exact .entry _
    · cases heq
    · cases heq

theorem Op.Kind.head_ne (h : op.Kind confirmed) (hs : op.Sets) :
    op.ref.head? ≠ some "requests" := by
  cases h with
  | requestCounter ref qty => simp [Op.ref]
  | requested ref qty => simp [Op.ref]
  | read ref id => exact hs.elim
  | entry ref => exact hs.elim
  | request c id => exact hs.elim
  | raise c => simp [Op.ref,child_completedRequests]

theorem Op.Kind.ref_ne (h : op.Kind confirmed) (uid : String) :
    volunteerRef uid ++ ["AssignedZones"] ≠ op.ref := by
  have hv : segments "volunteer" = ["volunteer"] := rfl
  have hr : segments "requests" = ["requests"] := rfl
  intro heq
  have hhead : op.ref.head? = some "volunteer" := by
    rw [← heq]
    simp [volunteerRef,childFromString,hv]
  cases h with
  | requestCounter ref qty => simp [Op.ref] at hhead
  | requested ref qty => simp [Op.ref] at hhead
  | read ref id => simp [Op.ref] at hhead
  | entry ref => simp [Op.ref] at hhead
  | request c id => simp [Op.ref,child_requests] at hhead
  | raise c =>
    have hlast := congrArg List.getLast? heq
    rw [List.getLast?_concat,Op.ref,child_completedRequests,← List.cons_append,
      List.getLast?_concat] at hlast
    simp at hlast

variable {home : Option String → String} {succeeds : Op → Bool} {s s' : Server}
  {more : List Op}

theorem Op.Kind.keys_subset (h : op.Kind confirmed)
    (hrun : perform succeeds op s = .ok (s',more)) {zoneid id : String}
    (hid : id ∈ keys (zoneRef zoneid) s'.db) : id ∈ keys (zoneRef zoneid) s.db := by
  obtain ⟨q,v,hmem⟩ := (mem_keys _ _).mp hid
  rcases mem_perform hrun hmem with hmem | ⟨hs,heq⟩
  · exact (mem_keys _ _).mpr ⟨q,v,hmem⟩
  · have hhead : op.ref.head? = some "requests" := by
      rw [← heq,zoneRef_eq]
      rfl
    exact absurd hhead (h.head_ne hs)

theorem Served.perform (hserved : Served home s.db) (h : op.Kind confirmed)
    (hrun : Answr.perform succeeds op s = .ok (s',more)) : Served home s'.db where
  zones uid zones hzones := by
    refine hserved.zones uid zones ?_
    obtain ⟨str,hstr,rfl⟩ := Option.map_eq_some_iff.mp hzones
    obtain ⟨v,hv,hvs⟩ := Option.bind_eq_some_iff.mp hstr
    have hbefore := get_perform hrun (h.ref_ne uid) hv
    exact Option.map_eq_some_iff.mpr ⟨str,Option.bind_eq_some_iff.mpr ⟨v,hbefore,hvs⟩,rfl⟩
  home zoneid id hz hid := hserved.home zoneid id hz (h.keys_subset hrun hid)

end Issued

section Runs

/-- What other clients write is served the same way. -/
def Fleet.Serves (home : Option String → String) (_ : Fleet) (e : Fleet.Event) : Prop :=
  ∀ db, e = .others db → Served home db

structure Fleet.Ok (home : Option String → String) (sys : Fleet) : Prop where
  served : Served home sys.server.db
  now : sys.server.db ∈ sys.held
  phones : ∀ d ∈ sys.phones, d.Ok home sys.server.db sys.held
  confirmed : ∀ c ∈ sys.confirmed, ∃ id, c.request.id = some id ∧ OnServer sys.held c.zoneid id
  pending : ∀ op ∈ sys.pending, op.Arises (IssuedFor sys.confirmed)

variable {home : Option String → String} {zh : Bool} {sys sys' : Fleet} {e : Fleet.Event}
  {db : Database}

theorem fleet_ok_installed (hdb : Served home db) (phones : Nat) :
    (Fleet.installed db phones).Ok home where
  served := hdb
  now := List.mem_singleton.mpr rfl
  phones d hd := by
    rw [List.eq_of_mem_replicate hd]
    exact phone_ok_installed hdb
  confirmed _ hc := nomatch hc
  pending _ hop := nomatch hop

theorem Fleet.Ok.serves (h : sys.Ok home) (hdb : Served home db) : (sys.serves db).Ok home where
  served := hdb
  now := List.mem_cons_self
  phones d hd := by
    obtain ⟨d₀,hd₀,rfl⟩ := List.mem_map.mp hd
    exact (h.phones d₀ hd₀).serves hdb
  confirmed c hc := by
    obtain ⟨id,hid,hknown⟩ := h.confirmed c hc
    exact ⟨id,hid,hknown.mono fun _ => List.mem_cons_of_mem db⟩
  pending := h.pending

theorem Fleet.Ok.set (h : sys.Ok home) (i : Nat) {d : Phone}
    (hd : d.Ok home sys.server.db sys.held) :
    Fleet.Ok home { sys with phones := sys.phones.set i d } where
  served := h.served
  now := h.now
  phones d' hd' := by
    rcases List.mem_or_eq_of_mem_set hd' with hd' | rfl
    · exact h.phones d' hd'
    · exact hd
  confirmed := h.confirmed
  pending := h.pending

theorem issuedFor_cons {confirmed : List Confirmation} {op : Op} (c : Confirmation)
    (h : op.Arises (IssuedFor confirmed)) : op.Arises (IssuedFor (c :: confirmed)) := by
  have hmono : ∀ o, IssuedFor confirmed o → IssuedFor (c :: confirmed) o :=
    fun o ⟨c',hc',hrest⟩ => ⟨c',List.mem_cons_of_mem c hc',hrest⟩
  rcases h with h | ⟨ref,id,key,h,rfl⟩
  · exact .inl (hmono op h)
  · exact .inr ⟨ref,id,key,hmono _ h,rfl⟩

theorem Fleet.Ok.confirm (h : sys.Ok home) {i : Nat} {d d' : Phone} {c : Confirmation}
    {ops : List Op} (hd : sys.phones[i]? = some d) (hc : d.confirm = some (d',c,ops)) :
    Fleet.Ok home { sys with
      phones := sys.phones.set i d'
      pending := sys.pending ++ ops
      confirmed := c :: sys.confirmed } := by
  obtain ⟨hok,hops,id,hid,hknown⟩ := (h.phones d (List.mem_of_getElem? hd)).confirm hc
  have hset := h.set i hok
  refine ⟨h.served,h.now,hset.phones,fun c' hc' => ?_,fun op hop => ?_⟩
  · rcases List.mem_cons.mp hc' with rfl | hc'
    · exact ⟨id,hid,hknown⟩
    · exact h.confirmed c' hc'
  · rcases List.mem_append.mp hop with hop | hop
    · exact issuedFor_cons c (h.pending op hop)
    · rw [markRequestAsComplete_ok hid] at hops
      rw [← Except.ok.inj hops] at hop
      exact .inl ⟨c,List.mem_cons_self,id,hid,hop⟩

theorem Fleet.Ok.perform (h : sys.Ok home) {n : Nat} {succeeds : Op → Bool} {op : Op}
    {server : Server} {more failed : List Op} (hop : sys.pending[n]? = some op)
    (hrun : Answr.perform succeeds op sys.server = .ok (server,more)) :
    Fleet.Ok home { sys.serves server.db with
      server := server, pending := more ++ sys.pending.eraseIdx n, failed := failed } := by
  have harises := h.pending op (List.mem_of_getElem? hop)
  have hserves := h.serves (h.served.perform harises.kind hrun)
  refine ⟨hserves.served,hserves.now,hserves.phones,hserves.confirmed,fun o ho => ?_⟩
  have hrest : ∀ o ∈ (↑(sys.pending.eraseIdx n) : Multiset Op),
      o.Arises (IssuedFor sys.confirmed) :=
    fun o ho => h.pending o (List.mem_of_mem_eraseIdx (Multiset.mem_coe.mp ho))
  exact arises_step harises hrun hrest o (by simpa using ho)

/-- The step lemma. -/
theorem Fleet.Ok.step (h : sys.Ok home) (hserves : sys.Serves home e)
    (hs : sys.step zh e = some sys') : sys'.Ok home := by
  cases Fleet.moves_of_step hs with
  | signed i user d hd => exact h.set i ((h.phones d (List.mem_of_getElem? hd)).signed user)
  | launched i d hd => exact h.set i (h.phones d (List.mem_of_getElem? hd)).launched
  | refreshData i d d' hd hf =>
    obtain ⟨fetch,hfetch,rfl⟩ := Phone.refreshData_some hf
    exact h.set i ((h.phones d (List.mem_of_getElem? hd)).fetches h.now hfetch)
  | answer i ord n path d d' hd ha =>
    exact h.set i ((h.phones d (List.mem_of_getElem? hd)).answer (Phone.answered ha))
  | gesture i e d d' hd hg => exact h.set i ((h.phones d (List.mem_of_getElem? hd)).gesture hg)
  | confirm i d d' c ops hd hc => exact h.confirm hd hc
  | perform n succeeds op server more hop hrun => exact h.perform hop hrun
  | lost n op hop =>
    exact ⟨h.served,h.now,h.phones,h.confirmed,fun o ho =>
      h.pending o (List.mem_of_mem_eraseIdx ho)⟩
  | others db => exact h.serves (hserves db rfl)

theorem fleet_ok_of_reaches {phones : Nat} (hdb : Served home db)
    (hr : Reaches (Fleet.step zh) (Fleet.Serves home) (.installed db phones) sys) : sys.Ok home :=
  hr.inv (fun _ _ _ hok hm hs => hok.step hm hs) (fleet_ok_installed hdb phones)

end Runs

section Stored

variable {home : Option String → String} {zh : Bool} {sys sys' : Fleet} {e : Fleet.Event}
  {db : Database}

/-- Every request stored on a phone lies in a zone that was assigned, after the refresh that
finished last was started, to the user it was started for; and the server has held it there
at some time since. Before any refresh has finished nothing is stored. -/
theorem stored_assigned (zh : Bool) (home : Option String → String) (db : Database)
    (phones : Nat) (hdb : Served home db) (sys : Fleet)
    (hr : Reaches (Fleet.step zh) (Fleet.Serves home) (.installed db phones) sys) :
    ∀ d ∈ sys.phones, (d.finished = [] → d.screen.ctx.store.requests = []) ∧
      ∀ f rest, d.finished = f :: rest → ∃ uid, d.uids[f.refresh]? = some uid ∧
        ∀ c ∈ d.screen.ctx.store.zones, ∀ r ∈ d.screen.ctx.store.requestsOf c, ∃ zoneid id,
          c.zoneid = some zoneid ∧ r.id = some id ∧ Assigned uid f.since zoneid ∧
          HeldSince f.since zoneid id := by
  intro d hd
  have hok := (fleet_ok_of_reaches hdb hr).phones d hd
  refine ⟨fun hnone => ?_,fun f rest hf => ?_⟩
  · refine List.eq_nil_iff_forall_not_mem.mpr fun r hrow => ?_
    obtain ⟨c,hc,-⟩ := hok.saved.zoneOf r hrow
    rw [hok.fresh hnone] at hc
    cases hc
  obtain ⟨uid,huid,hzones⟩ := hok.finished f (by simp [hf])
  have hstored := hok.landing.stored f rest hf
  refine ⟨uid,huid,fun c hc r hrow => ?_⟩
  obtain ⟨zoneid,id,hzone,hid,hheld⟩ := hstored.held c hc r hrow
  obtain ⟨z,hz,rfl,-⟩ := (hstored.pairs zoneid r.id).mp ⟨c,hc,hzone,r,hrow,rfl⟩
  exact ⟨z.zoneid,id,hzone,hid,hzones z hz,hheld⟩

def Fleet.Event.own : Fleet.Event → Bool
  | .others _ => false
  | .signed _ (some user) => user == "u1"
  | _ => true

def fetchNorth (i n : Nat) : List Fleet.Event :=
  [[],[0],[0,0],[0,0,0,0],[0,0,1,0]].map fun path => .answer i .table n path

/-- A volunteer's two phones show the request, and it is completed on one of them. -/
def sharedEvents : List Fleet.Event :=
  [.signed 0 (some "u1"),.signed 1 (some "u1"),.refreshData 0,.refreshData 1] ++
  fetchNorth 0 0 ++ fetchNorth 1 0 ++ [.gesture 0 (.reloadData .table [⟨0,(0,0)⟩]),
    .gesture 0 (.toggledItemCheck .table 0 "rice"),.gesture 0 (.completionBtnClicked 0),
    .confirm 0]

def goesOn (es : List Fleet.Event) (sys : Fleet) : Option Fleet :=
  play (Fleet.step false) (fun _ e => e.own = true) sys es

def shared : Option Fleet := goesOn sharedEvents (.installed northServer 2)

theorem own_serves {home : Option String → String} (sys : Fleet) {e : Fleet.Event}
    (h : e.own = true) : sys.Serves home e := by
  rintro db rfl
  cases h

theorem stored_assigned_shared : ∃ sys,
    Reaches (Fleet.step false) (Fleet.Serves fun _ => "north") (.installed northServer 2) sys ∧
    (sys.phones.map fun d => d.finished.map (·.refresh)) = [[0],[0]] ∧
    ∀ d ∈ sys.phones, (d.finished = [] → d.screen.ctx.store.requests = []) ∧
      ∀ f rest, d.finished = f :: rest → ∃ uid, d.uids[f.refresh]? = some uid ∧
        ∀ c ∈ d.screen.ctx.store.zones, ∀ r ∈ d.screen.ctx.store.requestsOf c, ∃ zoneid id,
          c.zoneid = some zoneid ∧ r.id = some id ∧ Assigned uid f.since zoneid ∧
          HeldSince f.since zoneid id := by
  have hrun : shared.map (fun sys => sys.phones.map fun d => d.finished.map (·.refresh)) =
      some [[0],[0]] := rfl
  obtain ⟨sys,hsys,hfin⟩ := Option.map_eq_some_iff.mp hrun
  have hr : Reaches (Fleet.step false) (Fleet.Serves fun _ => "north") (.installed northServer 2)
      sys := (reaches_of_play hsys).mono fun s e he => own_serves s he
  exact ⟨sys,hr,hfin,stored_assigned false (fun _ => "north") northServer 2 northServer_served
    sys hr⟩

def AbsentSince (since : List Database) (zoneid id : String) : Prop :=
  ∀ db ∈ since, id ∉ keys (zoneRef zoneid) db

def Fleet.KeepsAbsent (zoneid id : String) (_ : Fleet) (e : Fleet.Event) : Prop :=
  ∀ db, e = .others db → id ∉ keys (zoneRef zoneid) db

/-- The refreshes of a phone that were started later than those of another state of it
have not seen the request. -/
structure Phone.Unseen (zoneid id : String) (d₀ d : Phone) : Prop where
  started : d₀.refreshes.length ≤ d.refreshes.length
  refreshes : ∀ (n : Nat) (r : Refresh), d₀.refreshes.length ≤ n → d.refreshes[n]? = some r →
    AbsentSince r.since zoneid id
  finished : ∀ f ∈ d.finished, d₀.refreshes.length ≤ f.refresh → AbsentSince f.since zoneid id

variable {zoneid id : String} {d₀ d d' : Phone} {server : Database}

theorem Phone.Unseen.serves (h : Phone.Unseen zoneid id d₀ d)
    (hdb : id ∉ keys (zoneRef zoneid) db) : Phone.Unseen zoneid id d₀ (d.serves db) where
  started := by simpa [Phone.serves] using h.started
  refreshes n r hn hr := by
    simp only [Phone.serves,List.getElem?_map,Option.map_eq_some_iff] at hr
    obtain ⟨r₀,hr₀,rfl⟩ := hr
    intro db' hdb'
    rcases List.mem_cons.mp hdb' with rfl | hdb'
    · exact hdb
    · exact h.refreshes n r₀ hn hr₀ db' hdb'
  finished := h.finished

theorem Phone.Unseen.launched (h : Phone.Unseen zoneid id d₀ d) :
    Phone.Unseen zoneid id d₀ d.launched where
  started := by simpa [Phone.launched] using h.started
  refreshes n r hn hr := by
    simp only [Phone.launched,List.getElem?_map,Option.map_eq_some_iff] at hr
    obtain ⟨r₀,hr₀,rfl⟩ := hr
    exact h.refreshes n r₀ hn hr₀
  finished := h.finished

theorem Phone.Unseen.fetches (h : Phone.Unseen zoneid id d₀ d)
    (hserver : id ∉ keys (zoneRef zoneid) server) (fetch : Fetch) :
    Phone.Unseen zoneid id d₀ (d.fetches server fetch) where
  started := by
    have := h.started
    simp only [Phone.fetches,List.length_append]
    omega
  refreshes n r hn hr := by
    simp only [Phone.fetches,List.getElem?_append] at hr
    split at hr
    · exact h.refreshes n r hn hr
    · obtain rfl := List.mem_singleton.mp (List.mem_of_getElem? hr)
      intro db hdb
      rw [List.mem_singleton.mp hdb]
      exact hserver
  finished := h.finished

theorem Phone.Unseen.set (h : Phone.Unseen zoneid id d₀ d) {n : Nat} {r : Refresh}
    (hr : d.refreshes[n]? = some r) (fetch : Fetch) :
    ∀ m r', d₀.refreshes.length ≤ m →
      (d.refreshes.set n { r with fetch := fetch })[m]? = some r' →
      AbsentSince r'.since zoneid id := by
  intro m r' hm hr'
  rw [List.getElem?_set] at hr'
  split at hr'
  · rename_i hnm
    subst hnm
    split at hr'
    · obtain rfl := Option.some.inj hr'
      exact h.refreshes n r hm hr
    · cases hr'
  · exact h.refreshes m r' hm hr'

theorem Phone.Unseen.answer (h : Phone.Unseen zoneid id d₀ d) {n : Nat}
    (ha : d.Answered zh server n d') : Phone.Unseen zoneid id d₀ d' := by
  cases ha with
  | ignored => exact h
  | fetching path r fetch hr hrun =>
    exact ⟨by simpa using h.started,h.set hr fetch,h.finished⟩
  | finishing ord path r fetch newZoneReqs ctx hr hrun hsync =>
    refine ⟨by simpa using h.started,h.set hr fetch,fun f hf hn => ?_⟩
    rcases List.mem_cons.mp hf with rfl | hf
    · exact h.refreshes n r hn hr
    · exact h.finished f hf hn

theorem Phone.Unseen.screen (h : Phone.Unseen zoneid id d₀ d)
    (hrefreshes : d'.refreshes = d.refreshes) (hfinished : d'.finished = d.finished) :
    Phone.Unseen zoneid id d₀ d' :=
  ⟨hrefreshes ▸ h.started,hrefreshes ▸ h.refreshes,hfinished ▸ h.finished⟩

theorem Phone.gesture_keeps {e : Gesture} (h : d.gesture e = some d') :
    d'.refreshes = d.refreshes ∧ d'.finished = d.finished := by
  cases e with
  | updateSavedRequests ord snapshot => cases h
  | confirm => cases h
  | reloadData ord rows =>
    obtain ⟨screen,-,rfl⟩ := Option.map_eq_some_iff.mp h
    exact ⟨rfl,rfl⟩
  | toggledItemCheck ord cell itemID =>
    obtain ⟨screen,-,rfl⟩ := Option.map_eq_some_iff.mp h
    exact ⟨rfl,rfl⟩
  | completionBtnClicked cell =>
    obtain ⟨screen,-,rfl⟩ := Option.map_eq_some_iff.mp h
    exact ⟨rfl,rfl⟩
  | cancel =>
    obtain ⟨screen,-,rfl⟩ := Option.map_eq_some_iff.mp h
    exact ⟨rfl,rfl⟩

/-- From a state without the request on: it stays away, and no refresh that has been
started since has seen it. -/
structure Fleet.Unseen (zoneid id : String) (sys start : Fleet) : Prop where
  absent : id ∉ keys (zoneRef zoneid) sys.server.db
  phones : ∀ (i : Nat) (d : Phone), sys.phones[i]? = some d →
    ∃ d₀, start.phones[i]? = some d₀ ∧ Phone.Unseen zoneid id d₀ d

variable {start : Fleet}

theorem Fleet.Unseen.set (h : sys.Unseen zoneid id start) {i : Nat}
    (hd : sys.phones[i]? = some d)
    (hstep : ∀ d₀, Phone.Unseen zoneid id d₀ d → Phone.Unseen zoneid id d₀ d') :
    ∀ (j : Nat) (d'' : Phone), (sys.phones.set i d')[j]? = some d'' →
      ∃ d₀, start.phones[j]? = some d₀ ∧ Phone.Unseen zoneid id d₀ d'' := by
  intro j d'' hj
  rw [List.getElem?_set] at hj
  split at hj
  · rename_i hij
    subst hij
    split at hj
    · obtain rfl := Option.some.inj hj
      obtain ⟨d₀,hd₀,hunseen⟩ := h.phones i d hd
      exact ⟨d₀,hd₀,hstep d₀ hunseen⟩
    · cases hj
  · exact h.phones j d'' hj

theorem Fleet.Unseen.serves (h : sys.Unseen zoneid id start)
    (hdb : id ∉ keys (zoneRef zoneid) db) : (sys.serves db).Unseen zoneid id start where
  absent := hdb
  phones i d hd := by
    simp only [Fleet.serves,List.getElem?_map,Option.map_eq_some_iff] at hd
    obtain ⟨d₁,hd₁,rfl⟩ := hd
    obtain ⟨d₀,hd₀,hunseen⟩ := h.phones i d₁ hd₁
    exact ⟨d₀,hd₀,hunseen.serves hdb⟩

theorem Fleet.Unseen.step (h : sys.Unseen zoneid id start) (hok : sys.Ok home)
    (habsent : sys.KeepsAbsent zoneid id e) (hs : sys.step zh e = some sys') :
    sys'.Unseen zoneid id start := by
  cases Fleet.moves_of_step hs with
  | signed i user d hd => exact ⟨h.absent,h.set hd fun _ hu => hu.screen rfl rfl⟩
  | launched i d hd => exact ⟨h.absent,h.set hd fun _ hu => hu.launched⟩
  | refreshData i d d' hd hf =>
    obtain ⟨fetch,-,rfl⟩ := Phone.refreshData_some hf
    exact ⟨h.absent,h.set hd fun _ hu => hu.fetches h.absent fetch⟩
  | answer i ord n path d d' hd ha =>
    exact ⟨h.absent,h.set hd fun _ hu => hu.answer (Phone.answered ha)⟩
  | gesture i e d d' hd hg =>
    obtain ⟨hrefreshes,hfinished⟩ := Phone.gesture_keeps hg
    exact ⟨h.absent,h.set hd fun _ hu => hu.screen hrefreshes hfinished⟩
  | confirm i d d' c ops hd hc =>
    obtain ⟨screen,handed,-,-,-,-,-,-,rfl⟩ := Phone.confirm_some hc
    exact ⟨h.absent,h.set hd fun _ hu => hu.screen rfl rfl⟩
  | perform n succeeds op server more hop hrun =>
    have hkind := (hok.pending op (List.mem_of_getElem? hop)).kind
    have hserves := h.serves fun hid => h.absent (hkind.keys_subset hrun hid)
    exact ⟨hserves.absent,hserves.phones⟩
  | lost n op hop => exact ⟨h.absent,h.phones⟩
  | others db => exact h.serves (habsent db rfl)

/-- Once a request is gone from the server, no phone stores it that last finished a
refresh started since, however refreshes and completions overlap. -/
theorem gone_notStored (zh : Bool) (home : Option String → String) (db : Database)
    (phones : Nat) (hdb : Served home db) (start sys : Fleet) (zoneid id : String)
    (hr : Reaches (Fleet.step zh) (Fleet.Serves home) (.installed db phones) start)
    (hgone : id ∉ keys (zoneRef zoneid) start.server.db)
    (hr' : Reaches (Fleet.step zh)
      (fun s e => s.Serves home e ∧ s.KeepsAbsent zoneid id e) start sys) :
    ∀ (i : Nat) (d₀ d : Phone), start.phones[i]? = some d₀ → sys.phones[i]? = some d →
      ∀ f rest, d.finished = f :: rest → d₀.refreshes.length ≤ f.refresh →
        ∀ c ∈ d.screen.ctx.store.zones, ∀ r ∈ d.screen.ctx.store.requestsOf c,
          ¬ (c.zoneid = some zoneid ∧ r.id = some id) := by
  have hstart := fleet_ok_of_reaches hdb hr
  have hinv : sys.Ok home ∧ sys.Unseen zoneid id start := by
    refine hr'.inv (fun s e s' (hinv : s.Ok home ∧ s.Unseen zoneid id start) hmeets hs => ?_) ?_
    · obtain ⟨hok,hunseen⟩ := hinv
      obtain ⟨hserves,habsent⟩ := hmeets
      exact ⟨hok.step hserves hs,hunseen.step hok habsent hs⟩
    · refine ⟨hstart,hgone,fun i d hd => ⟨d,hd,Nat.le_refl _,fun n r hn hr => ?_,fun f hf hn => ?_⟩⟩
      · have hlt := (List.getElem?_eq_some_iff.mp hr).1
        omega
      · -- what has finished was started before
        have hdok := hstart.phones d (List.mem_of_getElem? hd)
        obtain ⟨uid,huid,-⟩ := hdok.finished f hf
        have hlt := (List.getElem?_eq_some_iff.mp huid).1
        have := hdok.uids
        omega
  intro i d₀ d hd₀ hd f rest hf hn c hc r hrow
  rintro ⟨hzone,hid⟩
  obtain ⟨d₁,hd₁,hunseen⟩ := hinv.2.phones i d hd
  obtain rfl : d₀ = d₁ := Option.some.inj (hd₀.symm.trans hd₁)
  obtain ⟨zoneid',id',hzone',hid',db',hdb',hmem⟩ :=
    ((hinv.1.phones d (List.mem_of_getElem? hd)).landing.stored f rest hf).held c hc r hrow
  obtain rfl := Option.some.inj (hzone.symm.trans hzone')
  obtain rfl := Option.some.inj (hid.symm.trans hid')
  exact hunseen.finished f (by simp [hf]) hn db' hdb' hmem

def goneEvents : List Fleet.Event := [.perform 4 true,.perform 3 true]

def againEvents : List Fleet.Event :=
  [.refreshData 1,.answer 1 .table 1 [],.answer 1 .table 1 [0]]

theorem gone_notStored_shared : ∃ start sys,
    "r1" ∉ keys (zoneRef "north") start.server.db ∧
    Reaches (Fleet.step false) (fun s e => s.Serves (fun _ => "north") e ∧
      s.KeepsAbsent "north" "r1" e) start sys ∧
    (sys.phones.map fun d => d.finished.map (·.refresh)) = [[0],[1,0]] ∧
    ∀ (i : Nat) (d₀ d : Phone), start.phones[i]? = some d₀ → sys.phones[i]? = some d →
      ∀ f rest, d.finished = f :: rest → d₀.refreshes.length ≤ f.refresh →
        ∀ c ∈ d.screen.ctx.store.zones, ∀ r ∈ d.screen.ctx.store.requestsOf c,
          ¬ (c.zoneid = some "north" ∧ r.id = some "r1") := by
  have hrun : (shared.bind (goesOn goneEvents)).map (fun start =>
      (decide ("r1" ∈ keys (zoneRef "north") start.server.db),
        (goesOn againEvents start).map fun sys =>
          sys.phones.map fun d => d.finished.map (·.refresh))) =
      some (false,some [[0],[1,0]]) := rfl
  obtain ⟨start,hstart,hrun⟩ := Option.map_eq_some_iff.mp hrun
  obtain ⟨hgone,hagain⟩ := Prod.mk.inj hrun
  obtain ⟨sys,hsys,hfin⟩ := Option.map_eq_some_iff.mp hagain
  obtain ⟨mid,hmid,hrest⟩ := Option.bind_eq_some_iff.mp hstart
  have hgone : "r1" ∉ keys (zoneRef "north") start.server.db := of_decide_eq_false hgone
  have hr : Reaches (Fleet.step false) (Fleet.Serves fun _ => "north") (.installed northServer 2)
      start := ((reaches_of_play hmid).trans (reaches_of_play hrest)).mono fun s e he =>
    own_serves s he
  have hr' : Reaches (Fleet.step false) (fun s e => s.Serves (fun _ => "north") e ∧
      s.KeepsAbsent "north" "r1" e) start sys := by
    refine (reaches_of_play hsys).mono fun s e he => ⟨own_serves s he,?_⟩
    rintro db rfl
    cases he
  exact ⟨start,sys,hgone,hr',hfin,gone_notStored false (fun _ => "north") northServer 2
    northServer_served start sys "north" "r1" hr hgone hr'⟩

end Stored

end Answr
