import Answr.Interrupted
set_option autoImplicit false

/-! A sync that starts from a store which an interrupted one left: it comes to the same
end, and from there on nothing changes. -/

namespace Answr
open Loops

section Input

variable {s p s' s'' : Store} {snapshot : List ZoneRequests} {zoneid : Option String}
  {id : Option String}

def Known (s : Store) (snapshot : List ZoneRequests) (zoneid id : Option String) : Prop :=
  (∃ c ∈ s.zones, c.zoneid = zoneid ∧ ∃ r ∈ s.requestsOf c, r.id = id) ∨
  ∃ z ∈ snapshot, some z.zoneid = zoneid ∧ ∃ req ∈ z.requests, req.id = id

theorem MergeInput.known_zone (h : MergeInput s snapshot) {zoneid' : Option String}
    (hk : Known s snapshot zoneid id) (hk' : Known s snapshot zoneid' id) : zoneid = zoneid' := by
  rcases hk with ⟨c,hc,rfl,r,hr,rfl⟩ | ⟨z,hz,rfl,req,hreq,rfl⟩
  · rcases hk' with ⟨c',hc',rfl,r',hr',hid⟩ | ⟨z,hz,rfl,req,hreq,hid⟩
    · obtain ⟨hrm,hrz⟩ := Store.mem_requestsOf.mp hr
      obtain ⟨hrm',hrz'⟩ := Store.mem_requestsOf.mp hr'
      rw [List.inj_on_of_nodup_map h.storedIDs hrm' hrm hid,hrz,Option.some.injEq] at hrz'
      rw [h.saved.zone_eq hc hc' hrz']
    · exact h.stays c hc r hr z hz req hreq hid.symm
  · rcases hk' with ⟨c,hc,rfl,r,hr,hid⟩ | ⟨z',hz',rfl,req',hreq',hid⟩
    · exact (h.stays c hc r hr z hz req hreq hid).symm
    · rw [h.snapshot_zone hz hz' hreq hreq' hid.symm]

theorem Partway.known (h : Partway s snapshot p) (hn : (s.zones.map (·.zoneid)).Nodup)
    {c : CDZoneRequests} (hc : c ∈ p.zones) {r : CDRequest} (hr : r ∈ p.requestsOf c) :
    Known s snapshot c.zoneid r.id := by
  have hmem : (r,p.itemsOf r) ∈ p.entries c :=
    List.mem_map_of_mem (f := fun r => (r,p.itemsOf r)) hr
  have hstored : ∀ e ∈ s.entries c, c ∈ s.zones → e.1.id = r.id →
      Known s snapshot c.zoneid r.id := fun e he hc₀ hid =>
    .inl ⟨c,hc₀,rfl,e.1,Store.mem_requestsOf.mpr
      ⟨(Store.mem_entries.mp he).1,(Store.mem_entries.mp he).2.1⟩,hid⟩
  by_cases hlisted : ∃ z ∈ snapshot, c.zoneid = some z.zoneid
  · obtain ⟨z,hz,hcz⟩ := hlisted
    have hentry : ∀ e ∈ s.zoneEntries z.zoneid, e.1.id = r.id →
        Known s snapshot c.zoneid r.id := by
      intro e he hid
      obtain ⟨c',hc',hcz',he'⟩ := (Store.mem_zoneEntries hn).mp he
      exact .inl ⟨c',hc',hcz'.trans hcz.symm,e.1,Store.mem_requestsOf.mpr
        ⟨(Store.mem_entries.mp he').1,(Store.mem_entries.mp he').2.1⟩,hid⟩
    rcases (h.listed c hc z hz hcz).origin _ hmem with he | ⟨e,he,-,heq⟩ | ⟨req,hreq,hholds⟩
    · exact hentry _ he rfl
    · exact hentry e he (congrArg (fun e : Entry => e.1.id) heq).symm
    · exact .inr ⟨z,hz,hcz.symm,req,List.mem_of_mem_filter hreq,hholds.id.symm⟩
  · simp only [not_exists,not_and] at hlisted
    have hc₀ := (h.zoneids c hc).resolve_right fun ⟨z,hz,hcz⟩ => hlisted z hz hcz
    rw [h.others c hc hlisted] at hmem
    exact hstored _ hmem hc₀ rfl

theorem Partway.mergeInput (h : Partway s snapshot p) (hin : MergeInput s snapshot) :
    MergeInput p snapshot where
  saved := h.saved
  zones := h.zones
  storedIDs := by
    refine (List.nodup_map_iff_inj_on (List.Nodup.of_map _ h.saved.requestRows)).mpr ?_
    intro r hr r' hr' hid
    obtain ⟨c,hc,hrz⟩ := h.saved.zoneOf r hr
    obtain ⟨c',hc',hrz'⟩ := h.saved.zoneOf r' hr'
    have hrc := Store.mem_requestsOf.mpr ⟨hr,hrz⟩
    have hrc' := Store.mem_requestsOf.mpr ⟨hr',hrz'⟩
    have hzone := hin.known_zone (h.known hin.zones hc hrc)
      (hid ▸ h.known hin.zones hc' hrc')
    obtain rfl : c = c' := List.inj_on_of_nodup_map h.zones hc hc' hzone
    have hids : ((p.entries c).map fun e => e.1.id).Nodup := by
      by_cases hlisted : ∃ z ∈ snapshot, c.zoneid = some z.zoneid
      · obtain ⟨z,hz,hcz⟩ := hlisted
        exact (h.listed c hc z hz hcz).once
      · simp only [not_exists,not_and] at hlisted
        have hinZone : ((s.entries c).map fun e => e.1.id).Nodup := by
          have hn := hin.storedIDs.sublist
            ((List.filter_sublist (p := fun r => r.requestZone == some c.objectID)).map _)
          rw [Store.entries,List.map_map]
          exact hn
        rwa [h.others c hc hlisted]
    rw [Store.entries,List.map_map] at hids
    exact List.inj_on_of_nodup_map hids hrc hrc' hid
  snapshotZones := hin.snapshotZones
  snapshotIDs := hin.snapshotIDs
  fetched := hin.fetched
  stays c hc r hr z hz req hreq hid :=
    hin.known_zone (h.known hin.zones hc hr) (.inr ⟨z,hz,rfl,req,hreq,hid.symm⟩)

end Input

section Content

def CDRequestItem.content (i : CDRequestItem) : CDRequestItem :=
  { i with objectID := 0, request := none }

def CDRequest.content (r : CDRequest) : CDRequest :=
  { r with objectID := 0, requestZone := none, isNew := false }

def content (e : Entry) : Entry := (e.1.content,e.2.map CDRequestItem.content)

/-- The same zones, requests, items and checked flags. -/
structure SameButNew (s s' : Store) : Prop where
  zones : (s.zones.map (·.zoneid)).Perm (s'.zones.map (·.zoneid))
  entries : ∀ zoneid,
    ((s.zoneEntries zoneid).map content).Perm ((s'.zoneEntries zoneid).map content)

variable {s p s' s'' : Store} {snapshot : List ZoneRequests} {reqs : List Request}
  {stored entries entries' entries'' : List Entry} {e e' : Entry} {req : Request}

theorem content_old (e : Entry) : content (e.1.old,e.2) = content e := rfl

theorem HoldsItem.content_eq {item : RequestItem} {i : CDRequestItem} (h : HoldsItem item i) :
    i.content = (newItemRow 0 0 item).content := by
  obtain ⟨_,_,_,_,_,_,_,_,_,_⟩ := i
  obtain ⟨hid,hname,hicon,hcol,hqty,hlimit,hremaining,hchecked⟩ := h
  simp only at hid hname hicon hcol hqty hlimit hremaining hchecked
  simp [CDRequestItem.content,newItemRow,hid,hname,hicon,hcol,hqty,hlimit,hremaining,hchecked]

theorem holdsItems_content {items : List RequestItem} {rows : List CDRequestItem}
    (h : List.Forall₂ HoldsItem items rows) : rows.map CDRequestItem.content =
      items.map fun item => (newItemRow 0 0 item).content := by
  induction h with
  | nil => rfl
  | cons hitem _ ih => rw [List.map_cons,List.map_cons,hitem.content_eq,ih]

theorem Holds.content_eq (h : Holds req e) : content e = ((newRow 0 0 req).content,
    req.items.map fun item => (newItemRow 0 0 item).content) := by
  obtain ⟨⟨_,_,_,_,_,_,_,_,_,_⟩,items⟩ := e
  obtain ⟨hid,hdate,hsender,hstatus,hslot,hname,haddress,-,hitems⟩ := h
  simp only at hid hdate hsender hstatus hslot hname haddress hitems
  have hsame := holdsItems_content hitems
  simp [content,CDRequest.content,newRow,hid,hdate,hsender,hstatus,hslot,hname,haddress,hsame]

theorem content_id (h : content e = content e') : e.1.id = e'.1.id := by
  have hid : (content e).1.id = (content e').1.id := by rw [h]
  exact hid

theorem Holds.equals (h : Holds req e) : (readRequest e.1 e.2).equals req = true := by
  rw [Request.equals_iff]
  refine ⟨h.id,h.status,h.elderlyName,h.elderlyAddressString,fun item hitem => ?_⟩
  obtain ⟨i,hi,rfl⟩ := List.mem_map.mp hitem
  obtain ⟨item,hmem,hholds⟩ := (exists_of_forall₂ h.items).1 i hi
  exact ⟨item,hmem,by simp [readItem,hholds.id]⟩

theorem mem_unmatched {req : Request} : req ∈ unmatched stored reqs ↔
    req ∈ reqs ∧ ∀ e ∈ stored, (readRequest e.1 e.2).equals req = false := by
  simp [unmatched]

theorem ZonePartway.merged {lo lo' : Nat} {c c' : CDZoneRequests}
    (h : ZonePartway stored reqs entries) (hm : Merged lo c stored reqs entries')
    (hm' : Merged lo' c' entries reqs entries'') :
    ∀ e'' ∈ entries'', ∃ e' ∈ entries', content e' = content e'' := by
  intro e'' he''
  obtain ⟨news,hnews,rfl⟩ := hm
  have hkept : ∀ e ∈ stored, hasCounterpart reqs e = true →
      ∃ e' ∈ stored.filterMap (reconciled reqs) ++ news, content e' = content e :=
    fun e he hc => ⟨_,List.mem_append_left _ (mem_reconciled.mpr ⟨e,he,hc,rfl⟩),content_old e⟩
  have hadded : ∀ req ∈ unmatched stored reqs, ∀ e, Holds req e →
      ∃ e' ∈ stored.filterMap (reconciled reqs) ++ news, content e' = content e := by
    intro req hreq e he
    obtain ⟨e',he',hnew⟩ := (exists_of_forall₂ hnews).2 req hreq
    exact ⟨e',List.mem_append_right _ he',(isNew_holds hnew).content_eq.trans he.content_eq.symm⟩
  rcases hm'.origin he'' with ⟨e,he,hc,rfl⟩ | ⟨req,hreq,hnew⟩
  · rw [content_old]
    rcases h.origin e he with he | ⟨e₀,he₀,hc₀,rfl⟩ | ⟨req,hreq,hholds⟩
    · exact hkept e he hc
    · exact hkept e₀ he₀ hc₀
    · exact hadded req hreq e hholds
  · -- had a stored entry matched the request, it would still be there
    refine hadded req (mem_unmatched.mpr ?_) e'' (isNew_holds hnew)
    obtain ⟨hmem,hnone⟩ := mem_unmatched.mp hreq
    refine ⟨hmem,fun e he => Bool.eq_false_iff.mpr fun heq => ?_⟩
    rcases h.kept e he (hasCounterpart_iff.mpr ⟨req,hmem,heq⟩) with he' | he'
    · exact Bool.false_ne_true ((hnone e he').symm.trans heq)
    · exact Bool.false_ne_true ((hnone (e.1.old,e.2) he').symm.trans heq)

theorem content_perm (hn : (entries.map fun e => e.1.id).Nodup)
    (hn' : (entries'.map fun e => e.1.id).Nodup)
    (hsub : ∀ e ∈ entries, ∃ e' ∈ entries', content e' = content e)
    (hids : ∀ e' ∈ entries', ∃ e ∈ entries, e.1.id = e'.1.id) :
    (entries.map content).Perm (entries'.map content) := by
  have hnodup : ∀ es : List Entry, (es.map fun e => e.1.id).Nodup → (es.map content).Nodup := by
    intro es hes
    refine List.Nodup.of_map (fun e : Entry => e.1.id) ?_
    rwa [List.map_map]
  refine (List.perm_ext_iff_of_nodup (hnodup _ hn) (hnodup _ hn')).mpr fun x => ?_
  constructor
  · intro hx
    obtain ⟨e,he,rfl⟩ := List.mem_map.mp hx
    obtain ⟨e',he',hsame⟩ := hsub e he
    exact hsame ▸ List.mem_map_of_mem he'
  · intro hx
    obtain ⟨e',he',rfl⟩ := List.mem_map.mp hx
    obtain ⟨e,he,hid⟩ := hids e' he'
    obtain ⟨e₁,he₁,hsame⟩ := hsub e he
    obtain rfl : e₁ = e' :=
      List.inj_on_of_nodup_map hn' he₁ he' ((content_id hsame).trans hid)
    exact hsame ▸ List.mem_map_of_mem he

theorem Partway.zone (h : Partway s snapshot p) {z : ZoneRequests} (hz : z ∈ snapshot) :
    ZonePartway (s.zoneEntries z.zoneid) z.requests (p.zoneEntries z.zoneid) := by
  by_cases hc : ∃ c ∈ p.zones, c.zoneid = some z.zoneid
  · obtain ⟨c,hc,hcz⟩ := hc
    rw [Store.zoneEntries_eq h.zones hc hcz]
    exact h.listed c hc z hz hcz
  · simp only [not_exists,not_and] at hc
    rw [Store.zoneEntries_none hc,
      Store.zoneEntries_none fun c hcs hcz => hc c (h.kept c hcs ⟨z,hz,hcz⟩) hcz]
    exact zonePartway_stored (by simp)

theorem Partway.same (h : Partway s snapshot p) (hin : MergeInput s snapshot)
    (hr : Reconciled s snapshot s') (hr' : Reconciled p snapshot s'') : SameButNew s'' s' := by
  have hin' := (h.mergeInput hin).syncInput
  have hzones : ∀ {q q' : Store}, SyncInput q snapshot → Reconciled q snapshot q' →
      ∀ o, o ∈ q'.zones.map (·.zoneid) ↔ ∃ z ∈ snapshot, some z.zoneid = o := by
    intro q q' hq hqr o
    constructor
    · intro ho
      obtain ⟨c,hc,rfl⟩ := List.mem_map.mp ho
      obtain ⟨z,hz,hcz⟩ := hqr.zoneids c hc
      exact ⟨z,hz,hcz.symm⟩
    · rintro ⟨z,hz,rfl⟩
      obtain ⟨c,hc,hcz,-⟩ := hqr.zone hq hz
      exact List.mem_map.mpr ⟨c,hc,hcz⟩
  refine ⟨(List.perm_ext_iff_of_nodup hr'.zones hr.zones).mpr fun o =>
    (hzones hin' hr' o).trans (hzones hin.syncInput hr o).symm,fun zoneid => ?_⟩
  by_cases hlisted : ∃ z ∈ snapshot, z.zoneid = zoneid
  · obtain ⟨z,hz,rfl⟩ := hlisted
    obtain ⟨c,-,-,hm⟩ := hr.zone hin.syncInput hz
    obtain ⟨c',-,-,hm'⟩ := hr'.zone hin' hz
    have hids := hin.syncInput.snapshotInZone z hz
    refine content_perm (hm'.ids_nodup (hin'.zoneEntries_ids _) hids)
      (hm.ids_nodup (hin.syncInput.zoneEntries_ids _) hids) ((h.zone hz).merged hm hm') ?_
    intro e' he'
    obtain ⟨req,hreq,hid⟩ := hm.mem_snapshot he'
    obtain ⟨e,he,hid'⟩ := hm'.exists_entry hreq
    exact ⟨e,he,hid'.trans hid⟩
  · have hnone : ∀ {q q' : Store}, Reconciled q snapshot q' → q'.zoneEntries zoneid = [] :=
      fun hqr => Store.zoneEntries_none fun c hc hcz => by
        obtain ⟨z,hz,hzid⟩ := hqr.zoneids c hc
        exact hlisted ⟨z,hz,Option.some.inj (hzid.symm.trans hcz)⟩
    rw [hnone hr,hnone hr']

end Content

section Again

/-- The store holds the snapshot: each zone and each request of it, and no others. -/
structure Synced (q : Store) (snapshot : List ZoneRequests) : Prop where
  zones : ∀ c ∈ q.zones, ∃ z ∈ snapshot, c.zoneid = some z.zoneid
  stored : ∀ z ∈ snapshot, ∃ c ∈ q.zones, c.zoneid = some z.zoneid
  matched : ∀ z ∈ snapshot, ∀ e ∈ q.zoneEntries z.zoneid, hasCounterpart z.requests e = true
  all : ∀ z ∈ snapshot, unmatched (q.zoneEntries z.zoneid) z.requests = []

variable {ord : FetchOrder} {s q : Store} {ctx ctx₁ ctx' : Context}
  {snapshot : List ZoneRequests}

theorem Reconciled.synced (hr : Reconciled s snapshot q) (hin : SyncInput s snapshot) :
    Synced q snapshot where
  zones := hr.zoneids
  stored z hz := by
    obtain ⟨c,hc,hcz,-⟩ := hr.zone hin hz
    exact ⟨c,hc,hcz⟩
  matched z hz e he := by
    obtain ⟨c,-,-,hm⟩ := hr.zone hin hz
    rcases hm.origin he with ⟨e₀,-,hc,rfl⟩ | ⟨req,hreq,hnew⟩
    · exact hc
    · exact hasCounterpart_iff.mpr ⟨req,List.mem_of_mem_filter hreq,(isNew_holds hnew).equals⟩
  all z hz := by
    obtain ⟨c,-,-,news,hnews,hentries⟩ := hr.zone hin hz
    refine List.eq_nil_iff_forall_not_mem.mpr fun req hreq => ?_
    obtain ⟨hmem,hnone⟩ := mem_unmatched.mp hreq
    by_cases hun : req ∈ unmatched (s.zoneEntries z.zoneid) z.requests
    · obtain ⟨e,he,hnew⟩ := (exists_of_forall₂ hnews).2 req hun
      have hne := hnone e (hentries ▸ List.mem_append_right _ he)
      exact Bool.false_ne_true (hne.symm.trans (isNew_holds hnew).equals)
    · simp only [mem_unmatched,not_and,not_forall,Bool.not_eq_false] at hun
      obtain ⟨e,he,heq⟩ := hun hmem
      have hkept : (e.1.old,e.2) ∈ q.zoneEntries z.zoneid := by
        rw [hentries]
        exact List.mem_append_left _ (mem_reconciled.mpr
          ⟨e,he,hasCounterpart_iff.mpr ⟨req,hmem,heq⟩,rfl⟩)
      exact Bool.false_ne_true ((hnone _ hkept).symm.trans heq)

/-- Some rows are no longer new, and that is all; if none was new, nothing happened. -/
def OnlyMarked (ctx ctx' : Context) : Prop :=
  (∃ g : CDRequest → CDRequest, (∀ r, g r = r ∨ g r = r.old) ∧
    ctx'.store = { ctx.store with requests := ctx.store.requests.map g }) ∧
  ((∀ r ∈ ctx.store.requests, r.isNew = false) → ctx' = ctx)

theorem onlyMarked_refl (ctx : Context) : OnlyMarked ctx ctx :=
  ⟨⟨id,fun _ => .inl rfl,by simp⟩,fun _ => rfl⟩

theorem OnlyMarked.mark (h : OnlyMarked ctx ctx₁) (id : String)
    (hnew : ∃ r ∈ ctx.store.requests, r.isNew = true) :
    OnlyMarked ctx (markRequestAsOld ord id ctx₁) := by
  obtain ⟨⟨g,hg,hstore⟩,-⟩ := h
  refine ⟨?_,fun hnone => ?_⟩
  · cases hh : (fetchRequests ord id ctx₁).head? with
    | none => exact ⟨g,hg,by simpa [markRequestAsOld,onFirst,hh] using hstore⟩
    | some row =>
      refine ⟨fun r => oldIf row.objectID (g r),fun r => ?_,?_⟩
      · dsimp only [oldIf]
        split
        · rcases hg r with heq | heq
          · exact .inr (by rw [heq])
          · exact .inr (by rw [heq]; rfl)
        · exact hg r
      · rw [markRequestAsOld_store ord hh,hstore]
        simp [Store.markOld,oldIf]
  · obtain ⟨r,hr,hisNew⟩ := hnew
    rw [hnone r hr] at hisNew
    cases hisNew

section Runs

variable {done rest : List CDZoneRequests} {c : CDZoneRequests} {t : SyncLoop}
  {nzr : ZoneRequests}

theorem onlyMarked_requests (hin : SyncInput ctx.store snapshot)
    (hsep : Separated ctx.store snapshot) (hall : Synced ctx.store snapshot)
    (hi : SyncInv ord ctx snapshot done (c :: rest) t) (hnzr : nzr ∈ snapshot)
    (hz : c.zoneid = some nzr.zoneid) {u : ZoneLoop}
    (hvisits : Visits ZoneLoop.more (handleRequest ord)
      ⟨(readZone ord ctx c).requests,nzr.requests,t.ctx⟩ u)
    (h : OnlyMarked ctx t.ctx) (hend : u.oldRequests = []) :
    OnlyMarked ctx u.ctx ∧ u.newRequests = [] := by
  have hc₀ : c ∈ ctx.store.zones := (hi.mem_rows c).mpr (.inr (by simp))
  constructor
  · refine hvisits.inv (fun v => OnlyMarked ctx v.ctx) h ?_
    intro v w hv hmarked hmore hbody
    obtain ⟨before,todo,hzi⟩ := zoneInv_visited hin hsep hi hnzr hz hv
    cases todo with
    | nil => simp [ZoneLoop.more,hzi.oldRequests] at hmore
    | cons r todo =>
      have hr : r ∈ ctx.store.requestsOf c := (hzi.mem_rows r).mpr (.inr (by simp))
      have hmatched : v.newRequests.any (readRow ord ctx r).equals = true := by
        rw [hzi.any_equals (hin.inZone c hc₀) hin.saved (by simp : r ∈ r :: todo)]
        refine hall.matched nzr hnzr _ ?_
        rw [Store.zoneEntries_eq hin.zones hc₀ hz]
        exact List.mem_map_of_mem (f := fun r => (r,ctx.store.itemsOf r)) hr
      have hids : Identified v.oldRequests := by
        rw [hzi.oldRequests]
        intro req hreq
        obtain ⟨r',hr',rfl⟩ := List.mem_map.mp hreq
        have hr₀ := (hzi.mem_rows r').mpr (.inr hr')
        exact (hin.saved.requestFields r' (Store.mem_requestsOf.mp hr₀).1).1
      obtain ⟨oreq,more,id,hold,-,hround⟩ := requestRound_of_ok hids hmore hbody
      rw [hzi.oldRequests,List.map_cons,List.cons.injEq] at hold
      rw [← hold.1] at hround
      cases hround with
      | matched pre nreq suf =>
        dsimp only
        split
        · rename_i hnew
          exact hmarked.mark id ⟨r,(Store.mem_requestsOf.mp hr).1,
            by simpa [readRow,readRequest] using hnew⟩
        · exact hmarked
      | unmatched hnone =>
        obtain ⟨n,hn,heq⟩ := List.any_eq_true.mp hmatched
        exact absurd ((hnone n hn).symm.trans heq) Bool.false_ne_true
  · obtain ⟨before,todo,hzi⟩ := zoneInv_visited hin hsep hi hnzr hz hvisits
    obtain rfl := hzi.todo_nil hend
    rw [hzi.finished.1,← Store.zoneEntries_eq hin.zones hc₀ hz]
    exact hall.all nzr hnzr

theorem onlyMarked_sync (hin : MergeInput ctx.store snapshot) (hall : Synced ctx.store snapshot)
    (hrun : updateSavedRequests ord snapshot ctx = .ok ctx') : OnlyMarked ctx ctx' := by
  have hsync := hin.syncInput
  have hsep := hin.separated
  obtain ⟨t,ht,hvisits,hdone⟩ := updateSavedRequests_ends ord snapshot hin.saved
  obtain rfl := Except.ok.inj (ht.symm.trans hrun)
  have hloop := hvisits.inv (fun u => OnlyMarked ctx u.ctx) (onlyMarked_refl ctx) (by
    intro u v hu hmarked hmore hbody
    obtain ⟨done,todo,hi⟩ := syncInv_visited hsync hsep hu
    obtain ⟨c,rest,more,rfl,hround⟩ := hi.round hin.saved hmore hbody
    have hc₀ : c ∈ ctx.store.zones := (hi.mem_rows c).mpr (.inr (by simp))
    obtain ⟨z,hz,hcz⟩ := hall.zones c hc₀
    have hread : (readZone ord ctx c).zoneid = z.zoneid := by simp [readZone,hcz]
    have hznew : z ∈ u.newZoneRequests := by
      rw [hi.newZoneRequests,List.mem_filter]
      refine ⟨hz,?_⟩
      simp only [Bool.not_eq_true',List.any_eq_false,beq_iff_eq]
      exact fun d hd hdz => hi.disjoint hsync hd (by simp : c ∈ c :: rest) (hdz.trans hcz.symm)
    cases hround with
    | deleted hnone => exact absurd hread.symm (hnone z hznew)
    | merged pre nzr suf w hsplit hid hvis hend =>
      have hnzr : nzr ∈ snapshot := by
        have hmem : nzr ∈ u.newZoneRequests := by simp [hsplit]
        rw [hi.newZoneRequests] at hmem
        exact List.mem_of_mem_filter hmem
      obtain ⟨hw,hnil⟩ := onlyMarked_requests hsync hsep hall hi hnzr
        (by rw [hid,hread,hcz]) hvis hmarked hend
      dsimp only
      rw [hnil]
      exact hw)
  obtain ⟨done,todo,hi⟩ := syncInv_visited hsync hsep hvisits
  obtain rfl := hi.finished hdone
  have hnone : t.newZoneRequests = [] := by
    rw [hi.newZoneRequests,List.filter_eq_nil_iff]
    intro z hz
    obtain ⟨c,hc,hcz⟩ := hall.stored z hz
    have hcd : c ∈ done := by simpa [hi.mem_rows] using hc
    simpa using ⟨c,hcd,hcz⟩
  rw [hnone]
  exact hloop

end Runs

def Store.allOld (s : Store) : Store := { s with requests := s.requests.map CDRequest.old }

theorem sync_again (hin : MergeInput ctx.store snapshot) (hall : Synced ctx.store snapshot)
    (hrun : updateSavedRequests ord snapshot ctx = .ok ctx')
    (hr : Reconciled ctx.store snapshot ctx'.store) : ctx'.store = ctx.store.allOld := by
  obtain ⟨⟨g,hg,hstore⟩,-⟩ := onlyMarked_sync hin hall hrun
  have hold : ∀ r ∈ ctx.store.requests, g r = r.old := by
    intro r hrow
    obtain ⟨c,hc,hrz⟩ := hin.saved.zoneOf r hrow
    obtain ⟨z,hz,hcz⟩ := hall.zones c hc
    have hentry : (r,ctx.store.itemsOf r) ∈ ctx.store.entries c :=
      Store.mem_entries.mpr ⟨hrow,hrz,rfl⟩
    have hmatched := hall.matched z hz (r,ctx.store.itemsOf r) (by
      rw [Store.zoneEntries_eq hin.zones hc hcz]
      exact hentry)
    obtain ⟨news,-,hentries⟩ := hr.both c hc z hz hcz
    have hkept : (r.old,ctx.store.itemsOf r) ∈ ctx'.store.entries c := by
      rw [hentries]
      exact List.mem_append_left _ (mem_reconciled.mpr ⟨_,hentry,hmatched,rfl⟩)
    have hmem := (Store.mem_entries.mp hkept).1
    rw [hstore] at hmem
    obtain ⟨r₁,hr₁,heq⟩ := List.mem_map.mp hmem
    have hoid : (g r₁).objectID = r₁.objectID := by
      rcases hg r₁ with h | h
      · rw [h]
      · rw [h]; rfl
    have hsame : r₁ = r := hin.saved.row_eq hr₁ hrow (by
      rw [← hoid,heq]
      rfl)
    exact hsame ▸ heq
  rw [hstore,Store.allOld,List.map_congr_left hold]

/-- The store of an interrupted sync: ids occur once, rows belong to rows, and a request
has the items that it had, or those of the snapshot. -/
structure Intact (s : Store) (snapshot : List ZoneRequests) (p : Store) : Prop where
  zonesOnce : (p.zones.map (·.zoneid)).Nodup
  requestsOnce : (p.requests.map (·.id)).Nodup
  zoneOf : ∀ r ∈ p.requests, ∃ c ∈ p.zones, r.requestZone = some c.objectID
  requestOf : ∀ i ∈ p.items, ∃ r ∈ p.requests, i.request = some r.objectID
  complete : ∀ r ∈ p.requests,
    (∃ r₀ ∈ s.requests, (r = r₀ ∨ r = r₀.old) ∧ p.itemsOf r = s.itemsOf r₀) ∨
    ∃ z ∈ snapshot, ∃ req ∈ z.requests, Holds req (r,p.itemsOf r)

theorem Partway.intact {p : Store} (h : Partway s snapshot p) (hin : MergeInput s snapshot) :
    Intact s snapshot p where
  zonesOnce := h.zones
  requestsOnce := (h.mergeInput hin).storedIDs
  zoneOf := h.saved.zoneOf
  requestOf := h.saved.requestOf
  complete r hr := by
    obtain ⟨c,hc,hrz⟩ := h.saved.zoneOf r hr
    have hmem : (r,p.itemsOf r) ∈ p.entries c := Store.mem_entries.mpr ⟨hr,hrz,rfl⟩
    have hstored : ∀ c (e : Entry), e ∈ s.entries c → (r = e.1 ∨ r = e.1.old) →
        p.itemsOf r = e.2 →
        ∃ r₀ ∈ s.requests, (r = r₀ ∨ r = r₀.old) ∧ p.itemsOf r = s.itemsOf r₀ := by
      intro c e he hre hitems
      obtain ⟨hrow,-,hi⟩ := Store.mem_entries.mp he
      exact ⟨e.1,hrow,hre,hitems.trans hi⟩
    by_cases hlisted : ∃ z ∈ snapshot, c.zoneid = some z.zoneid
    · obtain ⟨z,hz,hcz⟩ := hlisted
      rcases (h.listed c hc z hz hcz).origin _ hmem with he | ⟨e,he,-,heq⟩ | ⟨req,hreq,hholds⟩
      · obtain ⟨c',-,-,he⟩ := (Store.mem_zoneEntries hin.zones).mp he
        exact .inl (hstored c' _ he (.inl rfl) rfl)
      · obtain ⟨c',-,-,he⟩ := (Store.mem_zoneEntries hin.zones).mp he
        obtain ⟨hre,hitems⟩ := Prod.mk.inj heq
        exact .inl (hstored c' e he (.inr hre) hitems)
      · exact .inr ⟨z,hz,req,List.mem_of_mem_filter hreq,hholds⟩
    · simp only [not_exists,not_and] at hlisted
      rw [h.others c hc hlisted] at hmem
      exact .inl (hstored c _ hmem (.inl rfl) rfl)

theorem Partway.refl (h : SyncInput s snapshot) : Partway s snapshot s :=
  (@sync_start .table ⟨s,[]⟩ snapshot h.saved).partway h

theorem sync_ends (ord : FetchOrder) (h : MergeInput ctx.store snapshot) :
    ∃ ctx', updateSavedRequests ord snapshot ctx = .ok ctx' ∧
      Reconciled ctx.store snapshot ctx'.store ∧ Synced ctx'.store snapshot ∧
      MergeInput ctx'.store snapshot := by
  have hin := h.syncInput
  obtain ⟨ctx',hrun,hr⟩ := updateSavedRequests_of_separated ord hin h.separated
  obtain ⟨log,-,hlast,hgood⟩ := commits_sync hin h.separated hrun
  have hpartway : Partway ctx.store snapshot ctx'.store := by
    rw [← hlast]
    cases log with
    | nil => exact .refl hin
    | cons p log => exact hgood p (by simp)
  exact ⟨ctx',hrun,hr,hr.synced hin,hpartway.mergeInput h⟩

/-- Wherever a sync is killed, the last store that was committed before is left: it is
intact, and the same sync makes of it what the uninterrupted one made. After the end, a
second sync marks rows as old and a third does nothing. -/
theorem updateSavedRequests_resumes (ord : FetchOrder) (snapshot : List ZoneRequests)
    (ctx : Context) (h : MergeInput ctx.store snapshot) :
    ∃ ctx' log, updateSavedRequests ord snapshot ctx = .ok ctx' ∧
      ctx'.commits = log ++ ctx.commits ∧ log.headD ctx.store = ctx'.store ∧
      (∀ p ∈ log ++ [ctx.store], Intact ctx.store snapshot p ∧ ∀ ord₁ commits, ∃ ctx₁,
        updateSavedRequests ord₁ snapshot ⟨p,commits⟩ = .ok ctx₁ ∧
        SameButNew ctx₁.store ctx'.store) ∧
      ∀ ord₁, ∃ ctx₁, updateSavedRequests ord₁ snapshot ctx' = .ok ctx₁ ∧
        ctx₁.store = ctx'.store.allOld ∧
        ∀ ord₂, updateSavedRequests ord₂ snapshot ctx₁ = .ok ctx₁ := by
  have hin := h.syncInput
  obtain ⟨ctx',hrun,hr,hall,h'⟩ := sync_ends ord h
  obtain ⟨log,hlog,hlast,hgood⟩ := commits_sync hin h.separated hrun
  refine ⟨ctx',log,hrun,hlog,hlast,fun p hp => ?_,fun ord₁ => ?_⟩
  · have hp : Partway ctx.store snapshot p := by
      rcases List.mem_append.mp hp with hp | hp
      · exact hgood p hp
      · rw [List.mem_singleton.mp hp]
        exact .refl hin
    refine ⟨hp.intact h,fun ord₁ commits => ?_⟩
    obtain ⟨ctx₁,hrun₁,hr₁,-⟩ := @sync_ends ⟨p,commits⟩ snapshot ord₁ (hp.mergeInput h)
    exact ⟨ctx₁,hrun₁,hp.same h hr hr₁⟩
  · obtain ⟨ctx₁,hrun₁,hr₁,hall₁,h₁⟩ := sync_ends ord₁ h'
    have hold := sync_again h' hall hrun₁ hr₁
    refine ⟨ctx₁,hrun₁,hold,fun ord₂ => ?_⟩
    obtain ⟨ctx₂,hrun₂,-⟩ := sync_ends ord₂ h₁
    have hsame : ctx₂ = ctx₁ := by
      refine (onlyMarked_sync h₁ hall₁ hrun₂).2 fun r hr => ?_
      rw [hold] at hr
      obtain ⟨r₀,-,rfl⟩ := List.mem_map.mp hr
      rfl
    rw [hrun₂,hsame]

theorem updateSavedRequests_resumes_ticked :
    ∃ ctx' log, updateSavedRequests .table laterSnapshot ⟨tickedStore,[]⟩ = .ok ctx' ∧
      ctx'.commits = log ++ [] ∧ log.headD tickedStore = ctx'.store ∧
      (∀ p ∈ log ++ [tickedStore], Intact tickedStore laterSnapshot p ∧ ∀ ord₁ commits, ∃ ctx₁,
        updateSavedRequests ord₁ laterSnapshot ⟨p,commits⟩ = .ok ctx₁ ∧
        SameButNew ctx₁.store ctx'.store) ∧
      ∀ ord₁, ∃ ctx₁, updateSavedRequests ord₁ laterSnapshot ctx' = .ok ctx₁ ∧
        ctx₁.store = ctx'.store.allOld ∧
        ∀ ord₂, updateSavedRequests ord₂ laterSnapshot ctx₁ = .ok ctx₁ :=
  updateSavedRequests_resumes .table laterSnapshot ⟨tickedStore,[]⟩ tickedStore_mergeInput

end Again

end Answr
