import Answr.Staleness
set_option autoImplicit false

/-! Request ids that are unique inside a zone only. A round that handles a request of
one zone looks its row up by the bare id, so with an unspecified fetch order it stays
inside the zone exactly when no other zone holds the id at that moment. -/

namespace Answr
open Loops

section Frame

/-- Handling the next request of zone `c` leaves every other zone as it is, and
deletes the request's row or leaves it with its flag cleared. -/
def HandlesOwn (ord : FetchOrder) (c : CDZoneRequests) (s : ZoneLoop) : Prop :=
  ∀ oreq rest, s.oldRequests = oreq :: rest → ∀ t, handleRequest ord s = .ok t →
    (∀ c' : CDZoneRequests, c'.objectID ≠ c.objectID →
      t.ctx.store.entries c' = s.ctx.store.entries c') ∧
    ∀ r ∈ t.ctx.store.requestsOf c, r.id = oreq.id →
      s.newRequests.any oreq.equals = true ∧ r.isNew = false

def HandlesOwnZone (ord : FetchOrder) (ctx₀ : Context) (s : SyncLoop) : Prop :=
  ∀ c ∈ ctx₀.store.zones, ∀ ozr rest, s.oldZoneRequests = ozr :: rest →
    c.zoneid = some ozr.zoneid → ∀ nzr ∈ s.newZoneRequests, nzr.zoneid = ozr.zoneid →
    ∀ u, Visits ZoneLoop.more (handleRequest ord) ⟨ozr.requests,nzr.requests,s.ctx⟩ u →
      u.more = true → HandlesOwn ord c u

/-- Every round over the stored zones handles the requests of its own zone alone. -/
def SyncHandlesOwn (ord : FetchOrder) (snapshot : List ZoneRequests) (ctx : Context) : Prop :=
  ∀ old, loadAllZoneRequests ord ctx = .ok old →
    ∀ u, Visits SyncLoop.more (handleZone ord) ⟨old,snapshot,ctx⟩ u → u.more = true →
      HandlesOwnZone ord ctx u

/-- Ticking an item of a stored request leaves the other zones as they are. -/
def TicksOwn (ord : FetchOrder) (ctx : Context) : Prop :=
  ∀ c ∈ ctx.store.zones, ∀ e ∈ ctx.store.entries c, ∀ i ∈ e.2, ∀ reqID itemID,
    e.1.id = some reqID → i.id = some itemID → ∀ checked,
    ∀ c' : CDZoneRequests, c'.objectID ≠ c.objectID →
      (markChecked ord reqID itemID checked ctx).store.entries c' = ctx.store.entries c'

/-- The stored (zone id, request id) pairs are the snapshot's. -/
def SamePairs (snapshot : List ZoneRequests) (s : Store) : Prop :=
  ∀ zoneid id, (∃ c ∈ s.zones, c.zoneid = some zoneid ∧ ∃ r ∈ s.requestsOf c, r.id = id) ↔
    ∃ z ∈ snapshot, z.zoneid = zoneid ∧ ∃ req ∈ z.requests, req.id = id

/-- No two requests of different zones with the same id share an item id. -/
def ItemsApart (s : Store) : Prop :=
  ∀ c ∈ s.zones, ∀ e ∈ s.entries c, ∀ c' ∈ s.zones, c'.objectID ≠ c.objectID →
    ∀ e' ∈ s.entries c', e'.1.id = e.1.id → ∀ i ∈ e.2, ∀ i' ∈ e'.2, i'.id ≠ i.id

end Frame

section Rounds

variable {ord : FetchOrder} {ctx₀ ctx₁ : Context} {c : CDZoneRequests}
  {snapshot : List Request} {done todo : List CDRequest} {s : ZoneLoop}

theorem ZoneInv.hits_of_handles (hi : ZoneInv ord ctx₀ ctx₁ c snapshot done todo s)
    (hs₀ : ctx₀.store.Saved) (hsnap : (snapshot.map (·.id)).Nodup)
    (hown : HandlesOwn ord c s) : HitsZone ord c s := by
  intro oreq more id hold hid hacts h hh
  obtain ⟨r,rest,rfl,rfl⟩ := hi.next hold
  have hnodup : (s.newRequests.map (·.id)).Nodup := by
    rw [hi.newRequests]
    exact hsnap.sublist (List.filter_sublist.map _)
  obtain ⟨hothers,hcleared⟩ := hown _ _ hold _ (handleRequest_ok ord hid hold hnodup)
  simp only at hothers hcleared
  obtain ⟨hrow,-⟩ := (mem_fetchRequests ord).mp (List.mem_of_head? hh)
  obtain ⟨c',hc',hzone⟩ := hi.saved.zoneOf h hrow
  by_contra hout
  have hne : c'.objectID ≠ c.objectID := fun heq => hout (by rw [hzone,heq])
  have hpending := hi.pending hs₀ (r := r) (by simp)
  obtain ⟨hrrow,hrzone,-⟩ := Store.mem_entries.mp hpending
  cases hmatch : s.newRequests.any (readRow ord ctx₀ r).equals with
  | false =>
    -- the deleted row is missing from its zone
    have hstore : (handled ord (readRow ord ctx₀ r) id s.newRequests s.ctx).store =
        s.ctx.store.deleteRequest h := by
      simp [handled,hmatch,deleteRequest_store ord hh]
    have hmem : (h,s.ctx.store.itemsOf h) ∈ s.ctx.store.entries c' :=
      Store.mem_entries.mpr ⟨hrow,hzone,rfl⟩
    rw [← hothers c' hne,hstore,Store.entries_deleteRequest] at hmem
    simp at hmem
  | true =>
    -- the flag of the own row is still set
    have hflag : (readRow ord ctx₀ r).isNew = some true := by
      rcases hacts with hno | hnew
      · simp [hmatch] at hno
      · exact hnew
    have hisNew : r.isNew = true := by simpa [readRow,readRequest] using hflag
    have hstore : (handled ord (readRow ord ctx₀ r) id s.newRequests s.ctx).store =
        s.ctx.store.markOld h := by
      simp [handled,hmatch,hflag,markRequestAsOld_store ord hh]
    have hrh : r.objectID ≠ h.objectID := by
      intro heq
      rw [hi.saved.row_eq hrrow hrow heq] at hrzone
      exact hout hrzone
    have hmem : r ∈ (s.ctx.store.markOld h).requestsOf c := by
      refine Store.mem_requestsOf.mpr ⟨List.mem_map.mpr ⟨r,hrrow,?_⟩,hrzone⟩
      simp [hrh]
    rw [← hstore] at hmem
    have hcl := (hcleared r hmem rfl).2
    rw [hisNew] at hcl
    cases hcl

theorem ZoneInv.handles_of_hits (hi : ZoneInv ord ctx₀ ctx₁ c snapshot done todo s)
    (hs₀ : ctx₀.store.Saved) (hids : ((ctx₀.store.requestsOf c).map (·.id)).Nodup)
    (hsnap : (snapshot.map (·.id)).Nodup) (hhit : HitsZone ord c s) : HandlesOwn ord c s := by
  intro oreq more hold t ht
  obtain ⟨r,rest,rfl,rfl⟩ := hi.next hold
  obtain ⟨t',ht',hi'⟩ := hi.step hs₀ hids hsnap rfl hhit
  obtain rfl : t' = t := Except.ok.inj (ht'.symm.trans ht)
  refine ⟨fun c' hc' => (hi'.others c' hc').trans (hi.others c' hc').symm,?_⟩
  intro row hrow hrid
  have hmem : (row,t'.ctx.store.itemsOf row) ∈ t'.ctx.store.entries c :=
    List.mem_map_of_mem (f := fun r => (r,t'.ctx.store.itemsOf r)) hrow
  rw [hi'.entries,List.mem_filterMap] at hmem
  obtain ⟨e,he,hf⟩ := hmem
  obtain ⟨erow,ezone,eitems⟩ := Store.mem_entries.mp he
  have heid : e.1.id = r.id := by
    have hid : row.id = e.1.id := by
      simp only [reconciled] at hf
      split at hf
      · split at hf
        · rw [← (Prod.mk.inj (Option.some.inj hf)).1]
          rfl
        · cases hf
      · rw [Option.some.inj hf]
    rw [← hid,hrid]
    rfl
  have her : e.1 = r := List.inj_on_of_nodup_map hids (Store.mem_requestsOf.mpr ⟨erow,ezone⟩)
    ((hi.mem_rows r).mpr (.inr (by simp))) heid
  rw [if_pos (by simp [her]),reconciled] at hf
  split at hf
  · rename_i hcp
    rw [hi.any_equals hids hs₀ (by simp),← her,← eitems]
    refine ⟨hcp,?_⟩
    rw [← (Prod.mk.inj (Option.some.inj hf)).1]
    rfl
  · cases hf

variable {zsnapshot : List ZoneRequests} {zdone ztodo : List CDZoneRequests} {z : SyncLoop}

theorem SyncInv.handles_iff_hits (hi : SyncInv ord ctx₀ zsnapshot zdone ztodo z)
    (hin : SyncInput ctx₀.store zsnapshot) :
    HandlesOwnZone ord ctx₀ z ↔ HitsOwnZone ord ctx₀ z := by
  have hrounds : ∀ c' ∈ ctx₀.store.zones, ∀ ozr more, z.oldZoneRequests = ozr :: more →
      c'.zoneid = some ozr.zoneid → ∀ nzr ∈ z.newZoneRequests, nzr.zoneid = ozr.zoneid →
      (nzr.requests.map (·.id)).Nodup ∧
      (∃ done todo, ZoneInv ord ctx₀ z.ctx c' nzr.requests done todo
        ⟨ozr.requests,nzr.requests,z.ctx⟩) ∧
      Progress ZoneLoop.more (handleRequest ord)
        (fun s => ∃ done todo, ZoneInv ord ctx₀ z.ctx c' nzr.requests done todo s)
        (HitsZone ord c') (fun s => s.oldRequests.length) := by
    intro c' hc' ozr more hold hz nzr hnzr _
    cases ztodo with
    | nil => simp [hi.oldZoneRequests] at hold
    | cons c rest =>
      obtain ⟨rfl,rfl⟩ := hi.next_zone hin hc' hold hz
      have hmem : nzr ∈ zsnapshot := by
        rw [hi.newZoneRequests] at hnzr
        exact List.mem_of_mem_filter hnzr
      exact ⟨hin.snapshotInZone nzr hmem,
        ⟨_,_,zone_start hi.saved (hi.pending c' (by simp))⟩,
        zone_progress hin.saved (hin.inZone c' hc') (hin.snapshotInZone nzr hmem)⟩
  constructor
  · intro h c' hc' ozr more hold hz nzr hnzr hzid u hu hmore
    obtain ⟨hsnap,hstart,hp⟩ := hrounds c' hc' ozr more hold hz nzr hnzr hzid
    have hhits : ∀ v, Visits ZoneLoop.more (handleRequest ord)
        ⟨ozr.requests,nzr.requests,z.ctx⟩ v →
        (∃ done todo, ZoneInv ord ctx₀ z.ctx c' nzr.requests done todo v) →
        v.more = true → HitsZone ord c' v := by
      rintro v hv ⟨done,todo,hiv⟩ hvm
      exact hiv.hits_of_handles hin.saved hsnap
        (h c' hc' ozr more hold hz nzr hnzr hzid v hv hvm)
    exact hhits u hu (visits_inv hp hstart hhits hu) hmore
  · intro h c' hc' ozr more hold hz nzr hnzr hzid u hu hmore
    obtain ⟨hsnap,hstart,hp⟩ := hrounds c' hc' ozr more hold hz nzr hnzr hzid
    have hhits := h c' hc' ozr more hold hz nzr hnzr hzid
    obtain ⟨done,todo,hiu⟩ := visits_inv hp hstart (fun v hv _ hvm => hhits v hv hvm) hu
    exact hiu.handles_of_hits hin.saved (hin.inZone c' hc') hsnap (hhits u hu hmore)

end Rounds

section Adversary

/-- The fetch order that hands out the requests of one zone before all others. -/
def FetchOrder.preferring (zone : Nat) : FetchOrder where
  zones _ rows := rows
  requests _ rows := rows.filter (fun r => r.requestZone == some zone) ++
    rows.filter fun r => !(r.requestZone == some zone)
  items _ rows := rows
  zones_perm _ rows := .refl rows
  requests_perm _ rows := List.filter_append_perm _ rows
  items_perm _ rows := .refl rows

theorem fetchRequests_preferring {zone : Nat} {ctx : Context} {r : CDRequest} {id : String}
    (hr : r ∈ ctx.store.requests) (hz : r.requestZone = some zone) (hid : r.id = some id) :
    ∃ h, (fetchRequests (.preferring zone) id ctx).head? = some h ∧
      h ∈ ctx.store.requests ∧ h.requestZone = some zone ∧ h.id = some id := by
  have hmem : r ∈ (ctx.store.requests.filter fun r => r.id == some id).filter
      fun r => r.requestZone == some zone := by
    simp [hr,hz,hid]
  cases hf : (ctx.store.requests.filter fun r => r.id == some id).filter
      (fun r => r.requestZone == some zone) with
  | nil =>
    rw [hf] at hmem
    simp at hmem
  | cons h hs =>
    refine ⟨h,by simp [fetchRequests,FetchOrder.preferring,hf],?_⟩
    have hh : h ∈ (ctx.store.requests.filter fun r => r.id == some id).filter
        fun r => r.requestZone == some zone := by simp [hf]
    simp only [List.mem_filter,beq_iff_eq] at hh
    exact ⟨hh.1.1,hh.2,hh.1.2⟩

variable {ord : FetchOrder} {ctx₀ : Context} {snapshot : List ZoneRequests}

theorem exists_zone_round (hin : SyncInput ctx₀.store snapshot)
    (hhits : ∀ u, Visits SyncLoop.more (handleZone ord) (syncStart ord snapshot ctx₀) u →
      u.more = true → (∃ done todo, SyncInv ord ctx₀ snapshot done todo u) →
      HitsOwnZone ord ctx₀ u) {c : CDZoneRequests} (hc : c ∈ ctx₀.store.zones) :
    ∃ u done rest, SyncInv ord ctx₀ snapshot done (c :: rest) u ∧ HitsOwnZone ord ctx₀ u := by
  obtain ⟨zoneid,hz⟩ := Option.isSome_iff_exists.mp (hin.saved.zoneFields c hc)
  have hzone : ∀ c', (readZone ord ctx₀ c').zoneid = c'.zoneid.getD "" := fun _ => rfl
  obtain ⟨t,-,-,hmore,hv⟩ := whileLoop_total Fault.endlessLoop (sync_progress hin) _
    ⟨_,_,sync_start hin.saved⟩ (le_refl _) (fun u hu hi hm => hhits u hu hm hi)
  have hend : t.oldZoneRequests = [] := by simpa [SyncLoop.more] using hmore
  obtain ⟨u,v,hu,hum,hstep,hpu,hpv⟩ := exists_falsifying_round
    (fun s : SyncLoop => ∃ zr ∈ s.oldZoneRequests, zr.zoneid = zoneid) hv
    ⟨readZone ord ctx₀ c,List.mem_map_of_mem ((sortedZones_perm ord ctx₀).mem_iff.mpr hc),
      by simp [hzone,hz]⟩ (by simp [hend])
  obtain ⟨done,todo,hi⟩ := visits_inv (sync_progress hin) ⟨_,_,sync_start hin.saved⟩
    (fun u hu hi hm => hhits u hu hm hi) hu
  have hown := hhits u hu hum ⟨done,todo,hi⟩
  cases todo with
  | nil => simp [SyncLoop.more,hi.oldZoneRequests] at hum
  | cons c₁ rest =>
    -- the zone that is no longer to come is the one just handled
    obtain ⟨v',hv',hi'⟩ := hi.step hin rfl hown
    obtain rfl : v' = v := Except.ok.inj (hv'.symm.trans hstep)
    obtain ⟨zr,hzr,hzrid⟩ := hpu
    rw [hi.oldZoneRequests,List.map_cons] at hzr
    rcases List.mem_cons.mp hzr with rfl | hrest
    · have hc₁ : c₁ ∈ ctx₀.store.zones := (hi.mem_rows c₁).mpr (.inr (by simp))
      obtain ⟨zoneid₁,hz₁⟩ := Option.isSome_iff_exists.mp (hin.saved.zoneFields c₁ hc₁)
      have hid : c₁.zoneid = c.zoneid := by
        rw [hzone,hz₁,Option.getD_some] at hzrid
        rw [hz₁,hz,hzrid]
      obtain rfl : c₁ = c := List.inj_on_of_nodup_map hin.zones hc₁ hc hid
      exact ⟨u,done,rest,hi,hown⟩
    · rw [← hi'.oldZoneRequests] at hrest
      exact absurd ⟨zr,hrest,hzrid⟩ hpv

variable {c : CDZoneRequests} {done rest : List CDZoneRequests} {u : SyncLoop}

theorem exists_request_round (hin : SyncInput ctx₀.store snapshot)
    (hi : SyncInv ord ctx₀ snapshot done (c :: rest) u) (hown : HitsOwnZone ord ctx₀ u)
    {nzr : ZoneRequests} (hnzr : nzr ∈ snapshot) (hz : c.zoneid = some nzr.zoneid)
    {r : CDRequest} (hr : r ∈ ctx₀.store.requestsOf c) :
    ∃ v before after, ZoneInv ord ctx₀ u.ctx c nzr.requests before (r :: after) v ∧
      HitsZone ord c v := by
  have hc : c ∈ ctx₀.store.zones := (hi.mem_rows c).mpr (.inr (by simp))
  have hids := hin.inZone c hc
  have hnew : nzr ∈ u.newZoneRequests := by
    rw [hi.newZoneRequests,List.mem_filter]
    refine ⟨hnzr,?_⟩
    simp only [Bool.not_eq_true',List.any_eq_false,beq_iff_eq]
    exact fun d hd hdz => hi.disjoint hin hd (by simp : c ∈ c :: rest) (hdz.trans hz.symm)
  have hread : (readZone ord ctx₀ c).zoneid = nzr.zoneid := by simp [readZone,hz]
  have hhits := hown c hc _ _ hi.oldZoneRequests (by rw [hread,hz]) nzr hnew hread.symm
  have hp : Progress ZoneLoop.more (handleRequest ord)
      (fun s => ∃ done todo, ZoneInv ord ctx₀ u.ctx c nzr.requests done todo s)
      (HitsZone ord c) (fun s => s.oldRequests.length) :=
    zone_progress hin.saved hids (hin.snapshotInZone nzr hnzr)
  have hstart : ∃ done todo, ZoneInv ord ctx₀ u.ctx c nzr.requests done todo
      ⟨(readZone ord ctx₀ c).requests,nzr.requests,u.ctx⟩ :=
    ⟨_,_,zone_start hi.saved (hi.pending c (by simp))⟩
  obtain ⟨t,-,-,hmore,hv⟩ := whileLoop_total Fault.endlessLoop hp _ hstart (le_refl _)
    (fun v hv _ hm => hhits v hv hm)
  have hend : t.oldRequests = [] := by simpa [ZoneLoop.more] using hmore
  obtain ⟨v,w,hv',hvm,hstep,hpv,hpw⟩ := exists_falsifying_round
    (fun s : ZoneLoop => ∃ q ∈ s.oldRequests, q.id = r.id) hv
    ⟨readRow ord ctx₀ r,List.mem_map_of_mem ((sortedRequests_perm ord ctx₀ c).mem_iff.mpr hr),rfl⟩
    (by simp [hend])
  obtain ⟨before,todo,hiv⟩ := visits_inv hp hstart (fun v hv _ hm => hhits v hv hm) hv'
  cases todo with
  | nil => simp [ZoneLoop.more,hiv.oldRequests] at hvm
  | cons r₁ after =>
    obtain ⟨w',hw',hiw⟩ := hiv.step hin.saved hids (hin.snapshotInZone nzr hnzr) rfl
      (hhits v hv' hvm)
    obtain rfl : w' = w := Except.ok.inj (hw'.symm.trans hstep)
    obtain ⟨q,hq,hqid⟩ := hpv
    rw [hiv.oldRequests,List.map_cons] at hq
    rcases List.mem_cons.mp hq with rfl | hrest
    · obtain rfl : r₁ = r :=
        List.inj_on_of_nodup_map hids ((hiv.mem_rows r₁).mpr (.inr (by simp))) hr hqid
      exact ⟨v,before,after,hiv,hhits v hv' hvm⟩
    · rw [← hiw.oldRequests] at hrest
      exact absurd ⟨q,hrest,hqid⟩ hpw

/-- In the round of a request that is deleted or marked, no other zone holds its id
when the fetch prefers that zone and the round hits its own. -/
theorem ZoneInv.alone {c' : CDZoneRequests} (hin : SyncInput ctx₀.store snapshot)
    (hc : c ∈ ctx₀.store.zones) {nzr : ZoneRequests} {e : Entry}
    (he : e ∈ ctx₀.store.entries c)
    (hacts : hasCounterpart nzr.requests e = false ∨ e.1.isNew = true)
    {v : ZoneLoop} {before after : List CDRequest} {ctx₁ : Context}
    (hi : ZoneInv (.preferring c'.objectID) ctx₀ ctx₁ c nzr.requests before (e.1 :: after) v)
    (hhit : HitsZone (.preferring c'.objectID) c v) (hne : c'.objectID ≠ c.objectID) :
    ∀ r ∈ ctx₁.store.requestsOf c', r.id ≠ e.1.id := by
  intro r hr hid
  have hentry : (r,ctx₁.store.itemsOf r) ∈ v.ctx.store.entries c' := by
    rw [hi.others c' hne]
    exact List.mem_map_of_mem (f := fun r => (r,ctx₁.store.itemsOf r)) hr
  obtain ⟨hrow,hzone,-⟩ := Store.mem_entries.mp hentry
  obtain ⟨herow,-,hitems⟩ := Store.mem_entries.mp he
  obtain ⟨id,heid⟩ := Option.isSome_iff_exists.mp (hin.saved.requestFields e.1 herow).1
  obtain ⟨h,hh,-,hhz,-⟩ := fetchRequests_preferring hrow hzone (hid.trans heid)
  have hany := hi.any_equals (hin.inZone c hc) hin.saved (r := e.1) (by simp)
  rw [← hitems] at hany
  have hz := hhit _ _ id hi.oldRequests heid (by
    rcases hacts with hno | hnew
    · exact .inl (hany.trans hno)
    · exact .inr (by simpa [readRow,readRequest] using hnew)) h hh
  rw [hhz,Option.some.injEq] at hz
  exact hne hz

end Adversary

section Exact

variable {ctx : Context} {snapshot : List ZoneRequests}

theorem ticksOwn_of_itemsApart (hs : ctx.store.Saved) (hapart : ItemsApart ctx.store)
    (ord : FetchOrder) : TicksOwn ord ctx := by
  intro c hc e he i hi reqID itemID heid hiid checked c' hc'
  rcases markChecked_store ord reqID itemID checked ctx with h | ⟨r,item,hr,hrid,him,hitem,h⟩
  · rw [h]
  · rw [h]
    obtain ⟨c₁,hc₁,hz⟩ := hs.zoneOf r hr
    apply hs.entries_setChecked hr him checked
    rw [hz,ne_eq,Option.some.injEq]
    intro heq
    -- the first hit lies in zone `c`, so not in `c'`
    by_cases hsame : c₁.objectID = c.objectID
    · exact hc' (heq.symm.trans hsame)
    · exact hapart c hc e he c₁ hc₁ hsame (r,ctx.store.itemsOf r)
        (Store.mem_entries.mpr ⟨hr,hz,rfl⟩) (hrid.trans heid.symm) i hi item him
        (hitem.trans hiid.symm)

theorem itemsApart_of_ticksOwn (hin : SyncInput ctx.store snapshot)
    (h : ∀ ord : FetchOrder, TicksOwn ord ctx) : ItemsApart ctx.store := by
  intro c hc e he c' hc' hne e' he' hid i hi i' hi' hiid
  obtain ⟨herow,-,heitems⟩ := Store.mem_entries.mp he
  obtain ⟨herow',hezone',heitems'⟩ := Store.mem_entries.mp he'
  rw [heitems] at hi
  rw [heitems'] at hi'
  obtain ⟨reqID,heid⟩ := Option.isSome_iff_exists.mp (hin.saved.requestFields e.1 herow).1
  obtain ⟨itemID,hitem⟩ :=
    Option.isSome_iff_exists.mp (hin.saved.itemFields i (List.mem_of_mem_filter hi)).1
  obtain ⟨r,hhead,hr,hz,hrid⟩ := fetchRequests_preferring herow' hezone' (hid.trans heid)
  have hre : r = e'.1 := List.inj_on_of_nodup_map (hin.inZone c' hc')
    (Store.mem_requestsOf.mpr ⟨hr,hz⟩) (Store.mem_requestsOf.mpr ⟨herow',hezone'⟩)
    (hrid.trans (hid.trans heid).symm)
  rw [← hre] at hi'
  cases hf : (ctx.store.itemsOf r).find? (fun i => i.id == some itemID) with
  | none =>
    rw [List.find?_eq_none] at hf
    exact absurd (hiid.trans hitem) (by simpa using hf i' hi')
  | some item =>
    have hmem : item ∈ ctx.store.itemsOf r := List.mem_of_find?_eq_some hf
    -- ticking the item of `c` the other way sets the flag of this one
    have hown := h (.preferring c'.objectID) c hc e he i (by rw [heitems]; exact hi) reqID itemID
      heid hitem (!item.checked) c' hne
    have hstore : (markChecked (.preferring c'.objectID) reqID itemID (!item.checked) ctx).store =
        ctx.store.setChecked item (!item.checked) := by
      have hrows : (FetchOrder.preferring c'.objectID).items ctx (ctx.store.itemsOf r) =
          ctx.store.itemsOf r := rfl
      simp [markChecked,onFirst,hhead,hrows,hf]
    rw [hstore] at hown
    have hentry : (r,(ctx.store.setChecked item (!item.checked)).itemsOf r) ∈
        ctx.store.entries c' := by
      rw [← hown]
      exact Store.mem_entries.mpr ⟨hr,hz,rfl⟩
    have hset := Store.mem_itemsOf_setChecked hmem (!item.checked)
    have hitems : (ctx.store.setChecked item (!item.checked)).itemsOf r = ctx.store.itemsOf r :=
      (Store.mem_entries.mp hentry).2.2
    rw [hitems] at hset
    have hsame := List.inj_on_of_nodup_map hin.saved.itemRows (List.mem_of_mem_filter hset)
      (List.mem_of_mem_filter hmem) rfl
    have hflag := congrArg CDRequestItem.checked hsame
    simp at hflag

theorem separated_of_handlesOwn (hin : SyncInput ctx.store snapshot)
    (h : ∀ ord : FetchOrder, SyncHandlesOwn ord snapshot ctx) :
    Separated ctx.store snapshot := by
  intro c hc nzr hnzr hz e he hacts
  have hr : e.1 ∈ ctx.store.requestsOf c :=
    Store.mem_requestsOf.mpr ⟨(Store.mem_entries.mp he).1,(Store.mem_entries.mp he).2.1⟩
  have hround : ∀ c' ∈ ctx.store.zones, c'.objectID ≠ c.objectID →
      ∃ u done rest, SyncInv (.preferring c'.objectID) ctx snapshot done (c :: rest) u ∧
        ∀ r ∈ u.ctx.store.requestsOf c', r.id ≠ e.1.id := by
    intro c' _ hne
    obtain ⟨u,done,rest,hi,hown⟩ := exists_zone_round hin
      (fun u hu hm ⟨_,_,hi⟩ => (hi.handles_iff_hits hin).mp
        (h (.preferring c'.objectID) _ (loadAllZoneRequests_ok _ hin.saved) u hu hm)) hc
    obtain ⟨v,before,after,hiv,hhit⟩ := exists_request_round hin hi hown hnzr hz hr
    exact ⟨u,done,rest,hi,hiv.alone hin hc he hacts hhit hne⟩
  have hapart : ∀ c' ∈ ctx.store.zones, c'.zoneid ≠ c.zoneid → c'.objectID ≠ c.objectID :=
    fun c' hc' hne heq => hne (by rw [hin.saved.zone_eq hc' hc heq])
  constructor
  · rintro z hzm hlt ⟨c',hc',hz'⟩ req hreq hid
    have hne : c'.zoneid ≠ c.zoneid := by
      rw [hz,hz',ne_eq,Option.some.injEq]
      exact hlt.ne
    obtain ⟨u,done,rest,hi,halone⟩ := hround c' hc' (hapart c' hc' hne)
    -- the zone of `z` has been handled and holds the request already
    have hdone : c' ∈ done := by
      rcases (hi.mem_rows c').mp hc' with hd | ht
      · exact hd
      · rcases List.mem_cons.mp ht with rfl | ht
        · exact absurd rfl hne
        · exact absurd hlt (not_lt_of_gt ((hi.sorted hin hz hz').2 ht))
    obtain ⟨e',he',hid'⟩ := (hi.merged c' hdone z hzm hz').exists_entry hreq
    obtain ⟨hrow,hzone,-⟩ := Store.mem_entries.mp he'
    exact halone e'.1 (Store.mem_requestsOf.mpr ⟨hrow,hzone⟩) (hid'.trans hid)
  · intro c' hc' zoneid hz' hlt r hrc hid
    have hne : c'.zoneid ≠ c.zoneid := by
      rw [hz,hz',ne_eq,Option.some.injEq]
      exact hlt.ne'
    obtain ⟨u,done,rest,hi,halone⟩ := hround c' hc' (hapart c' hc' hne)
    -- the zone is still to come, with its rows as they were stored
    have hrest : c' ∈ rest := by
      rcases (hi.mem_rows c').mp hc' with hd | ht
      · exact absurd hlt (not_lt_of_gt ((hi.sorted hin hz hz').1 hd))
      · rcases List.mem_cons.mp ht with rfl | ht
        · exact absurd rfl hne
        · exact ht
    have hentries := hi.pending c' (by simp [hrest])
    have hmem : (r,ctx.store.itemsOf r) ∈ u.ctx.store.entries c' := by
      rw [hentries]
      exact List.mem_map_of_mem (f := fun r => (r,ctx.store.itemsOf r)) hrc
    obtain ⟨hrow,hzone,-⟩ := Store.mem_entries.mp hmem
    exact halone r (Store.mem_requestsOf.mpr ⟨hrow,hzone⟩) hid

theorem Reconciled.samePairs {s' : Store} (hin : SyncInput ctx.store snapshot)
    (hr : Reconciled ctx.store snapshot s') : SamePairs snapshot s' := by
  intro zoneid id
  rw [← hr.pairs hin zoneid id]
  constructor
  · rintro ⟨c,hc,hz,r,hrc,hid⟩
    obtain ⟨hrow,hzone⟩ := Store.mem_requestsOf.mp hrc
    exact ⟨(r,s'.itemsOf r),(Store.mem_zoneEntries hr.zones).mpr
      ⟨c,hc,hz,Store.mem_entries.mpr ⟨hrow,hzone,rfl⟩⟩,hid⟩
  · rintro ⟨e,he,hid⟩
    obtain ⟨c,hc,hz,hec⟩ := (Store.mem_zoneEntries hr.zones).mp he
    obtain ⟨hrow,hzone,-⟩ := Store.mem_entries.mp hec
    exact ⟨c,hc,hz,e.1,Store.mem_requestsOf.mpr ⟨hrow,hzone⟩,hid⟩

/-- Whatever the fetch order, handling a request and ticking an item stay inside the
zone and the sync leaves the snapshot's pairs: exactly on separated inputs. -/
theorem keptApart_iff (snapshot : List ZoneRequests) (ctx : Context)
    (hin : SyncInput ctx.store snapshot) :
    (∀ ord : FetchOrder, SyncHandlesOwn ord snapshot ctx ∧ TicksOwn ord ctx ∧
      ∃ ctx', updateSavedRequests ord snapshot ctx = .ok ctx' ∧
        SamePairs snapshot ctx'.store) ↔
    Separated ctx.store snapshot ∧ ItemsApart ctx.store := by
  constructor
  · intro h
    exact ⟨separated_of_handlesOwn hin fun ord => (h ord).1,
      itemsApart_of_ticksOwn hin fun ord => (h ord).2.1⟩
  · rintro ⟨hsep,hitems⟩ ord
    refine ⟨?_,ticksOwn_of_itemsApart hin.saved hitems ord,?_⟩
    · intro old hold u hu _
      rw [loadAllZoneRequests_ok ord hin.saved,Except.ok.injEq] at hold
      subst hold
      obtain ⟨done,todo,hi⟩ := visits_inv (sync_progress hin) ⟨_,_,sync_start hin.saved⟩
        (fun v _ ⟨_,_,hv⟩ _ => hitsOwnZone_of_separated hin hsep hv) hu
      exact (hi.handles_iff_hits hin).mpr (hits_of_separated hin hsep hu)
    · obtain ⟨ctx',hrun,hr⟩ := updateSavedRequests_of_separated ord hin hsep
      exact ⟨ctx',hrun,hr.samePairs hin⟩

def southStore : Store where
  zones := [⟨0,some "north"⟩,⟨1,some "south"⟩]
  requests := [⟨2,some 1,some "x",some 1,some "u1",some "Pending",some 5,false,some "Tan",
    some "Block 1"⟩]
  items := []
  nextID := 3

def northSnapshot : List ZoneRequests := [
  ⟨"north",[⟨some "x",some 1,"u1",some "Pending",some 5,[],none,some "Tan",some "Block 1"⟩]⟩,
  ⟨"south",[]⟩]

theorem southStore_input : SyncInput southStore northSnapshot where
  saved := by
    constructor <;> simp [southStore,CDRequest.Loadable]
  zones := by decide
  inZone := by decide
  snapshotZones := by decide
  snapshotInZone := by decide
  fetched := by
    intro z hz req hreq
    simp only [northSnapshot,List.mem_cons,List.not_mem_nil,or_false] at hz
    rcases hz with rfl | rfl
    · obtain rfl := List.mem_singleton.mp hreq
      exact ⟨rfl,rfl,rfl,rfl⟩
    · simp at hreq

theorem keptApart_iff_moved :
    (∀ ord : FetchOrder, SyncHandlesOwn ord northSnapshot ⟨southStore,[]⟩ ∧
      TicksOwn ord ⟨southStore,[]⟩ ∧
      ∃ ctx', updateSavedRequests ord northSnapshot ⟨southStore,[]⟩ = .ok ctx' ∧
        SamePairs northSnapshot ctx'.store) ↔
    Separated southStore northSnapshot ∧ ItemsApart southStore :=
  keptApart_iff northSnapshot ⟨southStore,[]⟩ southStore_input

/-- With the moved request the round for the south deletes the row that the round for
the north has just added, when the fetch hands out the north's row first. -/
theorem not_keptApart : ¬ ∀ (snapshot : List ZoneRequests) (ctx : Context),
    SyncInput ctx.store snapshot → ∀ ord : FetchOrder,
    SyncHandlesOwn ord snapshot ctx ∧ TicksOwn ord ctx ∧
      ∃ ctx', updateSavedRequests ord snapshot ctx = .ok ctx' ∧
        SamePairs snapshot ctx'.store := by
  intro h
  obtain ⟨-,-,ctx',hrun,hpairs⟩ :=
    h northSnapshot ⟨southStore,[]⟩ southStore_input (.preferring 0)
  have hstore : (updateSavedRequests (.preferring 0) northSnapshot ⟨southStore,[]⟩).map
      (fun ctx => (ctx.store.zones,ctx.store.requests)) =
        .ok (southStore.zones,southStore.requests) := rfl
  rw [hrun,Except.map,Except.ok.injEq,Prod.mk.injEq] at hstore
  obtain ⟨c,hc,hz,r,hr,-⟩ := (hpairs "north" (some "x")).mpr ⟨_,.head _,rfl,_,.head _,rfl⟩
  obtain ⟨hrow,hrz⟩ := Store.mem_requestsOf.mp hr
  rw [hstore.1] at hc
  rw [hstore.2] at hrow
  simp only [southStore,List.mem_cons,List.not_mem_nil,or_false] at hc hrow
  subst hrow
  rcases hc with rfl | rfl
  · simp at hrz
  · simp at hz

end Exact

end Answr
