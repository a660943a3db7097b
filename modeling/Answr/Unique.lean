import Answr.Rounds
import Answr.MergeSpec
import Answr.FetchEnds
import Answr.ScreenRuns
set_option autoImplicit false

/-! That no zone id and no request id of a zone is stored twice. The data model does not
enforce it: it rests on what a sync deletes before it inserts. -/

namespace Answr
open Loops LeafTree Countdown Steps

section Store

/-- A saved store with at most one row for a zone id and for a request id of a zone. -/
structure Store.Unique (s : Store) : Prop where
  saved : s.Saved
  zones : (s.zones.map (·.zoneid)).Nodup
  inZone : ∀ c ∈ s.zones, ((s.requestsOf c).map (·.id)).Nodup

/-- A stored request that its zone's snapshot lists under the same id, but with other data,
is deleted by this id and inserted anew. No other zone has the id at that time: none that
is handled later holds it, and none that was handled before held it or lists it. -/
def DeletesApart (s : Store) (snapshot : List ZoneRequests) : Prop :=
  ∀ c ∈ s.zones, ∀ nzr ∈ snapshot, c.zoneid = some nzr.zoneid → ∀ e ∈ s.entries c,
    hasCounterpart nzr.requests e = false → (∃ req ∈ nzr.requests, req.id = e.1.id) →
    ∀ c' ∈ s.zones, ∀ zoneid, c'.zoneid = some zoneid →
      (nzr.zoneid < zoneid → ∀ r ∈ s.requestsOf c', r.id ≠ e.1.id) ∧
      (zoneid < nzr.zoneid → ∀ z ∈ snapshot, z.zoneid = zoneid →
        (∀ r ∈ s.requestsOf c', r.id ≠ e.1.id) ∧ ∀ req ∈ z.requests, req.id ≠ e.1.id)

theorem deletesApart_of_separated {s : Store} {snapshot : List ZoneRequests}
    (hsep : Separated s snapshot) : DeletesApart s snapshot := by
  intro c hc nzr hnzr hcz e he hnone _ c' hc' zoneid hcz'
  obtain ⟨hearlier,hlater⟩ := hsep c hc nzr hnzr hcz e he (.inl hnone)
  refine ⟨fun hlt => hlater c' hc' zoneid hcz' hlt,fun hlt z hz hzid => ?_⟩
  subst hzid
  have hlisted := hearlier z hz hlt ⟨c',hc',hcz'⟩
  refine ⟨fun r hr hid => ?_,hlisted⟩
  have hentry : (r,s.itemsOf r) ∈ s.entries c' :=
    List.mem_map_of_mem (f := fun r => (r,s.itemsOf r)) hr
  cases hcp : hasCounterpart z.requests (r,s.itemsOf r) with
  | true =>
    obtain ⟨req,hreq,heq⟩ := hasCounterpart_iff.mp hcp
    exact hlisted req hreq (((Request.equals_iff _ _).mp heq).1.symm.trans hid)
  | false =>
    obtain ⟨hrow,hzone,-⟩ := Store.mem_entries.mp he
    exact (hsep c' hc' z hz hcz' _ hentry (.inl hcp)).2 c hc nzr.zoneid hcz hlt e.1
      (Store.mem_requestsOf.mpr ⟨hrow,hzone⟩) hid.symm

theorem unique_empty : Store.empty.Unique :=
  ⟨Store.saved_empty,by simp [Store.empty],by simp [Store.empty]⟩

variable {s : Store} {ord : FetchOrder} {ctx ctx' : Context} {snapshot : List ZoneRequests}

theorem Store.Unique.syncInput (h : s.Unique) (hzones : (snapshot.map (·.zoneid)).Nodup)
    (hin : ∀ z ∈ snapshot, (z.requests.map (·.id)).Nodup)
    (hfetched : ∀ z ∈ snapshot, ∀ req ∈ z.requests, req.Fetched) : SyncInput s snapshot :=
  ⟨h.saved,h.zones,h.inZone,hzones,hin,hfetched⟩

theorem ids_markOld (s : Store) (r : CDRequest) (c : CDZoneRequests) :
    ((s.markOld r).requestsOf c).map (·.id) = (s.requestsOf c).map (·.id) := by
  rw [← Store.map_fst_entries,Store.entries_markOld,← Store.map_fst_entries]
  simp [Function.comp_def]

theorem requestsOf_deleteRequest (s : Store) (r : CDRequest) (c : CDZoneRequests) :
    (s.deleteRequest r).requestsOf c =
      (s.requestsOf c).filter fun row => row.objectID != r.objectID := by
  rw [Store.requestsOf,Store.requestsOf,Store.deleteRequest,List.filter_comm]

theorem ids_deleteRequest (id : String) (c : CDZoneRequests) :
    (((deleteRequest ord id ctx).store.requestsOf c).map (·.id)).Sublist
      ((ctx.store.requestsOf c).map (·.id)) := by
  cases hh : (fetchRequests ord id ctx).head? with
  | none => simp [deleteRequest,onFirst,hh]
  | some h =>
    rw [deleteRequest_store ord hh,requestsOf_deleteRequest]
    exact List.filter_sublist.map _

theorem zones_deleteRequest (id : String) :
    (deleteRequest ord id ctx).store.zones = ctx.store.zones := by
  cases hh : (fetchRequests ord id ctx).head? with
  | none => simp [deleteRequest,onFirst,hh]
  | some h =>
    rw [deleteRequest_store ord hh]
    rfl

theorem markRequestAsOld_keeps (id : String) :
    (markRequestAsOld ord id ctx).store.zones = ctx.store.zones ∧ ∀ c : CDZoneRequests,
      ((markRequestAsOld ord id ctx).store.requestsOf c).map (·.id) =
        (ctx.store.requestsOf c).map (·.id) := by
  cases hh : (fetchRequests ord id ctx).head? with
  | none => simp [markRequestAsOld,onFirst,hh]
  | some row =>
    rw [markRequestAsOld_store ord hh]
    exact ⟨rfl,ids_markOld ctx.store row⟩

def OnlyIn (c : CDZoneRequests) (id : Option String) (s : Store) : Prop :=
  ∀ c' ∈ s.zones, c'.objectID ≠ c.objectID → ∀ r ∈ s.requestsOf c', r.id ≠ id

theorem deleteRequest_own {c : CDZoneRequests} {id : String} (hs : ctx.store.Saved)
    (hids : ((ctx.store.requestsOf c).map (·.id)).Nodup) (hown : OnlyIn c (some id) ctx.store) :
    ∀ r ∈ (deleteRequest ord id ctx).store.requestsOf c, r.id ≠ some id := by
  intro r hr hrid
  cases hh : (fetchRequests ord id ctx).head? with
  | none =>
    have hstore : (deleteRequest ord id ctx).store = ctx.store := by
      simp [deleteRequest,onFirst,hh]
    rw [hstore] at hr
    have hmem := (mem_fetchRequests ord).mpr ⟨(Store.mem_requestsOf.mp hr).1,hrid⟩
    rw [List.head?_eq_none_iff.mp hh] at hmem
    cases hmem
  | some h =>
    rw [deleteRequest_store ord hh,requestsOf_deleteRequest] at hr
    obtain ⟨hrow,hne⟩ := List.mem_filter.mp hr
    obtain ⟨hmem,hhid⟩ := (mem_fetchRequests ord).mp (List.mem_of_head? hh)
    obtain ⟨c',hc',hzone⟩ := hs.zoneOf h hmem
    have hoid : c'.objectID = c.objectID := by
      by_contra hoid
      exact hown c' hc' hoid h (Store.mem_requestsOf.mpr ⟨hmem,hzone⟩) hhid
    have hsame : r = h := List.inj_on_of_nodup_map hids hrow
      (Store.mem_requestsOf.mpr ⟨hmem,hoid ▸ hzone⟩) (hrid.trans hhid.symm)
    simp [hsame] at hne

end Store

section Zone

variable {ord : FetchOrder} {ctx₁ : Context} {c : CDZoneRequests} {snapshot : List Request}

/-- While the requests of the zone `c` are handled its rows only get fewer, and an id that
has been handled is not both stored in the zone and still to be inserted. -/
structure Shrinks (ctx₁ : Context) (c : CDZoneRequests) (snapshot : List Request)
    (s : ZoneLoop) : Prop where
  oldRequests : Identified s.oldRequests
  saved : s.ctx.store.Saved
  zones : s.ctx.store.zones = ctx₁.store.zones
  ids : ∀ c' : CDZoneRequests, ((s.ctx.store.requestsOf c').map (·.id)).Sublist
    ((ctx₁.store.requestsOf c').map (·.id))
  newRequests : s.newRequests.Sublist snapshot
  handled : ∀ r ∈ s.ctx.store.requestsOf c, r.id ∉ s.oldRequests.map (·.id) →
    r.id ∉ s.newRequests.map (·.id)

theorem Shrinks.matched {s : ZoneLoop} (h : Shrinks ctx₁ c snapshot s)
    (hsnap : (snapshot.map (·.id)).Nodup) {oreq nreq : Request} {more pre suf : List Request}
    {id : String} {ctx' : Context} (hold : s.oldRequests = oreq :: more)
    (hid : oreq.id = some id) (hidn : nreq.id = some id)
    (hsplit : s.newRequests = pre ++ nreq :: suf) (hsaved : ctx'.store.Saved)
    (hkeeps : ctx'.store.zones = s.ctx.store.zones ∧ ∀ c : CDZoneRequests,
      (ctx'.store.requestsOf c).map (·.id) = (s.ctx.store.requestsOf c).map (·.id)) :
    Shrinks ctx₁ c snapshot ⟨more,pre ++ suf,ctx'⟩ where
  oldRequests req hreq := h.oldRequests req (by simp [hold,hreq])
  saved := hsaved
  zones := hkeeps.1.trans h.zones
  ids c' := hkeeps.2 c' ▸ h.ids c'
  newRequests := by
    refine List.Sublist.trans ?_ h.newRequests
    rw [hsplit]
    exact (List.Sublist.refl pre).append (List.sublist_cons_self nreq suf)
  handled r hr hrest hmem := by
    obtain ⟨n,hn,hnid⟩ := List.mem_map.mp hmem
    by_cases hrid : r.id = some id
    · -- the matched id is no longer to be inserted
      have hnodup := hsnap.sublist (h.newRequests.map (·.id))
      rw [hsplit] at hnodup
      exact key_ne_of_split hnodup n hn ((hnid.trans hrid).trans hidn.symm)
    · obtain ⟨r₀,hr₀,hsame⟩ := List.mem_map.mp (hkeeps.2 c ▸ List.mem_map_of_mem hr)
      have hsame : r₀.id = r.id := hsame
      refine h.handled r₀ hr₀ ?_ (List.mem_map.mpr ⟨n,?_,hnid.trans hsame.symm⟩)
      · rw [hold,List.map_cons,List.mem_cons,not_or,hsame,hid]
        exact ⟨hrid,hrest⟩
      · rw [hsplit]
        simp only [List.mem_append,List.mem_cons] at hn ⊢
        exact hn.imp_right .inr

theorem Shrinks.unmatched {s : ZoneLoop} (h : Shrinks ctx₁ c snapshot s)
    (hids : ((ctx₁.store.requestsOf c).map (·.id)).Nodup) {oreq : Request}
    {more : List Request} {id : String} (hold : s.oldRequests = oreq :: more)
    (hid : oreq.id = some id) (hsaved : (deleteRequest ord id s.ctx).store.Saved)
    (hown : (∃ n ∈ s.newRequests, n.id = some id) → OnlyIn c (some id) ctx₁.store) :
    Shrinks ctx₁ c snapshot ⟨more,s.newRequests,deleteRequest ord id s.ctx⟩ where
  oldRequests req hreq := h.oldRequests req (by simp [hold,hreq])
  saved := hsaved
  zones := (zones_deleteRequest id).trans h.zones
  ids c' := (ids_deleteRequest id c').trans (h.ids c')
  newRequests := h.newRequests
  handled r hr hrest hmem := by
    by_cases hrid : r.id = some id
    · obtain ⟨n,hn,hnid⟩ := List.mem_map.mp hmem
      have honly : OnlyIn c (some id) s.ctx.store := by
        intro c' hc' hoid row hrow hrowid
        obtain ⟨row₁,hrow₁,heq⟩ := List.mem_map.mp
          ((h.ids c').subset (List.mem_map_of_mem (f := fun r : CDRequest => r.id) hrow))
        exact hown ⟨n,hn,hnid.trans hrid⟩ c' (h.zones ▸ hc') hoid row₁ hrow₁ (heq.trans hrowid)
      exact deleteRequest_own h.saved (hids.sublist (h.ids c)) honly r hr hrid
    · obtain ⟨r₀,hr₀,hsame⟩ := List.mem_map.mp
        ((ids_deleteRequest id c).subset (List.mem_map_of_mem hr))
      have hsame : r₀.id = r.id := hsame
      refine h.handled r₀ hr₀ ?_ (hsame ▸ hmem)
      rw [hold,List.map_cons,List.mem_cons,not_or,hsame,hid]
      exact ⟨hrid,hrest⟩

/-- An id that is to be inserted anew for a stored request without an equal is only in the
zone at hand. -/
def Anew (c : CDZoneRequests) (oldRequests snapshot : List Request) (s : Store) : Prop :=
  ∀ oreq ∈ oldRequests, (∀ n ∈ snapshot, oreq.equals n = false) →
    (∃ n ∈ snapshot, n.id = oreq.id) → OnlyIn c oreq.id s

theorem Shrinks.step {s t : ZoneLoop} (h : Shrinks ctx₁ c snapshot s)
    (hids : ((ctx₁.store.requestsOf c).map (·.id)).Nodup) (hsnap : (snapshot.map (·.id)).Nodup)
    {oreq : Request} {more : List Request} {id : String} (hold : s.oldRequests = oreq :: more)
    (hid : oreq.id = some id) (hround : RequestRound ord oreq more id s t)
    (hown : (∀ n ∈ snapshot, oreq.equals n = false) →
      (∃ n ∈ snapshot, n.id = oreq.id) → OnlyIn c oreq.id ctx₁.store) :
    Shrinks ctx₁ c snapshot t := by
  have hsaved : Closed [] Store.Saved := closed_saved (by simp)
  have hclosed := hsaved.requestRound hround h.saved
  cases hround with
  | matched pre nreq suf hsplit hpre heq =>
    have hidn : nreq.id = some id := ((Request.equals_iff _ _).mp heq).1.symm.trans hid
    refine h.matched hsnap hold hid hidn hsplit hclosed ?_
    split
    · exact markRequestAsOld_keeps id
    · exact ⟨rfl,fun _ => rfl⟩
  | unmatched hnone =>
    refine h.unmatched hids hold hid hclosed fun ⟨n,hn,hnid⟩ => ?_
    have hn' := h.newRequests.subset hn
    rw [hid] at hown
    refine hown (fun n' hn'' => ?_) ⟨n,hn',hnid⟩
    -- the request with this id is still to be inserted, so it has matched nothing
    by_contra heq
    rw [Bool.not_eq_false] at heq
    have hsame : n' = n := List.inj_on_of_nodup_map hsnap hn'' hn'
      (((Request.equals_iff _ _).mp heq).1.symm.trans (hid.trans hnid.symm))
    rw [hsame,hnone n hn] at heq
    cases heq

theorem Shrinks.run {oldRequests : List Request} {done : ZoneLoop}
    (hvisits : Visits ZoneLoop.more (handleRequest ord) ⟨oldRequests,snapshot,ctx₁⟩ done)
    (hold : Identified oldRequests) (hs : ctx₁.store.Saved)
    (hids : ((ctx₁.store.requestsOf c).map (·.id)).Nodup) (hsnap : (snapshot.map (·.id)).Nodup)
    (hpending : ∀ r ∈ ctx₁.store.requestsOf c, r.id ∈ oldRequests.map (·.id))
    (hown : Anew c oldRequests snapshot ctx₁.store) : Shrinks ctx₁ c snapshot done := by
  have hstart : Shrinks ctx₁ c snapshot ⟨oldRequests,snapshot,ctx₁⟩ :=
    ⟨hold,hs,rfl,fun _ => .refl _,.refl _,fun r hr hnot => absurd (hpending r hr) hnot⟩
  refine (hvisits.inv (fun u => Shrinks ctx₁ c snapshot u ∧ u.oldRequests ⊆ oldRequests)
    ⟨hstart,List.Subset.refl _⟩ fun u v hu hi hmore hbody => ?_).1
  obtain ⟨oreq,more,id,hcons,hid,hround⟩ := requestRound_of_ok hi.1.oldRequests hmore hbody
  refine ⟨hi.1.step hids hsnap hcons hid hround (hown oreq (hi.2 (by simp [hcons]))),?_⟩
  rw [hround.oldRequests]
  exact fun req hreq => hi.2 (by simp [hcons,hreq])

end Zone

section Sync

variable {ord : FetchOrder} {ctx ctx' : Context} {snapshot : List ZoneRequests}

/-- While the stored zones are handled their ids stay unique. A zone that has been handled is
in the snapshot, and not still to be saved; it has ids that were stored in it or are listed
for it, and the others have no more than was loaded. -/
structure StaysUnique (ord : FetchOrder) (ctx : Context) (snapshot : List ZoneRequests)
    (todo : List CDZoneRequests) (s : SyncLoop) : Prop where
  rows : todo <:+ sortedZones ord ctx
  oldZoneRequests : s.oldZoneRequests = todo.map (readZone ord ctx)
  present : ∀ c ∈ todo, c ∈ s.ctx.store.zones
  zones : ∀ c ∈ s.ctx.store.zones, c ∈ ctx.store.zones ∧
    (c ∉ todo → ∃ z ∈ snapshot, c.zoneid = some z.zoneid)
  unique : s.ctx.store.Unique
  newZoneRequests : s.newZoneRequests.Sublist snapshot
  handled : ∀ c ∈ s.ctx.store.zones, ∀ z ∈ s.newZoneRequests, c.zoneid = some z.zoneid → c ∈ todo
  ids : ∀ c ∈ s.ctx.store.zones, ∀ r ∈ s.ctx.store.requestsOf c,
    (∃ r₀ ∈ ctx.store.requestsOf c, r₀.id = r.id) ∨ c ∉ todo ∧
      ∃ z ∈ snapshot, c.zoneid = some z.zoneid ∧ ∃ req ∈ z.requests, req.id = r.id

variable {s t : SyncLoop} {c : CDZoneRequests} {todo : List CDZoneRequests} {zoneid : String}

theorem zoneid_readZone (hs : ctx.store.Saved) (hc : c ∈ ctx.store.zones) :
    c.zoneid = some (readZone ord ctx c).zoneid := by
  obtain ⟨zoneid,hz⟩ := Option.isSome_iff_exists.mp (hs.zoneFields c hc)
  simp [readZone,hz]

theorem sorted_of_suffix (h : ctx.store.Unique) (hrows : c :: todo <:+ sortedZones ord ctx)
    (hz : c.zoneid = some zoneid) {c' : CDZoneRequests} (hc' : c' ∈ ctx.store.zones)
    {zoneid' : String} (hz' : c'.zoneid = some zoneid') :
    (c' ∈ todo → zoneid < zoneid') ∧ (c' ∉ c :: todo → zoneid' < zoneid) := by
  obtain ⟨done,hdone⟩ := hrows
  have hsorted := sortByKey_sorted CDZoneRequests.zoneid (ord.zones ctx ctx.store.zones)
  change (sortedZones ord ctx).Pairwise _ at hsorted
  have hn := ((sortedZones_perm ord ctx).map (·.zoneid)).nodup_iff.mpr h.zones
  have hmem := (sortedZones_perm ord ctx).mem_iff.mpr hc'
  rw [← hdone] at hsorted hn hmem
  rw [List.pairwise_append,List.pairwise_cons] at hsorted
  obtain ⟨-,⟨htodo,-⟩,hbefore⟩ := hsorted
  have hne : c' ∈ done ++ todo → zoneid' ≠ zoneid := by
    rintro hc' rfl
    exact key_ne_of_split hn c' hc' (hz'.trans hz.symm)
  constructor
  · intro hc'
    have hle : zoneid ≤ zoneid' := by simpa [hz,hz',keyLE] using htodo c' hc'
    exact lt_of_le_of_ne hle (hne (List.mem_append_right _ hc')).symm
  · intro hc'
    have hcd : c' ∈ done := (List.mem_append.mp hmem).resolve_right hc'
    have hle : zoneid' ≤ zoneid := by simpa [hz,hz',keyLE] using hbefore c' hcd c (by simp)
    exact lt_of_le_of_ne hle (hne (List.mem_append_left _ hcd))

theorem StaysUnique.next (h : StaysUnique ord ctx snapshot (c :: todo) s)
    (hu : ctx.store.Unique) : c ∈ s.ctx.store.zones ∧ c ∈ ctx.store.zones ∧ c ∉ todo := by
  have hc := h.present c (by simp)
  have hn := (sortedZones_perm ord ctx).nodup_iff.mpr (List.Nodup.of_map _ hu.zones)
  exact ⟨hc,(h.zones c hc).1,(List.nodup_cons.mp (hn.sublist h.rows.sublist)).1⟩

theorem StaysUnique.anew (h : StaysUnique ord ctx snapshot (c :: todo) s)
    (hu : ctx.store.Unique) (hapart : DeletesApart ctx.store snapshot) {nzr : ZoneRequests}
    (hnzr : nzr ∈ snapshot) (hz : c.zoneid = some nzr.zoneid) :
    Anew c (readZone ord ctx c).requests nzr.requests s.ctx.store := by
  obtain ⟨-,hc,-⟩ := h.next hu
  intro oreq horeq hnone hlisted c' hc' hoid r hr hrid
  obtain ⟨row,hrow,rfl⟩ := List.mem_map.mp horeq
  have hentry : (row,ctx.store.itemsOf row) ∈ ctx.store.entries c :=
    List.mem_map_of_mem (f := fun r => (r,ctx.store.itemsOf r))
      ((sortedRequests_perm ord ctx c).mem_iff.mp hrow)
  have hcp : hasCounterpart nzr.requests (row,ctx.store.itemsOf row) = false := by
    rw [Bool.eq_false_iff]
    intro hcp
    obtain ⟨req,hreq,heq⟩ := hasCounterpart_iff.mp hcp
    rw [← readRequest_equals_perm row (sortedItems_perm ord ctx row)] at heq
    exact Bool.false_ne_true ((hnone req hreq).symm.trans heq)
  obtain ⟨hc₀,hsnap⟩ := h.zones c' hc'
  obtain ⟨zoneid',hz'⟩ := Option.isSome_iff_exists.mp (hu.saved.zoneFields c' hc₀)
  obtain ⟨hlater,hearlier⟩ := hapart c hc nzr hnzr hz _ hentry hcp hlisted c' hc₀ zoneid' hz'
  obtain ⟨hafter,hbefore⟩ := sorted_of_suffix hu h.rows hz hc₀ hz'
  by_cases hmem : c' ∈ c :: todo
  · have htodo : c' ∈ todo := (List.mem_cons.mp hmem).resolve_left fun heq => hoid (heq ▸ rfl)
    rcases h.ids c' hc' r hr with ⟨r₀,hr₀,hid⟩ | ⟨hnot,-⟩
    · exact hlater (hafter htodo) r₀ hr₀ (hid.trans hrid)
    · exact hnot hmem
  · have hother : ∀ z ∈ snapshot, c'.zoneid = some z.zoneid →
        (∀ r ∈ ctx.store.requestsOf c', r.id ≠ row.id) ∧ ∀ req ∈ z.requests, req.id ≠ row.id :=
      fun z hzm hzid => hearlier (hbefore hmem) z hzm (Option.some.inj (hzid.symm.trans hz'))
    obtain ⟨z,hzm,hzid⟩ := hsnap hmem
    rcases h.ids c' hc' r hr with ⟨r₀,hr₀,hid⟩ | ⟨-,z',hzm',hzid',req,hreq,hid⟩
    · exact (hother z hzm hzid).1 r₀ hr₀ (hid.trans hrid)
    · exact (hother z' hzm' hzid').2 req hreq (hid.trans hrid)

theorem inserted_ids {s s' : Store} {c c' : CDZoneRequests} {reqs : List Request}
    {news : List Entry} {lo : Nat} (hnews : List.Forall₂ (IsNew lo c) reqs news)
    (hentries : s'.entries c' = s.entries c' ++ if c'.objectID = c.objectID then news else []) :
    (s'.requestsOf c').map (·.id) = (s.requestsOf c').map (·.id) ++
      if c'.objectID = c.objectID then reqs.map (·.id) else [] := by
  rw [← Store.map_fst_entries,hentries,List.map_append,List.map_append,Store.map_fst_entries]
  split
  · rw [List.map_map,← forall₂_ids hnews]
    rfl
  · rfl

theorem StaysUnique.merged (h : StaysUnique ord ctx snapshot (c :: todo) s)
    (hu : ctx.store.Unique) (hin : SyncInput ctx.store snapshot) (hz : c.zoneid = some zoneid)
    {pre suf : List ZoneRequests} {nzr : ZoneRequests}
    (hsplit : s.newZoneRequests = pre ++ nzr :: suf) (hid : nzr.zoneid = zoneid)
    {done : ZoneLoop} (hshrinks : Shrinks s.ctx c nzr.requests done)
    (hdone : done.oldRequests = []) :
    StaysUnique ord ctx snapshot todo ⟨todo.map (readZone ord ctx),pre ++ suf,
      done.newRequests.foldl (fun ctx req => addRequestToZoneUsingID ord zoneid req ctx)
        done.ctx⟩ := by
  subst hid
  obtain ⟨hc,-,hnotin⟩ := h.next hu
  have hnzr := h.newZoneRequests.subset (by simp [hsplit] : nzr ∈ s.newZoneRequests)
  have hsub : (pre ++ suf).Sublist s.newZoneRequests := by
    rw [hsplit]
    exact (List.Sublist.refl pre).append (List.sublist_cons_self nzr suf)
  have hfetched : ∀ req ∈ done.newRequests, req.Fetched := fun req hreq =>
    hin.fetched nzr hnzr req (hshrinks.newRequests.subset hreq)
  obtain ⟨hsaved,hzones,-,news,hforall,hentries⟩ := foldl_addRequestUsingID ord hc h.unique.zones
    hz hfetched hshrinks.saved hshrinks.zones (Nat.zero_le _)
  have hrows := fun c' : CDZoneRequests => inserted_ids hforall (hentries c')
  refine ⟨(List.suffix_cons c todo).trans h.rows,rfl,
    fun c' hc' => hzones ▸ h.present c' (by simp [hc']),?_,⟨hsaved,hzones ▸ h.unique.zones,?_⟩,
    hsub.trans h.newZoneRequests,?_,?_⟩
  · intro c' hc'
    obtain ⟨hc₀,hsnap⟩ := h.zones c' (hzones ▸ hc')
    refine ⟨hc₀,fun hnot => ?_⟩
    by_cases hcc : c' = c
    · exact ⟨nzr,hnzr,hcc ▸ hz⟩
    · exact hsnap (by simp [hcc,hnot])
  · intro c' hc'
    have hc₁ : c' ∈ s.ctx.store.zones := hzones ▸ hc'
    have hold := (h.unique.inZone c' hc₁).sublist (hshrinks.ids c')
    rw [hrows]
    split
    · rename_i hoid
      obtain rfl : c' = c := h.unique.saved.zone_eq hc₁ hc hoid
      rw [List.nodup_append]
      refine ⟨hold,(hin.snapshotInZone nzr hnzr).sublist (hshrinks.newRequests.map _),?_⟩
      rintro _ ha _ hb rfl
      obtain ⟨r,hr,rfl⟩ := List.mem_map.mp ha
      exact hshrinks.handled r hr (by simp [hdone]) hb
    · simpa using hold
  · intro c' hc' z hzm hzid
    refine (List.mem_cons.mp (h.handled c' (hzones ▸ hc') z (hsub.subset hzm) hzid)).resolve_left ?_
    rintro rfl
    -- the id of the merged zone occurs once in the snapshot
    have hn := hin.snapshotZones.sublist (h.newZoneRequests.map (·.zoneid))
    rw [hsplit] at hn
    exact key_ne_of_split hn z hzm (Option.some.inj (hzid.symm.trans hz))
  · intro c' hc' r hr
    have hc₁ : c' ∈ s.ctx.store.zones := hzones ▸ hc'
    have hmem := List.mem_map_of_mem (f := fun r : CDRequest => r.id) hr
    rw [hrows,List.mem_append] at hmem
    rcases hmem with hold | hnew
    · obtain ⟨r₁,hr₁,heq⟩ := List.mem_map.mp ((hshrinks.ids c').subset hold)
      have heq : r₁.id = r.id := heq
      rw [← heq]
      exact (h.ids c' hc₁ r₁ hr₁).imp_right fun ⟨hnot,hz⟩ =>
        ⟨fun hmem => hnot (List.mem_cons_of_mem c hmem),hz⟩
    · split at hnew
      · rename_i hoid
        obtain rfl : c' = c := h.unique.saved.zone_eq hc₁ hc hoid
        obtain ⟨req,hreq,heq⟩ := List.mem_map.mp hnew
        exact .inr ⟨hnotin,nzr,hnzr,hz,req,hshrinks.newRequests.subset hreq,heq⟩
      · cases hnew

theorem StaysUnique.deleted (h : StaysUnique ord ctx snapshot (c :: todo) s)
    (hu : ctx.store.Unique) (hz : c.zoneid = some zoneid)
    (hnone : ∀ z ∈ s.newZoneRequests, z.zoneid ≠ zoneid) :
    StaysUnique ord ctx snapshot todo
      ⟨todo.map (readZone ord ctx),s.newZoneRequests,deleteZoneRequest ord zoneid s.ctx⟩ := by
  obtain ⟨hc,-,hnotin⟩ := h.next hu
  have hstore := deleteZoneRequest_store ord (fetchZones_head ord h.unique.zones hc hz)
  have hrows : ∀ c' : CDZoneRequests, ((s.ctx.store.deleteZone c).requestsOf c').Sublist
      (s.ctx.store.requestsOf c') := by
    intro c'
    exact List.filter_sublist.filter _
  have hleft : ∀ c', c' ∈ (s.ctx.store.deleteZone c).zones ↔
      c' ∈ s.ctx.store.zones ∧ c'.objectID ≠ c.objectID := by
    intro c'
    simp [Store.deleteZone]
  refine ⟨(List.suffix_cons c todo).trans h.rows,rfl,?_,?_,?_,h.newZoneRequests,?_,?_⟩
  · intro c' hc'
    dsimp only
    rw [hstore,hleft]
    refine ⟨h.present c' (by simp [hc']),fun hoid => hnotin ?_⟩
    rwa [← h.unique.saved.zone_eq (h.present c' (by simp [hc'])) hc hoid]
  · intro c' hc'
    dsimp only at hc'
    rw [hstore,hleft] at hc'
    refine ⟨(h.zones c' hc'.1).1,fun hnot => (h.zones c' hc'.1).2 ?_⟩
    rw [List.mem_cons,not_or]
    exact ⟨fun heq => hc'.2 (heq ▸ rfl),hnot⟩
  · dsimp only
    rw [hstore]
    refine ⟨Store.saved_deleteZone h.unique.saved c,
      h.unique.zones.sublist (List.filter_sublist.map _),fun c' hc' => ?_⟩
    exact (h.unique.inZone c' ((hleft c').mp hc').1).sublist ((hrows c').map _)
  · intro c' hc' z hzm hzid
    dsimp only at hc'
    rw [hstore,hleft] at hc'
    refine (List.mem_cons.mp (h.handled c' hc'.1 z hzm hzid)).resolve_left ?_
    rintro rfl
    exact hnone z hzm (Option.some.inj (hzid.symm.trans hz))
  · intro c' hc' r hr
    dsimp only at hc' hr
    rw [hstore] at hc' hr
    exact (h.ids c' ((hleft c').mp hc').1 r ((hrows c').subset hr)).imp_right fun hout =>
      ⟨fun hmem => hout.1 (List.mem_cons_of_mem c hmem),hout.2⟩

theorem StaysUnique.step (h : StaysUnique ord ctx snapshot (c :: todo) s)
    (hu : ctx.store.Unique) (hin : SyncInput ctx.store snapshot)
    (hapart : DeletesApart ctx.store snapshot)
    (hround : ZoneRound ord (readZone ord ctx c) (todo.map (readZone ord ctx)) s t) :
    StaysUnique ord ctx snapshot todo t := by
  obtain ⟨hc,hc₀,-⟩ := h.next hu
  have hz : c.zoneid = some (readZone ord ctx c).zoneid := zoneid_readZone hu.saved hc₀
  cases hround with
  | merged pre nzr suf done hsplit hid hvisits hdone =>
    have hnzr := h.newZoneRequests.subset (by simp [hsplit] : nzr ∈ s.newZoneRequests)
    have hpending : ∀ r ∈ s.ctx.store.requestsOf c,
        r.id ∈ (readZone ord ctx c).requests.map (·.id) := by
      intro r hr
      rcases h.ids c hc r hr with ⟨r₀,hr₀,heq⟩ | ⟨hnot,-⟩
      · rw [readZone,List.map_map]
        exact List.mem_map.mpr ⟨r₀,(sortedRequests_perm ord ctx c).mem_iff.mpr hr₀,heq⟩
      · exact absurd List.mem_cons_self hnot
    have hshrinks := Shrinks.run hvisits (identified_readZone hu.saved c) h.unique.saved
      (h.unique.inZone c hc) (hin.snapshotInZone nzr hnzr) hpending
      (h.anew hu hapart hnzr (hid ▸ hz))
    exact h.merged hu hin hz hsplit hid hshrinks hdone
  | deleted hnone => exact h.deleted hu hz hnone

theorem staysUnique_start (h : ctx.store.Unique) :
    StaysUnique ord ctx snapshot (sortedZones ord ctx) (syncStart ord snapshot ctx) := by
  have hzone : ∀ c, c ∈ sortedZones ord ctx ↔ c ∈ ctx.store.zones := fun c =>
    (sortedZones_perm ord ctx).mem_iff
  refine ⟨List.suffix_refl _,rfl,fun c hc => (hzone c).mp hc,fun c hc => ⟨hc,?_⟩,h,.refl _,
    fun c hc _ _ _ => (hzone c).mpr hc,fun _ _ r hr => .inl ⟨r,hr,rfl⟩⟩
  exact fun hnot => absurd ((hzone c).mpr hc) hnot

/-- A sync that deletes its own rows keeps the ids unique. -/
theorem Store.Unique.sync (h : ctx.store.Unique) (hin : SyncInput ctx.store snapshot)
    (hapart : DeletesApart ctx.store snapshot)
    (hrun : updateSavedRequests ord snapshot ctx = .ok ctx') : ctx'.store.Unique := by
  obtain ⟨t,ht,hvisits,hdone⟩ := updateSavedRequests_ends ord snapshot h.saved
  obtain rfl := Except.ok.inj (ht.symm.trans hrun)
  obtain ⟨todo,hend⟩ := hvisits.inv (fun u => ∃ todo, StaysUnique ord ctx snapshot todo u)
    ⟨_,staysUnique_start h⟩ (by
      rintro u v hu ⟨todo,hi⟩ hmore hbody
      have hids : ∀ ozr ∈ u.oldZoneRequests, Identified ozr.requests := by
        rw [hi.oldZoneRequests]
        exact List.forall_mem_map.mpr fun c _ => identified_readZone h.saved c
      obtain ⟨ozr,rest,hold,hround⟩ := zoneRound_of_ok hids hmore hbody
      cases todo with
      | nil => simp [hi.oldZoneRequests] at hold
      | cons c todo =>
        rw [hi.oldZoneRequests,List.map_cons,List.cons.injEq] at hold
        obtain ⟨rfl,rfl⟩ := hold
        exact ⟨todo,hi.step h hin hapart hround⟩)
  obtain rfl : todo = [] := List.map_eq_nil_iff.mp (hend.oldZoneRequests.symm.trans hdone)
  obtain ⟨hsaved,hkeep,hids,horigin,hnew⟩ := foldl_saveZoneRequest
    (fun z hz => hin.fetched z (hend.newZoneRequests.subset hz)) hend.unique.saved (Nat.zero_le _)
  have hzones : (((t.newZoneRequests.foldl (fun ctx zonereq => saveZoneRequest zonereq ctx)
      t.ctx).store.zones).map (·.zoneid)).Nodup := by
    rw [hids,List.nodup_append]
    refine ⟨hend.unique.zones,?_,?_⟩
    · have hn := hin.snapshotZones.sublist (hend.newZoneRequests.map (·.zoneid))
      simpa [Function.comp_def] using hn.map (Option.some_injective _)
    · rintro _ ha _ hb rfl
      obtain ⟨c,hc,hca⟩ := List.mem_map.mp ha
      obtain ⟨z,hz,hza⟩ := List.mem_map.mp hb
      simpa using hend.handled c hc z hz (hca.trans hza.symm)
  refine ⟨hsaved,hzones,fun c hc => ?_⟩
  rcases horigin c hc with hold | ⟨z,hz,hcz⟩
  · rw [← Store.map_fst_entries,(hkeep c hold).2,Store.map_fst_entries]
    exact hend.unique.inZone c hold
  · obtain ⟨c',hc',hcz',hforall⟩ := hnew z hz
    obtain rfl : c = c' := List.inj_on_of_nodup_map hzones hc hc' (hcz.trans hcz'.symm)
    rw [← Store.map_fst_entries,List.map_map]
    change (List.map (fun e : Entry => e.1.id) _).Nodup
    rw [forall₂_ids hforall]
    exact hin.snapshotInZone z (hend.newZoneRequests.subset hz)

end Sync

section Fetched

def Keyed (db : Database) : Prop := ∀ e ∈ db, ∀ key ∈ e.1, IsKey key

instance (db : Database) : Decidable (Keyed db) :=
  inferInstanceAs (Decidable (∀ e ∈ db, ∀ key ∈ e.1, segments key = [key]))

/-- A fetch for the volunteer whose reads got these answers has handed over the snapshot. -/
def FetchedBy (zh : Bool) (A : Answers) (uid : String) (snapshot : List ZoneRequests) : Prop :=
  ∃ run : FetchRun, Reaches (FetchRun.step zh) (fun _ => Answered A) (.start uid) run ∧
    snapshot ∈ run.calls

/-- Of a zone that the volunteer's string lists twice, one of the two reads finds nothing. -/
def ListedOnce (A : Answers) (uid : String) : Prop :=
  ∀ zones, retrieveZones uid (A []) = some zones → ∀ i j zoneid, i < j →
    zones[i]? = some zoneid → zones[j]? = some zoneid →
    below (zoneRef zoneid) (A [i]) = [] ∨ below (zoneRef zoneid) (A [j]) = []

variable {zh : Bool} {A : Answers} {uid zoneID id zoneid : String} {z : ZoneRequests}
  {req : Request} {snapshot : List ZoneRequests}

theorem FetchedBy.same (h : FetchedBy zh A uid snapshot) : ∃ zones,
    retrieveZones uid (A []) = some zones ∧ Agree SameZone snapshot (fetchedZones zh A zones) := by
  obtain ⟨run,hr,hmem⟩ := h
  exact (FetchRun.keeps hr).results snapshot hmem

theorem numbered_nodup {τ ρ κ : Type} {f : Nat → τ → Option ρ} {key : ρ → κ} {ts : List τ}
    (h : ∀ (i j : Nat) t t', i < j → ts[i]? = some t → ts[j]? = some t' →
      ∀ r ∈ f i t, ∀ r' ∈ f j t', key r ≠ key r') : ((numbered f ts).map key).Nodup := by
  rw [numbered,List.Nodup,List.pairwise_map,List.pairwise_filterMap]
  have hnumbers : ts.zipIdx.Pairwise fun a b => a.2 < b.2 := by
    have hrange := @List.pairwise_lt_range ts.length
    rw [List.range_eq_range',← List.zipIdx_map_snd 0 ts,List.pairwise_map] at hrange
    exact hrange
  refine hnumbers.imp_of_mem fun {a b} ha hb hlt r hr r' hr' => ?_
  exact h a.2 b.2 a.1 b.1 hlt (List.mk_mem_zipIdx_iff_getElem?.mp ha)
    (List.mk_mem_zipIdx_iff_getElem?.mp hb) r hr r' hr'

theorem mem_numbered {τ ρ : Type} {f : Nat → τ → Option ρ} {ts : List τ} {r : ρ}
    (h : r ∈ numbered f ts) : ∃ i t, ts[i]? = some t ∧ f i t = some r := by
  obtain ⟨⟨t,i⟩,hmem,hr⟩ := List.mem_filterMap.mp h
  exact ⟨i,t,List.mk_mem_zipIdx_iff_getElem?.mp hmem,hr⟩

theorem fetchedRequest_ok (h : fetchedRequest zh A zoneID id = some req) :
    req.Fetched ∧ req.id = keyIn zoneID id := by
  obtain ⟨fields,hfields,rfl⟩ := Option.map_eq_some_iff.mp h
  obtain ⟨hf,hid⟩ := requestFields_ok hfields
  exact ⟨⟨hf.id,hf.dateCreated,hf.status,hf.delSlotStart⟩,hid⟩

theorem fetchedZone_ok (hkeyed : ∀ path, Keyed (A path)) (h : fetchedZone zh A zoneid = some z) :
    z.zoneid = zoneid ∧ (z.requests.map (·.id)).Nodup ∧ ∀ req ∈ z.requests, req.Fetched := by
  rw [fetchedZone] at h
  split at h
  · cases h
  · obtain rfl := Option.some.inj h
    have hids : ((numbered (fun i => fetchedRequest zh (A.below i) zoneid)
        (keys (zoneRef zoneid) (A []))).map (·.id)).Nodup := by
      refine numbered_nodup fun i j key key' hlt hi hj r hr r' hr' heq => ?_
      have hr := (fetchedRequest_ok hr).2
      have hr' := (fetchedRequest_ok hr').2
      have hkey : ∀ key ∈ keys (zoneRef zoneid) (A []), IsKey key := by
        intro key hmem
        obtain ⟨q,v,hleaf⟩ := (mem_keys _ _).mp hmem
        exact hkeyed [] _ hleaf key (by simp)
      rw [hr,hr',keyIn_eq (hkey key (List.mem_of_getElem? hi)),
        keyIn_eq (hkey key' (List.mem_of_getElem? hj)),Option.some.injEq] at heq
      obtain ⟨hi',hget⟩ := List.getElem?_eq_some_iff.mp hi
      obtain ⟨hj',hget'⟩ := List.getElem?_eq_some_iff.mp hj
      have := (List.Nodup.getElem_inj_iff (keys_nodup _ _)).mp (hget.trans (heq.trans hget'.symm))
      omega
    refine ⟨rfl,hids,fun req hreq => ?_⟩
    have hreq : req ∈ numbered (fun i => fetchedRequest zh (A.below i) zoneid)
        (keys (zoneRef zoneid) (A [])) := hreq
    obtain ⟨i,key,-,hreq⟩ := mem_numbered hreq
    exact (fetchedRequest_ok hreq).1

theorem sameRequest_id {req req' : Request} (h : SameRequest req req') : req.id = req'.id :=
  (Request.mk.inj h.2).1

theorem SameZone.ids {z z' : ZoneRequests} (h : SameZone z z') :
    (z.requests.map (·.id)).Perm (z'.requests.map (·.id)) := by
  obtain ⟨reqs,hperm,hrel⟩ := h.2
  have hsame : reqs.map (·.id) = z'.requests.map (·.id) := by
    rw [← List.forall₂_eq_eq_eq,List.forall₂_map_left_iff,List.forall₂_map_right_iff]
    exact hrel.imp fun _ _ hreq => sameRequest_id hreq
  exact hsame ▸ hperm.map _

theorem SameZone.fetched {z z' : ZoneRequests} (h : SameZone z z')
    (hf : ∀ req ∈ z'.requests, req.Fetched) : ∀ req ∈ z.requests, req.Fetched := by
  intro req hreq
  obtain ⟨req',hreq',hsame⟩ := h.2.exists_left hreq
  obtain ⟨hid,hdate,-,hstatus,hslot,-⟩ := Request.mk.inj hsame.2
  have hf' := hf req' hreq'
  exact ⟨hid ▸ hf'.id,hdate ▸ hf'.dateCreated,hstatus ▸ hf'.status,hslot ▸ hf'.delSlotStart⟩

theorem FetchedBy.ok (h : FetchedBy zh A uid snapshot) (hkeyed : ∀ path, Keyed (A path)) :
    (∀ z ∈ snapshot, (z.requests.map (·.id)).Nodup) ∧
    (∀ z ∈ snapshot, ∀ req ∈ z.requests, req.Fetched) ∧
    (ListedOnce A uid → (snapshot.map (·.zoneid)).Nodup) := by
  obtain ⟨zones,hzones,hsame⟩ := h.same
  have hzone : ∀ z ∈ snapshot, ∃ z', SameZone z z' ∧ (z'.requests.map (·.id)).Nodup ∧
      ∀ req ∈ z'.requests, req.Fetched := by
    intro z hz
    obtain ⟨z',hz',hzz⟩ := hsame.exists_left hz
    obtain ⟨i,zoneid,-,hfetched⟩ := mem_numbered hz'
    obtain ⟨-,hids,hf⟩ := fetchedZone_ok (A := A.below i) (fun path => hkeyed (i :: path)) hfetched
    exact ⟨z',hzz,hids,hf⟩
  refine ⟨fun z hz => ?_,fun z hz => ?_,fun honce => ?_⟩
  · obtain ⟨z',hzz,hids,-⟩ := hzone z hz
    exact hzz.ids.nodup_iff.mpr hids
  · obtain ⟨z',hzz,-,hf⟩ := hzone z hz
    exact hzz.fetched hf
  · obtain ⟨zs,hperm,hrel⟩ := hsame
    have hids : zs.map (·.zoneid) = (fetchedZones zh A zones).map (·.zoneid) := by
      rw [← List.forall₂_eq_eq_eq,List.forall₂_map_left_iff,List.forall₂_map_right_iff]
      exact hrel.imp fun _ _ hzz => hzz.1
    rw [(hperm.map (·.zoneid)).nodup_iff,hids]
    refine numbered_nodup fun i j zoneid zoneid' hlt hi hj z hz z' hz' heq => ?_
    have hsub : ∀ {i : Nat} {zoneid : String} {z : ZoneRequests},
        fetchedZone zh (A.below i) zoneid = some z →
        z.zoneid = zoneid ∧ below (zoneRef zoneid) (A [i]) ≠ [] := by
      intro i zoneid z hz
      rw [fetchedZone] at hz
      split at hz
      · cases hz
      · rename_i hne
        exact ⟨(congrArg ZoneRequests.zoneid (Option.some.inj hz)).symm,hne⟩
    obtain ⟨hzid,hne⟩ := hsub hz
    obtain ⟨hzid',hne'⟩ := hsub hz'
    rw [hzid,hzid'] at heq
    subst heq
    rcases honce zones hzones i j zoneid hlt hi hj with hnone | hnone
    · exact hne hnone
    · exact hne' hnone

end Fetched

section Refreshes

/-- A refresh that has completed: the answers it got, what it handed over, and the order
of the rows in its sync. -/
structure Completed where
  ord : FetchOrder
  zh : Bool
  A : Answers
  uid : String
  snapshot : List ZoneRequests

def Completed.step (ctx : Context) (e : Completed) : Option Context :=
  (updateSavedRequests e.ord e.snapshot ctx).toOption

/-- Whatever the databases hold, their keys are proper. -/
def Completed.Real (_ : Context) (e : Completed) : Prop :=
  FetchedBy e.zh e.A e.uid e.snapshot ∧ ∀ path, Keyed (e.A path)

/-- No zone that exists is listed twice, and no other zone has an id that is deleted and
inserted anew. -/
def Completed.Careful (ctx : Context) (e : Completed) : Prop :=
  e.Real ctx ∧ ListedOnce e.A e.uid ∧ DeletesApart ctx.store e.snapshot

variable {ctx ctx' : Context} {db : Database}

theorem unique_of_reaches (hr : Reaches Completed.step Completed.Careful ⟨.empty,[]⟩ ctx) :
    ctx.store.Unique := by
  have hstep : ∀ (ctx : Context) (e : Completed) (ctx' : Context), ctx.store.Unique →
      e.Careful ctx → Completed.step ctx e = some ctx' → ctx'.store.Unique := by
    rintro ctx e ctx' h ⟨⟨hfetched,hkeyed⟩,honce,hapart⟩ hstep
    obtain ⟨hin,hf,hzones⟩ := hfetched.ok hkeyed
    exact h.sync (h.syncInput (hzones honce) hin hf) hapart (toOption_some.mp hstep)
  have hempty : (⟨.empty,[]⟩ : Context).store.Unique := unique_empty
  exact hr.inv (fun s e s' h hm hs => hstep s e s' h hm hs) hempty

/-- After any number of careful refreshes no zone id and no request id of a zone is stored
twice, and none is loaded twice. -/
theorem stored_once (ctx : Context)
    (hr : Reaches Completed.step Completed.Careful ⟨.empty,[]⟩ ctx) :
    (ctx.store.zones.map (·.zoneid)).Nodup ∧
    (∀ c ∈ ctx.store.zones, ((ctx.store.requestsOf c).map (·.id)).Nodup) ∧
    ∀ ord, ∃ loaded, loadAllZoneRequests ord ctx = .ok loaded ∧
      (loaded.map (·.zoneid)).Nodup ∧ ∀ z ∈ loaded, (z.requests.map (·.id)).Nodup := by
  have h := unique_of_reaches hr
  refine ⟨h.zones,h.inZone,fun ord => ⟨_,loadAllZoneRequests_ok ord h.saved,?_,fun z hz => ?_⟩⟩
  · have hids : (sortedZones ord ctx).map (fun c => some (readZone ord ctx c).zoneid) =
        (sortedZones ord ctx).map (·.zoneid) := List.map_congr_left fun c hc =>
      (zoneid_readZone h.saved ((sortedZones_perm ord ctx).mem_iff.mp hc)).symm
    have hn := ((sortedZones_perm ord ctx).map (·.zoneid)).nodup_iff.mpr h.zones
    rw [← hids] at hn
    rw [List.map_map]
    refine List.Nodup.of_map some ?_
    rw [List.map_map]
    exact hn
  · obtain ⟨c,hc,rfl⟩ := List.mem_map.mp hz
    have hids := h.inZone c ((sortedZones_perm ord ctx).mem_iff.mp hc)
    rw [readZone,List.map_map]
    exact ((sortedRequests_perm ord ctx c).map (·.id)).nodup_iff.mpr hids

theorem separated_of_one {s : Store} {snapshot : List ZoneRequests} {zoneid : String}
    (hs : ∀ c ∈ s.zones, c.zoneid = some zoneid) (hsnap : ∀ z ∈ snapshot, z.zoneid = zoneid) :
    Separated s snapshot := by
  intro c _ nzr hnzr _ e _ _
  rw [hsnap nzr hnzr]
  constructor
  · intro z hz hlt
    rw [hsnap z hz] at hlt
    exact absurd hlt (lt_irrefl zoneid)
  · intro c' hc' zoneid' hz' hlt
    rw [hs c' hc',Option.some.injEq] at hz'
    exact absurd (hz' ▸ hlt) (lt_irrefl zoneid)

def fetchedFrom (db : Database) (paths : List (List Nat)) : Option (List ZoneRequests) :=
  (play (FetchRun.step false) (fun _ m => m.2 = db) (.start "u1")
    (paths.map fun path => (path,db))).bind fun run => run.calls.head?

theorem fetchedBy_of_fetched {paths : List (List Nat)} {snapshot : List ZoneRequests}
    (h : fetchedFrom db paths = some snapshot) : FetchedBy false (fun _ => db) "u1" snapshot := by
  obtain ⟨run,hplay,hhead⟩ := Option.bind_eq_some_iff.mp h
  exact ⟨run,(reaches_of_play hplay).mono fun _ _ hm => hm,List.mem_of_head? hhead⟩

def acceptedServer : Database :=
  put ["requests","north","r1","status"] (.string "Accepted") northServer

theorem careful_north (hone : retrieveZones "u1" db = some ["north"]) (hkeyed : Keyed db)
    {snapshot : List ZoneRequests} (h : fetchedFrom db northPaths = some snapshot)
    (hsnap : snapshot.map (·.zoneid) = ["north"])
    (hzones : ∀ c ∈ ctx.store.zones, c.zoneid = some "north") :
    Completed.Careful ctx ⟨.table,false,fun _ => db,"u1",snapshot⟩ := by
  have hfetched := fetchedBy_of_fetched h
  have honce : ListedOnce (fun _ => db) "u1" := by
    intro zones hz i j zoneid hlt hi hj
    obtain rfl : ["north"] = zones := Option.some.inj (hone.symm.trans hz)
    have := (List.getElem?_eq_some_iff.mp hj).1
    simp only [List.length_cons,List.length_nil] at this
    omega
  refine ⟨⟨hfetched,fun _ => hkeyed⟩,honce,
    deletesApart_of_separated (separated_of_one hzones ?_)⟩
  intro z hz
  have hmem := List.mem_map_of_mem (f := fun z : ZoneRequests => z.zoneid) hz
  rw [hsnap] at hmem
  exact List.mem_singleton.mp hmem

theorem stored_once_north : ∃ ctx,
    Reaches Completed.step Completed.Careful ⟨.empty,[]⟩ ctx ∧
    ctx.store.requests.map (·.status) = [some "Accepted"] ∧
    (ctx.store.zones.map (·.zoneid)).Nodup ∧
    (∀ c ∈ ctx.store.zones, ((ctx.store.requestsOf c).map (·.id)).Nodup) ∧
    ∀ ord, ∃ loaded, loadAllZoneRequests ord ctx = .ok loaded ∧
      (loaded.map (·.zoneid)).Nodup ∧ ∀ z ∈ loaded, (z.requests.map (·.id)).Nodup := by
  obtain ⟨first,second,ctx₁,ctx₂,hfirst,hsecond,hids,hids',hsync,hsync',hzones,hstatus⟩ :
      ∃ first second ctx₁ ctx₂,
      fetchedFrom northServer northPaths = some first ∧
      fetchedFrom acceptedServer northPaths = some second ∧
      first.map (·.zoneid) = ["north"] ∧ second.map (·.zoneid) = ["north"] ∧
      updateSavedRequests .table first ⟨.empty,[]⟩ = .ok ctx₁ ∧
      updateSavedRequests .table second ctx₁ = .ok ctx₂ ∧
      ctx₁.store.zones = [⟨0,some "north"⟩] ∧
      ctx₂.store.requests.map (·.status) = [some "Accepted"] :=
    ⟨_,_,_,_,rfl,rfl,rfl,rfl,rfl,rfl,rfl,rfl⟩
  have hr₁ : Reaches Completed.step Completed.Careful ⟨.empty,[]⟩ ctx₁ :=
    .next .start (careful_north rfl (by decide) hfirst hids (by simp [Store.empty]))
      (toOption_some.mpr hsync)
  have hr₂ : Reaches Completed.step Completed.Careful ⟨.empty,[]⟩ ctx₂ :=
    .next hr₁ (careful_north rfl (by decide) hsecond hids'
      (by simp [hzones])) (toOption_some.mpr hsync')
  exact ⟨ctx₂,hr₂,hstatus,stored_once ctx₂ hr₂⟩

def doubledServer : Database :=
  put ["volunteer","u1","AssignedZones"] (.string "north,north") northServer

def doubledPaths : List (List Nat) :=
  [[],[0],[0,0],[0,0,0,0],[0,0,1,0],[1],[1,0],[1,0,0,0],[1,0,1,0]]

/-- One refresh stores the north twice. -/
theorem not_stored_once : ¬ ∀ ctx, Reaches Completed.step Completed.Real ⟨.empty,[]⟩ ctx →
    (ctx.store.zones.map (·.zoneid)).Nodup := by
  intro h
  obtain ⟨snapshot,ctx,hsnap,hsync,hzones⟩ : ∃ snapshot ctx,
      fetchedFrom doubledServer doubledPaths = some snapshot ∧
      updateSavedRequests .table snapshot ⟨.empty,[]⟩ = .ok ctx ∧
      ctx.store.zones.map (·.zoneid) = [some "north",some "north"] := ⟨_,_,rfl,rfl,rfl⟩
  have hreal : Completed.Real ⟨.empty,[]⟩ ⟨.table,false,fun _ => doubledServer,"u1",snapshot⟩ :=
    ⟨fetchedBy_of_fetched hsnap,fun _ => by
      change Keyed doubledServer
      decide⟩
  have hnodup := h ctx (.next .start hreal (toOption_some.mpr hsync))
  rw [hzones] at hnodup
  simp at hnodup

end Refreshes

end Answr
