import Answr.Merge
set_option autoImplicit false

/-! A sync of any store with any snapshot, round by round. It always comes to its end, and
a property that each row operation keeps holds of what it leaves. -/

namespace Answr
open Loops

section Zone

variable (ord : FetchOrder)

/-- What one round over the stored zones can do: the first snapshot zone with the id is
merged and taken out of the list, or there is none and the id is deleted. -/
inductive ZoneRound (ozr : ZoneRequests) (rest : List ZoneRequests) (s : SyncLoop) :
    SyncLoop → Prop where
  | merged (pre : List ZoneRequests) (nzr : ZoneRequests) (suf : List ZoneRequests)
      (done : ZoneLoop) :
      s.newZoneRequests = pre ++ nzr :: suf → nzr.zoneid = ozr.zoneid →
      Visits ZoneLoop.more (handleRequest ord) ⟨ozr.requests,nzr.requests,s.ctx⟩ done →
      done.oldRequests = [] →
      ZoneRound ozr rest s ⟨rest,pre ++ suf,done.newRequests.foldl
        (fun ctx req => addRequestToZoneUsingID ord ozr.zoneid req ctx) done.ctx⟩
  | deleted : (∀ z ∈ s.newZoneRequests, z.zoneid ≠ ozr.zoneid) →
      ZoneRound ozr rest s ⟨rest,s.newZoneRequests,deleteZoneRequest ord ozr.zoneid s.ctx⟩

def Identified (reqs : List Request) : Prop := ∀ req ∈ reqs, req.id.isSome

variable {ord} {ozr : ZoneRequests} {rest : List ZoneRequests} {s t : SyncLoop}

theorem requestRound_of_ok {s t : ZoneLoop} (hids : Identified s.oldRequests)
    (hmore : s.more = true) (h : handleRequest ord s = .ok t) :
    ∃ oreq more id, s.oldRequests = oreq :: more ∧ oreq.id = some id ∧
      RequestRound ord oreq more id s t := by
  cases hold : s.oldRequests with
  | nil => simp [ZoneLoop.more,hold] at hmore
  | cons oreq more =>
    obtain ⟨id,hid⟩ := Option.isSome_iff_exists.mp (hids oreq (by simp [hold]))
    obtain ⟨t',ht',hround⟩ := handleRequest_round ord hid hold
    obtain rfl : t' = t := Except.ok.inj (ht'.symm.trans h)
    exact ⟨oreq,more,id,rfl,hid,hround⟩

theorem RequestRound.oldRequests {oreq : Request} {more : List Request} {id : String}
    {s t : ZoneLoop} (h : RequestRound ord oreq more id s t) : t.oldRequests = more := by
  cases h <;> rfl

theorem RequestRound.newRequests_sublist {oreq : Request} {more : List Request} {id : String}
    {s t : ZoneLoop} (h : RequestRound ord oreq more id s t) :
    t.newRequests.Sublist s.newRequests := by
  cases h with
  | matched pre nreq suf hsplit =>
    rw [hsplit]
    exact (List.Sublist.refl pre).append (List.sublist_cons_self nreq suf)
  | unmatched => exact .refl _

theorem requests_progress (ord : FetchOrder) : Progress ZoneLoop.more (handleRequest ord)
    (fun s => Identified s.oldRequests) (fun _ => True) (fun s => s.oldRequests.length) := by
  intro s hids hmore _
  cases hold : s.oldRequests with
  | nil => simp [ZoneLoop.more,hold] at hmore
  | cons oreq more =>
    obtain ⟨id,hid⟩ := Option.isSome_iff_exists.mp (hids oreq (by simp [hold]))
    obtain ⟨t,ht,hround⟩ := handleRequest_round ord hid hold
    refine ⟨t,ht,fun req hreq => ?_,by simp [hround.oldRequests,hold]⟩
    rw [hround.oldRequests] at hreq
    exact hids req (by simp [hold,hreq])

theorem ZoneLoop.more_false {s : ZoneLoop} : s.more = false ↔ s.oldRequests = [] := by
  simp [ZoneLoop.more]

theorem SyncLoop.more_false {s : SyncLoop} : s.more = false ↔ s.oldZoneRequests = [] := by
  simp [SyncLoop.more]

theorem split_of_findIdx? {α : Type} {p : α → Bool} {l : List α} {k : Nat}
    (h : l.findIdx? p = some k) : ∃ pre x suf, l = pre ++ x :: suf ∧ p x = true ∧
      l[k]? = some x ∧ k < l.length ∧ l.eraseIdx k = pre ++ suf := by
  obtain ⟨hlt,hp,-⟩ := List.findIdx?_eq_some_iff_getElem.mp h
  refine ⟨l.take k,l[k],l.drop (k+1),?_,hp,List.getElem?_eq_getElem hlt,hlt,
    List.eraseIdx_eq_take_drop_succ l k⟩
  rw [List.getElem_cons_drop,List.take_append_drop]

theorem handleZone_round (hold : s.oldZoneRequests = ozr :: rest)
    (hids : Identified ozr.requests) :
    ∃ t, handleZone ord s = .ok t ∧ ZoneRound ord ozr rest s t := by
  have hfirst : first s.oldZoneRequests = .ok ozr := by simp [first,hold,unwrap]
  have hremove : removeFirst s.oldZoneRequests = .ok rest := by simp [removeFirst,hold]
  cases hk : s.newZoneRequests.findIdx? (fun nzr => nzr.zoneid == ozr.zoneid) with
  | none =>
    rw [List.findIdx?_eq_none_iff] at hk
    refine ⟨_,?_,.deleted fun z hz => by simpa using hk z hz⟩
    simp only [handleZone,hfirst,bind,Except.bind,List.findIdx?_eq_none_iff.mpr hk,hremove,pure,
      Except.pure]
  | some k =>
    obtain ⟨pre,nzr,suf,hsplit,hid,hget,hlt,herase⟩ := split_of_findIdx? hk
    obtain ⟨done,hrun,-,hmore,hvisits⟩ := whileLoop_total .endlessLoop
      (requests_progress ord) ozr.requests.length
      (s := ⟨ozr.requests,nzr.requests,s.ctx⟩) hids (le_refl _) (fun _ _ _ _ => trivial)
    have helement : element s.newZoneRequests k = .ok nzr := by simp [element,hget]
    have hremoveAt : removeAt s.newZoneRequests k = .ok (pre ++ suf) := by
      simp [removeAt,hlt,herase]
    refine ⟨_,?_,.merged pre nzr suf done hsplit (by simpa using hid) hvisits
      (ZoneLoop.more_false.mp hmore)⟩
    simp only [handleZone,hfirst,bind,Except.bind,hk,helement,hrun,hremove,hremoveAt,pure,
      Except.pure]

theorem zoneRound_of_ok (hids : ∀ ozr ∈ s.oldZoneRequests, Identified ozr.requests)
    (hmore : s.more = true) (h : handleZone ord s = .ok t) :
    ∃ ozr rest, s.oldZoneRequests = ozr :: rest ∧ ZoneRound ord ozr rest s t := by
  cases hold : s.oldZoneRequests with
  | nil => simp [SyncLoop.more,hold] at hmore
  | cons ozr rest =>
    obtain ⟨t',ht',hround⟩ := handleZone_round hold (hids ozr (by simp [hold]))
    obtain rfl : t' = t := Except.ok.inj (ht'.symm.trans h)
    exact ⟨ozr,rest,rfl,hround⟩

theorem ZoneRound.oldZoneRequests (h : ZoneRound ord ozr rest s t) :
    t.oldZoneRequests = rest := by
  cases h <;> rfl

theorem ZoneRound.newZoneRequests_sublist (h : ZoneRound ord ozr rest s t) :
    t.newZoneRequests.Sublist s.newZoneRequests := by
  cases h with
  | merged pre nzr suf done hsplit =>
    rw [hsplit]
    exact (List.Sublist.refl pre).append (List.sublist_cons_self nzr suf)
  | deleted => exact .refl _

theorem zones_progress (ord : FetchOrder) : Progress SyncLoop.more (handleZone ord)
    (fun s => ∀ ozr ∈ s.oldZoneRequests, Identified ozr.requests) (fun _ => True)
    (fun s => s.oldZoneRequests.length) := by
  intro s hids hmore _
  cases hold : s.oldZoneRequests with
  | nil => simp [SyncLoop.more,hold] at hmore
  | cons ozr rest =>
    obtain ⟨t,ht,hround⟩ := @handleZone_round ord _ _ _ hold (hids ozr (by simp [hold]))
    refine ⟨t,ht,fun zone hzone => ?_,by simp [hround.oldZoneRequests,hold]⟩
    rw [hround.oldZoneRequests] at hzone
    exact hids zone (by simp [hold,hzone])

end Zone

section Sync

variable {ord : FetchOrder} {ctx ctx' : Context} {snapshot : List ZoneRequests}

theorem identified_readZone (hs : ctx.store.Saved) (c : CDZoneRequests) :
    Identified (readZone ord ctx c).requests := by
  intro req hreq
  obtain ⟨r,hr,rfl⟩ := List.mem_map.mp hreq
  have hrow := (sortedRequests_perm ord ctx c).mem_iff.mp hr
  exact (hs.requestFields r (Store.mem_requestsOf.mp hrow).1).1

theorem identified_start (hs : ctx.store.Saved) :
    ∀ ozr ∈ (syncStart ord snapshot ctx).oldZoneRequests, Identified ozr.requests := by
  intro ozr hozr
  obtain ⟨c,-,rfl⟩ := List.mem_map.mp hozr
  exact identified_readZone hs c

/-- A sync of a saved store returns, whatever the snapshot: the loop over the stored zones
has emptied its list, and the snapshot zones that are left are saved. -/
theorem updateSavedRequests_ends (ord : FetchOrder) (snapshot : List ZoneRequests)
    (hs : ctx.store.Saved) :
    ∃ t, updateSavedRequests ord snapshot ctx =
        .ok (t.newZoneRequests.foldl (fun ctx zonereq => saveZoneRequest zonereq ctx) t.ctx) ∧
      Visits SyncLoop.more (handleZone ord) (syncStart ord snapshot ctx) t ∧
      t.oldZoneRequests = [] := by
  obtain ⟨t,ht,-,hmore,hvisits⟩ := whileLoop_total Fault.endlessLoop
    (zones_progress ord) (syncStart ord snapshot ctx).oldZoneRequests.length
    (s := syncStart ord snapshot ctx) (identified_start hs) (le_refl _) (fun _ _ _ _ => trivial)
  refine ⟨t,?_,hvisits,SyncLoop.more_false.mp hmore⟩
  simp only [updateSavedRequests,loadAllZoneRequests_ok ord hs,bind,Except.bind]
  change (whileLoop _ _ _ (syncStart ord snapshot ctx).oldZoneRequests.length
    (syncStart ord snapshot ctx)).bind _ = _
  rw [ht]
  rfl

end Sync

section Closed

/-- A property of the store that the row operations of a sync keep. -/
structure Closed (snapshot : List ZoneRequests) (Inv : Store → Prop) : Prop where
  markOld : ∀ s r, Inv s → Inv (s.markOld r)
  deleteRequest : ∀ s r, Inv s → Inv (s.deleteRequest r)
  deleteZone : ∀ s c, Inv s → Inv (s.deleteZone c)
  addZone : ∀ s, ∀ z ∈ snapshot, Inv s → Inv (s.addZone z.zoneid)
  addRequest : ∀ s, ∀ c ∈ s.zones, ∀ z ∈ snapshot, ∀ req ∈ z.requests,
    c.zoneid = some z.zoneid → Inv s → Inv (s.addRequest c req)

variable {ord : FetchOrder} {ctx ctx' : Context} {snapshot : List ZoneRequests}
  {Inv : Store → Prop}

theorem onFirst_inv {α : Type} {rows : List α} {act : α → Context → Context}
    (h : Inv ctx.store) (hact : ∀ row ∈ rows, Inv (act row ctx).store) :
    Inv (onFirst rows act ctx).store := by
  unfold onFirst
  split
  · rename_i row hrow
    exact hact row (List.mem_of_head? hrow)
  · exact h

theorem mem_fetchZones {zoneid : String} {c : CDZoneRequests} :
    c ∈ fetchZones ord zoneid ctx ↔ c ∈ ctx.store.zones ∧ c.zoneid = some zoneid := by
  simp [fetchZones,(ord.zones_perm ctx _).mem_iff]

theorem Closed.addToZone (h : Closed snapshot Inv) (hi : Inv ctx.store)
    {z : ZoneRequests} (hz : z ∈ snapshot) {req : Request} (hreq : req ∈ z.requests) :
    Inv (addRequestToZoneUsingID ord z.zoneid req ctx).store := by
  refine onFirst_inv hi fun c hc => ?_
  obtain ⟨hcm,hcz⟩ := mem_fetchZones.mp hc
  exact h.addRequest _ c hcm z hz req hreq hcz hi

theorem Closed.saveZone (h : Closed snapshot Inv) (hi : Inv ctx.store)
    {z : ZoneRequests} (hz : z ∈ snapshot) : Inv (saveZoneRequest z ctx).store := by
  have hadd : ∀ (reqs : List Request) (ctx' : Context), (∀ req ∈ reqs, req ∈ z.requests) →
      ⟨ctx.store.nextID,some z.zoneid⟩ ∈ ctx'.store.zones → Inv ctx'.store →
      Inv (reqs.foldl (fun ctx' req => addRequestToZoneRequest
        ⟨ctx.store.nextID,some z.zoneid⟩ req ctx') ctx').store := by
    intro reqs
    induction reqs with
    | nil => exact fun _ _ _ hi' => hi'
    | cons req reqs ih =>
      intro ctx' hreqs hc hi'
      exact ih _ (fun r hr => hreqs r (by simp [hr])) hc
        (h.addRequest _ _ hc z hz req (hreqs req (by simp)) rfl hi')
  exact hadd z.requests _ (fun _ hreq => hreq) (by simp [Store.addZone]) (h.addZone _ z hz hi)

theorem Closed.requestRound (h : Closed snapshot Inv) {oreq : Request} {more : List Request}
    {id : String} {s t : ZoneLoop} (hr : RequestRound ord oreq more id s t)
    (hi : Inv s.ctx.store) : Inv t.ctx.store := by
  cases hr with
  | matched pre nreq suf =>
    dsimp only
    split
    · exact onFirst_inv hi fun r _ => h.markOld _ r hi
    · exact hi
  | unmatched => exact onFirst_inv hi fun r _ => h.deleteRequest _ r hi

theorem Closed.zoneRound (h : Closed snapshot Inv) {ozr : ZoneRequests}
    {rest : List ZoneRequests} {s t : SyncLoop} (hr : ZoneRound ord ozr rest s t)
    (hids : Identified ozr.requests) (hsub : s.newZoneRequests.Sublist snapshot)
    (hi : Inv s.ctx.store) : Inv t.ctx.store := by
  cases hr with
  | merged pre nzr suf done hsplit hid hvisits hdone =>
    have hnzr : nzr ∈ snapshot := hsub.subset (by simp [hsplit])
    obtain ⟨-,hreqs,hi'⟩ := hvisits.inv (fun u => Identified u.oldRequests ∧
        u.newRequests.Sublist nzr.requests ∧ Inv u.ctx.store) ⟨hids,.refl _,hi⟩ (by
      rintro u v - ⟨hu,hreqs,hi⟩ hmore hbody
      obtain ⟨oreq,more,id,hold,-,hround⟩ := requestRound_of_ok hu hmore hbody
      refine ⟨?_,hround.newRequests_sublist.trans hreqs,h.requestRound hround hi⟩
      rw [hround.oldRequests]
      exact fun req hreq => hu req (by simp [hold,hreq]))
    have hadd : ∀ (reqs : List Request) (ctx : Context), (∀ req ∈ reqs, req ∈ nzr.requests) →
        Inv ctx.store → Inv (reqs.foldl
          (fun ctx req => addRequestToZoneUsingID ord ozr.zoneid req ctx) ctx).store := by
      intro reqs
      induction reqs with
      | nil => exact fun _ _ hi => hi
      | cons req reqs ih =>
        intro ctx hreqs hi
        refine ih _ (fun r hr => hreqs r (by simp [hr])) ?_
        rw [← hid]
        exact h.addToZone hi hnzr (hreqs req (by simp))
    exact hadd done.newRequests done.ctx (fun req hreq => hreqs.subset hreq) hi'
  | deleted => exact onFirst_inv hi fun c _ => h.deleteZone _ c hi

theorem Closed.sync (h : Closed snapshot Inv) (hs : ctx.store.Saved)
    (hi : Inv ctx.store) (hrun : updateSavedRequests ord snapshot ctx = .ok ctx') :
    Inv ctx'.store := by
  obtain ⟨t,ht,hvisits,-⟩ := updateSavedRequests_ends ord snapshot hs
  obtain rfl := Except.ok.inj (ht.symm.trans hrun)
  obtain ⟨-,hsub,hi'⟩ := hvisits.inv (fun u =>
      (∀ ozr ∈ u.oldZoneRequests, Identified ozr.requests) ∧
      u.newZoneRequests.Sublist snapshot ∧ Inv u.ctx.store)
      ⟨identified_start hs,.refl _,hi⟩ (by
    rintro u v - ⟨hu,hsub,hi⟩ hmore hbody
    obtain ⟨ozr,rest,hold,hround⟩ := zoneRound_of_ok hu hmore hbody
    refine ⟨?_,hround.newZoneRequests_sublist.trans hsub,
      h.zoneRound hround (hu ozr (by simp [hold])) hsub hi⟩
    rw [hround.oldZoneRequests]
    exact fun zone hzone => hu zone (by simp [hold,hzone]))
  have hsave : ∀ (zs : List ZoneRequests) (ctx : Context), (∀ z ∈ zs, z ∈ snapshot) →
      Inv ctx.store → Inv (zs.foldl (fun ctx z => saveZoneRequest z ctx) ctx).store := by
    intro zs
    induction zs with
    | nil => exact fun _ _ hi => hi
    | cons z zs ih =>
      intro ctx hzs hi
      exact ih _ (fun z' hz' => hzs z' (by simp [hz'])) (h.saveZone hi (hzs z (by simp)))
  exact hsave _ _ (fun z hz => hsub.subset hz) hi'

theorem closed_saved (hfetched : ∀ z ∈ snapshot, ∀ req ∈ z.requests, req.Fetched) :
    Closed snapshot Store.Saved where
  markOld _ r hs := Store.saved_markOld hs r
  deleteRequest _ r hs := Store.saved_deleteRequest hs r
  deleteZone _ c hs := Store.saved_deleteZone hs c
  addZone _ z _ hs := Store.saved_addZone hs z.zoneid
  addRequest _ c hc z hz req hreq _ hs :=
    Store.saved_addRequest hs ⟨c,hc,rfl⟩ (hfetched z hz req hreq)

end Closed

end Answr
