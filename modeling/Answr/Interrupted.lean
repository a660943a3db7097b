import Mathlib.Data.List.Induction
import Answr.MergeSpec
import Answr.Rounds
set_option autoImplicit false

/-! A sync that is cut off. The store is committed after each row operation, so what is
left is one of the committed stores: each lies between the old store and the merge, and
the same sync goes on from it to the same end. -/

namespace Answr
open Loops

section Commits

/-- What was committed on the way from one context to another: good stores, the last of
which is the one that the context then holds. -/
def Commits (P : Store → Prop) (ctx ctx' : Context) : Prop :=
  ∃ log, ctx'.commits = log ++ ctx.commits ∧ log.headD ctx.store = ctx'.store ∧ ∀ p ∈ log, P p

variable {P : Store → Prop} {ctx ctx₁ ctx' : Context}

theorem Commits.refl (P : Store → Prop) (ctx : Context) : Commits P ctx ctx :=
  ⟨[],rfl,rfl,by simp⟩

theorem Commits.trans (h : Commits P ctx ctx₁) (h' : Commits P ctx₁ ctx') :
    Commits P ctx ctx' := by
  obtain ⟨log,hlog,hhead,hgood⟩ := h
  obtain ⟨log',hlog',hhead',hgood'⟩ := h'
  refine ⟨log' ++ log,by rw [hlog',hlog,List.append_assoc],?_,fun p hp => ?_⟩
  · cases log' with
    | nil => exact hhead.trans hhead'
    | cons p log' => exact hhead'
  · rcases List.mem_append.mp hp with hp | hp
    · exact hgood' p hp
    · exact hgood p hp

theorem commits_onFirst {α : Type} {rows : List α} {act : α → Context → Context}
    (hact : ∀ row, (act row ctx).commits = ctx.commits)
    (h : P (onFirst rows act ctx).store) : Commits P ctx (onFirst rows act ctx) := by
  unfold onFirst at h ⊢
  split at h
  · rename_i row hrow
    refine ⟨[(act row ctx).store],?_,rfl,by simpa using h⟩
    rw [Context.save,hact row]
    rfl
  · exact ⟨[ctx.store],rfl,rfl,by simpa using h⟩

theorem commits_addRequest {c : CDZoneRequests} {req : Request}
    (h : P (addRequestToZoneRequest c req ctx).store) :
    Commits P ctx (addRequestToZoneRequest c req ctx) :=
  ⟨[(addRequestToZoneRequest c req ctx).store],rfl,rfl,by simpa using h⟩

theorem commits_addRequestUsingID {ord : FetchOrder} {zoneid : String} {req : Request}
    (h : P (addRequestToZoneUsingID ord zoneid req ctx).store) :
    Commits P ctx (addRequestToZoneUsingID ord zoneid req ctx) := by
  unfold addRequestToZoneUsingID onFirst at h ⊢
  split at h
  · rename_i c hc
    have hp : P (ctx.store.addRequest c req) := h
    exact ⟨[ctx.store.addRequest c req,ctx.store.addRequest c req],rfl,rfl,by simpa using hp⟩
  · exact ⟨[ctx.store],rfl,rfl,by simpa using h⟩

theorem commits_foldl {β : Type} {f : Context → β → Context}
    (hf : ∀ ctx x, P (f ctx x).store → Commits P ctx (f ctx x)) {xs : List β}
    (h : ∀ part, part <+: xs → P (part.foldl f ctx).store) : Commits P ctx (xs.foldl f ctx) := by
  induction xs using List.reverseRecOn with
  | nil => exact .refl P ctx
  | append_singleton xs x ih =>
    have hlast := h (xs ++ [x]) List.prefix_rfl
    have hbefore := ih fun part hpart => h part (hpart.trans (List.prefix_append xs [x]))
    rw [List.foldl_append] at hlast ⊢
    exact hbefore.trans (hf _ x hlast)

theorem commits_saveZone {z : ZoneRequests}
    (h : ∀ part, part <+: z.requests → P (saveZoneRequest ⟨z.zoneid,part⟩ ctx).store) :
    Commits P ctx (saveZoneRequest z ctx) := by
  let start : Context := { ctx with store := ctx.store.addZone z.zoneid }
  have hadd : Commits P start (z.requests.foldl (fun ctx' req =>
      addRequestToZoneRequest ⟨ctx.store.nextID,some z.zoneid⟩ req ctx') start) :=
    commits_foldl (fun _ _ => commits_addRequest) h
  obtain ⟨log,hlog,-,hgood⟩ := hadd
  refine ⟨(saveZoneRequest z ctx).store :: log,?_,rfl,fun p hp => ?_⟩
  · rw [List.cons_append,← hlog]
    rfl
  · rcases List.mem_cons.mp hp with rfl | hp
    · exact h z.requests List.prefix_rfl
    · exact hgood p hp

end Commits

section Partway

/-- The entries of a zone at some time of its merge: the stored ones, those that matched
perhaps no longer new, and new ones for requests that matched none. -/
structure ZonePartway (stored : List Entry) (reqs : List Request) (entries : List Entry) :
    Prop where
  once : (entries.map fun e => e.1.id).Nodup
  origin : ∀ e' ∈ entries, e' ∈ stored ∨
    (∃ e ∈ stored, hasCounterpart reqs e = true ∧ e' = (e.1.old,e.2)) ∨
    ∃ req ∈ unmatched stored reqs, Holds req e'
  kept : ∀ e ∈ stored, hasCounterpart reqs e = true → e ∈ entries ∨ (e.1.old,e.2) ∈ entries

/-- `p` lies between the store `s` and its merge with the snapshot. -/
structure Partway (s : Store) (snapshot : List ZoneRequests) (p : Store) : Prop where
  saved : p.Saved
  zones : (p.zones.map (·.zoneid)).Nodup
  zoneids : ∀ c ∈ p.zones, c ∈ s.zones ∨ ∃ z ∈ snapshot, c.zoneid = some z.zoneid
  kept : ∀ c ∈ s.zones, (∃ z ∈ snapshot, c.zoneid = some z.zoneid) → c ∈ p.zones
  listed : ∀ c ∈ p.zones, ∀ z ∈ snapshot, c.zoneid = some z.zoneid →
    ZonePartway (s.zoneEntries z.zoneid) z.requests (p.entries c)
  others : ∀ c ∈ p.zones, (∀ z ∈ snapshot, c.zoneid ≠ some z.zoneid) →
    p.entries c = s.entries c

variable {stored entries news : List Entry} {reqs part : List Request} {lo : Nat}
  {c : CDZoneRequests} {s p q : Store} {snapshot : List ZoneRequests}

theorem zonePartway_stored (h : (stored.map fun e => e.1.id).Nodup) :
    ZonePartway stored reqs stored :=
  ⟨h,fun _ he => .inl he,fun _ he _ => .inl he⟩

theorem zonePartway_added (hpart : part.Sublist (unmatched stored reqs))
    (hnews : List.Forall₂ (IsNew lo c) part news)
    (hs : (stored.map fun e => e.1.id).Nodup) (hr : (reqs.map (·.id)).Nodup) :
    ZonePartway stored reqs (stored.filterMap (reconciled reqs) ++ news) where
  once := reconciled_ids_nodup hpart hnews hs hr
  origin e' he' := by
    rcases List.mem_append.mp he' with he' | he'
    · exact .inr (.inl (mem_reconciled.mp he'))
    · obtain ⟨req,hreq,hnew⟩ := (exists_of_forall₂ hnews).1 e' he'
      exact .inr (.inr ⟨req,hpart.subset hreq,isNew_holds hnew⟩)
  kept e he hc := .inr (List.mem_append_left _ (mem_reconciled.mpr ⟨e,he,hc,rfl⟩))

theorem zonePartway_handled (done : CDRequest → Bool)
    (hs : (stored.map fun e => e.1.id).Nodup) :
    ZonePartway stored reqs (stored.filterMap fun e =>
      if done e.1 then reconciled reqs e else some e) where
  once := by
    refine hs.sublist (map_filterMap_sublist fun e e' he => ?_)
    split at he
    · exact (reconciled_id he).symm
    · rw [Option.some.inj he]
  origin e' he' := by
    obtain ⟨e,he,hf⟩ := List.mem_filterMap.mp he'
    split at hf
    · simp only [reconciled] at hf
      split at hf
      · rename_i hc
        exact .inr (.inl ⟨e,he,hc,(Option.some.inj hf).symm⟩)
      · cases hf
    · exact .inl (Option.some.inj hf ▸ he)
  kept e he hc := by
    simp only [List.mem_filterMap]
    by_cases hd : done e.1 = true
    · exact .inr ⟨e,he,by simp [hd,reconciled,hc]⟩
    · exact .inl ⟨e,he,by simp [hd]⟩

theorem Partway.update (h : Partway s snapshot q) (hsaved : p.Saved) (hzones : p.zones = q.zones)
    (hothers : ∀ c' : CDZoneRequests, c'.objectID ≠ c.objectID → p.entries c' = q.entries c')
    (hc : c ∈ q.zones) {z : ZoneRequests} (hz : z ∈ snapshot) (hcz : c.zoneid = some z.zoneid)
    (hids : (snapshot.map (·.zoneid)).Nodup)
    (hzone : ZonePartway (s.zoneEntries z.zoneid) z.requests (p.entries c)) :
    Partway s snapshot p := by
  have hsame : ∀ c' ∈ p.zones, c'.objectID = c.objectID → c' = c := fun c' hc' heq =>
    h.saved.zone_eq (hzones ▸ hc') hc heq
  refine ⟨hsaved,hzones ▸ h.zones,hzones ▸ h.zoneids,hzones ▸ h.kept,
    fun c' hc' z' hz' hcz' => ?_,fun c' hc' hnone => ?_⟩
  · by_cases heq : c'.objectID = c.objectID
    · obtain rfl := hsame c' hc' heq
      obtain rfl : z' = z :=
        List.inj_on_of_nodup_map hids hz' hz (Option.some.inj (hcz'.symm.trans hcz))
      exact hzone
    · rw [hothers c' heq]
      exact h.listed c' (hzones ▸ hc') z' hz' hcz'
  · have hne : c'.objectID ≠ c.objectID := by
      intro heq
      rw [hsame c' hc' heq] at hnone
      exact hnone z hz hcz
    rw [hothers c' hne]
    exact h.others c' (hzones ▸ hc') hnone

theorem Partway.saveZone {ctx : Context} (h : Partway s snapshot ctx.store)
    (hin : SyncInput s snapshot) {z : ZoneRequests} (hz : z ∈ snapshot)
    (hnone : ∀ c ∈ ctx.store.zones, c.zoneid ≠ some z.zoneid) (hpart : part <+: z.requests) :
    Partway s snapshot (saveZoneRequest ⟨z.zoneid,part⟩ ctx).store := by
  obtain ⟨hsaved,hzones,-,hnews,hold⟩ := @saveZoneRequest_spec 0 ⟨z.zoneid,part⟩
    (fun req hreq => hin.fetched z hz req (hpart.subset hreq)) ctx h.saved (Nat.zero_le _)
  have hstored : s.zoneEntries z.zoneid = [] :=
    Store.zoneEntries_none fun c hc hcz => hnone c (h.kept c hc ⟨z,hz,hcz⟩) hcz
  refine ⟨hsaved,?_,fun c hc => ?_,fun c hc hcz => ?_,fun c hc z' hz' hcz => ?_,
    fun c hc hout => ?_⟩
  · rw [hzones,List.map_append,List.nodup_append]
    refine ⟨h.zones,by simp,?_⟩
    rintro _ ha _ hb rfl
    obtain ⟨c,hc,hca⟩ := List.mem_map.mp ha
    exact hnone c hc (hca.trans (List.mem_singleton.mp hb))
  · rw [hzones] at hc
    rcases List.mem_append.mp hc with hc | hc
    · exact h.zoneids c hc
    · rw [List.mem_singleton.mp hc]
      exact .inr ⟨z,hz,rfl⟩
  · rw [hzones]
    exact List.mem_append_left _ (h.kept c hc hcz)
  · rw [hzones] at hc
    rcases List.mem_append.mp hc with hc | hc
    · rw [hold c hc]
      exact h.listed c hc z' hz' hcz
    · rw [List.mem_singleton.mp hc] at hcz ⊢
      obtain rfl : z' = z :=
        List.inj_on_of_nodup_map hin.snapshotZones hz' hz (Option.some.inj hcz).symm
      rw [hstored]
      have hsub : part.Sublist (unmatched [] z'.requests) := by
        rw [unmatched_nil]
        exact hpart.sublist
      exact zonePartway_added hsub hnews (by simp) (hin.snapshotInZone z' hz')
  · rw [hzones] at hc
    rcases List.mem_append.mp hc with hc | hc
    · rw [hold c hc]
      exact h.others c hc hout
    · rw [List.mem_singleton.mp hc] at hout
      exact absurd rfl (hout z hz)

theorem SyncInv.partway {ord : FetchOrder} {ctx₀ : Context} {done todo : List CDZoneRequests}
    {t : SyncLoop} (hi : SyncInv ord ctx₀ snapshot done todo t)
    (hin : SyncInput ctx₀.store snapshot) : Partway ctx₀.store snapshot t.ctx.store := by
  have hsub : ∀ c ∈ t.ctx.store.zones, c ∈ ctx₀.store.zones := by
    intro c hc
    rw [hi.zones] at hc
    exact List.mem_of_mem_filter hc
  refine ⟨hi.saved,?_,fun c hc => .inl (hsub c hc),fun c hc hz => ?_,fun c hc z hz hcz => ?_,
    fun c hc hnone => ?_⟩
  · rw [hi.zones]
    exact hin.zones.sublist (List.filter_sublist.map _)
  · rw [hi.zones,List.mem_filter]
    exact ⟨hc,decide_eq_true fun _ => hz⟩
  · have hc₀ := hsub c hc
    rw [Store.zoneEntries_eq hin.zones hc₀ hcz]
    have hids := hin.zoneEntries_ids z.zoneid
    rw [Store.zoneEntries_eq hin.zones hc₀ hcz] at hids
    rcases (hi.mem_rows c).mp hc₀ with hd | ht
    · obtain ⟨news,hnews,hentries⟩ := hi.merged c hd z hz hcz
      rw [hentries]
      exact zonePartway_added (.refl _) hnews hids (hin.snapshotInZone z hz)
    · rw [hi.pending c ht]
      exact zonePartway_stored hids
  · rw [hi.zones,List.mem_filter,decide_eq_true_iff] at hc
    rcases (hi.mem_rows c).mp hc.1 with hd | ht
    · obtain ⟨z,hz,hcz⟩ := hc.2 hd
      exact absurd hcz (hnone z hz)
    · exact hi.pending c ht

end Partway

section Runs

variable {ord : FetchOrder} {ctx ctx' : Context} {snapshot : List ZoneRequests}
  {done rest : List CDZoneRequests} {c : CDZoneRequests} {s : SyncLoop} {nzr : ZoneRequests}

theorem syncInv_visited (hin : SyncInput ctx.store snapshot)
    (hsep : Separated ctx.store snapshot)
    (hs : Visits SyncLoop.more (handleZone ord) (syncStart ord snapshot ctx) s) :
    ∃ done todo, SyncInv ord ctx snapshot done todo s :=
  visits_inv (sync_progress hin) ⟨_,_,sync_start hin.saved⟩
    (fun _ _ ⟨_,_,hv⟩ _ => hitsOwnZone_of_separated hin hsep hv) hs

theorem SyncInv.round {todo : List CDZoneRequests} {t : SyncLoop}
    (hi : SyncInv ord ctx snapshot done todo s) (hs : ctx.store.Saved) (hmore : s.more = true)
    (hbody : handleZone ord s = .ok t) :
    ∃ c rest more, todo = c :: rest ∧ ZoneRound ord (readZone ord ctx c) more s t := by
  cases todo with
  | nil => simp [SyncLoop.more,hi.oldZoneRequests] at hmore
  | cons c rest =>
    have hids : ∀ ozr ∈ s.oldZoneRequests, Identified ozr.requests := by
      rw [hi.oldZoneRequests]
      intro ozr hozr
      obtain ⟨c',-,rfl⟩ := List.mem_map.mp hozr
      exact identified_readZone hs c'
    obtain ⟨ozr,more,hold,hround⟩ := zoneRound_of_ok hids hmore hbody
    rw [hi.oldZoneRequests,List.map_cons,List.cons.injEq] at hold
    rw [← hold.1] at hround
    exact ⟨c,rest,more,rfl,hround⟩

theorem SyncInv.finished {todo : List CDZoneRequests}
    (hi : SyncInv ord ctx snapshot done todo s) (hend : s.oldZoneRequests = []) : todo = [] := by
  have hnil := hi.oldZoneRequests
  rw [hend] at hnil
  simpa using hnil.symm

theorem zoneInv_visited (hin : SyncInput ctx.store snapshot)
    (hsep : Separated ctx.store snapshot) (hi : SyncInv ord ctx snapshot done (c :: rest) s)
    (hnzr : nzr ∈ snapshot) (hz : c.zoneid = some nzr.zoneid) {u : ZoneLoop}
    (hu : Visits ZoneLoop.more (handleRequest ord)
      ⟨(readZone ord ctx c).requests,nzr.requests,s.ctx⟩ u) :
    ∃ before todo, ZoneInv ord ctx s.ctx c nzr.requests before todo u := by
  have hc₀ : c ∈ ctx.store.zones := (hi.mem_rows c).mpr (.inr (by simp))
  exact visits_inv (zone_progress hin.saved (hin.inZone c hc₀) (hin.snapshotInZone nzr hnzr))
    ⟨_,_,zone_start hi.saved (hi.pending c (by simp))⟩
    (fun _ _ ⟨_,_,hw⟩ _ => hitsZone_of_separated hin hsep hi hnzr hz hw) hu

theorem ZoneInv.todo_nil {before todo : List CDRequest} {u : ZoneLoop} {reqs : List Request}
    {ctx₁ : Context} (hu : ZoneInv ord ctx ctx₁ c reqs before todo u)
    (hend : u.oldRequests = []) : todo = [] := by
  have hnil := hu.oldRequests
  rw [hend] at hnil
  simpa using hnil.symm

theorem ZoneInv.partway (hin : SyncInput ctx.store snapshot)
    (hi : SyncInv ord ctx snapshot done (c :: rest) s) (hnzr : nzr ∈ snapshot)
    (hz : c.zoneid = some nzr.zoneid) {before todo : List CDRequest} {u : ZoneLoop}
    (hu : ZoneInv ord ctx s.ctx c nzr.requests before todo u) :
    Partway ctx.store snapshot u.ctx.store := by
  have hc := (hi.head_zone hin (by simp : c ∈ c :: rest)).1
  have hc₀ : c ∈ ctx.store.zones := (hi.mem_rows c).mpr (.inr (by simp))
  refine (hi.partway hin).update hu.saved hu.zones hu.others hc hnzr hz hin.snapshotZones ?_
  have hids := hin.zoneEntries_ids nzr.zoneid
  rw [Store.zoneEntries_eq hin.zones hc₀ hz] at hids ⊢
  rw [hu.entries]
  have h := @zonePartway_handled _ nzr.requests (fun r => decide (r ∈ before)) hids
  simpa using h

theorem ZoneInv.partway_added (hin : SyncInput ctx.store snapshot)
    (hi : SyncInv ord ctx snapshot done (c :: rest) s) (hnzr : nzr ∈ snapshot)
    (hz : c.zoneid = some nzr.zoneid) {before : List CDRequest} {u : ZoneLoop}
    (hu : ZoneInv ord ctx s.ctx c nzr.requests before [] u) {part : List Request}
    (hpart : part <+: u.newRequests) : Partway ctx.store snapshot (part.foldl
      (fun ctx req => addRequestToZoneUsingID ord nzr.zoneid req ctx) u.ctx).store := by
  obtain ⟨hc,hnodup⟩ := hi.head_zone hin (by simp : c ∈ c :: rest)
  have hc₀ : c ∈ ctx.store.zones := (hi.mem_rows c).mpr (.inr (by simp))
  obtain ⟨hnew,hentries⟩ := hu.finished
  rw [hnew] at hpart
  have hfetched : ∀ req ∈ part, req.Fetched := fun req hreq =>
    hin.fetched nzr hnzr req (List.mem_of_mem_filter (hpart.subset hreq))
  obtain ⟨hsaved,hzones,-,news,hnews,hadded⟩ :=
    foldl_addRequestUsingID ord hc hnodup hz hfetched hu.saved hu.zones (Nat.zero_le _)
  refine (hi.partway hin).update hsaved hzones (fun c' hc' => ?_) hc hnzr hz hin.snapshotZones ?_
  · rw [hadded c',if_neg hc',List.append_nil]
    exact hu.others c' hc'
  · have hids := hin.zoneEntries_ids nzr.zoneid
    rw [Store.zoneEntries_eq hin.zones hc₀ hz] at hids ⊢
    rw [hadded c,if_pos rfl,hentries]
    exact zonePartway_added hpart.sublist hnews hids (hin.snapshotInZone nzr hnzr)

theorem commits_requests {P : Store → Prop} {u t : ZoneLoop}
    (hv : Visits ZoneLoop.more (handleRequest ord) u t) (hids : Identified u.oldRequests)
    (hgood : ∀ v, Visits ZoneLoop.more (handleRequest ord) u v → P v.ctx.store) :
    Commits P u.ctx t.ctx := by
  obtain ⟨-,hcommits⟩ := hv.inv (fun v => Identified v.oldRequests ∧ Commits P u.ctx v.ctx)
      ⟨hids,.refl P _⟩ (by
    rintro v w hv ⟨hids,hcommits⟩ hmore hbody
    have hw := hgood w (hv.trans (.round hmore hbody (.start w)))
    obtain ⟨oreq,more,id,hold,-,hround⟩ := requestRound_of_ok hids hmore hbody
    refine ⟨?_,hcommits.trans ?_⟩
    · rw [hround.oldRequests]
      exact fun req hreq => hids req (by simp [hold,hreq])
    cases hround with
    | matched pre nreq suf =>
      dsimp only at hw ⊢
      split
      · rename_i hnew
        rw [if_pos hnew] at hw
        exact commits_onFirst (fun _ => rfl) hw
      · exact .refl P _
    | unmatched => exact commits_onFirst (fun _ => rfl) hw)
  exact hcommits

theorem commits_zone (hin : SyncInput ctx.store snapshot) (hsep : Separated ctx.store snapshot)
    (hi : SyncInv ord ctx snapshot done (c :: rest) s) {t : SyncLoop}
    {more : List ZoneRequests} (hround : ZoneRound ord (readZone ord ctx c) more s t)
    (ht : Partway ctx.store snapshot t.ctx.store) :
    Commits (Partway ctx.store snapshot) s.ctx t.ctx := by
  have hc₀ : c ∈ ctx.store.zones := (hi.mem_rows c).mpr (.inr (by simp))
  cases hround with
  | deleted => exact commits_onFirst (fun _ => rfl) ht
  | merged pre nzr suf u hsplit hid hvisits hdone =>
    have hnzr : nzr ∈ snapshot := by
      have hmem : nzr ∈ s.newZoneRequests := by simp [hsplit]
      rw [hi.newZoneRequests] at hmem
      exact List.mem_of_mem_filter hmem
    obtain ⟨zoneid,hzid⟩ := Option.isSome_iff_exists.mp (hin.saved.zoneFields c hc₀)
    have hz : c.zoneid = some nzr.zoneid := by
      rw [hid,hzid]
      simp [readZone,hzid]
    have hhandled : Commits (Partway ctx.store snapshot) s.ctx u.ctx := by
      refine commits_requests hvisits (identified_readZone hin.saved c) fun v hv => ?_
      obtain ⟨before,todo,hv⟩ := zoneInv_visited hin hsep hi hnzr hz hv
      exact hv.partway hin hi hnzr hz
    refine hhandled.trans
      (commits_foldl (fun _ _ => commits_addRequestUsingID) fun part hpart => ?_)
    obtain ⟨before,todo,hu⟩ := zoneInv_visited hin hsep hi hnzr hz hvisits
    obtain rfl := hu.todo_nil hdone
    rw [← hid]
    exact hu.partway_added hin hi hnzr hz hpart

theorem commits_saveZones {store : Store} (hin : SyncInput store snapshot)
    {zs : List ZoneRequests} (hsub : ∀ z ∈ zs, z ∈ snapshot)
    (hids : (zs.map (·.zoneid)).Nodup) {ctx : Context} (h : Partway store snapshot ctx.store)
    (hnone : ∀ z ∈ zs, ∀ c ∈ ctx.store.zones, c.zoneid ≠ some z.zoneid) :
    Commits (Partway store snapshot) ctx
      (zs.foldl (fun ctx z => saveZoneRequest z ctx) ctx) := by
  induction zs generalizing ctx with
  | nil => exact .refl _ _
  | cons z zs ih =>
    rw [List.map_cons,List.nodup_cons] at hids
    have hpart : ∀ part, part <+: z.requests →
        Partway store snapshot (saveZoneRequest ⟨z.zoneid,part⟩ ctx).store := fun part =>
      h.saveZone hin (hsub z (by simp)) (hnone z (by simp))
    refine (commits_saveZone hpart).trans (ih (fun z' hz' => hsub z' (by simp [hz'])) hids.2
      (hpart z.requests List.prefix_rfl) fun z' hz' c hc hcz => ?_)
    obtain ⟨-,hzones,-⟩ := @saveZoneRequest_spec 0 z
      (fun req hreq => hin.fetched z (hsub z (by simp)) req hreq) ctx h.saved (Nat.zero_le _)
    rw [hzones] at hc
    rcases List.mem_append.mp hc with hc | hc
    · exact hnone z' (by simp [hz']) c hc hcz
    · rw [List.mem_singleton.mp hc] at hcz
      exact hids.1 (List.mem_map.mpr ⟨z',hz',(Option.some.inj hcz).symm⟩)

/-- Every store that a sync commits is partway. -/
theorem commits_sync (hin : SyncInput ctx.store snapshot) (hsep : Separated ctx.store snapshot)
    (hrun : updateSavedRequests ord snapshot ctx = .ok ctx') :
    Commits (Partway ctx.store snapshot) ctx ctx' := by
  obtain ⟨t,ht,hvisits,hdone⟩ := updateSavedRequests_ends ord snapshot hin.saved
  obtain rfl := Except.ok.inj (ht.symm.trans hrun)
  have hloop := hvisits.inv (fun u => Commits (Partway ctx.store snapshot) ctx u.ctx)
      (.refl _ _) (by
    intro u v hu hcommits hmore hbody
    obtain ⟨done,todo,hi⟩ := syncInv_visited hin hsep hu
    obtain ⟨_,_,hv⟩ := syncInv_visited hin hsep (hu.trans (.round hmore hbody (.start v)))
    obtain ⟨c,rest,more,rfl,hround⟩ := hi.round hin.saved hmore hbody
    exact hcommits.trans (commits_zone hin hsep hi hround (hv.partway hin)))
  obtain ⟨done,todo,hi⟩ := syncInv_visited hin hsep hvisits
  obtain rfl := hi.finished hdone
  have hleft : ∀ z, z ∈ t.newZoneRequests ↔ z ∈ snapshot ∧
      ∀ c ∈ ctx.store.zones, c.zoneid ≠ some z.zoneid := by
    intro z
    rw [hi.newZoneRequests,List.mem_filter]
    simp [hi.mem_rows]
  refine hloop.trans (commits_saveZones hin (fun z hz => ((hleft z).mp hz).1) ?_
    (hi.partway hin) fun z hz c hc => ?_)
  · rw [hi.newZoneRequests]
    exact hin.snapshotZones.sublist (List.filter_sublist.map _)
  · rw [hi.zones] at hc
    exact ((hleft z).mp hz).2 c (List.mem_of_mem_filter hc)

end Runs

end Answr
