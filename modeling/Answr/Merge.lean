import Answr.Matching
set_option autoImplicit false

/-! The loop over the stored zones and the zones that remain after it: together
they leave the merge of the store and the snapshot, as long as every by-id
operation hits the zone it is meant for. -/

namespace Answr
open Loops

/-- What the reconciliation of a store with a snapshot is defined for: a saved
store and a fetched snapshot, zone ids distinct on both sides, request ids
distinct inside each zone. -/
structure SyncInput (s : Store) (snapshot : List ZoneRequests) : Prop where
  saved : s.Saved
  zones : (s.zones.map (·.zoneid)).Nodup
  inZone : ∀ c ∈ s.zones, ((s.requestsOf c).map (·.id)).Nodup
  snapshotZones : (snapshot.map (·.zoneid)).Nodup
  snapshotInZone : ∀ z ∈ snapshot, (z.requests.map (·.id)).Nodup
  fetched : ∀ z ∈ snapshot, ∀ req ∈ z.requests, req.Fetched

section Add

/-- The entry is a new one for the request in the zone of the row, with object
ids from `lo` on. -/
def IsNew (lo : Nat) (c : CDZoneRequests) (req : Request) (e : Entry) : Prop :=
  ∃ n, lo ≤ n ∧ e = newEntry n c.objectID req

theorem foldl_addRequest {lo : Nat} {zones : List CDZoneRequests} {c : CDZoneRequests}
    (hc : c ∈ zones) {f : Context → Request → Context}
    (hf : ∀ ctx req, ctx.store.zones = zones →
      (f ctx req).store = ctx.store.addRequest c req)
    {reqs : List Request} (hreqs : ∀ req ∈ reqs, req.Fetched) {ctx : Context}
    (hs : ctx.store.Saved) (hz : ctx.store.zones = zones) (hlo : lo ≤ ctx.store.nextID) :
    (reqs.foldl f ctx).store.Saved ∧ (reqs.foldl f ctx).store.zones = zones ∧
      lo ≤ (reqs.foldl f ctx).store.nextID ∧
      ∃ news, List.Forall₂ (IsNew lo c) reqs news ∧ ∀ c' : CDZoneRequests,
        (reqs.foldl f ctx).store.entries c' =
          ctx.store.entries c' ++ if c'.objectID = c.objectID then news else [] := by
  induction reqs generalizing ctx with
  | nil => exact ⟨hs,hz,hlo,[],.nil,by simp⟩
  | cons req reqs ih =>
    have hstore := hf ctx req hz
    have hs' : (f ctx req).store.Saved := by
      rw [hstore]
      exact Store.saved_addRequest hs ⟨c,hz ▸ hc,rfl⟩ (hreqs req (by simp))
    have hz' : (f ctx req).store.zones = zones := by rw [hstore]; exact hz
    have hlo' : lo ≤ (f ctx req).store.nextID := by
      rw [hstore]
      simp only [Store.addRequest]
      omega
    obtain ⟨hsaved,hzones,hnext,news,hnews,hentries⟩ :=
      ih (fun r hr => hreqs r (by simp [hr])) hs' hz' hlo'
    refine ⟨hsaved,hzones,hnext,newEntry ctx.store.nextID c.objectID req :: news,
      .cons ⟨_,hlo,rfl⟩ hnews,?_⟩
    intro c'
    rw [List.foldl_cons,hentries,hstore,hs.entries_addRequest]
    split
    · simp
    · simp

variable (ord : FetchOrder)

theorem fetchZones_head {ctx : Context} {c : CDZoneRequests} {zoneid : String}
    (hn : (ctx.store.zones.map (·.zoneid)).Nodup) (hc : c ∈ ctx.store.zones)
    (hz : c.zoneid = some zoneid) : (fetchZones ord zoneid ctx).head? = some c := by
  have hmem : ∀ c', c' ∈ fetchZones ord zoneid ctx ↔
      c' ∈ ctx.store.zones ∧ c'.zoneid = some zoneid := by
    intro c'
    simp [fetchZones,(ord.zones_perm ctx _).mem_iff]
  cases hh : (fetchZones ord zoneid ctx).head? with
  | none =>
    have h := (hmem c).mpr ⟨hc,hz⟩
    rw [List.head?_eq_none_iff.mp hh] at h
    simp at h
  | some c' =>
    obtain ⟨hc',hz'⟩ := (hmem c').mp (List.mem_of_head? hh)
    rw [List.inj_on_of_nodup_map hn hc' hc (hz'.trans hz.symm)]

theorem addRequestToZoneUsingID_store {ctx : Context} {c : CDZoneRequests} {zoneid : String}
    (h : (fetchZones ord zoneid ctx).head? = some c) (req : Request) :
    (addRequestToZoneUsingID ord zoneid req ctx).store = ctx.store.addRequest c req := by
  simp [addRequestToZoneUsingID,onFirst,h,addRequestToZoneRequest]

theorem foldl_addRequestUsingID {lo : Nat} {zones : List CDZoneRequests} {c : CDZoneRequests}
    {zoneid : String} (hc : c ∈ zones) (hn : (zones.map (·.zoneid)).Nodup)
    (hz : c.zoneid = some zoneid) {reqs : List Request} (hreqs : ∀ req ∈ reqs, req.Fetched)
    {ctx : Context} (hs : ctx.store.Saved) (hzones : ctx.store.zones = zones)
    (hlo : lo ≤ ctx.store.nextID) :
    let ctx' := reqs.foldl (fun ctx req => addRequestToZoneUsingID ord zoneid req ctx) ctx
    ctx'.store.Saved ∧ ctx'.store.zones = zones ∧ lo ≤ ctx'.store.nextID ∧
      ∃ news, List.Forall₂ (IsNew lo c) reqs news ∧ ∀ c' : CDZoneRequests,
        ctx'.store.entries c' =
          ctx.store.entries c' ++ if c'.objectID = c.objectID then news else [] :=
  foldl_addRequest hc (fun _ req hctx => addRequestToZoneUsingID_store ord
    (fetchZones_head ord (hctx ▸ hn) (hctx ▸ hc) hz) req) hreqs hs hzones hlo

theorem deleteZoneRequest_store {ctx : Context} {c : CDZoneRequests} {zoneid : String}
    (h : (fetchZones ord zoneid ctx).head? = some c) :
    (deleteZoneRequest ord zoneid ctx).store = ctx.store.deleteZone c := by
  simp [deleteZoneRequest,onFirst,h]

theorem saveZoneRequest_spec {lo : Nat} {zonereq : ZoneRequests}
    (hreqs : ∀ req ∈ zonereq.requests, req.Fetched) {ctx : Context} (hs : ctx.store.Saved)
    (hlo : lo ≤ ctx.store.nextID) :
    let c : CDZoneRequests := ⟨ctx.store.nextID,some zonereq.zoneid⟩
    (saveZoneRequest zonereq ctx).store.Saved ∧
      (saveZoneRequest zonereq ctx).store.zones = ctx.store.zones ++ [c] ∧
      lo ≤ (saveZoneRequest zonereq ctx).store.nextID ∧
      List.Forall₂ (IsNew lo c) zonereq.requests ((saveZoneRequest zonereq ctx).store.entries c) ∧
      ∀ c' ∈ ctx.store.zones,
        (saveZoneRequest zonereq ctx).store.entries c' = ctx.store.entries c' := by
  intro c
  let start : Context := { ctx with store := ctx.store.addZone zonereq.zoneid }
  obtain ⟨hsaved,hzones,hnext,news,hnews,hentries⟩ :=
    foldl_addRequest (show c ∈ ctx.store.zones ++ [c] by simp)
      (f := fun ctx req => addRequestToZoneRequest c req ctx) (fun _ _ _ => rfl)
      hreqs (show start.store.Saved from Store.saved_addZone hs zonereq.zoneid) rfl
      (Nat.le_succ_of_le hlo)
  refine ⟨hsaved,hzones,hnext,?_,?_⟩
  · have hempty : start.store.entries c = [] := by
      have hnone : ctx.store.requestsOf c = [] := hs.requestsOf_new _
      rw [Store.entries_addZone]
      simp [Store.entries,hnone]
    have h := hentries c
    rw [hempty] at h
    simp only [if_true,List.nil_append] at h
    change List.Forall₂ _ _ ((zonereq.requests.foldl _ start).store.entries c)
    rw [h]
    exact hnews
  · intro c' hc'
    have hlt := hs.zonesBelow c' hc'
    have hne : c'.objectID ≠ c.objectID := by
      simp only [c]
      omega
    have h := hentries c'
    rw [if_neg hne,List.append_nil] at h
    exact h

end Add

section Zone

def unmatched (stored : List Entry) (snapshot : List Request) : List Request :=
  snapshot.filter fun req => !stored.any fun e => (readRequest e.1 e.2).equals req

/-- The entries of a zone present on both sides, after the reconciliation: those
with a counterpart, then new ones for the requests that matched none. -/
def Merged (lo : Nat) (c : CDZoneRequests) (stored : List Entry) (snapshot : List Request)
    (entries : List Entry) : Prop :=
  ∃ news, List.Forall₂ (IsNew lo c) (unmatched stored snapshot) news ∧
    entries = stored.filterMap (reconciled snapshot) ++ news

variable {ord : FetchOrder} {ctx₀ ctx₁ : Context} {c : CDZoneRequests}
  {snapshot : List Request}

theorem zone_progress (hs₀ : ctx₀.store.Saved)
    (hids : ((ctx₀.store.requestsOf c).map (·.id)).Nodup)
    (hsnap : (snapshot.map (·.id)).Nodup) :
    Progress ZoneLoop.more (handleRequest ord)
      (fun s => ∃ done todo, ZoneInv ord ctx₀ ctx₁ c snapshot done todo s)
      (HitsZone ord c) (fun s => s.oldRequests.length) := by
  rintro s ⟨done,todo,hi⟩ hmore hhit
  cases todo with
  | nil => simp [ZoneLoop.more,hi.oldRequests] at hmore
  | cons r rest =>
    obtain ⟨t,ht,hi'⟩ := hi.step hs₀ hids hsnap rfl hhit
    refine ⟨t,ht,⟨_,_,hi'⟩,?_⟩
    simp [hi.oldRequests,hi'.oldRequests]

theorem zone_start (hs₁ : ctx₁.store.Saved)
    (hsame : ctx₁.store.entries c = ctx₀.store.entries c) :
    ZoneInv ord ctx₀ ctx₁ c snapshot [] (sortedRequests ord ctx₀ c)
      ⟨(readZone ord ctx₀ c).requests,snapshot,ctx₁⟩ where
  rows := rfl
  oldRequests := rfl
  newRequests := by simp
  saved := hs₁
  zones := rfl
  nextID := rfl
  others _ _ := rfl
  entries := by simp [hsame]

theorem ZoneInv.finished {done : List CDRequest} {t : ZoneLoop}
    (hi : ZoneInv ord ctx₀ ctx₁ c snapshot done [] t) :
    t.newRequests = unmatched (ctx₀.store.entries c) snapshot ∧
    t.ctx.store.entries c = (ctx₀.store.entries c).filterMap (reconciled snapshot) := by
  have hdone : ∀ r, r ∈ done ↔ r ∈ ctx₀.store.requestsOf c := by
    intro r
    simp [hi.mem_rows r]
  constructor
  · rw [hi.newRequests,unmatched]
    apply List.filter_congr
    intro n _
    congr 1
    rw [Bool.eq_iff_iff,List.any_eq_true,List.any_eq_true]
    constructor
    · rintro ⟨d,hd,he⟩
      refine ⟨(d,ctx₀.store.itemsOf d),List.mem_map_of_mem (f := fun r => (r,_))
        ((hdone d).mp hd),?_⟩
      rwa [← readRequest_equals_perm d (sortedItems_perm ord ctx₀ d)]
    · rintro ⟨e,he,heq⟩
      obtain ⟨hrow,hz,hitems⟩ := Store.mem_entries.mp he
      refine ⟨e.1,(hdone e.1).mpr (Store.mem_requestsOf.mpr ⟨hrow,hz⟩),?_⟩
      rw [readRow,readRequest_equals_perm e.1 (sortedItems_perm ord ctx₀ e.1),← hitems]
      exact heq
  · rw [hi.entries]
    apply List.filterMap_congr
    intro e he
    have hrow := Store.mem_entries.mp he
    simp [(hdone e.1).mpr (Store.mem_requestsOf.mpr ⟨hrow.1,hrow.2.1⟩)]

/-- The run lemma of the loop over the requests of one zone. -/
theorem zone_run (hs₀ : ctx₀.store.Saved) (hs₁ : ctx₁.store.Saved)
    (hids : ((ctx₀.store.requestsOf c).map (·.id)).Nodup)
    (hsnap : (snapshot.map (·.id)).Nodup)
    (hsame : ctx₁.store.entries c = ctx₀.store.entries c)
    (hhit : ∀ u, Visits ZoneLoop.more (handleRequest ord)
      ⟨(readZone ord ctx₀ c).requests,snapshot,ctx₁⟩ u → u.more = true → HitsZone ord c u) :
    ∃ t, whileLoop .endlessLoop ZoneLoop.more (handleRequest ord)
        (readZone ord ctx₀ c).requests.length
        ⟨(readZone ord ctx₀ c).requests,snapshot,ctx₁⟩ = .ok t ∧
      t.newRequests = unmatched (ctx₀.store.entries c) snapshot ∧
      t.ctx.store.Saved ∧ t.ctx.store.zones = ctx₁.store.zones ∧
      t.ctx.store.nextID = ctx₁.store.nextID ∧
      (∀ c' : CDZoneRequests, c'.objectID ≠ c.objectID →
        t.ctx.store.entries c' = ctx₁.store.entries c') ∧
      t.ctx.store.entries c = (ctx₀.store.entries c).filterMap (reconciled snapshot) := by
  obtain ⟨t,ht,⟨done,todo,hi⟩,hmore,-⟩ :=
    whileLoop_total .endlessLoop (zone_progress hs₀ hids hsnap) _
      ⟨_,_,zone_start hs₁ hsame⟩ (le_refl _) (fun u hv _ hc => hhit u hv hc)
  have htodo : todo = [] := by
    simpa [ZoneLoop.more,hi.oldRequests] using hmore
  subst htodo
  obtain ⟨hnew,hentries⟩ := hi.finished
  exact ⟨t,ht,hnew,hi.saved,hi.zones,hi.nextID,hi.others,hentries⟩

end Zone

section Sync

theorem eraseIdx_of_findIdx? {α κ : Type} [DecidableEq κ] {key : α → κ} {a : κ} {l : List α}
    (hn : (l.map key).Nodup) {k : Nat} (hk : l.findIdx? (fun x => key x == a) = some k) :
    ∃ x, l[k]? = some x ∧ key x = a ∧ k < l.length ∧
      l.eraseIdx k = l.filter fun x => !(key x == a) := by
  induction l generalizing k with
  | nil => simp at hk
  | cons y l ih =>
    simp only [List.map_cons,List.nodup_cons] at hn
    rw [List.findIdx?_cons] at hk
    by_cases hy : key y = a
    · simp only [hy,beq_self_eq_true,if_true,Option.some.injEq] at hk
      subst hk
      refine ⟨y,rfl,hy,by simp,?_⟩
      have hrest : l.filter (fun x => !(key x == a)) = l := by
        rw [List.filter_eq_self]
        intro x hx
        have hne : key x ≠ a := fun h => hn.1 (List.mem_map.mpr ⟨x,hx,h.trans hy.symm⟩)
        simp [hne]
      simp [hy,hrest]
    · simp only [hy,beq_iff_eq,if_false,Option.map_eq_some_iff] at hk
      obtain ⟨j,hj,rfl⟩ := hk
      obtain ⟨x,hx,hkey,hlt,herase⟩ := ih hn.2 hj
      exact ⟨x,by simpa using hx,hkey,by simpa using hlt,by simp [hy,herase]⟩

variable (ord : FetchOrder) (ctx₀ : Context) (snapshot : List ZoneRequests)

/-- `done` and `todo` split the zone rows in the order they are handled. -/
structure SyncInv (done todo : List CDZoneRequests) (s : SyncLoop) : Prop where
  rows : sortedZones ord ctx₀ = done ++ todo
  oldZoneRequests : s.oldZoneRequests = todo.map (readZone ord ctx₀)
  newZoneRequests : s.newZoneRequests =
    snapshot.filter fun z => !done.any fun d => d.zoneid == some z.zoneid
  saved : s.ctx.store.Saved
  zones : s.ctx.store.zones = ctx₀.store.zones.filter fun c =>
    decide (c ∈ done → ∃ z ∈ snapshot, c.zoneid = some z.zoneid)
  nextID : ctx₀.store.nextID ≤ s.ctx.store.nextID
  pending : ∀ c ∈ todo, s.ctx.store.entries c = ctx₀.store.entries c
  merged : ∀ c ∈ done, ∀ z ∈ snapshot, c.zoneid = some z.zoneid →
    Merged ctx₀.store.nextID c (ctx₀.store.entries c) z.requests (s.ctx.store.entries c)

/-- In handling the next zone, every by-id operation hits a row of that zone. -/
def HitsOwnZone (s : SyncLoop) : Prop :=
  ∀ c ∈ ctx₀.store.zones, ∀ ozr rest, s.oldZoneRequests = ozr :: rest →
    c.zoneid = some ozr.zoneid → ∀ nzr ∈ s.newZoneRequests, nzr.zoneid = ozr.zoneid →
    ∀ u, Visits ZoneLoop.more (handleRequest ord) ⟨ozr.requests,nzr.requests,s.ctx⟩ u →
      u.more = true → HitsZone ord c u

variable {ord ctx₀ snapshot} {done todo : List CDZoneRequests} {s : SyncLoop}

theorem SyncInv.rows_nodup (hi : SyncInv ord ctx₀ snapshot done todo s)
    (hin : SyncInput ctx₀.store snapshot) : ((done ++ todo).map (·.zoneid)).Nodup := by
  rw [← hi.rows]
  exact ((sortedZones_perm ord ctx₀).map _).nodup_iff.mpr hin.zones

theorem SyncInv.mem_rows (hi : SyncInv ord ctx₀ snapshot done todo s) (c : CDZoneRequests) :
    c ∈ ctx₀.store.zones ↔ c ∈ done ∨ c ∈ todo := by
  rw [← (sortedZones_perm ord ctx₀).mem_iff,hi.rows,List.mem_append]

theorem SyncInv.disjoint (hi : SyncInv ord ctx₀ snapshot done todo s)
    (hin : SyncInput ctx₀.store snapshot) {d c : CDZoneRequests} (hd : d ∈ done)
    (hc : c ∈ todo) : d.zoneid ≠ c.zoneid := by
  have h := hi.rows_nodup hin
  rw [List.map_append,List.nodup_append] at h
  exact h.2.2 _ (List.mem_map_of_mem hd) _ (List.mem_map_of_mem hc)

theorem SyncInv.apart (hi : SyncInv ord ctx₀ snapshot done todo s)
    (hin : SyncInput ctx₀.store snapshot) {c c' : CDZoneRequests}
    {rest : List CDZoneRequests} (ht : todo = c :: rest) (hc' : c' ∈ done ∨ c' ∈ rest) :
    c'.objectID ≠ c.objectID := by
  intro heq
  have hmem : c' ∈ ctx₀.store.zones := (hi.mem_rows c').mpr (by
    rcases hc' with h | h
    · exact .inl h
    · exact .inr (by simp [ht,h]))
  have hcc : c' = c := hin.saved.zone_eq hmem ((hi.mem_rows c).mpr (.inr (by simp [ht]))) heq
  rcases hc' with h | h
  · exact hi.disjoint hin h (by simp [ht] : c ∈ todo) (by rw [hcc])
  · have hn := hi.rows_nodup hin
    rw [ht] at hn
    exact key_ne_of_split hn c' (List.mem_append_right _ h) (by rw [hcc])

theorem SyncInv.head_zone (hi : SyncInv ord ctx₀ snapshot done todo s)
    (hin : SyncInput ctx₀.store snapshot) {c : CDZoneRequests} (hc : c ∈ todo) :
    c ∈ s.ctx.store.zones ∧ (s.ctx.store.zones.map (·.zoneid)).Nodup := by
  rw [hi.zones]
  refine ⟨List.mem_filter.mpr ⟨(hi.mem_rows c).mpr (.inr hc),?_⟩,
    hin.zones.sublist (List.filter_sublist.map _)⟩
  exact decide_eq_true fun hd => absurd rfl (hi.disjoint hin hd hc)

theorem SyncInv.filter_new (hi : SyncInv ord ctx₀ snapshot done todo s)
    {c : CDZoneRequests} {zoneid : String} (hz : c.zoneid = some zoneid) :
    s.newZoneRequests.filter (fun z => !(z.zoneid == zoneid)) =
      snapshot.filter fun z => !(done ++ [c]).any fun d => d.zoneid == some z.zoneid := by
  rw [hi.newZoneRequests,List.filter_filter]
  apply List.filter_congr
  intro z _
  simp only [List.any_append,List.any_cons,List.any_nil,Bool.or_false,Bool.not_or,hz]
  rw [Bool.and_comm]
  congr 2
  rw [Bool.eq_iff_iff,beq_iff_eq,beq_iff_eq,Option.some.injEq]
  exact eq_comm

theorem SyncInv.step_merged (hi : SyncInv ord ctx₀ snapshot done todo s)
    (hin : SyncInput ctx₀.store snapshot) {c : CDZoneRequests} {rest : List CDZoneRequests}
    (ht : todo = c :: rest) {nzr : ZoneRequests} (hnzr : nzr ∈ snapshot)
    (hz : c.zoneid = some nzr.zoneid) {ctx : Context} (hsaved : ctx.store.Saved)
    (hzones : ctx.store.zones = s.ctx.store.zones)
    (hnext : ctx₀.store.nextID ≤ ctx.store.nextID)
    (hothers : ∀ c' : CDZoneRequests, c'.objectID ≠ c.objectID →
      ctx.store.entries c' = s.ctx.store.entries c')
    (hmerged : Merged ctx₀.store.nextID c (ctx₀.store.entries c) nzr.requests
      (ctx.store.entries c)) :
    SyncInv ord ctx₀ snapshot (done ++ [c]) rest
      ⟨rest.map (readZone ord ctx₀),
        s.newZoneRequests.filter (fun z => !(z.zoneid == nzr.zoneid)),ctx⟩ where
  rows := by rw [hi.rows,ht]; simp
  oldZoneRequests := rfl
  newZoneRequests := hi.filter_new hz
  saved := hsaved
  zones := by
    rw [hzones,hi.zones]
    apply List.filter_congr
    intro c' _
    rw [decide_eq_decide]
    constructor
    · intro h hmem
      rcases List.mem_append.mp hmem with hd | hd
      · exact h hd
      · exact ⟨nzr,hnzr,by rw [List.mem_singleton.mp hd]; exact hz⟩
    · exact fun h hd => h (List.mem_append_left _ hd)
  nextID := hnext
  pending c' hc' := (hothers c' (hi.apart hin ht (.inr hc'))).trans
    (hi.pending c' (by simp [ht,hc']))
  merged c' hc' z hzm hzid := by
    rcases List.mem_append.mp hc' with hd | hd
    · rw [hothers c' (hi.apart hin ht (.inl hd))]
      exact hi.merged c' hd z hzm hzid
    · rw [List.mem_singleton.mp hd] at hzid ⊢
      have hzn : z = nzr := List.inj_on_of_nodup_map hin.snapshotZones hzm hnzr
        (Option.some.inj (hzid.symm.trans hz))
      rw [hzn]
      exact hmerged

theorem SyncInv.unlisted (hi : SyncInv ord ctx₀ snapshot done todo s)
    (hin : SyncInput ctx₀.store snapshot) {c : CDZoneRequests} (hc : c ∈ todo)
    {zoneid : String} (hz : c.zoneid = some zoneid)
    (hnone : ∀ z ∈ s.newZoneRequests, z.zoneid ≠ zoneid) :
    ∀ z ∈ snapshot, c.zoneid ≠ some z.zoneid := by
  intro z hzm heq
  have hzeq : zoneid = z.zoneid := Option.some.inj (hz.symm.trans heq)
  refine hnone z ?_ hzeq.symm
  rw [hi.newZoneRequests,List.mem_filter]
  refine ⟨hzm,?_⟩
  simp only [Bool.not_eq_true',List.any_eq_false,beq_iff_eq]
  exact fun d hd hdz => hi.disjoint hin hd hc (hdz.trans heq.symm)

theorem SyncInv.step_deleted (hi : SyncInv ord ctx₀ snapshot done todo s)
    (hin : SyncInput ctx₀.store snapshot) {c : CDZoneRequests} {rest : List CDZoneRequests}
    (ht : todo = c :: rest) {zoneid : String} (hz : c.zoneid = some zoneid)
    (hnone : ∀ z ∈ s.newZoneRequests, z.zoneid ≠ zoneid) {ctx : Context}
    (hstore : ctx.store = s.ctx.store.deleteZone c) :
    SyncInv ord ctx₀ snapshot (done ++ [c]) rest
      ⟨rest.map (readZone ord ctx₀),s.newZoneRequests,ctx⟩ where
  rows := by rw [hi.rows,ht]; simp
  oldZoneRequests := rfl
  newZoneRequests := by
    rw [← hi.filter_new hz]
    symm
    rw [List.filter_eq_self]
    intro z hzm
    simpa using hnone z hzm
  saved := by rw [hstore]; exact Store.saved_deleteZone hi.saved c
  zones := by
    have hgone := hi.unlisted hin (by simp [ht] : c ∈ todo) hz hnone
    rw [hstore]
    simp only [Store.deleteZone]
    rw [hi.zones,List.filter_filter]
    apply List.filter_congr
    intro c' hc'
    have hoid : (c'.objectID != c.objectID) = decide (c' ≠ c) := by
      rw [Bool.eq_iff_iff,bne_iff_ne,decide_eq_true_iff]
      exact ⟨fun h heq => h (by rw [heq]),fun h heq => h (hin.saved.zone_eq hc'
        ((hi.mem_rows c).mpr (.inr (by simp [ht]))) heq)⟩
    rw [hoid,← Bool.decide_and,decide_eq_decide]
    constructor
    · rintro ⟨hne,h⟩ hmem
      rcases List.mem_append.mp hmem with hd | hd
      · exact h hd
      · exact absurd (List.mem_singleton.mp hd) hne
    · intro h
      refine ⟨?_,fun hd => h (List.mem_append_left _ hd)⟩
      rintro rfl
      obtain ⟨z,hzm,heq⟩ := h (by simp)
      exact hgone z hzm heq
  nextID := by rw [hstore]; exact hi.nextID
  pending c' hc' := by
    rw [hstore,hi.saved.entries_deleteZone c (hi.apart hin ht (.inr hc'))]
    exact hi.pending c' (by simp [ht,hc'])
  merged c' hc' z hzm hzid := by
    rcases List.mem_append.mp hc' with hd | hd
    · rw [hstore,hi.saved.entries_deleteZone c (hi.apart hin ht (.inl hd))]
      exact hi.merged c' hd z hzm hzid
    · rw [List.mem_singleton.mp hd] at hzid
      exact absurd hzid (hi.unlisted hin (by simp [ht] : c ∈ todo) hz hnone z hzm)

theorem SyncInv.step (hi : SyncInv ord ctx₀ snapshot done todo s)
    (hin : SyncInput ctx₀.store snapshot) {c : CDZoneRequests} {rest : List CDZoneRequests}
    (ht : todo = c :: rest) (hhit : HitsOwnZone ord ctx₀ s) :
    ∃ t, handleZone ord s = .ok t ∧ SyncInv ord ctx₀ snapshot (done ++ [c]) rest t := by
  have hc₀ : c ∈ ctx₀.store.zones := (hi.mem_rows c).mpr (.inr (by simp [ht]))
  obtain ⟨hc,hnodup⟩ := hi.head_zone hin (by simp [ht] : c ∈ todo)
  obtain ⟨zoneid,hz⟩ := Option.isSome_iff_exists.mp (hin.saved.zoneFields c hc₀)
  have hread : (readZone ord ctx₀ c).zoneid = zoneid := by simp [readZone,hz]
  have hold : s.oldZoneRequests = readZone ord ctx₀ c :: rest.map (readZone ord ctx₀) := by
    rw [hi.oldZoneRequests,ht]; rfl
  have hfirst : first s.oldZoneRequests = .ok (readZone ord ctx₀ c) := by
    simp [first,hold,unwrap]
  have hremove : removeFirst s.oldZoneRequests = .ok (rest.map (readZone ord ctx₀)) := by
    simp [removeFirst,hold]
  have hnewNodup : (s.newZoneRequests.map (·.zoneid)).Nodup := by
    rw [hi.newZoneRequests]
    exact hin.snapshotZones.sublist (List.filter_sublist.map _)
  have hsub : ∀ z ∈ s.newZoneRequests, z ∈ snapshot := by
    intro z hzm
    rw [hi.newZoneRequests] at hzm
    exact List.mem_of_mem_filter hzm
  cases hk : s.newZoneRequests.findIdx? (fun nzr => nzr.zoneid == zoneid) with
  | none =>
    have hnone : ∀ z ∈ s.newZoneRequests, z.zoneid ≠ zoneid := by
      rw [List.findIdx?_eq_none_iff] at hk
      intro z hzm
      simpa using hk z hzm
    refine ⟨_,?_,hi.step_deleted hin ht hz hnone
      (deleteZoneRequest_store ord (fetchZones_head ord hnodup hc hz))⟩
    simp only [handleZone,hfirst,bind,Except.bind,hread,hk,hremove,pure,Except.pure]
  | some k =>
    obtain ⟨nzr,hget,hzid,hlt,herase⟩ := eraseIdx_of_findIdx? hnewNodup hk
    have hmem : nzr ∈ s.newZoneRequests := List.mem_of_getElem? hget
    have hnzr := hsub nzr hmem
    obtain ⟨t,hrun,hnew,hsaved,hzones,hnext,hothers,hentries⟩ := zone_run
      hin.saved hi.saved (hin.inZone c hc₀) (hin.snapshotInZone nzr hnzr)
      (hi.pending c (by simp [ht]))
      (hhit c hc₀ _ _ hold (by rw [hread,hz]) nzr hmem (by rw [hread,hzid]))
    have hfetched : ∀ req ∈ t.newRequests, req.Fetched := by
      rw [hnew]
      exact fun req hreq => hin.fetched nzr hnzr req (List.mem_of_mem_filter hreq)
    obtain ⟨hsaved',hzones',hnext',news,hnews,hadded⟩ :=
      foldl_addRequestUsingID ord hc hnodup hz hfetched hsaved hzones (hnext ▸ hi.nextID)
    rw [hnew] at hnews
    refine ⟨_,?_,hi.step_merged hin ht hnzr (by rw [hzid,hz]) hsaved' hzones' hnext'
      (fun c' hc' => ?_) ⟨news,hnews,?_⟩⟩
    · have helement : element s.newZoneRequests k = .ok nzr := by simp [element,hget]
      have hremoveAt : removeAt s.newZoneRequests k =
          .ok (s.newZoneRequests.filter fun z => !(z.zoneid == nzr.zoneid)) := by
        rw [hzid,← herase]
        simp [removeAt,hlt]
      simp only [handleZone,hfirst,bind,Except.bind,hread,hk,helement,hrun,hremove,
        hremoveAt,pure,Except.pure]
    · rw [hadded c',if_neg hc',List.append_nil]
      exact hothers c' hc'
    · rw [hadded c,if_pos rfl,hentries]

theorem sync_progress (hin : SyncInput ctx₀.store snapshot) :
    Progress SyncLoop.more (handleZone ord)
      (fun s => ∃ done todo, SyncInv ord ctx₀ snapshot done todo s)
      (HitsOwnZone ord ctx₀) (fun s => s.oldZoneRequests.length) := by
  rintro s ⟨done,todo,hi⟩ hmore hhit
  cases todo with
  | nil => simp [SyncLoop.more,hi.oldZoneRequests] at hmore
  | cons c rest =>
    obtain ⟨t,ht,hi'⟩ := hi.step hin rfl hhit
    refine ⟨t,ht,⟨_,_,hi'⟩,?_⟩
    simp [hi.oldZoneRequests,hi'.oldZoneRequests]

def syncStart (ord : FetchOrder) (snapshot : List ZoneRequests) (ctx : Context) : SyncLoop :=
  ⟨(sortedZones ord ctx).map (readZone ord ctx),snapshot,ctx⟩

theorem sync_start (hs : ctx₀.store.Saved) :
    SyncInv ord ctx₀ snapshot [] (sortedZones ord ctx₀) (syncStart ord snapshot ctx₀) where
  rows := rfl
  oldZoneRequests := rfl
  newZoneRequests := by simp [syncStart]
  saved := hs
  zones := by simp [syncStart]
  nextID := le_refl _
  pending _ _ := rfl
  merged _ hc := by simp at hc

/-- The zones of the store and the entries of each, after the reconciliation. -/
structure Reconciled (s : Store) (snapshot : List ZoneRequests) (s' : Store) : Prop where
  saved : s'.Saved
  zones : (s'.zones.map (·.zoneid)).Nodup
  zoneids : ∀ c ∈ s'.zones, ∃ z ∈ snapshot, c.zoneid = some z.zoneid
  kept : ∀ c ∈ s.zones, c ∈ s'.zones ↔ ∃ z ∈ snapshot, c.zoneid = some z.zoneid
  both : ∀ c ∈ s.zones, ∀ z ∈ snapshot, c.zoneid = some z.zoneid →
    Merged s.nextID c (s.entries c) z.requests (s'.entries c)
  new : ∀ z ∈ snapshot, (∀ c ∈ s.zones, c.zoneid ≠ some z.zoneid) →
    ∃ c ∈ s'.zones, c.zoneid = some z.zoneid ∧
      List.Forall₂ (IsNew s.nextID c) z.requests (s'.entries c)

theorem foldl_saveZoneRequest {lo : Nat} {zs : List ZoneRequests}
    (hfetched : ∀ z ∈ zs, ∀ req ∈ z.requests, req.Fetched) {ctx : Context}
    (hs : ctx.store.Saved) (hlo : lo ≤ ctx.store.nextID) :
    let ctx' := zs.foldl (fun ctx z => saveZoneRequest z ctx) ctx
    ctx'.store.Saved ∧ (∀ c ∈ ctx.store.zones, c ∈ ctx'.store.zones ∧
        ctx'.store.entries c = ctx.store.entries c) ∧
      ctx'.store.zones.map (·.zoneid) =
        ctx.store.zones.map (·.zoneid) ++ zs.map (fun z => some z.zoneid) ∧
      (∀ c ∈ ctx'.store.zones, c ∈ ctx.store.zones ∨ ∃ z ∈ zs, c.zoneid = some z.zoneid) ∧
      ∀ z ∈ zs, ∃ c ∈ ctx'.store.zones, c.zoneid = some z.zoneid ∧
        List.Forall₂ (IsNew lo c) z.requests (ctx'.store.entries c) := by
  induction zs generalizing ctx with
  | nil => exact ⟨hs,fun c hc => ⟨hc,rfl⟩,by simp,fun c hc => .inl hc,by simp⟩
  | cons z zs ih =>
    obtain ⟨hs₁,hz₁,hlo₁,hnew₁,hold₁⟩ := saveZoneRequest_spec (hfetched z (by simp)) hs hlo
    obtain ⟨hs₂,hkeep,hids,horigin,hnew₂⟩ :=
      ih (fun z' hz' => hfetched z' (by simp [hz'])) hs₁ hlo₁
    refine ⟨hs₂,?_,?_,?_,?_⟩
    · intro c hc
      obtain ⟨hc₂,he₂⟩ := hkeep c (by rw [hz₁]; exact List.mem_append_left _ hc)
      exact ⟨hc₂,he₂.trans (hold₁ c hc)⟩
    · rw [List.foldl_cons,hids,hz₁]
      simp
    · intro c hc
      rcases horigin c hc with h | ⟨z',hz',h⟩
      · rw [hz₁] at h
        rcases List.mem_append.mp h with h | h
        · exact .inl h
        · exact .inr ⟨z,by simp,by rw [List.mem_singleton.mp h]⟩
      · exact .inr ⟨z',by simp [hz'],h⟩
    · intro z' hz'
      rcases List.mem_cons.mp hz' with rfl | hz'
      · obtain ⟨hc₂,he₂⟩ := hkeep ⟨ctx.store.nextID,some z'.zoneid⟩ (by rw [hz₁]; simp)
        exact ⟨_,hc₂,rfl,by rw [List.foldl_cons,he₂]; exact hnew₁⟩
      · exact hnew₂ z' hz'

/-- The run lemma: no index is out of range, the loops end, and the store is
reconciled with the snapshot. -/
theorem updateSavedRequests_reconciled (hin : SyncInput ctx₀.store snapshot)
    (hhit : ∀ u, Visits SyncLoop.more (handleZone ord) (syncStart ord snapshot ctx₀) u →
      u.more = true → HitsOwnZone ord ctx₀ u) :
    ∃ ctx', updateSavedRequests ord snapshot ctx₀ = .ok ctx' ∧
      Reconciled ctx₀.store snapshot ctx'.store := by
  obtain ⟨t,ht,⟨done,todo,hi⟩,hmore,-⟩ := whileLoop_total Fault.endlessLoop
    (sync_progress hin) _ ⟨_,_,sync_start hin.saved⟩ (le_refl _)
    (fun u hv _ hc => hhit u hv hc)
  have htodo : todo = [] := by simpa [SyncLoop.more,hi.oldZoneRequests] using hmore
  subst htodo
  have hdone : ∀ c, c ∈ done ↔ c ∈ ctx₀.store.zones := by
    intro c
    simp [hi.mem_rows c]
  have hzones : ∀ c, c ∈ t.ctx.store.zones ↔
      c ∈ ctx₀.store.zones ∧ ∃ z ∈ snapshot, c.zoneid = some z.zoneid := by
    intro c
    rw [hi.zones,List.mem_filter,decide_eq_true_iff,hdone]
    exact ⟨fun ⟨hc,h⟩ => ⟨hc,h hc⟩,fun ⟨hc,h⟩ => ⟨hc,fun _ => h⟩⟩
  have hrest : ∀ z, z ∈ t.newZoneRequests ↔
      z ∈ snapshot ∧ ∀ c ∈ ctx₀.store.zones, c.zoneid ≠ some z.zoneid := by
    intro z
    rw [hi.newZoneRequests,List.mem_filter]
    simp only [Bool.not_eq_true',List.any_eq_false,beq_iff_eq,hdone,ne_eq]
  obtain ⟨hsaved,hkeep,hids,horigin,hnew⟩ := foldl_saveZoneRequest
    (fun z (hz : z ∈ t.newZoneRequests) => hin.fetched z ((hrest z).mp hz).1) hi.saved
    hi.nextID
  refine ⟨_,?_,hsaved,?_,?_,?_,?_,?_⟩
  · simp only [updateSavedRequests,loadAllZoneRequests_ok ord hin.saved,bind,Except.bind]
    change (whileLoop _ _ _ (syncStart ord snapshot ctx₀).oldZoneRequests.length
      (syncStart ord snapshot ctx₀)).bind _ = _
    rw [ht]
    rfl
  · rw [hids,List.nodup_append]
    refine ⟨?_,?_,?_⟩
    · rw [hi.zones]
      exact hin.zones.sublist (List.filter_sublist.map _)
    · have hn : (t.newZoneRequests.map (·.zoneid)).Nodup := by
        rw [hi.newZoneRequests]
        exact hin.snapshotZones.sublist (List.filter_sublist.map _)
      simpa [Function.comp_def] using hn.map (Option.some_injective _)
    · rintro _ ha _ hb rfl
      obtain ⟨c,hc,hca⟩ := List.mem_map.mp ha
      obtain ⟨z,hz,hza⟩ := List.mem_map.mp hb
      exact ((hrest z).mp hz).2 c ((hzones c).mp hc).1 (hca.trans hza.symm)
  · intro c hc
    rcases horigin c hc with h | ⟨z,hz,h⟩
    · exact ((hzones c).mp h).2
    · exact ⟨z,((hrest z).mp hz).1,h⟩
  · intro c hc
    constructor
    · intro hc'
      rcases horigin c hc' with h | ⟨z,hz,h⟩
      · exact ((hzones c).mp h).2
      · exact ⟨z,((hrest z).mp hz).1,h⟩
    · exact fun h => (hkeep c ((hzones c).mpr ⟨hc,h⟩)).1
  · intro c hc z hz hzid
    rw [(hkeep c ((hzones c).mpr ⟨hc,z,hz,hzid⟩)).2]
    exact hi.merged c ((hdone c).mpr hc) z hz hzid
  · exact fun z hz hnone => hnew z ((hrest z).mpr ⟨hz,hnone⟩)

end Sync

end Answr
