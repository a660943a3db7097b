import Answr.Merge
set_option autoImplicit false

/-! When the operations by bare id hit the zone they are meant for. Zones are
handled in the order of their ids, so an earlier zone already holds what the
snapshot has for it and a later one still what was stored. -/

namespace Answr
open Loops

/-- No request that the reconciliation deletes or marks shares its id with a
request the store then holds in another zone. -/
def Separated (s : Store) (snapshot : List ZoneRequests) : Prop :=
  ∀ c ∈ s.zones, ∀ nzr ∈ snapshot, c.zoneid = some nzr.zoneid → ∀ e ∈ s.entries c,
    (hasCounterpart nzr.requests e = false ∨ e.1.isNew = true) →
    (∀ z ∈ snapshot, z.zoneid < nzr.zoneid → (∃ c' ∈ s.zones, c'.zoneid = some z.zoneid) →
      ∀ req ∈ z.requests, req.id ≠ e.1.id) ∧
    (∀ c' ∈ s.zones, ∀ zoneid, c'.zoneid = some zoneid → nzr.zoneid < zoneid →
      ∀ r ∈ s.requestsOf c', r.id ≠ e.1.id)

theorem isNew_id {lo : Nat} {c : CDZoneRequests} {req : Request} {e : Entry}
    (h : IsNew lo c req e) : e.1.id = req.id := by
  obtain ⟨n,-,rfl⟩ := h
  rfl

theorem hasCounterpart_iff {snapshot : List Request} {e : Entry} :
    hasCounterpart snapshot e = true ↔
      ∃ req ∈ snapshot, (readRequest e.1 e.2).equals req = true := by
  simp [hasCounterpart]

theorem mem_reconciled {snapshot : List Request} {stored : List Entry} {e : Entry} :
    e ∈ stored.filterMap (reconciled snapshot) ↔
      ∃ e₀ ∈ stored, hasCounterpart snapshot e₀ = true ∧ e = (e₀.1.old,e₀.2) := by
  rw [List.mem_filterMap]
  constructor
  · rintro ⟨e₀,he₀,h⟩
    simp only [reconciled] at h
    split at h
    · exact ⟨e₀,he₀,by assumption,(Option.some.inj h).symm⟩
    · cases h
  · rintro ⟨e₀,he₀,h,rfl⟩
    exact ⟨e₀,he₀,by simp [reconciled,h]⟩

theorem exists_of_forall₂ {α β : Type} {R : α → β → Prop} {as : List α} {bs : List β}
    (h : List.Forall₂ R as bs) : (∀ b ∈ bs, ∃ a ∈ as, R a b) ∧ ∀ a ∈ as, ∃ b ∈ bs, R a b := by
  induction h with
  | nil => simp
  | @cons a b as bs hab _ ih =>
    constructor
    · intro b' hb'
      rcases List.mem_cons.mp hb' with rfl | hb'
      · exact ⟨a,by simp,hab⟩
      · obtain ⟨a',ha',h⟩ := ih.1 b' hb'
        exact ⟨a',by simp [ha'],h⟩
    · intro a' ha'
      rcases List.mem_cons.mp ha' with rfl | ha'
      · exact ⟨b,by simp,hab⟩
      · obtain ⟨b',hb',h⟩ := ih.2 a' ha'
        exact ⟨b',by simp [hb'],h⟩

theorem Merged.origin {lo : Nat} {c : CDZoneRequests} {stored entries : List Entry}
    {snapshot : List Request} (h : Merged lo c stored snapshot entries) {e : Entry}
    (he : e ∈ entries) :
    (∃ e₀ ∈ stored, hasCounterpart snapshot e₀ = true ∧ e = (e₀.1.old,e₀.2)) ∨
      ∃ req ∈ unmatched stored snapshot, IsNew lo c req e := by
  obtain ⟨news,hnews,rfl⟩ := h
  rcases List.mem_append.mp he with he | he
  · exact .inl (mem_reconciled.mp he)
  · obtain ⟨req,hreq,hnew⟩ := (exists_of_forall₂ hnews).1 e he
    exact .inr ⟨req,hreq,hnew⟩

theorem Merged.mem_snapshot {lo : Nat} {c : CDZoneRequests} {stored entries : List Entry}
    {snapshot : List Request} (h : Merged lo c stored snapshot entries) {e : Entry}
    (he : e ∈ entries) : ∃ req ∈ snapshot, req.id = e.1.id := by
  rcases h.origin he with ⟨e₀,-,hc,rfl⟩ | ⟨req,hreq,hnew⟩
  · obtain ⟨req,hreq,heq⟩ := hasCounterpart_iff.mp hc
    exact ⟨req,hreq,((Request.equals_iff _ _).mp heq).1.symm⟩
  · exact ⟨req,List.mem_of_mem_filter hreq,(isNew_id hnew).symm⟩

theorem Merged.exists_entry {lo : Nat} {c : CDZoneRequests} {stored entries : List Entry}
    {snapshot : List Request} (h : Merged lo c stored snapshot entries) {req : Request}
    (hreq : req ∈ snapshot) : ∃ e ∈ entries, e.1.id = req.id := by
  obtain ⟨news,hnews,rfl⟩ := h
  by_cases hun : req ∈ unmatched stored snapshot
  · obtain ⟨e,he,hnew⟩ := (exists_of_forall₂ hnews).2 req hun
    exact ⟨e,List.mem_append_right _ he,isNew_id hnew⟩
  · rw [unmatched,List.mem_filter] at hun
    simp only [hreq,true_and,Bool.not_eq_true',Bool.not_eq_false,List.any_eq_true] at hun
    obtain ⟨e₀,he₀,heq⟩ := hun
    refine ⟨_,List.mem_append_left _ (mem_reconciled.mpr
      ⟨e₀,he₀,hasCounterpart_iff.mpr ⟨req,hreq,heq⟩,rfl⟩),?_⟩
    exact ((Request.equals_iff _ _).mp heq).1

variable {ord : FetchOrder} {ctx₀ : Context} {snapshot : List ZoneRequests}
  {done rest : List CDZoneRequests} {c : CDZoneRequests} {s : SyncLoop}

theorem SyncInv.sorted (hi : SyncInv ord ctx₀ snapshot done (c :: rest) s)
    (hin : SyncInput ctx₀.store snapshot) {zoneid : String} (hz : c.zoneid = some zoneid)
    {c' : CDZoneRequests} {zoneid' : String} (hz' : c'.zoneid = some zoneid') :
    (c' ∈ done → zoneid' < zoneid) ∧ (c' ∈ rest → zoneid < zoneid') := by
  have hsorted := sortByKey_sorted CDZoneRequests.zoneid (ord.zones ctx₀ ctx₀.store.zones)
  change (sortedZones ord ctx₀).Pairwise _ at hsorted
  rw [hi.rows,List.pairwise_append,List.pairwise_cons] at hsorted
  obtain ⟨-,⟨hrest,-⟩,hdone⟩ := hsorted
  constructor
  · intro hc'
    have hle : zoneid' ≤ zoneid := by
      simpa [hz,hz',keyLE] using hdone c' hc' c (by simp)
    refine lt_of_le_of_ne hle fun heq => hi.disjoint hin hc' (by simp : c ∈ c :: rest) ?_
    rw [hz,hz',heq]
  · intro hc'
    have hle : zoneid ≤ zoneid' := by
      simpa [hz,hz',keyLE] using hrest c' hc'
    refine lt_of_le_of_ne hle fun heq =>
      key_ne_of_split (hi.rows_nodup hin) c' (List.mem_append_right _ hc') ?_
    rw [hz,hz',heq]

/-- The rows that a by-id operation on the next row of zone `c` may hit. A row of
another zone would be one that the separation excludes. -/
theorem hitsZone_of_separated (hin : SyncInput ctx₀.store snapshot)
    (hsep : Separated ctx₀.store snapshot)
    (hi : SyncInv ord ctx₀ snapshot done (c :: rest) s) {nzr : ZoneRequests}
    (hnzr : nzr ∈ snapshot) (hz : c.zoneid = some nzr.zoneid) {before todo : List CDRequest}
    {v : ZoneLoop} (hv : ZoneInv ord ctx₀ s.ctx c nzr.requests before todo v) :
    HitsZone ord c v := by
  intro oreq more id hold hid hacts h hh
  obtain ⟨hrow,hhid⟩ := (mem_fetchRequests ord).mp (List.mem_of_head? hh)
  obtain ⟨r,todo',rfl,rfl⟩ := hv.next hold
  have hc : c ∈ ctx₀.store.zones := (hi.mem_rows c).mpr (.inr (by simp))
  have hr : r ∈ ctx₀.store.requestsOf c := (hv.mem_rows r).mpr (.inr (by simp))
  have hentry : (r,ctx₀.store.itemsOf r) ∈ ctx₀.store.entries c :=
    List.mem_map_of_mem (f := fun r => (r,ctx₀.store.itemsOf r)) hr
  have hany := hv.any_equals (hin.inZone c hc) hin.saved (r := r) (by simp)
  obtain ⟨hearlier,hlater⟩ := hsep c hc nzr hnzr hz _ hentry (by
    rcases hacts with hno | hnew
    · exact .inl (hany ▸ hno)
    · exact .inr (by simpa [readRow,readRequest] using hnew))
  have hhr : h.id = r.id := hhid.trans hid.symm
  obtain ⟨c',hc',hzone⟩ := hv.saved.zoneOf h hrow
  by_cases hoid : c'.objectID = c.objectID
  · rw [hzone,hoid]
  have hmem : (h,v.ctx.store.itemsOf h) ∈ s.ctx.store.entries c' := by
    rw [← hv.others c' hoid]
    exact Store.mem_entries.mpr ⟨hrow,hzone,rfl⟩
  rw [hv.zones,hi.zones,List.mem_filter,decide_eq_true_iff] at hc'
  obtain ⟨hc₀,hsnap⟩ := hc'
  obtain ⟨zoneid',hz'⟩ := Option.isSome_iff_exists.mp (hin.saved.zoneFields c' hc₀)
  have hsorted := hi.sorted hin hz hz'
  rcases (hi.mem_rows c').mp hc₀ with hd | ht
  · obtain ⟨z,hzm,hzid⟩ := hsnap hd
    have heq : zoneid' = z.zoneid := Option.some.inj (hz'.symm.trans hzid)
    obtain ⟨req,hreq,hreqid⟩ := (hi.merged c' hd z hzm hzid).mem_snapshot hmem
    exact absurd (hreqid.trans hhr)
      (hearlier z hzm (heq ▸ hsorted.1 hd) ⟨c',hc₀,hzid⟩ req hreq)
  · rcases List.mem_cons.mp ht with rfl | ht
    · exact absurd rfl hoid
    · rw [hi.pending c' (by simp [ht])] at hmem
      obtain ⟨hrow₀,hzone₀,-⟩ := Store.mem_entries.mp hmem
      exact absurd hhr (hlater c' hc₀ zoneid' hz' (hsorted.2 ht) h
        (Store.mem_requestsOf.mpr ⟨hrow₀,hzone₀⟩))

theorem SyncInv.next_zone (hi : SyncInv ord ctx₀ snapshot done (c :: rest) s)
    (hin : SyncInput ctx₀.store snapshot) {c' : CDZoneRequests} (hc' : c' ∈ ctx₀.store.zones)
    {ozr : ZoneRequests} {more : List ZoneRequests}
    (hold : s.oldZoneRequests = ozr :: more) (hz : c'.zoneid = some ozr.zoneid) :
    c' = c ∧ ozr = readZone ord ctx₀ c := by
  rw [hi.oldZoneRequests,List.map_cons,List.cons.injEq] at hold
  have hc : c ∈ ctx₀.store.zones := (hi.mem_rows c).mpr (.inr (by simp))
  obtain ⟨zoneid,hzc⟩ := Option.isSome_iff_exists.mp (hin.saved.zoneFields c hc)
  refine ⟨List.inj_on_of_nodup_map hin.zones hc' hc ?_,hold.1.symm⟩
  rw [hz,← hold.1,hzc]
  simp [readZone,hzc]

theorem hitsOwnZone_of_separated (hin : SyncInput ctx₀.store snapshot)
    (hsep : Separated ctx₀.store snapshot) {todo : List CDZoneRequests}
    (hi : SyncInv ord ctx₀ snapshot done todo s) : HitsOwnZone ord ctx₀ s := by
  intro c' hc' ozr more hold hz nzr hnzr hzid u hu _
  cases todo with
  | nil => simp [hi.oldZoneRequests] at hold
  | cons c rest =>
    obtain ⟨rfl,rfl⟩ := hi.next_zone hin hc' hold hz
    have hnzr' : nzr ∈ snapshot := by
      rw [hi.newZoneRequests] at hnzr
      exact List.mem_of_mem_filter hnzr
    have hz' : c'.zoneid = some nzr.zoneid := by rw [hz,hzid]
    obtain ⟨before,todo,hv⟩ := visits_inv
      (zone_progress hin.saved (hin.inZone c' hc') (hin.snapshotInZone nzr hnzr'))
      ⟨_,_,zone_start hi.saved (hi.pending c' (by simp))⟩
      (fun v _ ⟨_,_,hv⟩ _ => hitsZone_of_separated hin hsep hi hnzr' hz' hv) hu
    exact hitsZone_of_separated hin hsep hi hnzr' hz' hv

theorem hits_of_separated (hin : SyncInput ctx₀.store snapshot)
    (hsep : Separated ctx₀.store snapshot) {u : SyncLoop}
    (hu : Visits SyncLoop.more (handleZone ord) (syncStart ord snapshot ctx₀) u) :
    HitsOwnZone ord ctx₀ u := by
  obtain ⟨done,todo,hi⟩ := visits_inv (sync_progress hin) ⟨_,_,sync_start hin.saved⟩
    (fun v _ ⟨_,_,hv⟩ _ => hitsOwnZone_of_separated hin hsep hv) hu
  exact hitsOwnZone_of_separated hin hsep hi

/-- The reconciliation of a separated store and snapshot. -/
theorem updateSavedRequests_of_separated (ord : FetchOrder)
    (hin : SyncInput ctx₀.store snapshot) (hsep : Separated ctx₀.store snapshot) :
    ∃ ctx', updateSavedRequests ord snapshot ctx₀ = .ok ctx' ∧
      Reconciled ctx₀.store snapshot ctx'.store :=
  updateSavedRequests_reconciled hin fun _ hu _ => hits_of_separated hin hsep hu

end Answr
