import Answr.FleetRuns
import Answr.Holdings
set_option autoImplicit false

/-! What is on disk: nothing is ever left to be saved when the app goes to the background,
and what `clearAllZoneRequests` leaves is as good as a fresh install. -/

namespace Answr
open LeafTree Steps

section Background

def Context.hasChanges (ctx : Context) : Bool := ctx.persisted.store != ctx.store

/-- `AppDelegate.saveContext`, which `sceneDidEnterBackground` calls. -/
def saveContext (ctx : Context) : Context := if ctx.hasChanges then ctx.save else ctx

variable {home : Option String → String} {ctx : Context}

theorem Reachable.unchanged (h : Reachable home ctx) : saveContext ctx = ctx := by
  rw [saveContext,Context.hasChanges,h.persisted]
  simp

/-- Whatever a fleet does, no phone has anything to save when it goes to the background,
and after a new launch it loads what it would have loaded before: ending the app between
two events loses no request and no check. -/
theorem background_savesNothing (zh : Bool) (home : Option String → String) (db : Database)
    (phones : Nat) (hdb : Served home db) (sys : Fleet)
    (hr : Reaches (Fleet.step zh) (Fleet.Serves home) (.installed db phones) sys) :
    ∀ d ∈ sys.phones, saveContext d.screen.ctx = d.screen.ctx ∧
      d.launched.screen.ctx = d.screen.ctx ∧ ∀ ord, ∃ zoneRequests,
        loadAllZoneRequests ord d.launched.screen.ctx = .ok zoneRequests ∧
        loadAllZoneRequests ord d.screen.ctx = .ok zoneRequests := by
  intro d hd
  have hreach := ((fleet_ok_of_reaches hdb hr).phones d hd).landing.reachable
  have hctx : d.launched.screen.ctx = d.screen.ctx := hreach.persisted
  refine ⟨hreach.unchanged,hctx,fun ord => ⟨_,?_,loadAllZoneRequests_ok ord hreach.housed.saved⟩⟩
  rw [hctx]
  exact loadAllZoneRequests_ok ord hreach.housed.saved

theorem background_savesNothing_shared : ∃ sys : Fleet,
    (sys.phones.map fun d => d.screen.ctx.store.items.map (·.checked)) = [[true],[false]] ∧
    ∀ d ∈ sys.phones, saveContext d.screen.ctx = d.screen.ctx ∧
      d.launched.screen.ctx = d.screen.ctx ∧ ∀ ord, ∃ zoneRequests,
        loadAllZoneRequests ord d.launched.screen.ctx = .ok zoneRequests ∧
        loadAllZoneRequests ord d.screen.ctx = .ok zoneRequests := by
  have hrun : shared.map (fun sys =>
      sys.phones.map fun d => d.screen.ctx.store.items.map (·.checked)) =
      some [[true],[false]] := rfl
  obtain ⟨sys,hsys,hchecked⟩ := Option.map_eq_some_iff.mp hrun
  have hr : Reaches (Fleet.step false) (Fleet.Serves fun _ => "north") (.installed northServer 2)
      sys := (reaches_of_play hsys).mono fun s e he => own_serves s he
  exact ⟨sys,hchecked,background_savesNothing false (fun _ => "north") northServer 2
    northServer_served sys hr⟩

end Background

section Clear

/-- `clearAllZoneRequests`: every zone row is deleted, and one save commits it all. -/
def clearAllZoneRequests (ord : FetchOrder) (ctx : Context) : Context :=
  let cdzonereqs := ord.zones ctx ctx.store.zones
  { ctx with store := cdzonereqs.foldl (fun store cdzr => store.deleteZone cdzr) ctx.store }.save

variable {home : Option String → String} {ctx : Context} {s : Store}

theorem foldl_deleteZone (hs : s.Saved) (rows : List CDZoneRequests) :
    (rows.foldl (fun store cdzr => store.deleteZone cdzr) s).Saved ∧
    (rows.foldl (fun store cdzr => store.deleteZone cdzr) s).nextID = s.nextID ∧
    ∀ c ∈ (rows.foldl (fun store cdzr => store.deleteZone cdzr) s).zones,
      c ∈ s.zones ∧ ∀ row ∈ rows, c.objectID ≠ row.objectID := by
  induction rows generalizing s with
  | nil => exact ⟨hs,rfl,fun c hc => ⟨hc,by simp⟩⟩
  | cons row rows ih =>
    obtain ⟨hsaved,hnext,hzones⟩ := ih (Store.saved_deleteZone hs row)
    refine ⟨hsaved,hnext,fun c hc => ?_⟩
    obtain ⟨hc,hrows⟩ := hzones c hc
    obtain ⟨hc,hne⟩ := List.mem_filter.mp hc
    refine ⟨hc,fun row' hrow' => ?_⟩
    rcases List.mem_cons.mp hrow' with rfl | hrow'
    · simpa using hne
    · exact hrows row' hrow'

theorem Store.Saved.rows_nil (hs : s.Saved) (hz : s.zones = []) : s = ⟨[],[],[],s.nextID⟩ := by
  have hr : s.requests = [] := by
    refine List.eq_nil_iff_forall_not_mem.mpr fun r hr => ?_
    obtain ⟨c,hc,-⟩ := hs.zoneOf r hr
    rw [hz] at hc
    cases hc
  have hi : s.items = [] := by
    refine List.eq_nil_iff_forall_not_mem.mpr fun i hi => ?_
    obtain ⟨r,hrow,-⟩ := hs.requestOf i hi
    rw [hr] at hrow
    cases hrow
  cases s
  simp_all

theorem clearAllZoneRequests_eq (ord : FetchOrder) (hs : ctx.store.Saved) :
    clearAllZoneRequests ord ctx =
      ⟨⟨[],[],[],ctx.store.nextID⟩,⟨[],[],[],ctx.store.nextID⟩ :: ctx.commits⟩ := by
  obtain ⟨hsaved,hnext,hzones⟩ := foldl_deleteZone hs (ord.zones ctx ctx.store.zones)
  have hnil := List.eq_nil_iff_forall_not_mem.mpr fun c hc => by
    obtain ⟨hc,hne⟩ := hzones c hc
    exact hne c ((ord.zones_perm ctx _).mem_iff.mpr hc) rfl
  have hstore := hsaved.rows_nil hnil
  rw [hnext] at hstore
  simp only [clearAllZoneRequests,Context.save]
  rw [hstore]

theorem housed_cleared (n : Nat) : Housed home ⟨[],[],[],n⟩ := by
  refine ⟨?_,?_,?_,?_⟩
  · constructor <;> simp
  · simp
  · simp
  · simp

/-- A clear leaves no row, in one commit. After it a sync stores the snapshot and nothing
else: what is held depends on the snapshot alone, all of it is new, and no item is checked. -/
theorem cleared_forgets (home : Option String → String) (ctx : Context) (ord ord' : FetchOrder)
    (snapshot : List ZoneRequests) (hctx : Reachable home ctx)
    (hf : FetchedFrom home snapshot) :
    clearAllZoneRequests ord ctx =
      ⟨⟨[],[],[],ctx.store.nextID⟩,⟨[],[],[],ctx.store.nextID⟩ :: ctx.commits⟩ ∧
    ∃ ctx', updateSavedRequests ord' snapshot (clearAllZoneRequests ord ctx) = .ok ctx' ∧
      ctx'.store.held = syncHeld snapshot 0 ∧
      (∀ r ∈ ctx'.store.requests, r.isNew = true) ∧
      ∀ i ∈ ctx'.store.items, i.checked = false := by
  have hcleared := clearAllZoneRequests_eq ord hctx.housed.saved
  refine ⟨hcleared,?_⟩
  rw [hcleared]
  have hhoused : Housed home ⟨[],[],[],ctx.store.nextID⟩ := housed_cleared ctx.store.nextID
  have hin := hhoused.mergeInput hf
  obtain ⟨ctx',hrun,hrec⟩ : ∃ ctx', updateSavedRequests ord' snapshot
      ⟨⟨[],[],[],ctx.store.nextID⟩,⟨[],[],[],ctx.store.nextID⟩ :: ctx.commits⟩ = .ok ctx' ∧
      Reconciled ⟨[],[],[],ctx.store.nextID⟩ snapshot ctx'.store :=
    updateSavedRequests_of_separated ord' hin.syncInput hin.separated
  have hmerge := hin.isMerge hrec
  -- every entry is one of a new request
  have hnew : ∀ r ∈ ctx'.store.requests, ∃ req, Holds req (r,ctx'.store.itemsOf r) := by
    intro r hr
    obtain ⟨c,hc,hz⟩ := hmerge.saved.zoneOf r hr
    obtain ⟨zoneid,hcz⟩ := Option.isSome_iff_exists.mp (hmerge.saved.zoneFields c hc)
    obtain ⟨z,hzmem,rfl⟩ := (hmerge.zones zoneid).mp ⟨c,hc,hcz⟩
    have hmem : (r,ctx'.store.itemsOf r) ∈ ctx'.store.zoneEntries z.zoneid :=
      (Store.mem_zoneEntries hmerge.zonesOnce).mpr
        ⟨c,hc,hcz,Store.mem_entries.mpr ⟨hr,hz,rfl⟩⟩
    rcases hmerge.only z hzmem _ hmem with ⟨e,he,-⟩ | ⟨req,-,hholds⟩
    · simp [Store.zoneEntries] at he
    · exact ⟨req,hholds⟩
  refine ⟨ctx',hrun,?_,fun r hr => ?_,fun i hi => ?_⟩
  · rw [hrec.held hin.syncInput]
    simp [Store.held]
  · obtain ⟨req,hholds⟩ := hnew r hr
    exact hholds.isNew
  · obtain ⟨r,hr,hown⟩ := hmerge.saved.requestOf i hi
    obtain ⟨req,hholds⟩ := hnew r hr
    have hmem : i ∈ ctx'.store.itemsOf r := by simp [Store.itemsOf,hi,hown]
    obtain ⟨item,-,hitem⟩ := (exists_of_forall₂ hholds.items).1 i hmem
    exact hitem.checked

/-- After a clear the moved slot is stored, which a sync alone overlooks. -/
theorem cleared_forgets_moved :
    clearAllZoneRequests .table (oneStoredContext 5 2) =
      ⟨⟨[],[],[],(oneStoredContext 5 2).store.nextID⟩,
        ⟨[],[],[],(oneStoredContext 5 2).store.nextID⟩ :: (oneStoredContext 5 2).commits⟩ ∧
    ∃ ctx', updateSavedRequests .table (oneRequest 9 2)
        (clearAllZoneRequests .table (oneStoredContext 5 2)) = .ok ctx' ∧
      ctx'.store.held = syncHeld (oneRequest 9 2) 0 ∧
      (∀ r ∈ ctx'.store.requests, r.isNew = true) ∧
      ∀ i ∈ ctx'.store.items, i.checked = false :=
  cleared_forgets (fun _ => "north") (oneStoredContext 5 2) .table .table (oneRequest 9 2)
    (oneStored_reachable 5 2) (oneRequest_fetched 9 2)

end Clear

end Answr
