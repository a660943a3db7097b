import Mathlib.Data.List.DropRight
import Answr.Unique
import Answr.Refresh
import Answr.RoundTrip
set_option autoImplicit false

/-! The zones that an `AssignedZones` string lists, those that are read for it and those
that end up in the store. The pieces of the string go into the paths as they are. -/

namespace Answr
open Loops LeafTree Countdown Steps

section Strings

def trim (s : String) : String :=
  String.ofList ((s.toList.dropWhile (· == ' ')).rdropWhile (· == ' '))

/-- The zone ids that a string lists. -/
def listed (s : String) : List String := ((components s).map trim).filter (· ≠ "")

theorem trim_trim (s : String) : trim (trim s) = trim s := by
  have hdrop : ∀ l : List Char, ((l.dropWhile (· == ' ')).rdropWhile (· == ' ')).dropWhile
      (· == ' ') = (l.dropWhile (· == ' ')).rdropWhile (· == ' ') := by
    intro l
    rw [List.dropWhile_eq_self_iff]
    intro hpos hspace
    have hstart := List.rdropWhile_prefix (· == ' ') (l := l.dropWhile (· == ' '))
    have hlen := Nat.lt_of_lt_of_le hpos hstart.length_le
    rw [hstart.getElem hpos] at hspace
    have hfirst := List.dropWhile_get_zero_not (· == ' ') l hlen
    exact hfirst (by simpa using hspace)
  rw [trim,trim,String.toList_ofList,hdrop,List.rdropWhile_idempotent]

theorem not_mem_of_mem_splitOn {α : Type} [DecidableEq α] {a : α} {xs piece : List α}
    (h : piece ∈ xs.splitOn a) : a ∉ piece := by
  rw [List.splitOn_eq_splitOnP] at h
  induction xs generalizing piece with
  | nil =>
    rw [List.splitOnP_nil,List.mem_singleton] at h
    simp [h]
  | cons x xs ih =>
    rw [List.splitOnP_cons_eq_if_modifyHead] at h
    split at h
    · rcases List.mem_cons.mp h with rfl | h
      · simp
      · exact ih h
    · rename_i hx
      cases hs : xs.splitOnP (· == a) with
      | nil => simp [hs] at h
      | cons head rest =>
        rw [hs,List.modifyHead_cons,List.mem_cons] at h
        rcases h with rfl | h
        · have hhead := ih (by simp [hs] : head ∈ xs.splitOnP (· == a))
          simp only [List.mem_cons,not_or]
          exact ⟨fun heq => hx (by simp [heq]),hhead⟩
        · exact ih (by simp [hs,h])

theorem isKey_of_mem_segments {path key : String} (h : key ∈ segments path) : IsKey key := by
  obtain ⟨piece,hmem,rfl⟩ := List.mem_map.mp h
  obtain ⟨hpiece,hne⟩ := List.mem_filter.mp hmem
  have hslash := not_mem_of_mem_splitOn hpiece
  simp only [Bool.not_eq_true',List.isEmpty_eq_false_iff] at hne
  simp [IsKey,segments,List.splitOn_eq_singleton hslash,hne]

theorem zoneRef_eq (zoneid : String) : zoneRef zoneid = "requests" :: segments zoneid := by
  have h : segments "requests" = ["requests"] := rfl
  simp [zoneRef,childFromString,h]

end Strings

section Reads

def RequestFetch.reads (zoneID : String) : RequestFetch → List Path
  | .reading id => [requestRef zoneID id]
  | .malformed id => [requestRef zoneID id]
  | .wellFormed id body =>
    requestRef zoneID id :: (body.items.subs.map (fun read => itemRef read.itemID) ++
      body.elderly.map fun _ => elderlyRef body.fields.senderID)

def ZoneFetch.reads : ZoneFetch → List Path
  | .reading zoneid => [zoneRef zoneid]
  | .absent zoneid => [zoneRef zoneid]
  | .present zoneid requests =>
    zoneRef zoneid :: requests.subs.flatMap (RequestFetch.reads zoneid)

def Fetch.reads : Fetch → List Path
  | .fetching zones => zones.subs.flatMap ZoneFetch.reads
  | _ => []

/-- The pieces for which the loop over the zones issues a read: it ends, and the app with
it, at the first piece that `child` refuses. -/
def issued (zones : List String) : List String :=
  zones.takeWhile fun zone => decide (ValidPart zone)

variable {zh : Bool} {A : Answers} {zoneid id uid : String} {path : Path}

theorem RequestFetch.reads_below {f : RequestFetch} (h : path ∈ f.reads zoneid)
    (hhead : path.head? = some "requests") : zoneRef zoneid <+: path := by
  have hown : ∀ id, zoneRef zoneid <+: requestRef zoneid id := by
    intro id
    rw [zoneRef_eq,child_requests,← List.cons_append]
    exact List.prefix_append _ _
  cases f with
  | reading id' => exact List.mem_singleton.mp h ▸ hown id'
  | malformed id' => exact List.mem_singleton.mp h ▸ hown id'
  | wellFormed id' body =>
    rcases List.mem_cons.mp h with rfl | h
    · exact hown id'
    · have hitems : segments "items" = ["items"] := rfl
      have helderly : segments "elderly" = ["elderly"] := rfl
      rcases List.mem_append.mp h with h | h
      · obtain ⟨read,-,rfl⟩ := List.mem_map.mp h
        simp [itemRef,childFromString,hitems] at hhead
      · obtain ⟨read,-,rfl⟩ := List.mem_map.mp h
        simp [elderlyRef,childFromString,helderly] at hhead

theorem ZoneFetch.Tracks.reads {z : ZoneFetch} (h : z.Tracks zh A zoneid) :
    zoneRef zoneid ∈ z.reads ∧
    ∀ path ∈ z.reads, path.head? = some "requests" → zoneRef zoneid <+: path := by
  cases z with
  | reading zoneid' =>
    obtain rfl : zoneid' = zoneid := h
    simp [ZoneFetch.reads]
  | absent zoneid' =>
    obtain rfl := h.1
    simp [ZoneFetch.reads]
  | present zoneid' requests =>
    obtain rfl := h.1
    refine ⟨by simp [ZoneFetch.reads],fun path hpath hhead => ?_⟩
    rcases List.mem_cons.mp hpath with rfl | hpath
    · exact List.prefix_rfl
    · obtain ⟨f,-,hf⟩ := List.mem_flatMap.mp hpath
      exact f.reads_below hf hhead

theorem Fetch.Tracks.reads {j : Join ZoneFetch ZoneRequests}
    (h : (Fetch.fetching j).Tracks zh A uid) : ∃ zones, retrieveZones uid (A []) = some zones ∧
      (∀ zoneid ∈ zones, zoneRef zoneid ∈ (Fetch.fetching j).reads) ∧
      ∀ path ∈ (Fetch.fetching j).reads, path.head? = some "requests" →
        ∃ zoneid ∈ zones, zoneRef zoneid <+: path := by
  obtain ⟨zones,hzones,-,htracks⟩ := h
  refine ⟨zones,hzones,fun zoneid hmem => ?_,fun path hpath hhead => ?_⟩
  · obtain ⟨i,hi,rfl⟩ := List.getElem_of_mem hmem
    have hi' : i < j.subs.length := htracks.length ▸ hi
    obtain ⟨zoneid',hid,hz⟩ := htracks.subs i j.subs[i] (List.getElem?_eq_getElem hi')
    rw [List.getElem?_eq_getElem hi,Option.some.injEq] at hid
    subst hid
    exact List.mem_flatMap.mpr ⟨_,List.getElem_mem hi',hz.reads.1⟩
  · obtain ⟨z,hz,hmem⟩ := List.mem_flatMap.mp hpath
    obtain ⟨i,hi⟩ := List.getElem?_of_mem hz
    obtain ⟨zoneid,hid,htracks⟩ := htracks.subs i z hi
    exact ⟨zoneid,List.mem_of_getElem? hid,htracks.reads.2 path hmem hhead⟩

end Reads

section Stored

variable {ord : FetchOrder} {ctx ctx' : Context} {snapshot : List ZoneRequests}

theorem RequestRound.zones {oreq : Request} {more : List Request} {id : String} {s t : ZoneLoop}
    (h : RequestRound ord oreq more id s t) : t.ctx.store.zones = s.ctx.store.zones := by
  have hfirst : ∀ {act : CDRequest → Context → Context} {ctx : Context} (rows : List CDRequest),
      (∀ row, (act row ctx).store.zones = ctx.store.zones) →
      (onFirst rows act ctx).store.zones = ctx.store.zones := by
    intro act ctx rows hact
    unfold onFirst
    split
    · exact hact _
    · rfl
  cases h with
  | matched pre nreq suf =>
    dsimp only
    split
    · exact hfirst _ fun _ => rfl
    · rfl
  | unmatched => exact hfirst _ fun _ => rfl

theorem addRequestToZoneUsingID_zones (zoneid : String) (req : Request) (ctx : Context) :
    (addRequestToZoneUsingID ord zoneid req ctx).store.zones = ctx.store.zones := by
  unfold addRequestToZoneUsingID onFirst
  split
  · rfl
  · rfl

def zoneCount (zoneid : String) (s : Store) : Nat :=
  s.zones.countP fun c => c.zoneid == some zoneid

theorem countP_filter_lt {α : Type} {p q : α → Bool} {l : List α} {x : α} (hx : x ∈ l)
    (hp : p x = true) (hq : q x = false) : (l.filter q).countP p < l.countP p := by
  have hsplit := List.countP_eq_countP_filter_add l p q
  have hpos : 0 < (l.filter fun y => !q y).countP p :=
    List.countP_pos_iff.mpr ⟨x,List.mem_filter.mpr ⟨hx,by simp [hq]⟩,hp⟩
  omega

theorem deleteZoneRequest_count (ord : FetchOrder) (zoneid : String) (ctx : Context) :
    zoneCount zoneid (deleteZoneRequest ord zoneid ctx).store ≤ zoneCount zoneid ctx.store - 1 := by
  cases hh : (fetchZones ord zoneid ctx).head? with
  | some c =>
    obtain ⟨hc,hcz⟩ := mem_fetchZones.mp (List.mem_of_head? hh)
    rw [deleteZoneRequest_store ord hh]
    have hlt : zoneCount zoneid (ctx.store.deleteZone c) < zoneCount zoneid ctx.store :=
      countP_filter_lt hc (by simp [hcz]) (by simp)
    omega
  | none =>
    have hstore : (deleteZoneRequest ord zoneid ctx).store = ctx.store := by
      simp [deleteZoneRequest,onFirst,hh]
    have hnone : zoneCount zoneid ctx.store = 0 := by
      rw [zoneCount,List.countP_eq_zero]
      intro c hc hcz
      have hmem : c ∈ fetchZones ord zoneid ctx := mem_fetchZones.mpr ⟨hc,by simpa using hcz⟩
      rw [List.head?_eq_none_iff.mp hh] at hmem
      cases hmem
    rw [hstore,hnone]

theorem deleteZoneRequest_sublist (ord : FetchOrder) (zoneid : String) (ctx : Context) :
    (deleteZoneRequest ord zoneid ctx).store.zones.Sublist ctx.store.zones := by
  cases hh : (fetchZones ord zoneid ctx).head? with
  | some c =>
    rw [deleteZoneRequest_store ord hh]
    exact List.filter_sublist
  | none => simp [deleteZoneRequest,onFirst,hh]

theorem ZoneRound.zones {ozr : ZoneRequests} {rest : List ZoneRequests} {s t : SyncLoop}
    (h : ZoneRound ord ozr rest s t) (hids : Identified ozr.requests) :
    (∃ z ∈ s.newZoneRequests, z.zoneid = ozr.zoneid) ∧
      t.ctx.store.zones = s.ctx.store.zones ∨
    t.ctx = deleteZoneRequest ord ozr.zoneid s.ctx := by
  cases h with
  | deleted => exact .inr rfl
  | merged pre nzr suf done hsplit hid hvisits =>
    obtain ⟨-,hzones⟩ := hvisits.inv (fun w => Identified w.oldRequests ∧
        w.ctx.store.zones = s.ctx.store.zones) ⟨hids,rfl⟩ (by
      rintro w x - ⟨hw,hzones⟩ hmore hbody
      obtain ⟨oreq,more,id,hcons,-,hround⟩ := requestRound_of_ok hw hmore hbody
      refine ⟨?_,hround.zones.trans hzones⟩
      rw [hround.oldRequests]
      exact fun req hreq => hw req (by simp [hcons,hreq]))
    have hadd : ∀ (reqs : List Request) (ctx : Context), (reqs.foldl
        (fun ctx req => addRequestToZoneUsingID ord ozr.zoneid req ctx) ctx).store.zones =
        ctx.store.zones := by
      intro reqs
      induction reqs with
      | nil => exact fun _ => rfl
      | cons req reqs ih => exact fun ctx => (ih _).trans (addRequestToZoneUsingID_zones _ _ _)
    exact .inl ⟨⟨nzr,by simp [hsplit],hid⟩,(hadd _ _).trans hzones⟩

structure ZonesLeft (ctx : Context) (snapshot : List ZoneRequests) (s : SyncLoop) : Prop where
  identified : ∀ ozr ∈ s.oldZoneRequests, Identified ozr.requests
  newZoneRequests : s.newZoneRequests.Sublist snapshot
  zones : s.ctx.store.zones.Sublist ctx.store.zones
  count : ∀ zoneid, (∀ z ∈ snapshot, z.zoneid ≠ zoneid) → zoneCount zoneid s.ctx.store ≤
    s.oldZoneRequests.countP fun z => z.zoneid == zoneid

theorem zonesLeft_start (hs : ctx.store.Saved) :
    ZonesLeft ctx snapshot (syncStart ord snapshot ctx) := by
  refine ⟨identified_start hs,.refl _,.refl _,fun zoneid _ => ?_⟩
  simp only [syncStart,List.countP_map,zoneCount]
  rw [← (sortedZones_perm ord ctx).countP_eq]
  refine List.countP_mono_left fun c _ hcz => ?_
  simp only [beq_iff_eq] at hcz
  simp [readZone,hcz]

theorem ZonesLeft.step {ozr : ZoneRequests} {rest : List ZoneRequests} {s t : SyncLoop}
    (h : ZonesLeft ctx snapshot s) (hold : s.oldZoneRequests = ozr :: rest)
    (hround : ZoneRound ord ozr rest s t) : ZonesLeft ctx snapshot t := by
  have hzones := hround.zones (h.identified ozr (by simp [hold]))
  refine ⟨?_,hround.newZoneRequests_sublist.trans h.newZoneRequests,?_,fun zoneid hnone => ?_⟩
  · rw [hround.oldZoneRequests]
    exact fun zone hzone => h.identified zone (by simp [hold,hzone])
  · rcases hzones with ⟨-,heq⟩ | heq
    · exact heq ▸ h.zones
    · rw [heq]
      exact (deleteZoneRequest_sublist ord ozr.zoneid s.ctx).trans h.zones
  · have hcount := h.count zoneid hnone
    rw [hold,List.countP_cons] at hcount
    rw [hround.oldZoneRequests]
    rcases hzones with ⟨⟨z,hz,hzid⟩,heq⟩ | heq
    · have hne : ozr.zoneid ≠ zoneid := hzid ▸ hnone z (h.newZoneRequests.subset hz)
      simpa [zoneCount,heq,hne] using hcount
    · rw [heq]
      by_cases hid : ozr.zoneid = zoneid
      · subst hid
        have hle := deleteZoneRequest_count ord ozr.zoneid s.ctx
        simp only [beq_self_eq_true,if_true] at hcount
        omega
      · have hle : zoneCount zoneid (deleteZoneRequest ord ozr.zoneid s.ctx).store ≤
            zoneCount zoneid s.ctx.store :=
          (deleteZoneRequest_sublist ord ozr.zoneid s.ctx).countP_le
        simp only [beq_iff_eq,hid,if_false,Nat.add_zero] at hcount
        exact hle.trans hcount

theorem saveZoneRequest_zones (z : ZoneRequests) (ctx : Context) :
    (saveZoneRequest z ctx).store.zones =
      ctx.store.zones ++ [⟨ctx.store.nextID,some z.zoneid⟩] := by
  have hadd : ∀ (c : CDZoneRequests) (reqs : List Request) (ctx : Context), (reqs.foldl
      (fun ctx req => addRequestToZoneRequest c req ctx) ctx).store.zones = ctx.store.zones := by
    intro c reqs
    induction reqs with
    | nil => exact fun _ => rfl
    | cons req reqs ih => exact fun ctx => (ih _).trans rfl
  simp [saveZoneRequest,hadd,Store.addZone]

theorem foldl_saveZoneRequest_zones (zs : List ZoneRequests) (ctx : Context) :
    (zs.foldl (fun ctx z => saveZoneRequest z ctx) ctx).store.zones.map (·.zoneid) =
      ctx.store.zones.map (·.zoneid) ++ zs.map fun z => some z.zoneid := by
  induction zs generalizing ctx with
  | nil => simp
  | cons z zs ih =>
    rw [List.foldl_cons,ih,saveZoneRequest_zones]
    simp

theorem zones_of_sync (hs : ctx.store.Saved)
    (hrun : updateSavedRequests ord snapshot ctx = .ok ctx') :
    ∀ c ∈ ctx'.store.zones, ∃ z ∈ snapshot, c.zoneid = some z.zoneid := by
  obtain ⟨t,ht,hvisits,hdone⟩ := updateSavedRequests_ends ord snapshot hs
  obtain rfl := Except.ok.inj (ht.symm.trans hrun)
  have hend := hvisits.inv (ZonesLeft ctx snapshot) (zonesLeft_start hs) (by
    intro u v _ hi hmore hbody
    obtain ⟨ozr,rest,hold,hround⟩ := zoneRound_of_ok hi.identified hmore hbody
    exact hi.step hold hround)
  intro c hc
  have hmem := List.mem_map_of_mem (f := fun c : CDZoneRequests => c.zoneid) hc
  rw [foldl_saveZoneRequest_zones,List.mem_append] at hmem
  rcases hmem with hold | hnew
  · obtain ⟨c',hc',hcz'⟩ := List.mem_map.mp hold
    have hcz' : c'.zoneid = c.zoneid := hcz'
    obtain ⟨zoneid,hz⟩ := Option.isSome_iff_exists.mp
      (hs.zoneFields c' (hend.zones.subset hc'))
    by_contra hout
    have hcount := hend.count zoneid fun z hzm heq => hout ⟨z,hzm,by rw [← hcz',hz,heq]⟩
    rw [hdone,List.countP_nil,Nat.le_zero,zoneCount,List.countP_eq_zero] at hcount
    exact hcount c' hc' (by simp [hz])
  · obtain ⟨z,hz,hcz⟩ := List.mem_map.mp hnew
    exact ⟨z,hend.newZoneRequests.subset hz,hcz.symm⟩

end Stored

section Listed

/-- The volunteer's record has this `AssignedZones` string, and the keys of every database
that a read finds are proper. -/
structure Assigns (s uid : String) (A : Answers) : Prop where
  assigned : childString (volunteerRef uid) "AssignedZones" (A []) = some s
  keyed : ∀ path, Keyed (A path)

/-- For every server and at every time of a fetch: what is read under requests is at or
below the node of a listed zone, also by a loop that `child` stops; all listed zones are
read, and only listed children of requests end up in a store. -/
structure FetchesListed (s : String) : Prop where
  started : ∀ A uid zones, Assigns s uid A → retrieveZones uid (A []) = some zones →
    ∀ zone ∈ issued zones, ∃ z ∈ listed s, ["requests",z] <+: zoneRef zone
  reads : ∀ zh A uid run, Assigns s uid A →
    Reaches (FetchRun.step zh) (fun _ => Answered A) (.start uid) run →
    ∀ path ∈ run.state.reads, path.head? = some "requests" →
      ∃ z ∈ listed s, ["requests",z] <+: path
  all : ∀ zh A uid run zones, Assigns s uid A →
    Reaches (FetchRun.step zh) (fun _ => Answered A) (.start uid) run →
    run.state = .fetching zones → ∀ z ∈ listed s, ["requests",z] ∈ run.state.reads
  stored : ∀ zh A uid snapshot, Assigns s uid A → FetchedBy zh A uid snapshot →
    ∀ ord ctx ctx', ctx.store.Saved → updateSavedRequests ord snapshot ctx = .ok ctx' →
    ∀ c ∈ ctx'.store.zones, ∃ z ∈ listed s, c.zoneid = some z ∧
      ∃ i, z ∈ keys ["requests"] (A [i])

variable {zh : Bool} {A : Answers} {s uid zoneid : String} {snapshot : List ZoneRequests}

theorem Assigns.zones (h : Assigns s uid A) : retrieveZones uid (A []) = some (components s) := by
  rw [retrieveZones,h.assigned]
  rfl

theorem FetchedBy.zone (h : FetchedBy zh A uid snapshot) (ha : Assigns s uid A)
    {z : ZoneRequests} (hz : z ∈ snapshot) :
    ∃ i, (components s)[i]? = some z.zoneid ∧ below (zoneRef z.zoneid) (A [i]) ≠ [] := by
  obtain ⟨zones,hzones,hsame⟩ := h.same
  obtain rfl := Option.some.inj (ha.zones.symm.trans hzones)
  obtain ⟨z',hz',hzz⟩ := hsame.exists_left hz
  obtain ⟨i,piece,hi,hfetched⟩ := mem_numbered hz'
  rw [fetchedZone] at hfetched
  split at hfetched
  · cases hfetched
  · rename_i hne
    have hid : piece = z'.zoneid := congrArg ZoneRequests.zoneid (Option.some.inj hfetched)
    rw [hzz.1,← hid]
    exact ⟨i,hi,hne⟩

/-- A database in which the only node under requests is that of the piece with the number
`i`. -/
def onlyPiece (s piece : String) (i : Nat) : Answers := fun path =>
  if path = [] then [(volunteerRef "u1" ++ ["AssignedZones"],.string s)]
  else if path = [i] then [(zoneRef piece ++ ["x"],.bool true)]
  else []

theorem onlyPiece_assigns (s piece : String) (i : Nat) :
    Assigns s "u1" (onlyPiece s piece i) where
  assigned := by simp [onlyPiece,childString,childValue,LeafTree.get,Leaf.asString]
  keyed := by
    have hu : ∀ key ∈ volunteerRef "u1" ++ ["AssignedZones"], IsKey key := by decide
    have hzone : ∀ key ∈ zoneRef piece ++ ["x"], IsKey key := by
      intro key hkey
      rw [zoneRef_eq,List.cons_append,List.mem_cons,List.mem_append] at hkey
      rcases hkey with rfl | hkey | hkey
      · rfl
      · exact isKey_of_mem_segments hkey
      · obtain rfl := List.mem_singleton.mp hkey
        rfl
    intro path e he key hkey
    unfold onlyPiece at he
    split at he
    · obtain rfl := List.mem_singleton.mp he
      exact hu key hkey
    · split at he
      · obtain rfl := List.mem_singleton.mp he
        exact hzone key hkey
      · cases he

theorem onlyPiece_fetched {s piece : String} {i : Nat} (hi : (components s)[i]? = some piece)
    (hvalid : ∀ piece ∈ components s, ValidPart piece) :
    ∃ snapshot, FetchedBy false (onlyPiece s piece i) "u1" snapshot ∧
      ∃ z ∈ snapshot, z.zoneid = piece := by
  have ha := onlyPiece_assigns s piece i
  have hbelow : below (zoneRef piece) (onlyPiece s piece i [i]) =
      [(zoneRef piece ++ ["x"],.bool true)] := by
    simp [below,onlyPiece]
  have hkeys : keys (zoneRef piece) (onlyPiece s piece i [i]) = ["x"] := by
    simp [keys,hbelow]
  have hfine : ZonesFine false (onlyPiece s piece i) "u1" := by
    refine ⟨components s,ha.zones,hvalid,fun j zoneid hj => ?_⟩
    by_cases hji : j = i
    · subst hji
      obtain rfl := Option.some.inj (hi.symm.trans hj)
      have hx : ValidPart "x" := by decide
      refine .inr ⟨by rw [Answers.below,hkeys]; simp,by rw [Answers.below,hkeys]; simpa using hx,
        fun k id _ => .inl ?_⟩
      simp [Answers.below,onlyPiece,requestFields,childValue,LeafTree.get]
    · exact .inl (by simp [Answers.below,below,onlyPiece,hji])
  obtain ⟨run,hr,hset⟩ := exists_settled (progresses_fetch false (onlyPiece s piece i) "u1")
    (fun run hr => (FetchRun.keeps hr).ok)
    (fun run hr m hm => FetchRun.goes hr hfine.fits hm) .start
  have hkeeps := FetchRun.keeps hr
  have hcalled := hkeeps.called_iff.mpr ((hkeeps.ok.fired_iff hset).mpr hfine)
  obtain ⟨snapshot,hmem⟩ := List.exists_mem_of_ne_nil _ hcalled
  have hfetched : FetchedBy false (onlyPiece s piece i) "u1" snapshot := ⟨run,hr,hmem⟩
  refine ⟨snapshot,hfetched,?_⟩
  obtain ⟨zones,hzones,hsame⟩ := hfetched.same
  obtain rfl := Option.some.inj (ha.zones.symm.trans hzones)
  have hzone : fetchedZone false ((onlyPiece s piece i).below i) piece = some ⟨piece,[]⟩ := by
    rw [fetchedZone,Answers.below,hbelow,hkeys,if_neg (by simp)]
    simp [numbered,fetchedRequest,requestFields,childValue,LeafTree.get,onlyPiece,Answers.below]
  have hmem' : (⟨piece,[]⟩ : ZoneRequests) ∈
      fetchedZones false (onlyPiece s piece i) (components s) :=
    List.mem_filterMap.mpr ⟨(piece,i),List.mk_mem_zipIdx_iff_getElem?.mpr hi,hzone⟩
  obtain ⟨z,hz,hzz⟩ := (hsame.symm fun _ _ => SameZone.symm).exists_left hmem'
  exact ⟨z,hz,hzz.1.symm⟩

theorem sync_empty (ord : FetchOrder) (snapshot : List ZoneRequests) :
    updateSavedRequests ord snapshot ⟨.empty,[]⟩ =
      .ok (snapshot.foldl (fun ctx zonereq => saveZoneRequest zonereq ctx) ⟨.empty,[]⟩) := by
  obtain ⟨t,ht,hvisits,-⟩ := @updateSavedRequests_ends ⟨.empty,[]⟩ ord snapshot Store.saved_empty
  have hstart : syncStart ord snapshot ⟨.empty,[]⟩ = ⟨[],snapshot,⟨.empty,[]⟩⟩ := by
    have hnil := (sortedZones_perm ord ⟨.empty,[]⟩).length_eq
    rw [syncStart,List.eq_nil_of_length_eq_zero hnil]
    rfl
  obtain rfl : t = ⟨[],snapshot,⟨.empty,[]⟩⟩ := by
    refine hvisits.inv (fun u => u = ⟨[],snapshot,⟨.empty,[]⟩⟩) hstart ?_
    rintro u v - rfl hmore -
    cases hmore
  exact ht

theorem saved_into_empty {z : ZoneRequests} (hz : z ∈ snapshot) :
    ∃ ctx', updateSavedRequests .table snapshot ⟨.empty,[]⟩ = .ok ctx' ∧
      ∃ c ∈ ctx'.store.zones, c.zoneid = some z.zoneid := by
  refine ⟨_,sync_empty .table snapshot,List.mem_map.mp ?_⟩
  rw [foldl_saveZoneRequest_zones]
  exact List.mem_append_right _ (List.mem_map_of_mem hz)

theorem FetchesListed.piece (h : FetchesListed s) (hvalid : ∀ piece ∈ components s, ValidPart piece)
    {piece : String} (hpiece : piece ∈ components s) : IsKey piece ∧ trim piece = piece := by
  obtain ⟨i,hi⟩ := List.getElem?_of_mem hpiece
  have ha := onlyPiece_assigns s piece i
  obtain ⟨snapshot,hfetched,z,hz,hid⟩ := onlyPiece_fetched hi hvalid
  obtain ⟨ctx',hrun,c,hc,hcz⟩ := saved_into_empty hz
  obtain ⟨piece',hlisted,hcz',j,hkey⟩ := h.stored _ _ _ _ ha hfetched _ _ _ Store.saved_empty
    hrun c hc
  rw [hid] at hcz
  obtain rfl : piece' = piece := Option.some.inj (hcz'.symm.trans hcz)
  constructor
  · obtain ⟨q,v,hleaf⟩ := (mem_keys _ _).mp hkey
    exact ha.keyed [j] _ hleaf piece' (by simp)
  · obtain ⟨piece,-,rfl⟩ := List.mem_map.mp (List.mem_of_mem_filter hlisted)
    exact trim_trim piece

theorem mem_listed (hpieces : ∀ piece ∈ components s, IsKey piece ∧ trim piece = piece)
    {z : String} : z ∈ listed s ↔ z ∈ components s := by
  have htrim : (components s).map trim = (components s).map id :=
    List.map_congr_left fun piece hpiece => (hpieces piece hpiece).2
  rw [listed,htrim,List.map_id,List.mem_filter]
  refine and_iff_left_of_imp fun hz => ?_
  have hkey := (hpieces z hz).1
  simp only [decide_eq_true_eq]
  rintro rfl
  cases hkey

theorem reads_of_keys (hpieces : ∀ piece ∈ components s, IsKey piece) {run : FetchRun}
    {zones : Join ZoneFetch ZoneRequests} (ha : Assigns s uid A)
    (hr : Reaches (FetchRun.step zh) (fun _ => Answered A) (.start uid) run)
    (hstate : run.state = .fetching zones) :
    (∀ z ∈ components s, ["requests",z] ∈ run.state.reads) ∧
    ∀ path ∈ run.state.reads, path.head? = some "requests" →
      ∃ z ∈ components s, ["requests",z] <+: path := by
  have htracks := (FetchRun.keeps hr).ok
  rw [hstate] at htracks ⊢
  obtain ⟨zones,hzones,hall,hbelow⟩ := htracks.reads
  obtain rfl := Option.some.inj (ha.zones.symm.trans hzones)
  refine ⟨fun z hz => ?_,fun path hpath hhead => ?_⟩
  · rw [← zoneRef_key (hpieces z hz)]
    exact hall z hz
  · obtain ⟨z,hz,hstart⟩ := hbelow path hpath hhead
    rw [zoneRef_key (hpieces z hz)] at hstart
    exact ⟨z,hz,hstart⟩

theorem FetchedBy.child (h : FetchedBy zh A uid snapshot) (ha : Assigns s uid A)
    (hpieces : ∀ piece ∈ components s, IsKey piece) {z : ZoneRequests} (hz : z ∈ snapshot) :
    z.zoneid ∈ components s ∧ ∃ i, z.zoneid ∈ keys ["requests"] (A [i]) := by
  obtain ⟨i,hi,hne⟩ := h.zone ha hz
  have hpiece := List.mem_of_getElem? hi
  refine ⟨hpiece,i,?_⟩
  rw [zoneRef_key (hpieces _ hpiece)] at hne
  obtain ⟨⟨path,v⟩,hleaf⟩ := List.exists_mem_of_ne_nil _ hne
  obtain ⟨hleaf,hstart⟩ := List.mem_filter.mp hleaf
  obtain ⟨q,rfl⟩ : ["requests",z.zoneid] <+: path := by simpa using hstart
  exact (mem_keys _ _).mpr ⟨q,v,hleaf⟩

/-- The path of a piece begins with a zone that the string lists. -/
def BeginsListed (s piece : String) : Prop := ∃ z ∈ listed s, (segments piece).head? = some z

instance (s piece : String) : Decidable (BeginsListed s piece) :=
  inferInstanceAs (Decidable (∃ z ∈ listed s, _))

theorem beginsListed_iff {piece : String} :
    BeginsListed s piece ↔ ∃ z ∈ listed s, ["requests",z] <+: zoneRef piece := by
  rw [zoneRef_eq,BeginsListed]
  refine exists_congr fun z => and_congr_right fun _ => ?_
  cases segments piece <;> simp [eq_comm]

theorem valid_of_fetching {run : FetchRun} {zones : Join ZoneFetch ZoneRequests}
    (ha : Assigns s uid A)
    (hr : Reaches (FetchRun.step zh) (fun _ => Answered A) (.start uid) run)
    (hstate : run.state = .fetching zones) : ∀ piece ∈ components s, ValidPart piece := by
  have htracks := (FetchRun.keeps hr).ok
  rw [hstate] at htracks
  obtain ⟨zones,hzones,hvalid,-⟩ := htracks
  obtain rfl := Option.some.inj (ha.zones.symm.trans hzones)
  exact hvalid

theorem FetchedBy.valid (h : FetchedBy zh A uid snapshot) (ha : Assigns s uid A) :
    ∀ piece ∈ components s, ValidPart piece := by
  obtain ⟨run,hr,hmem⟩ := h
  have hkeeps := FetchRun.keeps hr
  have hfired := hkeeps.called_iff.mp (List.ne_nil_of_mem hmem)
  cases hstate : run.state with
  | fetching zones => exact valid_of_fetching ha hr hstate
  | reading uid' => simp [hstate,Fetch.fired] at hfired
  | refused => simp [hstate,Fetch.fired] at hfired

/-- A string is fetched as it lists exactly if the loop begins each path with a listed zone
and, where it comes to its end, each piece is a key with no spaces around it. -/
theorem fetchesListed_iff (s : String) :
    FetchesListed s ↔ (∀ piece ∈ issued (components s), BeginsListed s piece) ∧
      ((∀ piece ∈ components s, ValidPart piece) →
        ∀ piece ∈ components s, IsKey piece ∧ trim piece = piece) := by
  refine ⟨fun h => ⟨fun piece hpiece => ?_,fun hvalid _ hpiece => h.piece hvalid hpiece⟩,
    fun ⟨hissued,hall⟩ => ?_⟩
  · have ha := onlyPiece_assigns s piece 0
    exact beginsListed_iff.mpr (h.started _ _ _ ha ha.zones piece hpiece)
  refine ⟨fun A uid zones ha hzones zone hzone => ?_,
    fun zh A uid run ha hr path hpath hhead => ?_,
    fun zh A uid run zones ha hr hstate z hz => ?_,
    fun zh A uid snapshot ha hfetched ord ctx ctx' hs hrun c hc => ?_⟩
  · obtain rfl := Option.some.inj (ha.zones.symm.trans hzones)
    exact beginsListed_iff.mp (hissued zone hzone)
  · cases hstate : run.state with
    | fetching zones =>
      have hpieces := hall (valid_of_fetching ha hr hstate)
      have hkeys : ∀ piece ∈ components s, IsKey piece := fun piece hp => (hpieces piece hp).1
      obtain ⟨z,hz,hstart⟩ := (reads_of_keys hkeys ha hr hstate).2 path hpath hhead
      exact ⟨z,(mem_listed hpieces).mpr hz,hstart⟩
    | reading uid' => simp [hstate,Fetch.reads] at hpath
    | refused => simp [hstate,Fetch.reads] at hpath
  · have hpieces := hall (valid_of_fetching ha hr hstate)
    have hkeys : ∀ piece ∈ components s, IsKey piece := fun piece hp => (hpieces piece hp).1
    exact (reads_of_keys hkeys ha hr hstate).1 z ((mem_listed hpieces).mp hz)
  · have hpieces := hall (hfetched.valid ha)
    have hkeys : ∀ piece ∈ components s, IsKey piece := fun piece hp => (hpieces piece hp).1
    obtain ⟨z,hz,hcz⟩ := zones_of_sync hs hrun c hc
    obtain ⟨hpiece,hchild⟩ := hfetched.child ha hkeys hz
    exact ⟨z.zoneid,(mem_listed hpieces).mpr hpiece,hcz,hchild⟩

def unassignedServer : Database := [(["volunteer","u1","AssignedZones"],.string "")]

/-- The string has one empty piece, and all requests are read for it. -/
theorem not_fetchesListed : ¬ ∀ s, FetchesListed s := by
  intro h
  have hrun : play (FetchRun.step false) (fun _ m => m.2 = unassignedServer) (.start "u1")
      [([],unassignedServer)] = some ⟨.fetching (.start [.reading ""]),[]⟩ := rfl
  have hr : Reaches (FetchRun.step false) (fun _ => Answered fun _ => unassignedServer)
      (.start "u1") ⟨.fetching (.start [.reading ""]),[]⟩ :=
    (reaches_of_play hrun).mono fun _ _ h => h
  have ha : Assigns "" "u1" fun _ => unassignedServer := ⟨rfl,fun _ => by decide⟩
  obtain ⟨z,hz,-⟩ := (h "").reads _ _ _ _ ha hr ["requests"] (by decide) rfl
  have hnone : listed "" = [] := by decide
  rw [hnone] at hz
  cases hz

end Listed

end Answr
