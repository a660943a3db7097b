import Answr.FetchEnds
set_option autoImplicit false

/-! The items of a request that `getRequest` delivers, beside the content of its record.
A content child whose item the catalogue does not describe is left out. -/

namespace Answr
open LeafTree Countdown Steps

section Ordered

/-- The item ids and quantities of a content node. -/
def ordered (reads : List ItemRead) : List (String × Int) :=
  reads.filterMap fun read => (read.value.bind Leaf.asInt).map fun qty => (read.itemID,qty)

/-- The content children whose catalogue record is well formed when it is read. -/
def catalogued (zh : Bool) (A : Answers) (reads : List ItemRead) : List ItemRead :=
  (reads.zipIdx.filter fun read =>
    (getRequestItem zh read.1.itemID (A [0,read.2])).isSome).map (·.1)

abbrev RequestRun := Calls RequestFetch (Option Request)

def RequestRun.start (id : String) : RequestRun := ⟨.reading id,[]⟩

def RequestRun.step (zh : Bool) (zoneID : String) (run : RequestRun) (m : Reply) :
    Option RequestRun :=
  Calls.step (RequestFetch.answer zh zoneID) run m

variable {zh : Bool} {A : Answers} {zoneID id : String} {run : RequestRun} {req : Request}

theorem getRequestItem_id {itemID : String} {db : Database} {item : RequestItem}
    (h : getRequestItem zh itemID db = some item) : item.id = itemID := by
  simp only [getRequestItem,Option.bind_eq_bind,Option.bind_eq_some_iff,Option.pure_def,
    Option.some.injEq] at h
  obtain ⟨_,-,_,-,_,-,rfl⟩ := h
  rfl

theorem fetchedItems_contents : (fetchedItems zh A zoneID id).map (fun item => (item.id,item.qty)) =
    ordered (catalogued zh A (contentReads zoneID id (A []))) := by
  rw [fetchedItems,ordered,catalogued,numbered,List.map_filterMap,List.filterMap_map,
    List.filterMap_filter]
  refine List.filterMap_congr fun ⟨read,i⟩ _ => ?_
  simp only [fetchedItem]
  cases hitem : getRequestItem zh read.itemID (A [0,i]) with
  | none => simp
  | some item =>
    have hid := getRequestItem_id hitem
    simp [hid,Option.map_bind,Function.comp_def]

theorem delivered_contents
    (hr : Reaches (RequestRun.step zh zoneID) (fun _ => Answered A) (.start id) run)
    (hreq : some req ∈ run.calls) :
    req.quantities.Perm (ordered (catalogued zh A (contentReads zoneID id (A [])))) := by
  have hstart : (RequestFetch.reading id).Tracks zh A zoneID id := rfl
  have hkeeps := Calls.keeps_of_reaches (delivers_request zh A zoneID id) hstart rfl hr
  have hrel := hkeeps.results _ hreq
  rw [fetchedRequest] at hrel
  cases hfields : requestFields zoneID id (A []) with
  | none =>
    rw [hfields] at hrel
    cases hrel
  | some fields =>
    rw [hfields,Option.map_some] at hrel
    obtain ⟨hitems,-⟩ := Option.rel_some_some.mp hrel
    rw [← fetchedItems_contents]
    exact hitems.map _

theorem catalogued_sublist (reads : List ItemRead) :
    (catalogued zh A reads).Sublist reads := by
  have h := (List.filter_sublist (l := reads.zipIdx) (p := fun read =>
    (getRequestItem zh read.1.itemID (A [0,read.2])).isSome)).map Prod.fst
  rwa [List.zipIdx_map_fst] at h

theorem catalogued_eq_iff {reads : List ItemRead} :
    (catalogued zh A reads).length = reads.length ↔
      ∀ i read, reads[i]? = some read →
        (getRequestItem zh read.itemID (A [0,i])).isSome = true := by
  have hlen : reads.length = reads.zipIdx.length := (List.length_zipIdx).symm
  rw [catalogued,List.length_map,hlen,List.length_filter_eq_length_iff]
  constructor
  · intro h i read hread
    exact h (read,i) (List.mk_mem_zipIdx_iff_getElem?.mpr hread)
  · rintro h ⟨read,i⟩ hread
    exact h i read (List.mk_mem_zipIdx_iff_getElem?.mp hread)

theorem ordered_length {reads : List ItemRead}
    (h : ∀ read ∈ reads, (read.value.bind Leaf.asInt).isSome = true) :
    (ordered reads).length = reads.length := by
  rw [ordered,List.filterMap_length_eq_length]
  intro read hread
  rw [Option.isSome_map]
  exact h read hread

theorem contentReads_nodup (db : Database) :
    ((contentReads zoneID id db).map (·.itemID)).Nodup := by
  have hids : (contentReads zoneID id db).map (·.itemID) =
      keys (requestRef zoneID id ++ ["content"]) db := by
    simp [contentReads,Function.comp_def]
  rw [hids]
  exact keys_nodup _ db

theorem ordered_nodup {reads : List ItemRead} (h : (reads.map (·.itemID)).Nodup) :
    ((ordered reads).map Prod.fst).Nodup := by
  have hsub : ((ordered reads).map Prod.fst).Sublist (reads.map (·.itemID)) := by
    induction reads with
    | nil => exact .refl _
    | cons read reads ih =>
      have hrest := ih (List.nodup_cons.mp h).2
      simp only [ordered] at hrest
      cases hqty : read.value.bind Leaf.asInt with
      | none =>
        simp only [ordered,List.filterMap_cons,hqty,Option.map_none,List.map_cons]
        exact hrest.cons _
      | some qty =>
        simp only [ordered,List.filterMap_cons,hqty,Option.map_some,List.map_cons]
        exact hrest.cons_cons _
  exact h.sublist hsub

/-- Whenever a request is delivered, its items are exactly the content children with a
well-formed catalogue record, each once; they are the whole content exactly if all
children have one. -/
theorem getRequest_contents (zh : Bool) (A : Answers) (zoneID id : String) (run : RequestRun)
    (hr : Reaches (RequestRun.step zh zoneID) (fun _ => Answered A) (.start id) run)
    (hint : ∀ read ∈ contentReads zoneID id (A []), (read.value.bind Leaf.asInt).isSome = true)
    (req : Request) (hreq : some req ∈ run.calls) :
    req.quantities.Perm (ordered (catalogued zh A (contentReads zoneID id (A [])))) ∧
    (req.quantities.map Prod.fst).Nodup ∧
    (req.quantities.Perm (ordered (contentReads zoneID id (A []))) ↔
      ∀ i read, (contentReads zoneID id (A []))[i]? = some read →
        (getRequestItem zh read.itemID (A [0,i])).isSome = true) := by
  have hperm := delivered_contents hr hreq
  have hsub := @catalogued_sublist zh A (contentReads zoneID id (A []))
  refine ⟨hperm,?_,?_⟩
  · rw [(hperm.map Prod.fst).nodup_iff]
    exact ordered_nodup ((contentReads_nodup (A [])).sublist (hsub.map _))
  · rw [← catalogued_eq_iff]
    constructor
    · intro h
      have hlen := h.length_eq
      rwa [hperm.length_eq,ordered_length hint,
        ordered_length fun read hread => hint read (hsub.subset hread)] at hlen
    · intro h
      rwa [hsub.eq_of_length h] at hperm

/-- The north's request with an item that the catalogue does not hold. -/
def ghostServer : Database :=
  northServer ++ [(["requests","north","r1","content","ghost"],.number 3)]

def ghostRun : Option RequestRun :=
  play (RequestRun.step false "north") (fun _ m => m.2 = ghostServer) (.start "r1")
    ([[],[0,0],[0,1],[1,0]].map fun path => (path,ghostServer))

theorem ghostRun_delivered : ghostRun.map (fun run => run.calls.map fun req =>
    req.map Request.quantities) = some [some [("rice",2)]] := rfl

theorem reaches_ghostRun {run : RequestRun} (h : ghostRun = some run) :
    Reaches (RequestRun.step false "north") (fun _ => Answered fun _ => ghostServer)
      (.start "r1") run :=
  (reaches_of_play h).mono fun _ _ hm => hm

theorem ghost_quantities : ∀ read ∈ contentReads "north" "r1" ghostServer,
    (read.value.bind Leaf.asInt).isSome = true := by decide

theorem getRequest_contents_ghost : ∃ run : RequestRun, ∃ req, some req ∈ run.calls ∧
    req.quantities.Perm (ordered (catalogued false (fun _ => ghostServer)
      (contentReads "north" "r1" ghostServer))) ∧
    (req.quantities.map Prod.fst).Nodup ∧
    (req.quantities.Perm (ordered (contentReads "north" "r1" ghostServer)) ↔
      ∀ (i : Nat) (read : ItemRead), (contentReads "north" "r1" ghostServer)[i]? = some read →
        (getRequestItem false read.itemID ghostServer).isSome = true) := by
  obtain ⟨run,hplay,hcalls⟩ := Option.map_eq_some_iff.mp ghostRun_delivered
  have hmem : some [("rice",2)] ∈ run.calls.map fun req => req.map Request.quantities := by
    simp [hcalls]
  obtain ⟨call,hcall,hreq⟩ := List.mem_map.mp hmem
  obtain ⟨req,rfl,-⟩ := Option.map_eq_some_iff.mp hreq
  exact ⟨run,req,hcall,getRequest_contents false (fun _ => ghostServer) "north" "r1" run
    (reaches_ghostRun hplay) ghost_quantities req hcall⟩

/-- The rice is delivered and the other item silently left out. -/
theorem not_getRequest_contents : ¬ ∀ (zh : Bool) (A : Answers) (zoneID id : String)
    (run : RequestRun),
    Reaches (RequestRun.step zh zoneID) (fun _ => Answered A) (.start id) run →
    contentReads zoneID id (A []) ≠ [] →
    (∀ read ∈ contentReads zoneID id (A []), (read.value.bind Leaf.asInt).isSome = true) →
    ∀ req, some req ∈ run.calls →
      req.quantities.Perm (ordered (contentReads zoneID id (A []))) := by
  intro h
  obtain ⟨run,hplay,hcalls⟩ := Option.map_eq_some_iff.mp ghostRun_delivered
  have hmem : some [("rice",2)] ∈ run.calls.map fun req => req.map Request.quantities := by
    simp [hcalls]
  obtain ⟨call,hcall,hreq⟩ := List.mem_map.mp hmem
  obtain ⟨req,rfl,hrice⟩ := Option.map_eq_some_iff.mp hreq
  have hperm := h false (fun _ => ghostServer) "north" "r1" run (reaches_ghostRun hplay)
    (by decide) ghost_quantities req hcall
  rw [hrice] at hperm
  have hlen := hperm.length_eq
  rw [show (ordered (contentReads "north" "r1" ghostServer)).length = 2 from rfl] at hlen
  cases hlen

end Ordered

end Answr
