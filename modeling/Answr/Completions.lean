import Answr.Ledger
set_option autoImplicit false

/-! Completions of distinct outstanding requests, interleaved in any way, keep the
ledger: at the end it is the ledger of the requests that remain. -/

namespace Answr
open LeafTree Pool

section Input

/-- The request value that a volunteer completes, and the record it was fetched from. -/
structure Completing where
  uid : String
  request : Request
  record : Record
  deriving DecidableEq, Repr

structure Completing.Carries (c : Completing) : Prop where
  id : c.request.id = some c.record.id
  sender : c.request.senderID = c.record.senderID
  quantities : c.request.quantities.Perm c.record.content

def completeAll (cs : List Completing) : Except Fault (List Op) := do
  let issued ← cs.mapM fun c => markRequestAsComplete (some c.uid) c.request c.record.zoneID
  return issued.flatten

def Completing.ops (c : Completing) : List Op :=
  issuedBy c.request c.record.zoneID c.record.id c.uid

theorem completeAll_ok {cs : List Completing} (h : ∀ c ∈ cs, c.Carries) :
    completeAll cs = .ok (cs.flatMap Completing.ops) := by
  have hall : cs.mapM (fun c =>
      markRequestAsComplete (some c.uid) c.request c.record.zoneID) =
      .ok (cs.map Completing.ops) := by
    induction cs with
    | nil => rfl
    | cons c cs ih =>
      rw [List.mapM_cons,markRequestAsComplete_ok (h c (by simp)).id,
        ih fun c' hc' => h c' (by simp [hc'])]
      rfl
  rw [completeAll,hall,List.flatMap]
  rfl

/-- Completions of some of the outstanding requests, each by a signed-in user. -/
structure CompletionInput (cs : List Completing) (remaining : List Record) (db : Database) :
    Prop where
  outstanding : Outstanding (cs.map (·.record) ++ remaining)
  carries : ∀ c ∈ cs, c.Carries
  uids : ∀ c ∈ cs, IsKey c.uid
  ledger : Ledger db (cs.map (·.record) ++ remaining)

end Input

section Paths

variable {cs : List Completing} {remaining : List Record} {db : Database} {op : Op}

def IssuedIn (cs : List Completing) (op : Op) : Prop := ∃ c ∈ cs, op ∈ c.ops

theorem mem_completeAll : op ∈ ((cs.flatMap Completing.ops : List Op) : Multiset Op) ↔
    IssuedIn cs op := by
  simp [IssuedIn]

theorem requestCounterRef_keys {z i : String} (hz : IsKey z) (hi : IsKey i) :
    requestCounterRef z i = ["requestCounter",z,i] := by
  rw [child_requestCounter,hz,hi]
  rfl

theorem requestedRef_keys {i : String} (hi : IsKey i) :
    requestedRef i = ["items",i,"requested"] := by
  rw [child_requested,hi]
  rfl

theorem userRequestsRef_keys {u z : String} (hu : IsKey u) (hz : IsKey z) :
    userRequestsRef u z = ["userRequests",u,z] := by
  rw [child_userRequests,hu,hz]
  rfl

theorem completedRequestsRef_keys {u : String} (hu : IsKey u) :
    completedRequestsRef u = ["volunteer",u,"CompletedRequests"] := by
  rw [child_completedRequests,hu]
  rfl

theorem requestRef_keys {z i : String} (hz : IsKey z) (hi : IsKey i) :
    requestRef z i = ["requests",z,i] := by
  rw [child_requests,hz,hi]
  rfl

/-- An operation that comes up in a run, with its path spelled out. -/
inductive Op.Shape (cs : List Completing) : Op → Prop where
  | requestCounter {c : Completing} {p : String × Int} : c ∈ cs → p ∈ c.record.content →
      Shape cs (.lower ["requestCounter",c.record.zoneID,p.1] p.2)
  | requested {c : Completing} {p : String × Int} : c ∈ cs → p ∈ c.record.content →
      Shape cs (.lower ["items",p.1,"requested"] p.2)
  | read {c : Completing} : c ∈ cs → Shape cs
      (.findEntry ["userRequests",c.record.senderID,c.record.zoneID] (some c.record.id))
  | entry {c : Completing} {key : String} : c ∈ cs →
      Shape cs (.dropEntry ["userRequests",c.record.senderID,c.record.zoneID,key])
  | completed {c : Completing} : c ∈ cs →
      Shape cs (.raise ["volunteer",c.uid,"CompletedRequests"])
  | request {c : Completing} : c ∈ cs →
      Shape cs (.dropRequest ["requests",c.record.zoneID,c.record.id])

theorem mem_out (remaining : List Record) {c : Completing} (hc : c ∈ cs) :
    c.record ∈ cs.map (·.record) ++ remaining :=
  List.mem_append_left _ (List.mem_map_of_mem hc)

theorem CompletionInput.shape_issued (h : CompletionInput cs remaining db)
    (hop : IssuedIn cs op) : op.Shape cs := by
  obtain ⟨c,hc,hop⟩ := hop
  have hr := mem_out remaining hc
  have hz := h.outstanding.zoneKeys _ hr
  have hitem : ∀ item ∈ c.request.items, (item.id,item.qty) ∈ c.record.content :=
    fun item hitem => (h.carries c hc).quantities.mem_iff.mp
      (List.mem_map_of_mem (f := fun i : RequestItem => (i.id,i.qty)) hitem)
  rcases mem_issuedBy.mp hop with ⟨item,hi,rfl | rfl⟩ | rfl | rfl | rfl
  · have hmem := hitem item hi
    rw [requestCounterRef_keys hz (h.outstanding.itemKeys _ hr _ hmem)]
    exact .requestCounter hc hmem
  · have hmem := hitem item hi
    rw [requestedRef_keys (h.outstanding.itemKeys _ hr _ hmem)]
    exact .requested hc hmem
  · rw [(h.carries c hc).sender,(h.carries c hc).id,
      userRequestsRef_keys (h.outstanding.senderKeys _ hr) hz]
    exact .read hc
  · rw [completedRequestsRef_keys (h.uids c hc)]
    exact .completed hc
  · rw [requestRef_keys hz (h.outstanding.idKeys _ hr)]
    exact .request hc

theorem CompletionInput.shape (h : CompletionInput cs remaining db)
    (hop : op.Arises (IssuedIn cs)) : op.Shape cs := by
  rcases hop with hop | ⟨ref,id,key,hop,rfl⟩
  · exact h.shape_issued hop
  · cases h.shape_issued hop with
    | read hc => exact .entry hc

theorem arises_start (cs : List Completing) :
    ∀ op ∈ ((cs.flatMap Completing.ops : List Op) : Multiset Op), op.Arises (IssuedIn cs) :=
  fun _ hop => .inl (mem_completeAll.mp hop)

theorem CompletionInput.remaining_ne (h : CompletionInput cs remaining db) {r : Record}
    (hr : r ∈ remaining) {c : Completing} (hc : c ∈ cs) :
    ¬ (c.record.zoneID = r.zoneID ∧ c.record.id = r.id) := by
  rintro ⟨hz,hid⟩
  have honce := h.outstanding.once
  rw [List.map_append,List.nodup_append] at honce
  exact honce.2.2 _ (List.mem_map_of_mem (List.mem_map_of_mem hc)) _ (List.mem_map_of_mem hr)
    (by rw [hz,hid])

end Paths

section Counters

variable {cs : List Completing} {remaining : List Record} {db : Database}

theorem Record.quantity_nonneg {r : Record} (h : ∀ p ∈ r.content, 0 ≤ p.2) (itemID : String) :
    0 ≤ r.quantity itemID := by
  apply List.sum_nonneg
  intro n hn
  obtain ⟨p,hp,rfl⟩ := List.mem_map.mp hn
  split
  · exact h p hp
  · exact le_refl _

theorem demand_nonneg {out : List Record} (h : ∀ r ∈ out, ∀ p ∈ r.content, 0 ≤ p.2)
    (itemID : String) : 0 ≤ demand out itemID := by
  apply List.sum_nonneg
  intro n hn
  obtain ⟨r,hr,rfl⟩ := List.mem_map.mp hn
  exact Record.quantity_nonneg (h r hr) itemID

theorem zoneDemand_nonneg {out : List Record} (h : ∀ r ∈ out, ∀ p ∈ r.content, 0 ≤ p.2)
    (zoneID itemID : String) : 0 ≤ zoneDemand out zoneID itemID := by
  apply List.sum_nonneg
  intro n hn
  obtain ⟨r,hr,rfl⟩ := List.mem_map.mp hn
  split
  · exact Record.quantity_nonneg (h r hr) itemID
  · exact le_refl _

theorem pendingOff_start {ref : Path} {w : Completing → String → Int → Int}
    (hw : ∀ c ∈ cs, ∀ item ∈ c.request.items,
      (Op.lower (requestCounterRef c.record.zoneID item.id) item.qty).takes ref +
        (Op.lower (requestedRef item.id) item.qty).takes ref = w c item.id item.qty)
    (hcarries : ∀ c ∈ cs, c.Carries) :
    pendingOff ref ((cs.flatMap Completing.ops : List Op) : Multiset Op) =
      (cs.map fun c => (c.record.content.map fun p => w c p.1 p.2).sum).sum := by
  have hitems : ∀ (zoneID : String) (items : List RequestItem) (v : String → Int → Int),
      (∀ item ∈ items, (Op.lower (requestCounterRef zoneID item.id) item.qty).takes ref +
        (Op.lower (requestedRef item.id) item.qty).takes ref = v item.id item.qty) →
      ((updateCounters items zoneID).map (Op.takes ref)).sum =
        (items.map fun item => v item.id item.qty).sum := by
    intro zoneID items v hv
    induction items with
    | nil => rfl
    | cons item items ih =>
      have hcons : updateCounters (item :: items) zoneID =
          [.lower (requestCounterRef zoneID item.id) item.qty,
            .lower (requestedRef item.id) item.qty] ++ updateCounters items zoneID := rfl
      have hfirst := hv item (by simp)
      rw [hcons,List.map_append,List.sum_append,ih fun i hi => hv i (by simp [hi])]
      simp only [List.map_cons,List.map_nil,List.sum_cons,List.sum_nil]
      omega
  have hops : ∀ c ∈ cs, (c.ops.map (Op.takes ref)).sum =
      (c.record.content.map fun p => w c p.1 p.2).sum := by
    intro c hc
    have hlast : (c.ops.map (Op.takes ref)).sum =
        ((updateCounters c.request.items c.record.zoneID).map (Op.takes ref)).sum := by
      simp [Completing.ops,issuedBy,Op.takes]
    rw [hlast,hitems _ _ (w c) (hw c hc),← ((hcarries c hc).quantities.map _).sum_eq]
    simp [Request.quantities,Function.comp_def]
  rw [pendingOff,Multiset.map_coe,Multiset.sum_coe]
  clear hw hcarries
  induction cs with
  | nil => rfl
  | cons c cs ih =>
    rw [List.flatMap_cons,List.map_append,List.sum_append,List.map_cons,List.sum_cons,
      hops c (by simp),ih fun c' hc' => hops c' (by simp [hc'])]

theorem zoneDemand_eq (cs : List Completing) (zoneID itemID : String) :
    zoneDemand (cs.map (·.record)) zoneID itemID = (cs.map fun c =>
      (c.record.content.map fun p =>
        if c.record.zoneID = zoneID ∧ p.1 = itemID then p.2 else 0).sum).sum := by
  rw [zoneDemand,List.map_map]
  congr 1
  apply List.map_congr_left
  intro c _
  by_cases hz : c.record.zoneID = zoneID
  · simp [Record.quantity,hz]
  · simp [hz]

theorem demand_eq (cs : List Completing) (itemID : String) :
    demand (cs.map (·.record)) itemID = (cs.map fun c =>
      (c.record.content.map fun p => if p.1 = itemID then p.2 else 0).sum).sum := by
  rw [demand,List.map_map]
  rfl

theorem demand_append (out out' : List Record) (itemID : String) :
    demand (out ++ out') itemID = demand out itemID + demand out' itemID := by
  simp [demand]

theorem zoneDemand_append (out out' : List Record) (zoneID itemID : String) :
    zoneDemand (out ++ out') zoneID itemID =
      zoneDemand out zoneID itemID + zoneDemand out' zoneID itemID := by
  simp [zoneDemand]

variable {c : Config Server Op}

theorem CompletionInput.counter (h : CompletionInput cs remaining db) {ref : Path}
    {off kept : Int} (hkept : 0 ≤ kept)
    (hcounts : ∀ op : Op, op.Shape cs → op.CountsAt ref)
    (hoff : pendingOff ref ((cs.flatMap Completing.ops : List Op) : Multiset Op) = off)
    (hget : get ref db = amount (off + kept))
    (hr : Runs (perform always) ⟨⟨db,0⟩,(cs.flatMap Completing.ops : List Op)⟩ c) :
    ∃ n, get ref c.state.db = amount n ∧ kept ≤ n ∧ n ≤ off + kept ∧
      (c.pending = 0 → n = kept) := by
  have hcounts' : ∀ op : Op, op.Arises (IssuedIn cs) → op.CountsAt ref :=
    fun op hop => hcounts op (h.shape hop)
  have hnow := counter_runs hkept hcounts' hr (arises_start cs) (by rw [hoff]; exact hget)
  have hall := arises_runs hr (arises_start cs)
  have hpos := pendingOff_nonneg fun op hop => (hcounts' op (hall op hop)).takes_nonneg
  have hle := pendingOff_runs hcounts' hr (arises_start cs)
  simp only [hoff] at hle
  exact ⟨_,hnow,by omega,by omega,fun hz => by simp [hz]⟩

theorem countsAt_requestCounter {zoneID itemID : String}
    (hnonneg : ∀ c ∈ cs, ∀ p ∈ c.record.content, 0 ≤ p.2) {op : Op} (hop : op.Shape cs) :
    op.CountsAt ["requestCounter",zoneID,itemID] := by
  cases hop with
  | @requestCounter c p hc hp =>
    by_cases heq : c.record.zoneID = zoneID ∧ p.1 = itemID
    · rw [heq.1,heq.2]
      exact .inl ⟨p.2,hnonneg c hc p hp,rfl⟩
    · have hne : ["requestCounter",c.record.zoneID,p.1] ≠ ["requestCounter",zoneID,itemID] := by
        simpa using heq
      exact .inr ⟨if_neg hne,apart_of_length rfl hne⟩
  | requested hc hp => exact .inr ⟨rfl,by simp [Op.Spares,Op.ref,apart_cons]⟩
  | read hc => exact .inr ⟨rfl,trivial⟩
  | entry hc => exact .inr ⟨rfl,by simp [Op.Spares,Op.ref,apart_cons]⟩
  | completed hc => exact .inr ⟨rfl,by simp [Op.Spares,Op.ref,apart_cons]⟩
  | request hc => exact .inr ⟨rfl,by simp [Op.Spares,Op.ref,apart_cons]⟩

theorem countsAt_requested {itemID : String}
    (hnonneg : ∀ c ∈ cs, ∀ p ∈ c.record.content, 0 ≤ p.2) {op : Op} (hop : op.Shape cs) :
    op.CountsAt ["items",itemID,"requested"] := by
  cases hop with
  | requestCounter hc hp => exact .inr ⟨rfl,by simp [Op.Spares,Op.ref,apart_cons]⟩
  | @requested c p hc hp =>
    by_cases heq : p.1 = itemID
    · rw [heq]
      exact .inl ⟨p.2,hnonneg c hc p hp,rfl⟩
    · have hne : ["items",p.1,"requested"] ≠ ["items",itemID,"requested"] := by
        simpa using heq
      exact .inr ⟨if_neg hne,apart_of_length rfl hne⟩
  | read hc => exact .inr ⟨rfl,trivial⟩
  | entry hc => exact .inr ⟨rfl,by simp [Op.Spares,Op.ref,apart_cons]⟩
  | completed hc => exact .inr ⟨rfl,by simp [Op.Spares,Op.ref,apart_cons]⟩
  | request hc => exact .inr ⟨rfl,by simp [Op.Spares,Op.ref,apart_cons]⟩

end Counters

section Leaves

variable {cs : List Completing} {remaining : List Record} {db : Database}
  {c : Config Server Op} {s : Server}

theorem intOrZero_raised (n : Nat) (value : Option Leaf) :
    intOrZero (raised^[n] value) = intOrZero value + n := by
  induction n with
  | zero => simp
  | succ n ih =>
    rw [Function.iterate_succ_apply',raised,intOrZero_number,ih]
    omega

theorem CompletionInput.credited (h : CompletionInput cs remaining db)
    (hr : Runs (perform always) ⟨⟨db,0⟩,(cs.flatMap Completing.ops : List Op)⟩ ⟨s,0⟩)
    {uid : String} (huid : IsKey uid) :
    intOrZero (get (completedRequestsRef uid) s.db) =
      intOrZero (get (completedRequestsRef uid) db) + (cs.map (·.uid)).count uid := by
  have hspare : ∀ op : Op, op.Arises (IssuedIn cs) →
      op ≠ .raise (completedRequestsRef uid) → op.Spares (completedRequestsRef uid) := by
    intro op hop hne
    rw [completedRequestsRef_keys huid] at hne ⊢
    cases h.shape hop with
    | requestCounter hc hp => simp [Op.Spares,Op.ref,apart_cons]
    | requested hc hp => simp [Op.Spares,Op.ref,apart_cons]
    | read hc => trivial
    | entry hc => simp [Op.Spares,Op.ref,apart_cons]
    | completed hc => exact apart_of_length rfl (by simpa [Op.ref] using hne)
    | request hc => simp [Op.Spares,Op.ref,apart_cons]
  have hget := get_of_covers hr (fun _ => mem_completeAll.mp)
    (show (Op.raise (completedRequestsRef uid)).Covers (completedRequestsRef uid) from rfl)
    (by simp) hspare
  have hcount : (cs.flatMap Completing.ops).count (.raise (completedRequestsRef uid)) =
      (cs.map (·.uid)).count uid := by
    have huids := h.uids
    clear hget hspare hr h
    induction cs with
    | nil => rfl
    | cons c cs ih =>
      rw [List.flatMap_cons,List.count_append,ih fun c' hc' => huids c' (by simp [hc']),
        List.map_cons,List.count_cons]
      have hnone : (updateCounters c.request.items c.record.zoneID).count
          (.raise (completedRequestsRef uid)) = 0 := by
        rw [List.count_eq_zero,mem_updateCounters]
        simp
      have hkeys := completedRequestsRef_keys (huids c (by simp))
      rw [Completing.ops,issuedBy,List.count_append,hnone]
      simp [hkeys,completedRequestsRef_keys huid,List.count_cons]
      omega
  rw [hget,Multiset.coe_count,hcount]
  exact intOrZero_raised _ _

theorem CompletionInput.recordGone (h : CompletionInput cs remaining db)
    (hr : Runs (perform always) ⟨⟨db,0⟩,(cs.flatMap Completing.ops : List Op)⟩ ⟨s,0⟩)
    {c : Completing} (hc : c ∈ cs) {p : Path}
    (hp : requestRef c.record.zoneID c.record.id <+: p) : get p s.db = none := by
  have hkeys := requestRef_keys (h.outstanding.zoneKeys _ (mem_out remaining hc))
    (h.outstanding.idKeys _ (mem_out remaining hc))
  have hspare : ∀ op : Op, op.Arises (IssuedIn cs) →
      op ≠ .dropRequest (requestRef c.record.zoneID c.record.id) → op.Spares p := by
    intro op hop hne
    refine Op.Spares.below ?_ hp
    rw [hkeys] at hne ⊢
    cases h.shape hop with
    | requestCounter hc hp => simp [Op.Spares,Op.ref,apart_cons]
    | requested hc hp => simp [Op.Spares,Op.ref,apart_cons]
    | read hc => trivial
    | entry hc => simp [Op.Spares,Op.ref,apart_cons]
    | completed hc => simp [Op.Spares,Op.ref,apart_cons]
    | request hc => exact apart_of_length rfl (by simpa [Op.ref] using hne)
  rw [get_of_covers hr (fun _ => mem_completeAll.mp)
    (show (Op.dropRequest (requestRef c.record.zoneID c.record.id)).Covers p from hp)
    (by simp) hspare]
  have hmem : Op.dropRequest (requestRef c.record.zoneID c.record.id) ∈
      ((cs.flatMap Completing.ops : List Op) : Multiset Op) :=
    mem_completeAll.mpr ⟨c,hc,mem_issuedBy.mpr (.inr (.inr (.inr rfl)))⟩
  obtain ⟨n,hn⟩ := Nat.exists_eq_succ_of_ne_zero (Multiset.count_pos.mpr hmem).ne'
  rw [hn,Function.iterate_succ_apply']
  rfl

theorem CompletionInput.recordKept (h : CompletionInput cs remaining db)
    (hr : Runs (perform always) ⟨⟨db,0⟩,(cs.flatMap Completing.ops : List Op)⟩ c)
    {zoneID id : String} (hz : IsKey zoneID) (hid : IsKey id)
    (hother : ∀ c ∈ cs, ¬ (c.record.zoneID = zoneID ∧ c.record.id = id)) {p : Path}
    (hp : requestRef zoneID id <+: p) : get p c.state.db = get p db := by
  refine get_of_spares hr fun d hd op hop _ => ?_
  refine Op.Spares.below ?_ hp
  rw [requestRef_keys hz hid]
  cases h.shape (arises_runs hd (arises_start cs) op hop) with
  | requestCounter hc hp => simp [Op.Spares,Op.ref,apart_cons]
  | requested hc hp => simp [Op.Spares,Op.ref,apart_cons]
  | read hc => trivial
  | entry hc => simp [Op.Spares,Op.ref,apart_cons]
  | completed hc => simp [Op.Spares,Op.ref,apart_cons]
  | request hc => exact apart_of_length rfl (by simpa [Op.ref] using hother _ hc)

end Leaves

section Index

variable {cs : List Completing} {remaining : List Record} {db : Database}
  {c : Config Server Op} {s : Server} {senderID zoneID : String} {p : Path}

theorem issued_noDrop (ref : Path) : ¬ IssuedIn cs (.dropEntry ref) := by
  rintro ⟨c,-,hop⟩
  rcases mem_issuedBy.mp hop with ⟨item,-,heq | heq⟩ | heq | heq | heq
  · cases heq
  · cases heq
  · cases heq
  · cases heq
  · cases heq

theorem CompletionInput.issued_read (h : CompletionInput cs remaining db) {ref : Path}
    {id : Option String} (hop : IssuedIn cs (.findEntry ref id)) :
    ∃ c ∈ cs, ref = ["userRequests",c.record.senderID,c.record.zoneID] ∧
      id = some c.record.id := by
  cases h.shape_issued hop with
  | read hc => exact ⟨_,hc,rfl,rfl⟩

theorem CompletionInput.read_issued (h : CompletionInput cs remaining db) {c : Completing}
    (hc : c ∈ cs) : IssuedIn cs
      (.findEntry (userRequestsRef c.record.senderID c.record.zoneID) (some c.record.id)) := by
  refine ⟨c,hc,mem_issuedBy.mpr (.inr (.inl ?_))⟩
  rw [(h.carries c hc).sender,(h.carries c hc).id]

theorem CompletionInput.index_keys (h : CompletionInput cs remaining db) {c : Completing}
    (hc : c ∈ cs) : userRequestsRef c.record.senderID c.record.zoneID =
      ["userRequests",c.record.senderID,c.record.zoneID] :=
  userRequestsRef_keys (h.outstanding.senderKeys _ (mem_out remaining hc))
    (h.outstanding.zoneKeys _ (mem_out remaining hc))

theorem CompletionInput.indexInput (h : CompletionInput cs remaining db) :
    IndexInput (IssuedIn cs) db where
  noDrop := issued_noDrop
  apart op ref id hop href := by
    obtain ⟨c,hc,rfl,rfl⟩ := h.issued_read href
    cases h.shape_issued hop with
    | requestCounter hc' hp => exact .inr (by simp [Op.ref,apart_cons])
    | requested hc' hp => exact .inr (by simp [Op.ref,apart_cons])
    | entry hc' => exact absurd hop (issued_noDrop _)
    | completed hc' => exact .inr (by simp [Op.ref,apart_cons])
    | request hc' => exact .inr (by simp [Op.ref,apart_cons])
    | @read c' hc' =>
      by_cases heq : ["userRequests",c'.record.senderID,c'.record.zoneID] =
          ["userRequests",c.record.senderID,c.record.zoneID]
      · exact .inl ⟨some c'.record.id,by rw [heq]⟩
      · exact .inr (apart_of_length rfl heq)
  strings ref id href := by
    obtain ⟨c,hc,rfl,rfl⟩ := h.issued_read href
    rw [← h.index_keys hc]
    intro key hkey
    obtain ⟨q,v,hmem⟩ := (mem_keys _ db).mp hkey
    obtain ⟨value,hvalue⟩ := get_of_mem _ db hmem
    obtain ⟨r,-,-,-,rfl,key',hp⟩ := h.ledger.entries _ _
      (h.outstanding.senderKeys _ (mem_out remaining hc))
      (h.outstanding.zoneKeys _ (mem_out remaining hc)) _ _ (List.prefix_append _ _) hvalue
    have hq : q = [] := by
      have hlen := congrArg List.length (List.append_cancel_left hp)
      simpa using hlen
    rw [hq] at hvalue
    exact ⟨r.id,hvalue⟩
  once ref id href key key' hkey hkey' := by
    obtain ⟨c,hc,rfl,hid⟩ := h.issued_read href
    rw [Option.some.inj hid,← h.index_keys hc] at hkey hkey'
    obtain ⟨k,-,honly⟩ := h.ledger.entryOnce _ (mem_out remaining hc)
    rw [honly key hkey,honly key' hkey']

def CompletedEntry (cs : List Completing) (db : Database) (senderID zoneID : String)
    (p : Path) : Prop :=
  ∃ c ∈ cs, c.record.senderID = senderID ∧ c.record.zoneID = zoneID ∧ ∃ key,
    get (userRequestsRef senderID zoneID ++ [key]) db = some (.string c.record.id) ∧
    userRequestsRef senderID zoneID ++ [key] <+: p

theorem CompletionInput.index_final (h : CompletionInput cs remaining db)
    (hr : Runs (perform always) ⟨⟨db,0⟩,(cs.flatMap Completing.ops : List Op)⟩ ⟨s,0⟩)
    (hs : IsKey senderID) (hz : IsKey zoneID) (hp : userRequestsRef senderID zoneID <+: p) :
    (CompletedEntry cs db senderID zoneID p → get p s.db = none) ∧
    (¬ CompletedEntry cs db senderID zoneID p → get p s.db = get p db) := by
  have hcleared := (index_ends h.indexInput (n := 0) fun op => mem_completeAll).post s hr
  constructor
  · rintro ⟨c,hc,rfl,rfl,key,hkey,hkp⟩
    exact (hcleared _ _ (h.read_issued hc) p hp).1
      ⟨c.record.id,key,⟨h.read_issued hc,hkey⟩,hkp⟩
  · intro hnone
    by_cases hread : ∃ c ∈ cs, c.record.senderID = senderID ∧ c.record.zoneID = zoneID
    · obtain ⟨c,hc,rfl,rfl⟩ := hread
      refine (hcleared _ _ (h.read_issued hc) p hp).2 ?_
      rintro ⟨id,key,⟨hissued,hkey⟩,hkp⟩
      obtain ⟨c',hc',href,hid⟩ := h.issued_read hissued
      rw [h.index_keys hc] at href
      simp only [List.cons.injEq,true_and,and_true] at href
      rw [Option.some.inj hid] at hkey
      exact hnone ⟨c',hc',href.1.symm,href.2.symm,key,hkey,hkp⟩
    · refine get_of_spares hr fun d hd op hop _ => Op.Spares.below ?_ hp
      rw [userRequestsRef_keys hs hz]
      cases h.shape (arises_runs hd (arises_start cs) op hop) with
      | requestCounter hc hp => simp [Op.Spares,Op.ref,apart_cons]
      | requested hc hp => simp [Op.Spares,Op.ref,apart_cons]
      | read hc => trivial
      | @entry c key hc =>
        have hne : ["userRequests",c.record.senderID,c.record.zoneID] ≠
            ["userRequests",senderID,zoneID] := by
          simpa using fun h₁ h₂ => hread ⟨c,hc,h₁,h₂⟩
        have hapart : Apart ["userRequests",c.record.senderID,c.record.zoneID]
            ["userRequests",senderID,zoneID] := apart_of_length rfl hne
        exact (hapart.symm.below (List.prefix_append _ [key])).symm
      | completed hc => simp [Op.Spares,Op.ref,apart_cons]
      | request hc => simp [Op.Spares,Op.ref,apart_cons]

theorem CompletionInput.entryKept (h : CompletionInput cs remaining db)
    (hr : Runs (perform always) ⟨⟨db,0⟩,(cs.flatMap Completing.ops : List Op)⟩ c)
    {r : Record} (hrm : r ∈ remaining) {key : String}
    (hkey : get (userRequestsRef r.senderID r.zoneID ++ [key]) db = some (.string r.id)) :
    get (userRequestsRef r.senderID r.zoneID ++ [key]) c.state.db = some (.string r.id) := by
  have hout : r ∈ cs.map (·.record) ++ remaining := List.mem_append_right _ hrm
  have hkeys := userRequestsRef_keys (h.outstanding.senderKeys r hout)
    (h.outstanding.zoneKeys r hout)
  rw [← hkey]
  refine get_of_spares hr fun d hd op hop _ => ?_
  have hinv : IndexInv (IssuedIn cs) db d :=
    (index_steady h.indexInput).runs hd (index_start fun op => mem_completeAll)
  rcases hinv.pending op hop with hissued | ⟨ref,id,key',⟨hread,hget⟩,rfl⟩
  · rw [hkeys]
    cases h.shape_issued hissued with
    | requestCounter hc hp => simp [Op.Spares,Op.ref,apart_cons]
    | requested hc hp => simp [Op.Spares,Op.ref,apart_cons]
    | read hc => trivial
    | entry hc => exact absurd hissued (issued_noDrop _)
    | completed hc => simp [Op.Spares,Op.ref,apart_cons]
    | request hc => simp [Op.Spares,Op.ref,apart_cons]
  · -- another entry, of a completed request
    obtain ⟨c',hc',rfl,hid⟩ := h.issued_read hread
    rw [hkeys] at hkey ⊢
    refine apart_of_length rfl fun heq => ?_
    change ["userRequests",c'.record.senderID,c'.record.zoneID] ++ [key'] = _ at heq
    rw [heq,hkey] at hget
    simp only [List.cons_append,List.nil_append,List.cons.injEq,true_and] at heq
    simp only [Option.some.injEq,Leaf.string.injEq] at hget hid
    exact h.remaining_ne hrm hc' ⟨heq.2.1,by rw [hget,hid]⟩

end Index

section Run

/-- The database between two steps: no counter below the demand of the remaining
requests or above the original one, and the remaining requests with their index
entries untouched. -/
structure Between (cs : List Completing) (remaining : List Record) (db db' : Database) :
    Prop where
  requestCounters : ∀ zoneID itemID, IsKey zoneID → IsKey itemID → ∃ n,
    get (requestCounterRef zoneID itemID) db' = amount n ∧
    zoneDemand remaining zoneID itemID ≤ n ∧
    n ≤ zoneDemand (cs.map (·.record) ++ remaining) zoneID itemID ∧ 0 ≤ n
  requested : ∀ itemID, IsKey itemID → ∃ n, get (requestedRef itemID) db' = amount n ∧
    demand remaining itemID ≤ n ∧ n ≤ demand (cs.map (·.record) ++ remaining) itemID ∧ 0 ≤ n
  records : ∀ r ∈ remaining, ∀ p, requestRef r.zoneID r.id <+: p → get p db' = get p db
  entries : ∀ r ∈ remaining, ∀ key,
    get (userRequestsRef r.senderID r.zoneID ++ [key]) db = some (.string r.id) →
    get (userRequestsRef r.senderID r.zoneID ++ [key]) db' = some (.string r.id)

variable {cs : List Completing} {remaining : List Record} {db : Database}
  {c : Config Server Op} {s : Server}

theorem CompletionInput.nonneg (h : CompletionInput cs remaining db) :
    (∀ c ∈ cs, ∀ p ∈ c.record.content, 0 ≤ p.2) ∧ ∀ r ∈ remaining, ∀ p ∈ r.content, 0 ≤ p.2 :=
  ⟨fun _ hc => h.outstanding.nonneg _ (mem_out remaining hc),
    fun r hr => h.outstanding.nonneg r (List.mem_append_right _ hr)⟩

theorem CompletionInput.requestCounter (h : CompletionInput cs remaining db)
    (hr : Runs (perform always) ⟨⟨db,0⟩,(cs.flatMap Completing.ops : List Op)⟩ c)
    {zoneID itemID : String} (hz : IsKey zoneID) (hi : IsKey itemID) :
    ∃ n, get (requestCounterRef zoneID itemID) c.state.db = amount n ∧
      zoneDemand remaining zoneID itemID ≤ n ∧
      n ≤ zoneDemand (cs.map (·.record)) zoneID itemID + zoneDemand remaining zoneID itemID ∧
      (c.pending = 0 → n = zoneDemand remaining zoneID itemID) := by
  refine h.counter (zoneDemand_nonneg h.nonneg.2 zoneID itemID) ?_ ?_ ?_ hr
  · intro op hop
    rw [requestCounterRef_keys hz hi]
    exact countsAt_requestCounter h.nonneg.1 hop
  · rw [zoneDemand_eq]
    refine pendingOff_start
      (w := fun c i q => if c.record.zoneID = zoneID ∧ i = itemID then q else 0)
      (fun c hc item hitem => ?_) h.carries
    have hmem : (item.id,item.qty) ∈ c.record.content :=
      (h.carries c hc).quantities.mem_iff.mp
        (List.mem_map_of_mem (f := fun i : RequestItem => (i.id,i.qty)) hitem)
    have hout := mem_out remaining hc
    have hk := h.outstanding.itemKeys _ hout _ hmem
    rw [requestCounterRef_keys hz hi,requestCounterRef_keys (h.outstanding.zoneKeys _ hout) hk,
      requestedRef_keys hk]
    simp [Op.takes]
  · rw [h.ledger.requestCounters zoneID itemID hz hi,zoneDemand_append]

theorem CompletionInput.requestedCounter (h : CompletionInput cs remaining db)
    (hr : Runs (perform always) ⟨⟨db,0⟩,(cs.flatMap Completing.ops : List Op)⟩ c)
    {itemID : String} (hi : IsKey itemID) :
    ∃ n, get (requestedRef itemID) c.state.db = amount n ∧ demand remaining itemID ≤ n ∧
      n ≤ demand (cs.map (·.record)) itemID + demand remaining itemID ∧
      (c.pending = 0 → n = demand remaining itemID) := by
  refine h.counter (demand_nonneg h.nonneg.2 itemID) ?_ ?_ ?_ hr
  · intro op hop
    rw [requestedRef_keys hi]
    exact countsAt_requested h.nonneg.1 hop
  · rw [demand_eq]
    refine pendingOff_start (w := fun _ i q => if i = itemID then q else 0)
      (fun c hc item hitem => ?_) h.carries
    have hmem : (item.id,item.qty) ∈ c.record.content :=
      (h.carries c hc).quantities.mem_iff.mp
        (List.mem_map_of_mem (f := fun i : RequestItem => (i.id,i.qty)) hitem)
    have hout := mem_out remaining hc
    have hk := h.outstanding.itemKeys _ hout _ hmem
    rw [requestedRef_keys hi,requestCounterRef_keys (h.outstanding.zoneKeys _ hout) hk,
      requestedRef_keys hk]
    simp [Op.takes]
  · rw [h.ledger.requested itemID hi,demand_append]

theorem CompletionInput.between (h : CompletionInput cs remaining db)
    (hr : Runs (perform always) ⟨⟨db,0⟩,(cs.flatMap Completing.ops : List Op)⟩ c) :
    Between cs remaining db c.state.db where
  requestCounters zoneID itemID hz hi := by
    obtain ⟨n,hget,hlow,hup,-⟩ := h.requestCounter hr hz hi
    rw [zoneDemand_append]
    exact ⟨n,hget,hlow,hup,(zoneDemand_nonneg h.nonneg.2 zoneID itemID).trans hlow⟩
  requested itemID hi := by
    obtain ⟨n,hget,hlow,hup,-⟩ := h.requestedCounter hr hi
    rw [demand_append]
    exact ⟨n,hget,hlow,hup,(demand_nonneg h.nonneg.2 itemID).trans hlow⟩
  records r hrm p hp := by
    have hout : r ∈ cs.map (·.record) ++ remaining := List.mem_append_right _ hrm
    exact h.recordKept hr (h.outstanding.zoneKeys r hout) (h.outstanding.idKeys r hout)
      (fun c hc => h.remaining_ne hrm hc) hp
  entries r hrm key hkey := h.entryKept hr hrm hkey

theorem CompletionInput.final (h : CompletionInput cs remaining db)
    (hr : Runs (perform always) ⟨⟨db,0⟩,(cs.flatMap Completing.ops : List Op)⟩ ⟨s,0⟩) :
    Ledger s.db remaining where
  sender r hrm := by
    rw [(h.between hr).records r hrm _ (List.prefix_append _ _)]
    exact h.ledger.sender r (List.mem_append_right _ hrm)
  content r hrm itemID value := by
    rw [(h.between hr).records r hrm _ (List.prefix_append _ _)]
    exact h.ledger.content r (List.mem_append_right _ hrm) itemID value
  noOther zoneID id hz hid p value hp hget := by
    by_cases hdone : ∃ c ∈ cs, c.record.zoneID = zoneID ∧ c.record.id = id
    · obtain ⟨c,hc,rfl,rfl⟩ := hdone
      rw [h.recordGone hr hc hp] at hget
      cases hget
    · have hother : ∀ c ∈ cs, ¬ (c.record.zoneID = zoneID ∧ c.record.id = id) :=
        fun c hc heq => hdone ⟨c,hc,heq⟩
      rw [h.recordKept hr hz hid hother hp] at hget
      obtain ⟨r,hrm,heq⟩ := h.ledger.noOther zoneID id hz hid p value hp hget
      rcases List.mem_append.mp hrm with hdone' | hrm
      · obtain ⟨c,hc,rfl⟩ := List.mem_map.mp hdone'
        exact absurd heq (hother c hc)
      · exact ⟨r,hrm,heq⟩
  requestCounters zoneID itemID hz hi := by
    obtain ⟨n,hget,-,-,hend⟩ := h.requestCounter hr hz hi
    rw [← hend rfl]
    exact hget
  requested itemID hi := by
    obtain ⟨n,hget,-,-,hend⟩ := h.requestedCounter hr hi
    rw [← hend rfl]
    exact hget
  entryOnce r hrm := by
    have hout : r ∈ cs.map (·.record) ++ remaining := List.mem_append_right _ hrm
    obtain ⟨key,hkey,honly⟩ := h.ledger.entryOnce r hout
    refine ⟨key,h.entryKept hr hrm hkey,fun other hother => honly other ?_⟩
    have hfinal := h.index_final hr (h.outstanding.senderKeys r hout)
      (h.outstanding.zoneKeys r hout) (List.prefix_append _ [other])
    by_cases hdone : CompletedEntry cs db r.senderID r.zoneID
        (userRequestsRef r.senderID r.zoneID ++ [other])
    · rw [hfinal.1 hdone] at hother
      cases hother
    · rwa [hfinal.2 hdone] at hother
  entries senderID zoneID hs hz p value hp hget := by
    have hfinal := h.index_final hr hs hz hp
    by_cases hdone : CompletedEntry cs db senderID zoneID p
    · rw [hfinal.1 hdone] at hget
      cases hget
    · rw [hfinal.2 hdone] at hget
      obtain ⟨r,hrm,hsender,hzone,hvalue,key,rfl⟩ :=
        h.ledger.entries senderID zoneID hs hz p value hp hget
      rcases List.mem_append.mp hrm with hdone' | hrm
      · obtain ⟨c,hc,rfl⟩ := List.mem_map.mp hdone'
        exact absurd ⟨c,hc,hsender,hzone,key,hvalue ▸ hget,List.prefix_refl _⟩ hdone
      · exact ⟨r,hrm,hsender,hzone,hvalue,key,rfl⟩

/-- Completions of distinct outstanding requests, in any interleaving. -/
theorem completeAll_ends (cs : List Completing) (remaining : List Record) (db : Database)
    (h : CompletionInput cs remaining db) :
    ∃ issued : List Op, completeAll cs = .ok issued ∧
      Ends (perform always) ⟨⟨db,0⟩,issued⟩ (fun s => Ledger s.db remaining ∧
        ∀ uid, IsKey uid → intOrZero (get (completedRequestsRef uid) s.db) =
          intOrZero (get (completedRequestsRef uid) db) + (cs.map (·.uid)).count uid) ∧
      ∀ c, Runs (perform always) ⟨⟨db,0⟩,issued⟩ c → Between cs remaining db c.state.db := by
  refine ⟨_,completeAll_ok h.carries,?_,fun c hr => h.between hr⟩
  have hends := index_ends h.indexInput (n := 0) fun op => mem_completeAll
  exact ⟨hends.noError,hends.finishes,
    fun s hr => ⟨h.final hr,fun uid huid => h.credited hr huid⟩⟩

def riceRecords : List Record :=
  [⟨"north","r1","s1",[("rice",2)]⟩,⟨"north","r2","s1",[("rice",3)]⟩]

def twoRequests : Database := [
  (["requestCounter","north","rice"],.number 5),
  (["items","rice","requested"],.number 5),
  (["userRequests","s1","north","k1"],.string "r1"),
  (["userRequests","s1","north","k2"],.string "r2"),
  (["requests","north","r1","senderID"],.string "s1"),
  (["requests","north","r1","content","rice"],.number 2),
  (["requests","north","r2","senderID"],.string "s1"),
  (["requests","north","r2","content","rice"],.number 3)]

theorem get_twoRequests {p : Path} {value : Leaf} :
    get p twoRequests = some value ↔ (p,value) ∈ twoRequests :=
  get_iff_mem p twoRequests (by decide)

theorem get_twoRequests_none {p : Path} (h : ∀ value, (p,value) ∉ twoRequests) :
    get p twoRequests = none :=
  Option.eq_none_iff_forall_ne_some.mpr fun value hget => h value (get_twoRequests.mp hget)

theorem riceRecords_outstanding : Outstanding riceRecords :=
  ⟨by decide,by decide,by decide,by decide,by decide,by decide⟩

theorem mem_riceRecords {r : Record} : r ∈ riceRecords ↔
    r = ⟨"north","r1","s1",[("rice",2)]⟩ ∨ r = ⟨"north","r2","s1",[("rice",3)]⟩ := by
  simp [riceRecords]

theorem twoRequests_ledger : Ledger twoRequests riceRecords where
  sender := by decide
  content r hr itemID value := by
    rw [requestRef_keys (riceRecords_outstanding.zoneKeys r hr)
      (riceRecords_outstanding.idKeys r hr),get_twoRequests]
    rcases mem_riceRecords.mp hr with rfl | rfl
    · simp [twoRequests,and_comm]
    · simp [twoRequests,and_comm]
  noOther zoneID id hz hid p value hp hget := by
    rw [requestRef_keys hz hid] at hp
    obtain ⟨q,rfl⟩ := hp
    have hrow : zoneID = "north" ∧ id = "r1" ∨ zoneID = "north" ∧ id = "r2" := by
      have hmem := get_twoRequests.mp hget
      simp [twoRequests] at hmem
      tauto
    simpa [riceRecords,eq_comm] using hrow
  requestCounters zoneID itemID hz hi := by
    rw [requestCounterRef_keys hz hi]
    by_cases hrice : "north" = zoneID ∧ "rice" = itemID
    · obtain ⟨rfl,rfl⟩ := hrice
      rfl
    · have hnone : zoneDemand riceRecords zoneID itemID = 0 := by
        by_cases hzone : "north" = zoneID
        · have hitem : "rice" ≠ itemID := fun h => hrice ⟨hzone,h⟩
          simp [zoneDemand,riceRecords,Record.quantity,hitem]
        · simp [zoneDemand,riceRecords,hzone]
      rw [hnone]
      refine get_twoRequests_none fun value hmem => hrice ?_
      have hpath : zoneID = "north" ∧ itemID = "rice" ∧ value = .number 5 := by
        simpa [twoRequests,and_assoc] using hmem
      exact ⟨hpath.1.symm,hpath.2.1.symm⟩
  requested itemID hi := by
    rw [requestedRef_keys hi]
    by_cases hrice : "rice" = itemID
    · subst hrice
      rfl
    · have hnone : demand riceRecords itemID = 0 := by
        simp [demand,riceRecords,Record.quantity,hrice]
      rw [hnone]
      exact get_twoRequests_none fun value => by simp [twoRequests,Ne.symm hrice]
  entryOnce r hr := by
    rw [userRequestsRef_keys (riceRecords_outstanding.senderKeys r hr)
      (riceRecords_outstanding.zoneKeys r hr)]
    rcases mem_riceRecords.mp hr with rfl | rfl
    · refine ⟨"k1",rfl,fun other hother => ?_⟩
      simpa [twoRequests] using get_twoRequests.mp hother
    · refine ⟨"k2",rfl,fun other hother => ?_⟩
      simpa [twoRequests] using get_twoRequests.mp hother
  entries senderID zoneID hs hz p value hp hget := by
    rw [userRequestsRef_keys hs hz] at hp ⊢
    obtain ⟨q,rfl⟩ := hp
    have hmem := get_twoRequests.mp hget
    simp [twoRequests] at hmem
    rcases hmem with ⟨⟨rfl,rfl,rfl⟩,rfl⟩ | ⟨⟨rfl,rfl,rfl⟩,rfl⟩
    · exact ⟨_,List.mem_cons_self,rfl,rfl,rfl,"k1",rfl⟩
    · exact ⟨_,List.mem_cons_of_mem _ List.mem_cons_self,rfl,rfl,rfl,"k2",rfl⟩

def riceCompletings : List Completing := [
  ⟨"u1",riceRequest,⟨"north","r1","s1",[("rice",2)]⟩⟩,
  ⟨"u2",{ riceRequest with
    id := some "r2", items := [⟨"rice","Rice","rice",3,none,none,"white",none⟩] },
    ⟨"north","r2","s1",[("rice",3)]⟩⟩]

theorem riceCompletings_input : CompletionInput riceCompletings [] twoRequests where
  outstanding := riceRecords_outstanding
  carries := by
    intro c hc
    simp only [riceCompletings,List.mem_cons,List.not_mem_nil,or_false] at hc
    rcases hc with rfl | rfl <;> exact ⟨rfl,rfl,.refl _⟩
  uids := by decide
  ledger := twoRequests_ledger

theorem completeAll_ends_rice :
    ∃ issued : List Op, completeAll riceCompletings = .ok issued ∧
      Ends (perform always) ⟨⟨twoRequests,0⟩,issued⟩ (fun s => Ledger s.db [] ∧
        ∀ uid, IsKey uid → intOrZero (get (completedRequestsRef uid) s.db) =
          intOrZero (get (completedRequestsRef uid) twoRequests) + ["u1","u2"].count uid) ∧
      ∀ c, Runs (perform always) ⟨⟨twoRequests,0⟩,issued⟩ c →
        Between riceCompletings [] twoRequests c.state.db :=
  completeAll_ends riceCompletings [] twoRequests riceCompletings_input

end Run

end Answr
