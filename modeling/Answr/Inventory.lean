import Answr.Credits
import Answr.Ledger
set_option autoImplicit false

/-! The item counters over the runs of a fleet. A counter stops at zero, so it keeps count
as long as no more is completed than it held; then all that it was lowered by is accounted
for, however the completions interleave, fail or get lost. -/

namespace Answr
open LeafTree Steps

section Operations

variable {confirmed : List Confirmation} {op : Op} {ref : Path}

/-- What operations will take off the counter at the path. -/
def takenOff (ref : Path) (ops : List Op) : Int := (ops.map (Op.takes ref)).sum

@[simp] theorem takenOff_append (ref : Path) (ops ops' : List Op) :
    takenOff ref (ops ++ ops') = takenOff ref ops + takenOff ref ops' := by
  simp [takenOff]

@[simp] theorem takenOff_cons (ref : Path) (op : Op) (ops : List Op) :
    takenOff ref (op :: ops) = op.takes ref + takenOff ref ops := by
  simp [takenOff]

def Confirmation.takes (ref : Path) (c : Confirmation) : Int :=
  takenOff ref (updateCounters c.request.items c.zoneid)

def confirmedOff (ref : Path) (confirmed : List Confirmation) : Int :=
  (confirmed.map (Confirmation.takes ref)).sum

/-- The items are keys of the database, and their quantities are not negative. -/
def Confirmation.Counted (c : Confirmation) : Prop :=
  ∀ item ∈ c.request.items, IsKey item.id ∧ 0 ≤ item.qty

instance (c : Confirmation) : Decidable c.Counted :=
  inferInstanceAs (Decidable (∀ item ∈ c.request.items, IsKey item.id ∧ 0 ≤ item.qty))

/-- The node of an item's counter, over all zones or in one of them. -/
inductive CounterRef : Path → Prop where
  | requested {itemID : String} : IsKey itemID → CounterRef (requestedRef itemID)
  | requestCounter {zoneid itemID : String} : IsKey zoneid → IsKey itemID →
      CounterRef (requestCounterRef zoneid itemID)

theorem countsAt_lower {ref' : Path} {qty : Int} (hlen : ref'.length = ref.length)
    (hqty : 0 ≤ qty) : (Op.lower ref' qty).CountsAt ref := by
  by_cases heq : ref' = ref
  · exact .inl ⟨qty,hqty,by rw [heq]⟩
  · exact .inr ⟨if_neg heq,apart_of_length hlen heq⟩

theorem CounterRef.spares (h : CounterRef ref) {a : String} {p : Path} (hop : op.ref = a :: p)
    (hi : a ≠ "items") (hr : a ≠ "requestCounter") (htakes : op.takes ref = 0) :
    op.CountsAt ref := by
  refine .inr ⟨htakes,Op.spares_of_apart ?_⟩
  rw [hop]
  cases h with
  | requested hkey =>
    rw [requestedRef_keys hkey]
    exact apart_of_head hi
  | requestCounter hz hkey =>
    rw [requestCounterRef_keys hz hkey]
    exact apart_of_head hr

theorem CounterRef.counts (h : CounterRef ref) (hop : op.Arises (IssuedFor confirmed))
    (hcounted : ∀ c ∈ confirmed, IsKey c.zoneid ∧ c.Counted) : op.CountsAt ref := by
  have hlower : ∀ c ∈ confirmed, ∀ o ∈ updateCounters c.request.items c.zoneid,
      o.CountsAt ref := by
    intro c hc o ho
    obtain ⟨hz,hitems⟩ := hcounted c hc
    obtain ⟨item,hmem,rfl | rfl⟩ := mem_updateCounters.mp ho
    · obtain ⟨hkey,hqty⟩ := hitems item hmem
      rw [requestCounterRef_keys hz hkey]
      cases h with
      | requested hi =>
        rw [requestedRef_keys hi]
        exact countsAt_lower rfl hqty
      | requestCounter hz' hi =>
        rw [requestCounterRef_keys hz' hi]
        exact countsAt_lower rfl hqty
    · obtain ⟨hkey,hqty⟩ := hitems item hmem
      rw [requestedRef_keys hkey]
      cases h with
      | requested hi =>
        rw [requestedRef_keys hi]
        exact countsAt_lower rfl hqty
      | requestCounter hz' hi =>
        rw [requestCounterRef_keys hz' hi]
        exact countsAt_lower rfl hqty
  rcases hop with ⟨c,hc,id,hid,ho⟩ | ⟨ref',id,key,⟨c,hc,id',hid',ho⟩,rfl⟩
  · rcases List.mem_append.mp ho with ho | ho
    · exact hlower c hc op ho
    · simp only [List.mem_cons,List.not_mem_nil,or_false] at ho
      rcases ho with rfl | rfl | rfl
      · exact .inr ⟨rfl,trivial⟩
      · exact h.spares (child_completedRequests c.uid) (by decide) (by decide) rfl
      · exact h.spares (child_requests c.zoneid id) (by decide) (by decide) rfl
  · rcases mem_issuedBy.mp ho with ⟨item,hi,heq | heq⟩ | heq | heq | heq
    · cases heq
    · cases heq
    · obtain ⟨rfl,-⟩ := Op.findEntry.inj heq
      have hentry := congrArg (· ++ [key]) (child_userRequests c.request.senderID c.zoneid)
      exact h.spares hentry (by decide) (by decide) rfl
    · cases heq
    · cases heq

theorem takenOff_nonneg {ops : List Op} (h : ∀ op ∈ ops, op.CountsAt ref) :
    0 ≤ takenOff ref ops := by
  refine List.sum_nonneg fun n hn => ?_
  obtain ⟨op,hop,rfl⟩ := List.mem_map.mp hn
  exact (h op hop).takes_nonneg

theorem takenOff_issuedBy (ref : Path) (c : Confirmation) (id : String) :
    takenOff ref (issuedBy c.request c.zoneid id c.uid) = c.takes ref := by
  simp [issuedBy,Confirmation.takes,takenOff,Op.takes]

theorem takenOff_take {n : Nat} {pending : List Op} (ref : Path) (hop : pending[n]? = some op) :
    takenOff ref pending = op.takes ref + takenOff ref (pending.eraseIdx n) := by
  obtain ⟨hn,rfl⟩ := List.getElem?_eq_some_iff.mp hop
  rw [← takenOff_cons]
  exact ((List.getElem_cons_eraseIdx_perm hn).map _).sum_eq.symm

end Operations

section Runs

variable {home : Option String → String} {zh : Bool} {sys sys' : Fleet} {e : Fleet.Event}
  {op : Op} {ref : Path} {initial : Int}

def Fleet.KeepsCounter (ref : Path) (sys : Fleet) (e : Fleet.Event) : Prop :=
  ∀ db, e = .others db → get ref db = get ref sys.server.db

/-- What is confirmed can be taken off the counter. -/
structure Fleet.Covered (ref : Path) (initial : Int) (sys : Fleet) : Prop where
  counted : ∀ c ∈ sys.confirmed, c.Counted
  enough : confirmedOff ref sys.confirmed ≤ initial

/-- Every confirmed quantity has been taken off, is still to be taken off, or is among what
failed or got lost. -/
structure Fleet.Stocked (ref : Path) (initial : Int) (sys : Fleet) : Prop where
  failed : ∀ op ∈ sys.failed, op.Arises (IssuedFor sys.confirmed)
  balance : sys.Covered ref initial → get ref sys.server.db =
    amount (takenOff ref sys.pending + takenOff ref sys.failed +
      (initial - confirmedOff ref sys.confirmed))

theorem Fleet.Ok.counted (hok : sys.Ok home) (h : sys.Covered ref initial) :
    ∀ c ∈ sys.confirmed, IsKey c.zoneid ∧ c.Counted := by
  intro c hc
  obtain ⟨id,-,hknown⟩ := hok.confirmed c hc
  exact ⟨hknown.zoneKey,h.counted c hc⟩

theorem Fleet.Stocked.confirm (h : sys.Stocked ref initial) (hok : sys.Ok home)
    (href : CounterRef ref) {i : Nat} {d d' : Phone} {c : Confirmation} {ops : List Op}
    (hd : sys.phones[i]? = some d) (hc : d.confirm = some (d',c,ops)) :
    Fleet.Stocked ref initial { sys with
      phones := sys.phones.set i d'
      pending := sys.pending ++ ops
      confirmed := c :: sys.confirmed } := by
  have hok' := hok.confirm hd hc
  obtain ⟨screen,handed,-,-,-,-,-,hops,-⟩ := Phone.confirm_some hc
  obtain ⟨id,hid,-⟩ := hok'.confirmed c List.mem_cons_self
  rw [markRequestAsComplete_ok hid] at hops
  obtain rfl := Except.ok.inj hops
  refine ⟨fun op hop => issuedFor_cons c (h.failed op hop),fun hcovered => ?_⟩
  have hsum : confirmedOff ref (c :: sys.confirmed) =
      c.takes ref + confirmedOff ref sys.confirmed := by simp [confirmedOff]
  have htakes : 0 ≤ c.takes ref := by
    rw [← takenOff_issuedBy ref c id]
    refine takenOff_nonneg fun op hop => href.counts ?_ (hok'.counted hcovered)
    exact .inl ⟨c,List.mem_cons_self,id,hid,hop⟩
  have henough := hcovered.enough
  have hbefore : sys.Covered ref initial := by
    refine ⟨fun c' hc' => hcovered.counted c' (List.mem_cons_of_mem c hc'),?_⟩
    simp only [hsum] at henough
    omega
  simp only [h.balance hbefore,takenOff_append,takenOff_issuedBy,hsum]
  congr 1
  omega

theorem Fleet.Stocked.perform (h : sys.Stocked ref initial) (hok : sys.Ok home)
    (href : CounterRef ref) {n : Nat} {succeeds : Bool} {server : Server} {more : List Op}
    (hop : sys.pending[n]? = some op)
    (hrun : Answr.perform (fun _ => succeeds) op sys.server = .ok (server,more)) :
    Fleet.Stocked ref initial { sys.serves server.db with
      server := server
      pending := more ++ sys.pending.eraseIdx n
      failed := if succeeds then sys.failed else op :: sys.failed } := by
  have harises := hok.pending op (List.mem_of_getElem? hop)
  refine ⟨fun o ho => ?_,fun hcovered => ?_⟩
  · cases succeeds with
    | true => exact h.failed o ho
    | false =>
      rcases List.mem_cons.mp ho with rfl | ho
      · exact harises
      · exact h.failed o ho
  · have hbefore : sys.Covered ref initial := ⟨hcovered.counted,hcovered.enough⟩
    have hcounts : ∀ o : Op, o.Arises (IssuedFor sys.confirmed) → o.CountsAt ref :=
      fun o ho => href.counts ho (hok.counted hbefore)
    have hmore : takenOff ref more = 0 := by
      refine List.sum_eq_zero fun k hk => ?_
      obtain ⟨o,ho,rfl⟩ := List.mem_map.mp hk
      obtain ⟨_,_,_,-,rfl⟩ := perform_more hrun ho
      rfl
    have hbalance := h.balance hbefore
    rw [takenOff_take ref hop] at hbalance
    obtain ⟨hcovers,hspares⟩ := perform_get (p := ref) hrun
    show get ref server.db = _
    have hconfirmed : (sys.serves server.db).confirmed = sys.confirmed := rfl
    simp only [takenOff_append,hmore,zero_add,hconfirmed]
    cases succeeds with
    | true =>
      simp only [if_true]
      rcases hcounts op harises with ⟨qty,hqty,rfl⟩ | ⟨hz,hspare⟩
      · have htakes : (Op.lower ref qty).takes ref = qty := by simp [Op.takes]
        rw [hcovers rfl,hbalance,htakes,add_assoc,add_assoc]
        refine (lowered_amount ?_).trans (by rw [add_assoc])
        have hrest : 0 ≤ takenOff ref (sys.pending.eraseIdx n) := takenOff_nonneg fun o ho =>
          hcounts o (hok.pending o (List.mem_of_mem_eraseIdx ho))
        have hfailed : 0 ≤ takenOff ref sys.failed :=
          takenOff_nonneg fun o ho => hcounts o (h.failed o ho)
        have henough := hbefore.enough
        omega
      · rw [hspares fun _ => hspare,hbalance,hz,zero_add]
    | false =>
      have hsame : get ref server.db = get ref sys.server.db := hspares fun hs => by cases hs
      rw [hsame,hbalance]
      congr 1
      simp only [Bool.false_eq_true,if_false,takenOff_cons]
      omega

theorem Fleet.Stocked.step (h : sys.Stocked ref initial) (hok : sys.Ok home)
    (href : CounterRef ref) (hkeeps : sys.KeepsCounter ref e) (hs : sys.step zh e = some sys') :
    sys'.Stocked ref initial := by
  cases Fleet.moves_of_step hs with
  | signed | launched | refreshData | answer | gesture =>
    exact ⟨h.failed,fun hcovered => h.balance ⟨hcovered.counted,hcovered.enough⟩⟩
  | confirm i d d' c ops hd hc => exact h.confirm hok href hd hc
  | perform n succeeds op server more hop hrun => exact h.perform hok href hop hrun
  | lost n op hop =>
    refine ⟨fun o ho => ?_,fun hcovered => ?_⟩
    · rcases List.mem_cons.mp ho with rfl | ho
      · exact hok.pending o (List.mem_of_getElem? hop)
      · exact h.failed o ho
    · have hbalance := h.balance ⟨hcovered.counted,hcovered.enough⟩
      rw [takenOff_take ref hop] at hbalance
      simp only [hbalance,takenOff_cons]
      congr 1
      omega
  | others db =>
    exact ⟨h.failed,fun hcovered => (hkeeps db rfl).trans
      (h.balance ⟨hcovered.counted,hcovered.enough⟩)⟩

/-- At every moment of every run in which no more is completed than an item's counter held,
the counter is what it held less all that was confirmed, but for what the server has yet to
take off, what failed and what was lost with the app. -/
theorem stock_conserved (zh : Bool) (home : Option String → String) (db : Database)
    (phones : Nat) (hdb : Served home db) (href : CounterRef ref)
    (hget : get ref db = amount initial) (sys : Fleet)
    (hr : Reaches (Fleet.step zh) (fun s e => s.Serves home e ∧ s.KeepsCounter ref e)
      (.installed db phones) sys) (hcovered : sys.Covered ref initial) :
    get ref sys.server.db = amount (takenOff ref sys.pending + takenOff ref sys.failed +
      (initial - confirmedOff ref sys.confirmed)) := by
  have hinv : sys.Ok home ∧ sys.Stocked ref initial := by
    refine hr.inv (fun s e s' (hinv : s.Ok home ∧ s.Stocked ref initial) hmeets hs => ?_) ?_
    · obtain ⟨hok,hstocked⟩ := hinv
      obtain ⟨hserves,hkeeps⟩ := hmeets
      exact ⟨hok.step hserves hs,hstocked.step hok href hkeeps hs⟩
    · refine ⟨fleet_ok_installed hdb phones,fun _ hop => (nomatch hop),fun _ => ?_⟩
      simpa [Fleet.installed,takenOff,confirmedOff] using hget
  exact hinv.2.balance hcovered

def stockedServer : Database := northServer ++ [(requestedRef "rice",.number 5)]

theorem stockedServer_served : Served (fun _ => "north") stockedServer := by
  refine served_of_leaves fun e he => ?_
  rcases List.mem_append.mp he with he | he
  · exact northServer_leaves e he
  · rw [List.mem_singleton.mp he]
    decide

def stocked : Option Fleet :=
  (goesOn sharedEvents (.installed stockedServer 2)).bind (goesOn [.perform 1 true])

theorem stocked_lowered : stocked.map (fun sys =>
    (get (requestedRef "rice") sys.server.db,decide (∀ c ∈ sys.confirmed, c.Counted),
      confirmedOff (requestedRef "rice") sys.confirmed)) = some (amount 3,true,2) := rfl

theorem stock_conserved_stocked : ∃ sys : Fleet, stocked = some sys ∧
    get (requestedRef "rice") sys.server.db = amount 3 ∧
    get (requestedRef "rice") sys.server.db = amount (takenOff (requestedRef "rice") sys.pending +
      takenOff (requestedRef "rice") sys.failed +
      (5 - confirmedOff (requestedRef "rice") sys.confirmed)) := by
  obtain ⟨sys,hsys,hrun⟩ := Option.map_eq_some_iff.mp stocked_lowered
  obtain ⟨mid,hmid,hrest⟩ := Option.bind_eq_some_iff.mp hsys
  have hr : Reaches (Fleet.step false) (fun s e => s.Serves (fun _ => "north") e ∧
      s.KeepsCounter (requestedRef "rice") e) (.installed stockedServer 2) sys := by
    refine ((reaches_of_play hmid).trans (reaches_of_play hrest)).mono fun s e he =>
      ⟨own_serves s he,?_⟩
    rintro db rfl
    cases he
  obtain ⟨hvalue,hrest⟩ := Prod.mk.inj hrun
  obtain ⟨hcounted,hoff⟩ := Prod.mk.inj hrest
  have hcovered : sys.Covered (requestedRef "rice") 5 :=
    ⟨of_decide_eq_true hcounted,by rw [hoff]; decide⟩
  exact ⟨sys,hsys,hvalue,stock_conserved false (fun _ => "north") stockedServer 2
    stockedServer_served (.requested (by decide)) rfl sys hr hcovered⟩

end Runs

end Answr
