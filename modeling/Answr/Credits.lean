import Answr.FleetRuns
set_option autoImplicit false

/-! What the completions of a fleet do to the database: they leave alone every request that
nobody confirmed, and each confirmation is counted for its volunteer exactly once, is still
to be counted, or was lost. -/

namespace Answr
open LeafTree Steps

section Untouched

variable {home : Option String → String} {zh : Bool} {sys sys' : Fleet} {e : Fleet.Event}
  {confirmed : List Confirmation} {op : Op} {zoneid id : String} {p : Path}

theorem apart_of_head {a b : String} {p q : Path} (h : a ≠ b) : Apart (a :: p) (b :: q) :=
  apart_cons.mpr fun heq => absurd heq h

def Fleet.Leaves (p : Path) (sys : Fleet) (e : Fleet.Event) : Prop :=
  ∀ db, e = .others db → below p db = below p sys.server.db

theorem Op.Kind.apart_request (h : op.Kind confirmed)
    (hknown : ∀ c ∈ confirmed, ∃ id, c.request.id = some id ∧ IsKey c.zoneid ∧ IsKey id)
    (hz : IsKey zoneid) (hid : IsKey id)
    (hnone : ∀ c ∈ confirmed, c.zoneid = zoneid → c.request.id ≠ some id) :
    Apart (requestRef zoneid id) op.ref := by
  rw [requestRef_keys hz hid]
  cases h with
  | requestCounter ref qty => exact apart_of_head (by decide)
  | requested ref qty => exact apart_of_head (by decide)
  | read ref id => exact apart_of_head (by decide)
  | entry ref => exact apart_of_head (by decide)
  | raise c =>
    rw [Op.ref,child_completedRequests]
    exact apart_of_head (by decide)
  | request c id' hc hcid =>
    obtain ⟨id₁,hid₁,hzkey,hkey⟩ := hknown c hc
    obtain rfl : id' = id₁ := Option.some.inj (hcid.symm.trans hid₁)
    rw [Op.ref,requestRef_keys hzkey hkey]
    refine apart_of_length rfl fun heq => ?_
    simp only [List.cons.injEq,true_and,and_true] at heq
    exact hnone c hc heq.1.symm (by rw [hcid,heq.2])

theorem below_perform_apart {succeeds : Op → Bool} {s s' : Server} {more : List Op}
    (h : perform succeeds op s = .ok (s',more)) (hp : Apart p op.ref) :
    below p s'.db = below p s.db := by
  by_cases hop : ∃ ref id, op = .findEntry ref id
  · obtain ⟨ref,id,rfl⟩ := hop
    cases hentry : entryOf id ref s.db with
    | error e => simp [perform,hentry,bind,Except.bind] at h
    | ok entry =>
      rw [perform_findEntry hentry,Except.ok.injEq,Prod.mk.injEq] at h
      rw [← h.1]
  · obtain ⟨s₁,hs₁,hdb⟩ := perform_write succeeds s fun ref id heq => hop ⟨ref,id,heq⟩
    rw [hs₁,Except.ok.injEq,Prod.mk.injEq] at h
    rw [← h.1,hdb]
    exact below_commit_apart hp s.db

theorem Fleet.confirmed_subset (hs : sys.step zh e = some sys') :
    ∀ c ∈ sys.confirmed, c ∈ sys'.confirmed := by
  cases Fleet.moves_of_step hs with
  | confirm i d d' c ops hd hc => exact fun c' => List.mem_cons_of_mem c
  | signed | launched | refreshData | answer | gesture | perform | lost | others =>
    exact fun _ => id

theorem untouched_step (hok : sys.Ok home) (hleaves : sys.Leaves (requestRef zoneid id) e)
    (hs : sys.step zh e = some sys') (hz : IsKey zoneid) (hid : IsKey id)
    (hnone : ∀ c ∈ sys.confirmed, c.zoneid = zoneid → c.request.id ≠ some id) :
    below (requestRef zoneid id) sys'.server.db = below (requestRef zoneid id) sys.server.db := by
  cases Fleet.moves_of_step hs with
  | perform n succeeds op server more hop hrun =>
    have hknown : ∀ c ∈ sys.confirmed, ∃ id, c.request.id = some id ∧ IsKey c.zoneid ∧
        IsKey id := fun c hc => by
      obtain ⟨id',hid',hknown⟩ := hok.confirmed c hc
      exact ⟨id',hid',hknown.zoneKey,hknown.idKey⟩
    have hkind := (hok.pending op (List.mem_of_getElem? hop)).kind
    exact below_perform_apart hrun (hkind.apart_request hknown hz hid hnone)
  | others db => exact hleaves db rfl
  | signed | launched | refreshData | answer | gesture | confirm | lost => rfl

/-- Whatever a fleet does, only requests that the server has held are completed, and the
node of a request that nobody confirmed is never touched: no completion reaches another
request, or a whole zone. -/
theorem unconfirmed_untouched (zh : Bool) (home : Option String → String) (db : Database)
    (phones : Nat) (hdb : Served home db) (zoneid id : String) (hz : IsKey zoneid)
    (hid : IsKey id) (sys : Fleet)
    (hr : Reaches (Fleet.step zh) (fun s e => s.Serves home e ∧ s.Leaves (requestRef zoneid id) e)
      (.installed db phones) sys) :
    (∀ c ∈ sys.confirmed, ∃ id, c.request.id = some id ∧ HeldSince sys.held c.zoneid id) ∧
    ((∀ c ∈ sys.confirmed, c.zoneid = zoneid → c.request.id ≠ some id) →
      below (requestRef zoneid id) sys.server.db = below (requestRef zoneid id) db) := by
  have hinv : sys.Ok home ∧
      ((∀ c ∈ sys.confirmed, c.zoneid = zoneid → c.request.id ≠ some id) →
        below (requestRef zoneid id) sys.server.db = below (requestRef zoneid id) db) := by
    refine hr.inv (fun s e s' (hinv : s.Ok home ∧
      ((∀ c ∈ s.confirmed, c.zoneid = zoneid → c.request.id ≠ some id) →
        below (requestRef zoneid id) s.server.db = below (requestRef zoneid id) db))
        hmeets hs => ?_) ?_
    · obtain ⟨hok,hsame⟩ := hinv
      obtain ⟨hserves,hleaves⟩ := hmeets
      refine ⟨hok.step hserves hs,fun hnone => ?_⟩
      -- what is not confirmed in the end was not confirmed before
      have hbefore : ∀ c ∈ s.confirmed, c.zoneid = zoneid → c.request.id ≠ some id :=
        fun c hc => hnone c (Fleet.confirmed_subset hs c hc)
      exact (untouched_step hok hleaves hs hz hid hbefore).trans (hsame hbefore)
    · exact ⟨fleet_ok_installed hdb phones,fun _ => rfl⟩
  refine ⟨fun c hc => ?_,hinv.2⟩
  obtain ⟨id',hid',hknown⟩ := hinv.1.confirmed c hc
  exact ⟨id',hid',hknown.held⟩

def besideServer : Database := northServer ++ [
  (["requests","north","r2","dateCreated"],.number 2),
  (["requests","north","r2","senderID"],.string "s1"),
  (["requests","north","r2","status"],.string "Pending"),
  (["requests","north","r2","delSlotStart"],.number 6000),
  (["requests","north","r2","content","rice"],.number 1)]

theorem besideServer_served : Served (fun _ => "north") besideServer :=
  served_of_leaves (by decide)

def besideEvents : List Fleet.Event :=
  [.signed 0 (some "u1"),.refreshData 0] ++
  [[],[0],[0,0],[0,1],[0,0,0,0],[0,1,0,0],[0,0,1,0],[0,1,1,0]].map
    (fun path => .answer 0 .table 0 path) ++
  [.gesture 0 (.reloadData .table [⟨0,(0,0)⟩]),.gesture 0 (.toggledItemCheck .table 0 "rice"),
    .gesture 0 (.completionBtnClicked 0),.confirm 0] ++
  List.replicate 5 (.perform 0 true)

theorem unconfirmed_untouched_beside : ∃ sys : Fleet,
    (sys.confirmed.map fun c => (c.zoneid,c.request.id)) = [("north",some "r1")] ∧
    keys (zoneRef "north") sys.server.db = ["r2"] ∧
    (∀ c ∈ sys.confirmed, ∃ id, c.request.id = some id ∧ HeldSince sys.held c.zoneid id) ∧
    ((∀ c ∈ sys.confirmed, c.zoneid = "north" → c.request.id ≠ some "r2") →
      below (requestRef "north" "r2") sys.server.db =
        below (requestRef "north" "r2") besideServer) := by
  have hrun : (goesOn besideEvents (.installed besideServer 1)).map (fun sys =>
      (sys.confirmed.map fun c => (c.zoneid,c.request.id),
        keys (zoneRef "north") sys.server.db)) = some ([("north",some "r1")],["r2"]) := rfl
  obtain ⟨sys,hsys,hend⟩ := Option.map_eq_some_iff.mp hrun
  obtain ⟨hconfirmed,hkeys⟩ := Prod.mk.inj hend
  have hr : Reaches (Fleet.step false) (fun s e => s.Serves (fun _ => "north") e ∧
      s.Leaves (requestRef "north" "r2") e) (.installed besideServer 1) sys := by
    refine (reaches_of_play hsys).mono fun s e he => ⟨own_serves s he,?_⟩
    rintro db rfl
    cases he
  exact ⟨sys,hconfirmed,hkeys,unconfirmed_untouched false (fun _ => "north") besideServer 1
    besideServer_served "north" "r2" (by decide) (by decide) sys hr⟩

end Untouched

section Credits

variable {home : Option String → String} {zh : Bool} {sys sys' : Fleet} {e : Fleet.Event}
  {confirmed : List Confirmation} {op : Op} {uid : String}

def creditOf (uid : String) : Op := .raise (completedRequestsRef uid)

theorem Op.Kind.spares_credits (h : op.Kind confirmed) (hkeys : ∀ c ∈ confirmed, IsKey c.uid)
    (hu : IsKey uid) (hne : op ≠ creditOf uid) : op.Spares (completedRequestsRef uid) := by
  apply Op.spares_of_apart
  cases h with
  | requestCounter ref qty =>
    rw [child_completedRequests]
    exact apart_of_head (by decide)
  | requested ref qty =>
    rw [child_completedRequests]
    exact apart_of_head (by decide)
  | read ref id =>
    rw [child_completedRequests]
    exact apart_of_head (by decide)
  | entry ref =>
    rw [child_completedRequests]
    exact apart_of_head (by decide)
  | raise c hc =>
    refine completedRequestsRef_apart (hkeys c hc) hu fun heq => hne ?_
    rw [creditOf,heq]
  | request c id =>
    rw [Op.ref,child_requests,child_completedRequests]
    exact apart_of_head (by decide)

theorem intOrZero_raise (value : Option Leaf) : intOrZero (raised value) = intOrZero value+1 := rfl

theorem credits_perform {succeeds : Bool} {s s' : Server} {more : List Op}
    (h : op.Kind confirmed) (hkeys : ∀ c ∈ confirmed, IsKey c.uid) (hu : IsKey uid)
    (hrun : perform (fun _ => succeeds) op s = .ok (s',more)) :
    intOrZero (get (completedRequestsRef uid) s'.db) =
      intOrZero (get (completedRequestsRef uid) s.db) +
        (if succeeds = true ∧ op = creditOf uid then 1 else 0) := by
  obtain ⟨hcovers,hspares⟩ := perform_get (p := completedRequestsRef uid) hrun
  by_cases hop : op = creditOf uid
  · subst hop
    rw [hcovers rfl]
    cases succeeds with
    | true => simp [applied,creditOf,Op.act,intOrZero_raise]
    | false => simp [applied]
  · rw [hspares fun _ => h.spares_credits hkeys hu hop]
    simp [hop]

theorem count_issuedBy (request : Request) (zoneID id : String) {uid uid' : String}
    (hu : IsKey uid) (hu' : IsKey uid') :
    (issuedBy request zoneID id uid').count (creditOf uid) = if uid' = uid then 1 else 0 := by
  have hnone : (updateCounters request.items zoneID).count (creditOf uid) = 0 := by
    rw [List.count_eq_zero,mem_updateCounters]
    simp [creditOf]
  rw [issuedBy,List.count_append,hnone]
  simp [creditOf,completedRequestsRef_keys hu,completedRequestsRef_keys hu',List.count_cons]

theorem count_take (n : Nat) (pending : List Op) (o : Op) (hop : pending[n]? = some op) :
    pending.count o = (pending.eraseIdx n).count o + if op = o then 1 else 0 := by
  obtain ⟨hn,rfl⟩ := List.getElem?_eq_some_iff.mp hop
  rw [← (List.getElem_cons_eraseIdx_perm hn).count_eq o,List.count_cons]
  simp

/-- Users have proper ids, and others leave the volunteer's count alone. -/
structure Fleet.KeepsCredits (uid : String) (sys : Fleet) (e : Fleet.Event) : Prop where
  signed : ∀ i user, e = .signed i (some user) → IsKey user
  others : ∀ db, e = .others db →
    get (completedRequestsRef uid) db = get (completedRequestsRef uid) sys.server.db

/-- Each confirmation of the volunteer has been counted, is still to be counted, or its
count failed or got lost. -/
structure Fleet.Credited (uid : String) (initial : Int) (sys : Fleet) : Prop where
  users : ∀ d ∈ sys.phones, ∀ user, d.user = some user → IsKey user
  uids : ∀ c ∈ sys.confirmed, IsKey c.uid
  balance : intOrZero (get (completedRequestsRef uid) sys.server.db) +
      sys.pending.count (creditOf uid) + sys.failed.count (creditOf uid) =
    initial + sys.confirmed.countP fun c => c.uid = uid

variable {initial : Int} {d d' : Phone}

theorem Fleet.Credited.set (h : sys.Credited uid initial) (i : Nat)
    (hd : ∀ user, d.user = some user → IsKey user) :
    Fleet.Credited uid initial { sys with phones := sys.phones.set i d } := by
  refine ⟨fun d' hd' => ?_,h.uids,h.balance⟩
  rcases List.mem_or_eq_of_mem_set hd' with hd' | rfl
  · exact h.users d' hd'
  · exact hd

theorem Phone.answered_user {server : Database} {n : Nat} (ha : d.Answered zh server n d') :
    d'.user = d.user := by
  cases ha <;> rfl

theorem Phone.gesture_user {e : Gesture} (h : d.gesture e = some d') : d'.user = d.user := by
  cases e with
  | updateSavedRequests ord snapshot => cases h
  | confirm => cases h
  | reloadData | toggledItemCheck | completionBtnClicked | cancel =>
    obtain ⟨screen,-,rfl⟩ := Option.map_eq_some_iff.mp h
    rfl

theorem Fleet.Credited.confirm (h : sys.Credited uid initial) (hu : IsKey uid) {i : Nat}
    {c : Confirmation} {ops : List Op} (hd : sys.phones[i]? = some d)
    (hc : d.confirm = some (d',c,ops)) : Fleet.Credited uid initial { sys with
      phones := sys.phones.set i d'
      pending := sys.pending ++ ops
      confirmed := c :: sys.confirmed } := by
  obtain ⟨screen,handed,-,-,huser,-,-,hops,rfl⟩ := Phone.confirm_some hc
  have hkey : IsKey c.uid := h.users d (List.mem_of_getElem? hd) c.uid huser
  obtain ⟨id,hid⟩ : ∃ id, c.request.id = some id := by
    cases hid : c.request.id with
    | some id => exact ⟨id,rfl⟩
    | none => simp [markRequestAsComplete,unwrap,hid,bind,Except.bind] at hops
  rw [markRequestAsComplete_ok hid] at hops
  obtain rfl := Except.ok.inj hops
  have hset := h.set (d := { d with screen := screen }) i (h.users d (List.mem_of_getElem? hd))
  refine ⟨hset.users,fun c' hc' => ?_,?_⟩
  · rcases List.mem_cons.mp hc' with rfl | hc'
    · exact hkey
    · exact h.uids c' hc'
  · have hbalance := h.balance
    simp only [List.count_append,count_issuedBy c.request c.zoneid id hu hkey,List.countP_cons]
    by_cases hcu : c.uid = uid
    · simp only [hcu,if_true,decide_true]
      omega
    · simp only [hcu,if_false,decide_false,Bool.false_eq_true]
      omega

theorem Fleet.Credited.perform (h : sys.Credited uid initial) (hok : sys.Ok home)
    (hu : IsKey uid) {n : Nat} {succeeds : Bool} {server : Server} {more : List Op}
    (hop : sys.pending[n]? = some op)
    (hrun : Answr.perform (fun _ => succeeds) op sys.server = .ok (server,more)) :
    Fleet.Credited uid initial { sys.serves server.db with
      server := server
      pending := more ++ sys.pending.eraseIdx n
      failed := if succeeds then sys.failed else op :: sys.failed } := by
  refine ⟨fun d hd => ?_,h.uids,?_⟩
  · obtain ⟨d₀,hd₀,rfl⟩ := List.mem_map.mp hd
    exact h.users d₀ hd₀
  · have hkind := (hok.pending op (List.mem_of_getElem? hop)).kind
    have hmore : more.count (creditOf uid) = 0 := by
      rw [List.count_eq_zero]
      intro hmem
      obtain ⟨ref,id,key,-,heq⟩ := perform_more hrun hmem
      cases heq
    have htake := count_take n sys.pending (creditOf uid) hop
    have hbalance := h.balance
    have hsame : (sys.serves server.db).confirmed = sys.confirmed := rfl
    simp only [List.count_append,hmore,credits_perform hkind h.uids hu hrun,hsame]
    cases succeeds with
    | true =>
      simp only [if_true,true_and]
      split at htake
      · rename_i heq
        simp only [heq,if_true]
        omega
      · rename_i hne
        simp only [hne,if_false]
        omega
    | false =>
      simp only [Bool.false_eq_true,if_false,false_and,List.count_cons,beq_iff_eq]
      omega

theorem Fleet.Credited.step (h : sys.Credited uid initial) (hok : sys.Ok home) (hu : IsKey uid)
    (hkeeps : sys.KeepsCredits uid e) (hs : sys.step zh e = some sys') :
    sys'.Credited uid initial := by
  cases Fleet.moves_of_step hs with
  | signed i user d hd =>
    refine h.set i fun u hu => ?_
    obtain rfl : user = some u := hu
    exact hkeeps.signed i u rfl
  | launched i d hd => exact h.set i (h.users d (List.mem_of_getElem? hd))
  | refreshData i d d' hd hf =>
    obtain ⟨fetch,-,rfl⟩ := Phone.refreshData_some hf
    exact h.set i (h.users d (List.mem_of_getElem? hd))
  | answer i ord n path d d' hd ha =>
    refine h.set i ?_
    rw [Phone.answered_user (Phone.answered ha)]
    exact h.users d (List.mem_of_getElem? hd)
  | gesture i e d d' hd hg =>
    refine h.set i ?_
    rw [Phone.gesture_user hg]
    exact h.users d (List.mem_of_getElem? hd)
  | confirm i d d' c ops hd hc => exact h.confirm hu hd hc
  | perform n succeeds op server more hop hrun => exact h.perform hok hu hop hrun
  | lost n op hop =>
    refine ⟨h.users,h.uids,?_⟩
    have htake := count_take n sys.pending (creditOf uid) hop
    have hbalance := h.balance
    simp only [List.count_cons,beq_iff_eq]
    omega
  | others db =>
    refine ⟨fun d hd => ?_,h.uids,?_⟩
    · obtain ⟨d₀,hd₀,rfl⟩ := List.mem_map.mp hd
      exact h.users d₀ hd₀
    · have hsame := hkeeps.others db rfl
      have hbalance := h.balance
      simpa only [Fleet.serves,hsame] using hbalance

/-- At every moment of every run, a volunteer's CompletedRequests is what it was at first
and one for each of their confirmations, those aside that the server has yet to carry out,
that failed or that were lost with the app. -/
theorem credits_conserved (zh : Bool) (home : Option String → String) (db : Database)
    (phones : Nat) (hdb : Served home db) (uid : String) (hu : IsKey uid) (sys : Fleet)
    (hr : Reaches (Fleet.step zh) (fun s e => s.Serves home e ∧ s.KeepsCredits uid e)
      (.installed db phones) sys) :
    intOrZero (get (completedRequestsRef uid) sys.server.db) +
        sys.pending.count (creditOf uid) + sys.failed.count (creditOf uid) =
      intOrZero (get (completedRequestsRef uid) db) +
        sys.confirmed.countP (fun c => c.uid = uid) := by
  have hinv : sys.Ok home ∧
      sys.Credited uid (intOrZero (get (completedRequestsRef uid) db)) := by
    refine hr.inv (fun s e s' (hinv : s.Ok home ∧
      s.Credited uid (intOrZero (get (completedRequestsRef uid) db))) hmeets hs => ?_) ?_
    · obtain ⟨hok,hcredited⟩ := hinv
      obtain ⟨hserves,hkeeps⟩ := hmeets
      exact ⟨hok.step hserves hs,hcredited.step hok hu hkeeps hs⟩
    · refine ⟨fleet_ok_installed hdb phones,fun d hd user huser => ?_,fun _ hc => (nomatch hc),?_⟩
      · rw [List.eq_of_mem_replicate hd] at huser
        cases huser
      · simp [Fleet.installed]
  exact hinv.2.balance

theorem credits_conserved_shared : ∃ sys : Fleet,
    (intOrZero (get (completedRequestsRef "u1") sys.server.db),
      sys.pending.count (creditOf "u1"),sys.failed.count (creditOf "u1")) = (1,0,0) ∧
    intOrZero (get (completedRequestsRef "u1") sys.server.db) +
        sys.pending.count (creditOf "u1") + sys.failed.count (creditOf "u1") =
      intOrZero (get (completedRequestsRef "u1") northServer) +
        sys.confirmed.countP (fun c => c.uid = "u1") := by
  have hrun : (shared.bind (goesOn goneEvents)).map (fun sys =>
      (intOrZero (get (completedRequestsRef "u1") sys.server.db),
        sys.pending.count (creditOf "u1"),sys.failed.count (creditOf "u1"))) =
      some (1,0,0) := rfl
  obtain ⟨sys,hsys,hcounts⟩ := Option.map_eq_some_iff.mp hrun
  obtain ⟨mid,hmid,hrest⟩ := Option.bind_eq_some_iff.mp hsys
  have hr : Reaches (Fleet.step false) (fun s e => s.Serves (fun _ => "north") e ∧
      s.KeepsCredits "u1" e) (.installed northServer 2) sys := by
    refine ((reaches_of_play hmid).trans (reaches_of_play hrest)).mono fun s e he =>
      ⟨own_serves s he,?_,?_⟩
    · rintro i user rfl
      obtain rfl : user = "u1" := by simpa [Fleet.Event.own] using he
      decide
    · rintro db rfl
      cases he
  exact ⟨sys,hcounts,credits_conserved false (fun _ => "north") northServer 2
    northServer_served "u1" (by decide) sys hr⟩

end Credits

end Answr
