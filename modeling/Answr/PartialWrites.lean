import Answr.Confirmations
set_option autoImplicit false

/-! One completion whose writes may fail, each on its own. The database ends with
exactly the writes that succeeded; nothing ties them together. -/

namespace Answr
open LeafTree Pool

variable {succeeds : Op → Bool} {uid zoneID id : String} {request : Request}
  {entry : Option String} {db : Database}

section Callback

def Op.answers : Op → Bool
  | .dropRequest _ => true
  | _ => false

theorem perform_onComplete {op : Op} {s s' : Server} {more : List Op}
    (h : perform succeeds op s = .ok (s',more)) :
    s'.onComplete = s.onComplete + (if op.answers then 1 else 0) ∧
      ∀ o ∈ more, o.answers = false := by
  refine ⟨?_,fun o ho => ?_⟩
  · cases op with
    | findEntry ref id =>
      cases he : entryOf id ref s.db with
      | error e => simp [perform,he,bind,Except.bind] at h
      | ok entry =>
        rw [perform_findEntry he,Except.ok.injEq,Prod.mk.injEq] at h
        rw [← h.1]
        rfl
    | lower ref qty => rw [← (Prod.mk.inj (Except.ok.inj h)).1]; rfl
    | dropEntry ref => rw [← (Prod.mk.inj (Except.ok.inj h)).1]; rfl
    | raise ref => rw [← (Prod.mk.inj (Except.ok.inj h)).1]; rfl
    | dropRequest ref => rw [← (Prod.mk.inj (Except.ok.inj h)).1]; rfl
  · obtain ⟨ref,rid,key,-,rfl⟩ := perform_more h ho
    rfl

theorem onComplete_runs {c c' : Config Server Op} (hr : Runs (perform succeeds) c c') :
    c'.state.onComplete + c'.pending.countP (fun op => op.answers = true) =
      c.state.onComplete + c.pending.countP (fun op => op.answers = true) := by
  induction hr with
  | refl => rfl
  | @step s s' op rest more c hrun _ ih =>
    obtain ⟨hcalls,hmore⟩ := perform_onComplete hrun
    have hnone : Multiset.countP (fun op : Op => op.answers = true) (more : Multiset Op) = 0 := by
      rw [Multiset.countP_eq_zero]
      intro o ho
      simp [hmore o (Multiset.mem_coe.mp ho)]
    rw [ih]
    simp only [Multiset.countP_add,hnone,hcalls,Multiset.countP_cons]
    omega

end Callback

section Entry

def indexRef (request : Request) (zoneID : String) : Path :=
  userRequestsRef request.senderID zoneID

def dropFound (request : Request) (zoneID key : String) : Op :=
  .dropEntry (indexRef request zoneID ++ [key])

def entryDropped (succeeds : Op → Bool) (request : Request) (zoneID : String)
    (entry : Option String) (db : Database) : Database :=
  match entry with
  | some key => commit succeeds (dropFound request zoneID key) db
  | none => db

/-- What is pending for the index and what its node holds: the read, then the removal
of what it found, then nothing. -/
def EntryPhase (succeeds : Op → Bool) (request : Request) (zoneID : String)
    (entry : Option String) (db : Database) (part : Multiset Op) (node : Database) : Prop :=
  (part = {.findEntry (indexRef request zoneID) request.id} ∧
    node = below (indexRef request zoneID) db) ∨
  (∃ key, entry = some key ∧ part = {dropFound request zoneID key} ∧
    node = below (indexRef request zoneID) db) ∨
  part = 0 ∧ node = below (indexRef request zoneID) (entryDropped succeeds request zoneID entry db)

/-- Besides the operations on the index only other writes are pending. -/
def EntryInv (succeeds : Op → Bool) (request : Request) (zoneID id uid : String)
    (entry : Option String) (db : Database) (c : Config Server Op) : Prop :=
  ∃ part others, c.pending = part + others ∧
    (∀ op ∈ others, op ∈ issuedBy request zoneID id uid ∧
      op ≠ .findEntry (indexRef request zoneID) request.id) ∧
    EntryPhase succeeds request zoneID entry db part
      (below (indexRef request zoneID) c.state.db)

theorem EntryInv.mem_pending {c : Config Server Op}
    (h : EntryInv succeeds request zoneID id uid entry db c) {op : Op} (hop : op ∈ c.pending) :
    op ∈ issuedBy request zoneID id uid ∨
      ∃ key, entry = some key ∧ op = dropFound request zoneID key := by
  obtain ⟨part,others,hpending,hothers,hphase⟩ := h
  rw [hpending] at hop
  rcases Multiset.mem_add.mp hop with hop | hop
  · rcases hphase with ⟨rfl,-⟩ | ⟨key,hkey,rfl,-⟩ | ⟨rfl,-⟩
    · rw [Multiset.mem_singleton.mp hop]
      exact .inl (mem_issuedBy.mpr (.inr (.inl rfl)))
    · exact .inr ⟨key,hkey,Multiset.mem_singleton.mp hop⟩
    · simp at hop
  · exact .inl (hothers op hop).1

theorem EntryInv.node_done {s : Server}
    (h : EntryInv succeeds request zoneID id uid entry db ⟨s,0⟩) :
    below (indexRef request zoneID) s.db =
      below (indexRef request zoneID) (entryDropped succeeds request zoneID entry db) := by
  obtain ⟨part,others,hpending,-,hphase⟩ := h
  have hpart : part = 0 := by
    have hle := Multiset.le_add_right part others
    rw [← hpending] at hle
    exact Multiset.le_zero.mp hle
  rcases hphase with ⟨rfl,-⟩ | ⟨key,-,rfl,-⟩ | ⟨-,hnode⟩
  · simp at hpart
  · simp at hpart
  · exact hnode

theorem dropFound_commit {db db' : Database} {key : String}
    (h : below (indexRef request zoneID) db' = below (indexRef request zoneID) db) :
    below (indexRef request zoneID) (commit succeeds (dropFound request zoneID key) db') =
      below (indexRef request zoneID) (commit succeeds (dropFound request zoneID key) db) := by
  rw [commit,commit]
  split
  · change below _ (remove _ _) = below _ (remove _ _)
    rw [below_remove,below_remove,h]
  · exact h

theorem entry_steady (hitems : ContentItems request.items)
    (hscan : entryOf request.id (indexRef request zoneID) db = .ok entry) :
    Steady (perform succeeds) Op.cost (EntryInv succeeds request zoneID id uid entry db) := by
  rintro s op rest ⟨part,others,hpending,hothers,hphase⟩
  have hrest : rest = (part + others).erase op := by
    rw [← hpending,Multiset.erase_cons_head]
  have hmem : op ∈ part ∨ op ∈ others := by
    rw [← Multiset.mem_add,← hpending]
    exact Multiset.mem_cons_self op rest
  by_cases hop : op ∈ part
  · rw [Multiset.erase_add_left_pos others hop] at hrest
    rcases hphase with ⟨rfl,hnode⟩ | ⟨key,rfl,rfl,hnode⟩ | ⟨rfl,hnode⟩
    · obtain rfl := Multiset.mem_singleton.mp hop
      rw [Multiset.erase_singleton,Multiset.zero_add] at hrest
      refine ⟨s,_,perform_findEntry ((entryOf_congr hnode).trans hscan),?_,?_⟩
      · cases entry with
        | none => simp [Op.cost]
        | some key => simp [Op.cost]
      · cases entry with
        | none => exact ⟨0,others,by simp [hrest],hothers,.inr (.inr ⟨rfl,hnode⟩)⟩
        | some key =>
          exact ⟨{dropFound request zoneID key},others,by simp [hrest,dropFound],hothers,
            .inr (.inl ⟨key,rfl,rfl,hnode⟩)⟩
    · obtain rfl := Multiset.mem_singleton.mp hop
      rw [Multiset.erase_singleton,Multiset.zero_add] at hrest
      refine ⟨_,[],rfl,by simp [Op.cost,dropFound],0,others,by simp [hrest],hothers,
        .inr (.inr ⟨rfl,?_⟩)⟩
      exact dropFound_commit hnode
    · simp at hop
  · have hin := hmem.resolve_left hop
    rw [Multiset.erase_add_right_pos part hin] at hrest
    obtain ⟨hissued,hne⟩ := hothers op hin
    have hwrite : ∀ ref rid, op ≠ .findEntry ref rid := by
      rintro ref rid rfl
      rcases mem_issuedBy.mp hissued with ⟨item,-,heq | heq⟩ | heq | heq | heq
      · cases heq
      · cases heq
      · exact hne heq
      · cases heq
      · cases heq
    obtain ⟨s',hrun,hdb⟩ := perform_write succeeds s hwrite
    have hapart : Apart op.ref (indexRef request zoneID) :=
      issuedBy_apart hitems (fun h => absurd rfl h) (mem_issuedBy.mpr (.inr (.inl rfl)))
        hissued hne
    refine ⟨s',[],hrun,op.cost_pos,part,others.erase op,by simp [hrest],
      fun o ho => hothers o (Multiset.mem_of_mem_erase ho),?_⟩
    rw [hdb,below_commit_apart hapart.symm]
    exact hphase

theorem mem_counters {op : Op} : op ∈ updateCounters request.items zoneID ++
      [.raise (completedRequestsRef uid),.dropRequest (requestRef zoneID id)] ↔
    op ∈ issuedBy request zoneID id uid ∧ op ≠ .findEntry (indexRef request zoneID) request.id := by
  rw [List.mem_append,mem_updateCounters,mem_issuedBy,indexRef]
  simp only [List.mem_cons,List.not_mem_nil,or_false]
  constructor
  · rintro (⟨item,hitem,rfl | rfl⟩ | rfl | rfl)
    · exact ⟨.inl ⟨item,hitem,.inl rfl⟩,by simp⟩
    · exact ⟨.inl ⟨item,hitem,.inr rfl⟩,by simp⟩
    · exact ⟨.inr (.inr (.inl rfl)),by simp⟩
    · exact ⟨.inr (.inr (.inr rfl)),by simp⟩
  · rintro ⟨hop | hop | hop,hne⟩
    · exact .inl hop
    · exact absurd hop hne
    · exact .inr hop

theorem entry_start : EntryInv succeeds request zoneID id uid entry db
    ⟨⟨db,0⟩,(issuedBy request zoneID id uid : List Op)⟩ := by
  refine ⟨{.findEntry (indexRef request zoneID) request.id},
    ((updateCounters request.items zoneID ++
      [.raise (completedRequestsRef uid),.dropRequest (requestRef zoneID id)] : List Op)),?_,
    fun op hop => mem_counters.mp (Multiset.mem_coe.mp hop),.inl ⟨rfl,rfl⟩⟩
  rw [← Multiset.coe_singleton,Multiset.coe_add,Multiset.coe_eq_coe,issuedBy,indexRef]
  exact List.perm_middle

end Entry

section Run

/-- What one completion leaves when exactly the writes that `succeeds` names take
effect. -/
structure Written (succeeds : Op → Bool) (request : Request) (zoneID id uid : String)
    (entry : Option String) (db db' : Database) : Prop where
  requestCounters : ∀ item ∈ request.items, get (requestCounterRef zoneID item.id) db' =
    applied succeeds (.lower (requestCounterRef zoneID item.id) item.qty)
      (get (requestCounterRef zoneID item.id) db)
  requested : ∀ item ∈ request.items, get (requestedRef item.id) db' =
    applied succeeds (.lower (requestedRef item.id) item.qty) (get (requestedRef item.id) db)
  completedRequests : get (completedRequestsRef uid) db' =
    applied succeeds (.raise (completedRequestsRef uid)) (get (completedRequestsRef uid) db)
  indexEntry : ∀ key, entry = some key → ∀ p, indexRef request zoneID ++ [key] <+: p →
    get p db' = applied succeeds (dropFound request zoneID key) (get p db)
  requestRecord : ∀ p, requestRef zoneID id <+: p →
    get p db' = applied succeeds (.dropRequest (requestRef zoneID id)) (get p db)
  /-- a leaf on which no write that succeeds bears is as before -/
  others : ∀ p, (∀ op ∈ issuedBy request zoneID id uid, succeeds op = true → op.Spares p) →
    (∀ key, entry = some key → succeeds (dropFound request zoneID key) = true →
      (dropFound request zoneID key).Spares p) → get p db' = get p db

/-- Whichever of its writes fail, a completion ends with exactly those that succeed,
and calls back only when the removal of the request has been answered. -/
theorem markRequestAsComplete_ends (succeeds : Op → Bool) (uid zoneID id : String)
    (request : Request) (entry : Option String) (db : Database) (hid : request.id = some id)
    (hitems : ContentItems request.items)
    (hscan : entryOf request.id (indexRef request zoneID) db = .ok entry) :
    ∃ issued : List Op, markRequestAsComplete (some uid) request zoneID = .ok issued ∧
      Ends (perform succeeds) ⟨⟨db,0⟩,issued⟩
        (fun s => Written succeeds request zoneID id uid entry db s.db) ∧
      ∀ c, Runs (perform succeeds) ⟨⟨db,0⟩,issued⟩ c → 0 < c.state.onComplete →
        Op.dropRequest (requestRef zoneID id) ∉ c.pending := by
  refine ⟨_,markRequestAsComplete_ok hid,?_,?_⟩
  · have hsteady := @entry_steady succeeds uid zoneID id request entry db hitems hscan
    have hends : Ends (perform succeeds) ⟨⟨db,0⟩,issuedBy request zoneID id uid⟩ fun s =>
        EntryInv succeeds request zoneID id uid entry db ⟨s,0⟩ :=
      ends_of_steady hsteady entry_start fun s h => h
    refine ⟨hends.noError,hends.finishes,fun s hr => ?_⟩
    have hstart : ∀ op ∈ ((issuedBy request zoneID id uid : List Op) : Multiset Op),
        Issued [uid] request zoneID id op :=
      fun op hop => ⟨uid,by simp,Multiset.mem_coe.mp hop⟩
    have hwrite : ∀ o p, o ∈ issuedBy request zoneID id uid → o.Covers p →
        (∀ ref, o ≠ .dropEntry ref) → get p s.db = applied succeeds o (get p db) := by
      intro o p ho hc hentry
      have hget := get_of_covers hr hstart hc hentry fun op hop hne =>
        issued_spares hitems (fun _ h hne => absurd (List.mem_singleton.mp h) hne) ho hc hop hne
      rwa [Multiset.coe_count,List.count_eq_one_of_mem (issuedBy_nodup hitems zoneID id uid) ho]
        at hget
    refine ⟨?_,?_,?_,?_,?_,?_⟩
    · exact fun item hitem =>
        hwrite _ _ (mem_issuedBy.mpr (.inl ⟨item,hitem,.inl rfl⟩)) rfl (by simp)
    · exact fun item hitem =>
        hwrite _ _ (mem_issuedBy.mpr (.inl ⟨item,hitem,.inr rfl⟩)) rfl (by simp)
    · exact hwrite _ _ (mem_issuedBy.mpr (.inr (.inr (.inl rfl)))) rfl (by simp)
    · rintro key rfl p hp
      have hnode := (hends.post s hr).node_done
      rw [get_congr _ p hnode ((List.prefix_append _ _).trans hp)]
      exact get_commit_covers (show (dropFound request zoneID key).Covers p from hp) db
    · exact fun p hp => hwrite _ _ (mem_issuedBy.mpr (.inr (.inr (.inr rfl)))) hp (by simp)
    · intro p hissued hentry
      refine get_of_spares hr fun d hd op hop hsucc => ?_
      rcases (hsteady.runs hd entry_start).mem_pending hop with h | ⟨key,hkey,rfl⟩
      · exact hissued op h hsucc
      · exact hentry key hkey hsucc
  · intro c hr hcalled hpending
    have hcount := onComplete_runs hr
    have hstart : Multiset.countP (fun op : Op => op.answers = true)
        (issuedBy request zoneID id uid : Multiset Op) = 1 := by
      have hcounters : (updateCounters request.items zoneID).countP
          (fun op => decide (op.answers = true)) = 0 := by
        rw [List.countP_eq_zero]
        intro op hop
        obtain ⟨item,-,rfl | rfl⟩ := mem_updateCounters.mp hop
        · simp [Op.answers]
        · simp [Op.answers]
      rw [Multiset.coe_countP,issuedBy,List.countP_append,hcounters]
      rfl
    have hpos : 0 < c.pending.countP (fun op => op.answers = true) :=
      Multiset.countP_pos.mpr ⟨_,hpending,rfl⟩
    rw [hstart] at hcount
    simp only at hcount
    omega

theorem markRequestAsComplete_ends_rice :
    ∃ issued : List Op, markRequestAsComplete (some "u1") riceRequest "north" = .ok issued ∧
      Ends (perform fun op => !op.answers) ⟨⟨riceDatabase,0⟩,issued⟩
        (fun s => Written (fun op => !op.answers) riceRequest "north" "r1" "u1" (some "k1")
          riceDatabase s.db) ∧
      ∀ c, Runs (perform fun op => !op.answers) ⟨⟨riceDatabase,0⟩,issued⟩ c →
        0 < c.state.onComplete → Op.dropRequest (requestRef "north" "r1") ∉ c.pending :=
  markRequestAsComplete_ends (fun op => !op.answers) "u1" "north" "r1" riceRequest (some "k1")
    riceDatabase rfl riceItems rfl

/-- Only the removal of the request fails: the counters are lowered, the request is
still there, and the callback has been called. -/
theorem not_allOrNothing : ¬ ∀ (succeeds : Op → Bool) (uid zoneID id : String)
    (request : Request) (entry : Option String) (db : Database), request.id = some id →
    ContentItems request.items →
    entryOf request.id (indexRef request zoneID) db = .ok entry →
    ∃ issued : List Op, markRequestAsComplete (some uid) request zoneID = .ok issued ∧
      Ends (perform succeeds) ⟨⟨db,0⟩,issued⟩ fun s =>
        ((∀ p, get p s.db = get p db) ∨ Written always request zoneID id uid entry db s.db) ∧
        (0 < s.onComplete → Written always request zoneID id uid entry db s.db) := by
  intro h
  obtain ⟨issued,hissued,hends⟩ := h (fun op => !op.answers) "u1" "north" "r1" riceRequest
    (some "k1") riceDatabase rfl riceItems rfl
  rw [markRequestAsComplete_ok rfl,Except.ok.injEq] at hissued
  subst hissued
  obtain ⟨s,hs,hcounter,hrecord⟩ : ∃ s, inOrder (perform fun op => !op.answers) 6
      (issuedBy riceRequest "north" "r1" "u1") ⟨riceDatabase,0⟩ = some s ∧
      get (requestCounterRef "north" "rice") s.db = some (.number 8) ∧
      get ["requests","north","r1","senderID"] s.db = some (.string "s1") := ⟨_,rfl,rfl,rfl⟩
  obtain ⟨hbefore | hdone,-⟩ := hends.post s (runs_of_inOrder hs)
  · have hsame := hbefore (requestCounterRef "north" "rice")
    rw [hcounter] at hsame
    exact absurd hsame (by decide)
  · have hgone := hdone.requestRecord ["requests","north","r1","senderID"] ⟨["senderID"],rfl⟩
    rw [hrecord] at hgone
    exact absurd hgone (by decide)

end Run

end Answr
