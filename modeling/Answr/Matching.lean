import Answr.Loading
import Answr.Reconcile
set_option autoImplicit false

/-! The loop over the requests of one zone. Its invariant splits the loaded rows
into those handled and those to come; the zone's entries are the original ones
with the handled part reconciled. -/

namespace Answr
open Loops

theorem CDRequest.old_eq_self {r : CDRequest} (h : r.isNew = false) : r.old = r := by
  cases r
  simp only at h
  subst h
  rfl

/-- Some request of the snapshot zone is `==` to the stored one, which stands on
the left. -/
def hasCounterpart (snapshot : List Request) (e : Entry) : Bool :=
  snapshot.any fun req => (readRequest e.1 e.2).equals req

def reconciled (snapshot : List Request) (e : Entry) : Option Entry :=
  if hasCounterpart snapshot e then some (e.1.old,e.2) else none

section OneRequest

variable (ord : FetchOrder)

def handled (oreq : Request) (id : String) (newRequests : List Request) (ctx : Context) :
    Context :=
  if newRequests.any oreq.equals then
    if oreq.isNew.getD false then markRequestAsOld ord id ctx else ctx
  else deleteRequest ord id ctx

theorem key_ne_of_split {α κ : Type} {key : α → κ} {pre suf : List α} {x : α}
    (hn : ((pre ++ x :: suf).map key).Nodup) : ∀ y ∈ pre ++ suf, key y ≠ key x := by
  rw [List.map_append,List.map_cons,List.nodup_middle,List.nodup_cons,← List.map_append] at hn
  exact fun y hy heq => hn.1 (heq ▸ List.mem_map_of_mem hy)

theorem filter_append_cons_unique {oreq nreq : Request} {pre suf : List Request}
    (hn : ((pre ++ nreq :: suf).map (·.id)).Nodup) (hpre : ∀ n ∈ pre, oreq.equals n = false)
    (heq : oreq.equals nreq = true) :
    (pre ++ nreq :: suf).filter (fun n => !oreq.equals n) = pre ++ suf := by
  have hsuf : ∀ n ∈ suf, oreq.equals n = false := by
    intro n hmem
    rw [Bool.eq_false_iff]
    intro h
    have hid : n.id = nreq.id :=
      ((Request.equals_iff _ _).mp h).1.symm.trans ((Request.equals_iff _ _).mp heq).1
    exact key_ne_of_split hn n (List.mem_append_right _ hmem) hid
  have hkeep : ∀ xs : List Request, (∀ n ∈ xs, oreq.equals n = false) →
      xs.filter (fun n => !oreq.equals n) = xs := by
    intro xs h
    rw [List.filter_eq_self]
    intro n hmem
    simp [h n hmem]
  rw [List.filter_append,List.filter_cons_of_neg (by simp [heq]),hkeep pre hpre,hkeep suf hsuf]

variable {oreq : Request} {rest : List Request} {id : String}

/-- What one round can do: the first request that the stored one is `==` to is taken out
of the list, or there is none and the id is deleted. -/
inductive RequestRound (oreq : Request) (rest : List Request) (id : String) (s : ZoneLoop) :
    ZoneLoop → Prop where
  | matched (pre : List Request) (nreq : Request) (suf : List Request) :
      s.newRequests = pre ++ nreq :: suf → (∀ n ∈ pre, oreq.equals n = false) →
      oreq.equals nreq = true →
      RequestRound oreq rest id s ⟨rest,pre ++ suf,
        if oreq.isNew.getD false then markRequestAsOld ord id s.ctx else s.ctx⟩
  | unmatched : (∀ n ∈ s.newRequests, oreq.equals n = false) →
      RequestRound oreq rest id s ⟨rest,s.newRequests,deleteRequest ord id s.ctx⟩

theorem matchRequest_scan (hid : oreq.id = some id) {s : ZoneLoop}
    (hold : s.oldRequests = oreq :: rest) (pre suf : List Request)
    (hsplit : s.newRequests = pre ++ suf) (hpre : ∀ n ∈ pre, oreq.equals n = false) :
    (∃ t, matchRequest ord oreq suf.length pre.length s = .ok (true,t) ∧
      RequestRound ord oreq rest id s t) ∨
    matchRequest ord oreq suf.length pre.length s = .ok (false,s) ∧
      ∀ n ∈ s.newRequests, oreq.equals n = false := by
  induction suf generalizing pre with
  | nil =>
    right
    rw [List.append_nil] at hsplit
    exact ⟨rfl,hsplit ▸ hpre⟩
  | cons nreq suf ih =>
    have hget : element s.newRequests pre.length = .ok nreq := by simp [element,hsplit]
    simp only [List.length_cons,matchRequest,hget]
    by_cases heq : oreq.equals nreq = true
    · left
      have hremove : removeAt s.newRequests pre.length = .ok (pre ++ suf) := by
        simp [removeAt,hsplit,List.eraseIdx_append_of_length_le]
      refine ⟨_,?_,.matched pre nreq suf hsplit hpre heq⟩
      cases hnew : oreq.isNew.getD false with
      | false => simp [heq,hold,hremove,removeFirst,bind,Except.bind,pure,Except.pure]
      | true => simp [heq,hold,hremove,hid,unwrap,removeFirst,bind,Except.bind,pure,Except.pure]
    · have h := ih (pre ++ [nreq]) (by simp [hsplit]) (by
        intro n hmem
        rcases List.mem_append.mp hmem with hmem | hmem
        · exact hpre n hmem
        · rw [List.mem_singleton.mp hmem]
          simpa using heq)
      simp only [List.length_append,List.length_cons,List.length_nil] at h
      simpa [heq,bind,Except.bind] using h

theorem handleRequest_round (hid : oreq.id = some id) {s : ZoneLoop}
    (hold : s.oldRequests = oreq :: rest) :
    ∃ t, handleRequest ord s = .ok t ∧ RequestRound ord oreq rest id s t := by
  have hfirst : first s.oldRequests = .ok oreq := by simp [first,hold,unwrap]
  rcases matchRequest_scan ord hid hold [] s.newRequests rfl (by simp) with
    ⟨t,hscan,hround⟩ | ⟨hscan,hnone⟩
  · refine ⟨t,?_,hround⟩
    simp only [List.length_nil] at hscan
    simp [handleRequest,hfirst,hscan,bind,Except.bind,pure,Except.pure]
  · refine ⟨_,?_,.unmatched hnone⟩
    simp only [List.length_nil] at hscan
    simp only [handleRequest,hfirst,hscan,bind,Except.bind]
    simp [hold,hid,removeFirst,unwrap,pure,Except.pure]

theorem handleRequest_ok (hid : oreq.id = some id) {s : ZoneLoop}
    (hold : s.oldRequests = oreq :: rest) (hn : (s.newRequests.map (·.id)).Nodup) :
    handleRequest ord s = .ok ⟨rest,s.newRequests.filter (fun n => !oreq.equals n),
      handled ord oreq id s.newRequests s.ctx⟩ := by
  obtain ⟨t,ht,hround⟩ := handleRequest_round ord hid hold
  rw [ht]
  cases hround with
  | matched pre nreq suf hsplit hpre heq =>
    have hany : s.newRequests.any oreq.equals = true := by simp [hsplit,heq]
    rw [handled,if_pos hany,hsplit,filter_append_cons_unique (hsplit ▸ hn) hpre heq]
  | unmatched hnone =>
    have hany : ¬ s.newRequests.any oreq.equals = true := by simpa using hnone
    have hfilter : s.newRequests.filter (fun n => !oreq.equals n) = s.newRequests := by
      rw [List.filter_eq_self]
      intro n hmem
      simp [hnone n hmem]
    rw [handled,if_neg hany,hfilter]

theorem markRequestAsOld_store {ctx : Context} {r : CDRequest}
    (h : (fetchRequests ord id ctx).head? = some r) :
    (markRequestAsOld ord id ctx).store = ctx.store.markOld r := by
  simp [markRequestAsOld,onFirst,h]

theorem deleteRequest_store {ctx : Context} {r : CDRequest}
    (h : (fetchRequests ord id ctx).head? = some r) :
    (deleteRequest ord id ctx).store = ctx.store.deleteRequest r := by
  simp [deleteRequest,onFirst,h]

theorem mem_fetchRequests {ctx : Context} {r : CDRequest} :
    r ∈ fetchRequests ord id ctx ↔ r ∈ ctx.store.requests ∧ r.id = some id := by
  simp [fetchRequests,(ord.requests_perm ctx _).mem_iff]

theorem fetchRequests_head {ctx : Context} {r : CDRequest} (hr : r ∈ ctx.store.requests)
    (hid : r.id = some id)
    (huniq : ∀ h, (fetchRequests ord id ctx).head? = some h → h = r) :
    (fetchRequests ord id ctx).head? = some r := by
  cases hh : (fetchRequests ord id ctx).head? with
  | none =>
    have hmem := (mem_fetchRequests ord).mpr ⟨hr,hid⟩
    rw [List.head?_eq_none_iff.mp hh] at hmem
    simp at hmem
  | some h => rw [huniq h hh]

end OneRequest

section Zone

variable (ord : FetchOrder) (ctx₀ ctx₁ : Context) (c : CDZoneRequests) (snapshot : List Request)

/-- `done` and `todo` split the rows of the zone in the order they are handled;
`ctx₀` is the context the rows were loaded from, `ctx₁` the one in which the
loop starts. -/
structure ZoneInv (done todo : List CDRequest) (s : ZoneLoop) : Prop where
  rows : sortedRequests ord ctx₀ c = done ++ todo
  oldRequests : s.oldRequests = todo.map (readRow ord ctx₀)
  newRequests : s.newRequests =
    snapshot.filter fun n => !done.any fun d => (readRow ord ctx₀ d).equals n
  saved : s.ctx.store.Saved
  zones : s.ctx.store.zones = ctx₁.store.zones
  nextID : s.ctx.store.nextID = ctx₁.store.nextID
  others : ∀ c' : CDZoneRequests, c'.objectID ≠ c.objectID →
    s.ctx.store.entries c' = ctx₁.store.entries c'
  entries : s.ctx.store.entries c = (ctx₀.store.entries c).filterMap fun e =>
    if e.1 ∈ done then reconciled snapshot e else some e

/-- Handling `oreq` touches a row: it deletes one or clears a set flag. -/
def acts (oreq : Request) (newRequests : List Request) : Prop :=
  newRequests.any oreq.equals = false ∨ oreq.isNew = some true

/-- The row a by-id operation of this round would hit lies in the zone. -/
def HitsZone (s : ZoneLoop) : Prop :=
  ∀ oreq rest id, s.oldRequests = oreq :: rest → oreq.id = some id →
    acts oreq s.newRequests →
    ∀ h, (fetchRequests ord id s.ctx).head? = some h → h.requestZone = some c.objectID

variable {ord ctx₀ ctx₁ c snapshot} {done todo : List CDRequest} {s : ZoneLoop}

theorem ZoneInv.rows_nodup (hi : ZoneInv ord ctx₀ ctx₁ c snapshot done todo s)
    (hs₀ : ctx₀.store.Saved) : (done ++ todo).Nodup := by
  rw [← hi.rows]
  exact (sortedRequests_perm ord ctx₀ c).nodup_iff.mpr (hs₀.requestsOf_nodup c)

theorem ZoneInv.mem_rows (hi : ZoneInv ord ctx₀ ctx₁ c snapshot done todo s) (r : CDRequest) :
    r ∈ ctx₀.store.requestsOf c ↔ r ∈ done ∨ r ∈ todo := by
  rw [← (sortedRequests_perm ord ctx₀ c).mem_iff,hi.rows,List.mem_append]

theorem ZoneInv.next (hi : ZoneInv ord ctx₀ ctx₁ c snapshot done todo s) {oreq : Request}
    {more : List Request} (hold : s.oldRequests = oreq :: more) :
    ∃ r rest, todo = r :: rest ∧ oreq = readRow ord ctx₀ r := by
  cases todo with
  | nil => simp [hi.oldRequests] at hold
  | cons r rest =>
    rw [hi.oldRequests,List.map_cons,List.cons.injEq] at hold
    exact ⟨r,rest,rfl,hold.1.symm⟩

theorem ZoneInv.origin (hi : ZoneInv ord ctx₀ ctx₁ c snapshot done todo s) {h : CDRequest}
    (hh : h ∈ s.ctx.store.requestsOf c) :
    ∃ e ∈ ctx₀.store.entries c, h.id = e.1.id ∧ h.objectID = e.1.objectID ∧
      (e.1 ∉ done → h = e.1) := by
  have hmem : (h,s.ctx.store.itemsOf h) ∈ s.ctx.store.entries c :=
    List.mem_map_of_mem (f := fun r => (r,s.ctx.store.itemsOf r)) hh
  rw [hi.entries,List.mem_filterMap] at hmem
  obtain ⟨e,he,hf⟩ := hmem
  refine ⟨e,he,?_⟩
  by_cases hd : e.1 ∈ done
  · simp only [hd,if_true,reconciled] at hf
    split at hf
    · obtain ⟨hf,-⟩ := Prod.mk.inj (Option.some.inj hf)
      exact ⟨by rw [← hf]; rfl,by rw [← hf]; rfl,fun hn => absurd hd hn⟩
    · cases hf
  · simp only [hd,if_false,Option.some.injEq] at hf
    rw [hf]
    exact ⟨rfl,rfl,fun _ => rfl⟩

theorem ZoneInv.not_done (hi : ZoneInv ord ctx₀ ctx₁ c snapshot done todo s)
    (hs₀ : ctx₀.store.Saved) {r : CDRequest} (hr : r ∈ todo) : r ∉ done := fun hd =>
  (List.nodup_append.mp (hi.rows_nodup hs₀)).2.2 r hd r hr rfl

theorem ZoneInv.pending (hi : ZoneInv ord ctx₀ ctx₁ c snapshot done todo s)
    (hs₀ : ctx₀.store.Saved) {r : CDRequest} (hr : r ∈ todo) :
    (r,ctx₀.store.itemsOf r) ∈ s.ctx.store.entries c := by
  rw [hi.entries,List.mem_filterMap]
  refine ⟨(r,ctx₀.store.itemsOf r),?_,by simp [hi.not_done hs₀ hr]⟩
  exact List.mem_map_of_mem (f := fun r => (r,ctx₀.store.itemsOf r))
    ((hi.mem_rows r).mpr (.inr hr))

theorem ZoneInv.any_equals (hi : ZoneInv ord ctx₀ ctx₁ c snapshot done todo s)
    (hids : ((ctx₀.store.requestsOf c).map (·.id)).Nodup) (hs₀ : ctx₀.store.Saved)
    {r : CDRequest} (hr : r ∈ todo) :
    s.newRequests.any (readRow ord ctx₀ r).equals =
      hasCounterpart snapshot (r,ctx₀.store.itemsOf r) := by
  have hread : ∀ n, (readRow ord ctx₀ r).equals n =
      (readRequest r (ctx₀.store.itemsOf r)).equals n :=
    readRequest_equals_perm r (sortedItems_perm ord ctx₀ r)
  rw [Bool.eq_iff_iff,hasCounterpart,List.any_eq_true,List.any_eq_true,hi.newRequests]
  simp only [List.mem_filter,← hread]
  constructor
  · rintro ⟨n,⟨hn,-⟩,he⟩
    exact ⟨n,hn,he⟩
  · rintro ⟨n,hn,he⟩
    refine ⟨n,⟨hn,?_⟩,he⟩
    simp only [Bool.not_eq_true',List.any_eq_false]
    intro d hd hde
    have hid : d.id = r.id :=
      ((Request.equals_iff _ _).mp hde).1.trans ((Request.equals_iff _ _).mp he).1.symm
    have hdr : d = r := List.inj_on_of_nodup_map hids
      ((hi.mem_rows d).mpr (.inl hd)) ((hi.mem_rows r).mpr (.inr hr)) hid
    exact hi.not_done hs₀ hr (hdr ▸ hd)

theorem ZoneInv.entries_after (hi : ZoneInv ord ctx₀ ctx₁ c snapshot done todo s)
    (hs₀ : ctx₀.store.Saved) {r : CDRequest} {rest : List CDRequest} (ht : todo = r :: rest)
    {g : Entry → Option Entry}
    (hother : ∀ e : Entry, e.1.objectID ≠ r.objectID → g e = some e)
    (hself : g (r,ctx₀.store.itemsOf r) = reconciled snapshot (r,ctx₀.store.itemsOf r)) :
    (s.ctx.store.entries c).filterMap g = (ctx₀.store.entries c).filterMap fun e =>
      if e.1 ∈ done ++ [r] then reconciled snapshot e else some e := by
  rw [hi.entries,List.filterMap_filterMap]
  apply List.filterMap_congr
  intro e he
  obtain ⟨hrow,-,hitems⟩ := Store.mem_entries.mp he
  have hr : r ∈ ctx₀.store.requestsOf c := (hi.mem_rows r).mpr (.inr (by simp [ht]))
  by_cases her : e.1 = r
  · have hd : r ∉ done := hi.not_done hs₀ (by simp [ht])
    obtain rfl : e = (r,ctx₀.store.itemsOf r) := Prod.ext her (by rw [hitems,her])
    simp [hd,hself]
  · have hne : e.1.objectID ≠ r.objectID := fun h =>
      her (hs₀.row_eq hrow (Store.mem_requestsOf.mp hr).1 h)
    by_cases hd : e.1 ∈ done
    · simp only [hd,if_true,List.mem_append,true_or,reconciled]
      split
      · exact hother _ hne
      · rfl
    · simp [hd,her,hother e hne]

variable {r : CDRequest} {rest : List CDRequest} {id : String}

theorem ZoneInv.fetch_head (hi : ZoneInv ord ctx₀ ctx₁ c snapshot done (r :: rest) s)
    (hs₀ : ctx₀.store.Saved) (hids : ((ctx₀.store.requestsOf c).map (·.id)).Nodup)
    (hid : r.id = some id) (hhit : HitsZone ord c s)
    (hacts : acts (readRow ord ctx₀ r) s.newRequests) :
    (fetchRequests ord id s.ctx).head? = some r := by
  have hr : r ∈ ctx₀.store.requestsOf c := (hi.mem_rows r).mpr (.inr (by simp))
  obtain ⟨hrow,-,-⟩ := Store.mem_entries.mp (hi.pending hs₀ (by simp : r ∈ r :: rest))
  apply fetchRequests_head ord hrow hid
  intro h hh
  obtain ⟨hmem,hhid⟩ := (mem_fetchRequests ord).mp (List.mem_of_head? hh)
  have hz := hhit _ _ id hi.oldRequests hid hacts h hh
  obtain ⟨e,he,heid,-,hsame⟩ := hi.origin (Store.mem_requestsOf.mpr ⟨hmem,hz⟩)
  have her : e.1 = r := List.inj_on_of_nodup_map hids
    (Store.mem_requestsOf.mpr ⟨(Store.mem_entries.mp he).1,(Store.mem_entries.mp he).2.1⟩)
    hr (by rw [← heid,hhid,hid])
  rw [hsame ?_,her]
  rw [her]
  exact hi.not_done hs₀ (by simp)

theorem ZoneInv.apart (hi : ZoneInv ord ctx₀ ctx₁ c snapshot done (r :: rest) s)
    (hs₀ : ctx₀.store.Saved) {c' : CDZoneRequests} (hc' : c'.objectID ≠ c.objectID) :
    ∀ e ∈ s.ctx.store.entries c', e.1.objectID ≠ r.objectID := by
  intro e he heq
  obtain ⟨hrow,hzone,-⟩ := Store.mem_entries.mp (hi.pending hs₀ (by simp : r ∈ r :: rest))
  obtain ⟨herow,hez,-⟩ := Store.mem_entries.mp he
  rw [hi.saved.row_eq herow hrow heq,hzone] at hez
  exact hc' (Option.some.inj hez).symm

theorem ZoneInv.close (hi : ZoneInv ord ctx₀ ctx₁ c snapshot done (r :: rest) s)
    (hsnap : (snapshot.map (·.id)).Nodup) (hid : r.id = some id) {ctx' : Context}
    (hctx : handled ord (readRow ord ctx₀ r) id s.newRequests s.ctx = ctx')
    (hsaved : ctx'.store.Saved) (hzones : ctx'.store.zones = s.ctx.store.zones)
    (hnext : ctx'.store.nextID = s.ctx.store.nextID)
    (hothers : ∀ c' : CDZoneRequests, c'.objectID ≠ c.objectID →
      ctx'.store.entries c' = s.ctx.store.entries c')
    (hentries : ctx'.store.entries c = (ctx₀.store.entries c).filterMap fun e =>
      if e.1 ∈ done ++ [r] then reconciled snapshot e else some e) :
    ∃ t, handleRequest ord s = .ok t ∧
      ZoneInv ord ctx₀ ctx₁ c snapshot (done ++ [r]) rest t := by
  have hnodup : (s.newRequests.map (·.id)).Nodup := by
    rw [hi.newRequests]
    exact hsnap.sublist (List.filter_sublist.map _)
  have hnew : s.newRequests.filter (fun n => !(readRow ord ctx₀ r).equals n) =
      snapshot.filter fun n =>
        !(done ++ [r]).any fun d => (readRow ord ctx₀ d).equals n := by
    rw [hi.newRequests,List.filter_filter]
    apply List.filter_congr
    intro n _
    simp only [List.any_append,List.any_cons,List.any_nil,Bool.or_false,Bool.not_or]
    exact Bool.and_comm _ _
  refine ⟨_,handleRequest_ok ord hid hi.oldRequests hnodup,?_⟩
  rw [hctx,hnew]
  exact {
    rows := by rw [hi.rows]; simp
    oldRequests := rfl
    newRequests := rfl
    saved := hsaved
    zones := hzones.trans hi.zones
    nextID := hnext.trans hi.nextID
    others := fun c' hc' => (hothers c' hc').trans (hi.others c' hc')
    entries := hentries }

/-- The step lemma of the loop. -/
theorem ZoneInv.step (hi : ZoneInv ord ctx₀ ctx₁ c snapshot done todo s)
    (hs₀ : ctx₀.store.Saved) (hids : ((ctx₀.store.requestsOf c).map (·.id)).Nodup)
    (hsnap : (snapshot.map (·.id)).Nodup) {r : CDRequest} {rest : List CDRequest}
    (ht : todo = r :: rest) (hhit : HitsZone ord c s) :
    ∃ t, handleRequest ord s = .ok t ∧ ZoneInv ord ctx₀ ctx₁ c snapshot (done ++ [r]) rest t := by
  subst ht
  have hr : r ∈ ctx₀.store.requestsOf c := (hi.mem_rows r).mpr (.inr (by simp))
  have hload := hs₀.requestFields r (Store.mem_requestsOf.mp hr).1
  obtain ⟨id,hid⟩ := Option.isSome_iff_exists.mp hload.1
  have hhead := hi.fetch_head hs₀ hids hid hhit
  have hany := hi.any_equals hids hs₀ (by simp : r ∈ r :: rest)
  have hapart : ∀ c' : CDZoneRequests, c'.objectID ≠ c.objectID →
      ∀ e ∈ s.ctx.store.entries c', e.1.objectID ≠ r.objectID := fun _ hc' => hi.apart hs₀ hc'
  cases hmatch : s.newRequests.any (readRow ord ctx₀ r).equals with
  | false =>
    have hstore := deleteRequest_store ord (hhead (.inl hmatch))
    have hctx : handled ord (readRow ord ctx₀ r) id s.newRequests s.ctx =
        deleteRequest ord id s.ctx := by simp [handled,hmatch]
    apply hi.close hsnap hid hctx
    · rw [hstore]
      exact Store.saved_deleteRequest hi.saved r
    · rw [hstore]; rfl
    · rw [hstore]; rfl
    · intro c' hc'
      rw [hstore,Store.entries_deleteRequest,List.filter_eq_self]
      intro e he
      simpa using hapart c' hc' e he
    · rw [hstore,Store.entries_deleteRequest,← List.filterMap_eq_filter]
      refine hi.entries_after hs₀ rfl (fun e hne => by simp [Option.guard,hne]) ?_
      simp [reconciled,← hany,hmatch,Option.guard]
  | true =>
    cases hisNew : r.isNew with
    | true =>
      have hflag : (readRow ord ctx₀ r).isNew = some true := by
        simp [readRow,readRequest,hisNew]
      have hstore := markRequestAsOld_store ord (hhead (.inr hflag))
      have hctx : handled ord (readRow ord ctx₀ r) id s.newRequests s.ctx =
          markRequestAsOld ord id s.ctx := by
        simp only [handled,hmatch,hflag,if_true,Option.getD_some]
      apply hi.close hsnap hid hctx
      · rw [hstore]
        exact Store.saved_markOld hi.saved r
      · rw [hstore]; rfl
      · rw [hstore]; rfl
      · intro c' hc'
        rw [hstore,Store.entries_markOld]
        conv_rhs => rw [← List.map_id (s.ctx.store.entries c')]
        apply List.map_congr_left
        intro e he
        simp [oldIf,hapart c' hc' e he]
      · rw [hstore,Store.entries_markOld,← List.filterMap_eq_map]
        refine hi.entries_after hs₀ rfl (fun e hne => by simp [oldIf,hne]) ?_
        simp [reconciled,← hany,hmatch,oldIf]
    | false =>
      have hflag : (readRow ord ctx₀ r).isNew = some false := by
        simp [readRow,readRequest,hisNew]
      have hctx : handled ord (readRow ord ctx₀ r) id s.newRequests s.ctx = s.ctx := by
        simp only [handled,hmatch,hflag,if_true,Option.getD_some,Bool.false_eq_true,if_false]
      apply hi.close hsnap hid hctx
      · exact hi.saved
      · rfl
      · rfl
      · exact fun _ _ => rfl
      · conv_lhs => rw [← List.filterMap_some (l := s.ctx.store.entries c)]
        refine hi.entries_after hs₀ rfl (fun _ _ => rfl) ?_
        simp [reconciled,← hany,hmatch,CDRequest.old_eq_self hisNew]

end Zone

end Answr
