import Answr.Transactions
set_option autoImplicit false

/-! What the queue of a repository looks like between two calls, and what is left of it
when transactions are run again. -/

namespace Answr

variable {V H : Type}

section Chains

def Transaction.write (t : Transaction V) : Nat × V := (t.currentWriteId,t.currentOutput)

def lastOutput (base : V) (queue : List (Transaction V)) : V :=
  queue.foldl (fun _ t => t.currentOutput) base

/-- Each transaction ran on what the one before it left. -/
def Chained : V → List (Transaction V) → Prop
  | _, [] => True
  | base, t :: queue => t.update base = some t.currentOutput ∧ Chained t.currentOutput queue

theorem lastOutput_append (base : V) (queue queue' : List (Transaction V)) :
    lastOutput base (queue ++ queue') = lastOutput (lastOutput base queue) queue' :=
  List.foldl_append

theorem lastOutput_of_ne {queue : List (Transaction V)} (h : queue ≠ []) (base base' : V) :
    lastOutput base queue = lastOutput base' queue := by
  cases queue with
  | nil => exact absurd rfl h
  | cons t queue => rfl

theorem chained_append {base : V} {queue queue' : List (Transaction V)} :
    Chained base (queue ++ queue') ↔
      Chained base queue ∧ Chained (lastOutput base queue) queue' := by
  induction queue generalizing base with
  | nil => simp [Chained,lastOutput]
  | cons t queue ih =>
    rw [List.cons_append,Chained,Chained,ih,and_assoc]
    rfl

theorem chained_map {f : Transaction V → Transaction V} (hu : ∀ t, (f t).update = t.update)
    (ho : ∀ t, (f t).currentOutput = t.currentOutput) {base : V}
    {queue : List (Transaction V)} (h : Chained base queue) : Chained base (queue.map f) := by
  induction queue generalizing base with
  | nil => exact trivial
  | cons t queue ih =>
    rw [List.map_cons,Chained,hu,ho]
    exact ⟨h.1,ih h.2⟩

theorem lastOutput_map {f : Transaction V → Transaction V}
    (ho : ∀ t, (f t).currentOutput = t.currentOutput) (base : V)
    (queue : List (Transaction V)) : lastOutput base (queue.map f) = lastOutput base queue := by
  rw [lastOutput,List.foldl_map]
  simp only [ho]
  rfl

theorem latestState_writes [Inhabited V] {r : Repo V H} {exclude : List Nat}
    {hidden seen : List (Transaction V)}
    (hw : r.allWrites = hidden.map Transaction.write ++ seen.map Transaction.write)
    (hhidden : ∀ t ∈ hidden, t.currentWriteId ∈ exclude)
    (hseen : ∀ t ∈ seen, t.currentWriteId ∉ exclude) :
    r.latestState exclude = lastOutput (r.serverCache.getD default) seen := by
  have hold : (hidden.map Transaction.write).filter (fun w => w.1 ∉ exclude) = [] := by
    rw [List.filter_eq_nil_iff]
    intro w hmem
    obtain ⟨t,ht,rfl⟩ := List.mem_map.mp hmem
    exact fun hkept => of_decide_eq_true hkept (hhidden t ht)
  have hnew : (seen.map Transaction.write).filter (fun w => w.1 ∉ exclude) =
      seen.map Transaction.write := by
    rw [List.filter_eq_self]
    intro w hmem
    obtain ⟨t,ht,rfl⟩ := List.mem_map.mp hmem
    exact decide_eq_true (hseen t ht)
  rw [Repo.latestState,hw,List.filter_append,hold,hnew,List.nil_append]
  rcases List.eq_nil_or_concat seen with rfl | ⟨l,t,rfl⟩
  · rfl
  · simp [lastOutput,Transaction.write]

theorem filter_write {l m : List (Transaction V)} {t : Transaction V}
    (h : ((l ++ t :: m).map (·.currentWriteId)).Nodup) :
    ((l ++ t :: m).map Transaction.write).filter (fun w => w.1 ≠ t.currentWriteId) =
      (l ++ m).map Transaction.write := by
  have hne : ∀ t' ∈ l ++ m, t'.currentWriteId ≠ t.currentWriteId := by
    intro t' ht' heq
    rw [List.map_append,List.map_cons,List.nodup_middle,List.nodup_cons,← List.map_append] at h
    exact h.1 (heq ▸ List.mem_map_of_mem ht')
  have hkeep : ∀ k : List (Transaction V), (∀ t' ∈ k, t'.currentWriteId ≠ t.currentWriteId) →
      (k.map Transaction.write).filter (fun w => w.1 ≠ t.currentWriteId) =
        k.map Transaction.write := by
    intro k hk
    rw [List.filter_eq_self]
    intro w hmem
    obtain ⟨t',ht',rfl⟩ := List.mem_map.mp hmem
    exact decide_eq_true (hk t' ht')
  rw [List.map_append,List.map_cons,List.filter_append,
    hkeep l fun t' ht' => hne t' (List.mem_append_left m ht'),
    List.filter_cons_of_neg (by simp [Transaction.write]),
    hkeep m fun t' ht' => hne t' (List.mem_append_right l ht'),← List.map_append]

end Chains

section Reruns

variable {r r' r'' : Repo V H}

/-- Only observers, writes and the queue of `r` were changed. The view is there as long as
an observer is. -/
structure Repo.Loses (r r' : Repo V H) : Prop where
  outstandingPuts : r'.outstandingPuts = r.outstandingPuts
  putCounter : r'.putCounter = r.putCounter
  canSendWrites : r'.canSendWrites = r.canSendWrites
  luid : r'.luid = r.luid
  putsToAck : r'.putsToAck = r.putsToAck
  watchers : r'.watchers ≤ r.watchers
  view : r'.serverCache = r.serverCache ∧ r'.outgoing = r.outgoing ∧
      (0 < r'.watchers ∨ r'.watchers = r.watchers) ∨
    0 < r.watchers ∧ r'.watchers = 0 ∧ r'.serverCache = none ∧
      r'.outgoing = (r.sendAction .unlisten).outgoing

theorem Repo.loses_refl (r : Repo V H) : r.Loses r :=
  ⟨rfl,rfl,rfl,rfl,rfl,Nat.le_refl _,.inl ⟨rfl,rfl,.inr rfl⟩⟩

theorem Repo.sendAction_outgoing {m : Outgoing V H} (ho : r'.outgoing = r.outgoing)
    (hc : r'.canSendWrites = r.canSendWrites) :
    (r'.sendAction m).outgoing = (r.sendAction m).outgoing := by
  simp only [sendAction,hc]
  split
  · rw [ho]
  · exact ho

theorem Repo.Loses.trans (h : r.Loses r') (h' : r'.Loses r'') : r.Loses r'' where
  outstandingPuts := h'.outstandingPuts.trans h.outstandingPuts
  putCounter := h'.putCounter.trans h.putCounter
  canSendWrites := h'.canSendWrites.trans h.canSendWrites
  luid := h'.luid.trans h.luid
  putsToAck := h'.putsToAck.trans h.putsToAck
  watchers := Nat.le_trans h'.watchers h.watchers
  view := by
    have hle := h.watchers
    have hle' := h'.watchers
    rcases h.view with ⟨hc,ho,hw⟩ | ⟨hpos,hw,hc,ho⟩
    · rcases h'.view with ⟨hc',ho',hw'⟩ | ⟨hpos',hw',hc',ho'⟩
      · exact .inl ⟨hc'.trans hc,ho'.trans ho,by omega⟩
      · exact .inr ⟨by omega,hw',hc',ho'.trans (sendAction_outgoing ho h.canSendWrites)⟩
    · rcases h'.view with ⟨hc',ho',hw'⟩ | ⟨hpos',-⟩
      · exact .inr ⟨hpos,by omega,hc'.trans hc,ho'.trans ho⟩
      · omega

theorem Repo.sendAction_eq (m : Outgoing V H) (r : Repo V H) :
    r.sendAction m = { r with outgoing := (r.sendAction m).outgoing } := by
  unfold sendAction
  split <;> rfl

theorem Repo.removeObserver_eq (r : Repo V H) : ∃ watchers cache outgoing,
    r.removeObserver =
      { r with watchers := watchers, serverCache := cache, outgoing := outgoing } := by
  unfold removeObserver
  split
  · rw [sendAction_eq]
    exact ⟨_,_,_,rfl⟩
  · exact ⟨_,_,_,rfl⟩

@[simp] theorem Repo.removeObserver_queue : r.removeObserver.queue = r.queue := by
  obtain ⟨_,_,_,h⟩ := r.removeObserver_eq
  rw [h]

@[simp] theorem Repo.removeObserver_allWrites : r.removeObserver.allWrites = r.allWrites := by
  obtain ⟨_,_,_,h⟩ := r.removeObserver_eq
  rw [h]

@[simp] theorem Repo.removeObserver_writeIdCounter :
    r.removeObserver.writeIdCounter = r.writeIdCounter := by
  obtain ⟨_,_,_,h⟩ := r.removeObserver_eq
  rw [h]

@[simp] theorem Repo.removeObserver_reports : r.removeObserver.reports = r.reports := by
  obtain ⟨_,_,_,h⟩ := r.removeObserver_eq
  rw [h]

@[simp] theorem Repo.removeObserver_watchers : r.removeObserver.watchers = r.watchers - 1 := by
  unfold removeObserver
  split
  · rename_i hw
    simp [hw]
  · rfl

theorem Repo.removeObserver_luid (n : Nat) (r : Repo V H) :
    Repo.removeObserver { r with luid := n } = { r.removeObserver with luid := n } := by
  unfold removeObserver
  split
  · unfold sendAction
    split <;> rfl
  · rfl

theorem Repo.sendListen_eq (r : Repo V H) : ∃ outgoing count, r.sendListen =
    { r with outgoing := outgoing, unackedListensCount := count } := by
  unfold sendListen
  split
  · rw [sendAction_eq]
    exact ⟨_,_,rfl⟩
  · exact ⟨_,_,rfl⟩

theorem Repo.sendListen_outgoing (r : Repo V H) :
    r.sendListen.outgoing = (r.sendAction .listen).outgoing := by
  unfold sendListen
  split
  · rfl
  · rename_i hcan
    rw [sendAction,if_neg hcan]

theorem Repo.addEventRegistration_eq (r : Repo V H) :
    r.addEventRegistration.watchers = r.watchers + 1 ∧
      r.addEventRegistration.serverCache = r.serverCache ∧
      r.addEventRegistration.luid = r.luid := by
  unfold addEventRegistration sendListen sendAction
  split
  · rename_i hw
    rw [hw]
    split <;> exact ⟨rfl,rfl,rfl⟩
  · exact ⟨rfl,rfl,rfl⟩

theorem Repo.loses_removeObserver (hpos : 0 < r.watchers) : r.Loses r.removeObserver := by
  obtain ⟨w,c,o,h⟩ := r.removeObserver_eq
  refine ⟨by rw [h],by rw [h],by rw [h],by rw [h],by rw [h],by simp,?_⟩
  by_cases hw : r.watchers = 1
  · exact .inr ⟨hpos,by simp [hw],by simp [removeObserver,hw],by simp [removeObserver,hw]⟩
  · have hmore : 1 < r.watchers := by omega
    exact .inl ⟨by simp [removeObserver,hw],by simp [removeObserver,hw],.inl (by simp; omega)⟩

/-- In the middle of a rerun: the transactions that were passed over, those that are to
come and those that have run again. -/
structure Repo.Rerunning (r : Repo V H) (kept rest done : List (Transaction V))
    (exclude : List Nat) : Prop where
  writes : r.allWrites = (kept ++ rest ++ done).map Transaction.write
  ids : ((kept ++ rest ++ done).map (·.currentWriteId)).Nodup
  fresh : ∀ t ∈ kept ++ rest ++ done, t.currentWriteId < r.writeIdCounter
  excludeFresh : ∀ n ∈ exclude, n < r.writeIdCounter
  hidden : ∀ t ∈ kept ++ rest, t.currentWriteId ∈ exclude
  seen : ∀ t ∈ done, t.currentWriteId ∉ exclude
  watched : (kept ++ rest ++ done).length ≤ r.watchers

variable {kept rest done : List (Transaction V)} {exclude : List Nat} {t : Transaction V}

theorem Repo.Rerunning.abort (h : r.Rerunning kept (t :: rest) done exclude)
    (t' : Transaction V) :
    let r' := ((r.ackUserWrite t.currentWriteId).abort t' exclude).2.2
    r'.Rerunning kept rest done exclude ∧ r.Loses r' ∧
      r'.reports = r.reports ++ [⟨t'.order,t'.abortStatus,false,t'.currentInput⟩] := by
  have hsub : List.Sublist (kept ++ rest ++ done) (kept ++ t :: rest ++ done) := by simp
  have hsub' : List.Sublist (kept ++ rest) (kept ++ t :: rest) := by simp
  have hpos : 0 < r.watchers := by
    have := h.watched
    simp only [List.length_append,List.length_cons] at this
    omega
  refine ⟨⟨?_,h.ids.sublist (hsub.map _),?_,?_,fun t' ht' => h.hidden t' (hsub'.subset ht'),
    h.seen,?_⟩,?_,?_⟩
  · simp only [Repo.abort,Repo.onComplete,Repo.removeObserver_allWrites,Repo.ackUserWrite,h.writes,
      List.append_assoc,List.cons_append]
    rw [filter_write (by simpa using h.ids)]
  · intro t' ht'
    simpa [Repo.abort,Repo.onComplete,Repo.ackUserWrite] using h.fresh t' (hsub.subset ht')
  · simpa [Repo.abort,Repo.onComplete,Repo.ackUserWrite] using h.excludeFresh
  · have := h.watched
    simp only [List.length_append,List.length_cons] at this
    simp only [Repo.abort,Repo.onComplete,Repo.ackUserWrite,Repo.removeObserver_watchers,
      List.length_append]
    omega
  · have hack : r.Loses (r.ackUserWrite t.currentWriteId) :=
      ⟨rfl,rfl,rfl,rfl,rfl,Nat.le_refl _,.inl ⟨rfl,rfl,.inr rfl⟩⟩
    obtain ⟨hputs,hcounter,hcan,hluid,hheld,hle,hview⟩ :=
      hack.trans (Repo.loses_removeObserver hpos)
    exact ⟨hputs,hcounter,hcan,hluid,hheld,hle,hview⟩
  · simp [Repo.abort,Repo.onComplete,Repo.ackUserWrite]

variable [Inhabited V]

def Transaction.ranAgain (t : Transaction V) (r : Repo V H) (exclude : List Nat) (newVal : V) :
    Transaction V :=
  { t with
    currentInput := r.latestState exclude
    currentOutput := newVal
    currentWriteId := r.writeIdCounter }

theorem Repo.Rerunning.again (h : r.Rerunning kept (t :: rest) done exclude) {newVal : V}
    (hrun : t.update (r.latestState exclude) = some newVal) :
    let t' := t.ranAgain r exclude newVal
    let r' := (r.applyUserOverwrite newVal).ackUserWrite t.currentWriteId
    r'.Rerunning kept rest (done ++ [t']) (exclude.erase t.currentWriteId) ∧ r.Loses r' ∧
      t'.update (lastOutput (r.serverCache.getD default) done) = some newVal := by
  intro t' r'
  have hids : ((kept ++ t :: (rest ++ (done ++ [t']))).map (·.currentWriteId)).Nodup := by
    have hnew : r.writeIdCounter ∉ (kept ++ t :: rest ++ done).map (·.currentWriteId) := by
      intro hmem
      obtain ⟨u,hu,heq⟩ := List.mem_map.mp hmem
      have := h.fresh u hu
      omega
    have hall := List.nodup_append.mpr ⟨h.ids,List.nodup_singleton r.writeIdCounter,
      fun a ha b hb heq => hnew (by rw [← List.mem_singleton.mp hb,← heq]; exact ha)⟩
    simpa [t',Transaction.ranAgain] using hall
  have hne : ∀ u ∈ kept ++ rest, u.currentWriteId ≠ t.currentWriteId := by
    intro u hu heq
    rw [List.map_append,List.map_cons,List.nodup_middle,List.nodup_cons,← List.map_append,
      ← List.append_assoc] at hids
    exact hids.1 (heq ▸ List.mem_map_of_mem (List.mem_append_left _ hu))
  have hsub : List.Sublist (kept ++ (rest ++ (done ++ [t'])))
      (kept ++ t :: (rest ++ (done ++ [t']))) := by simp
  refine ⟨⟨?_,?_,?_,?_,?_,?_,?_⟩,⟨rfl,rfl,rfl,rfl,rfl,Nat.le_refl _,.inl ⟨rfl,rfl,.inr rfl⟩⟩,?_⟩
  · have hfilter := filter_write hids
    simp only [List.append_assoc]
    rw [← hfilter]
    simp only [r',ackUserWrite,applyUserOverwrite,h.writes,List.map_append,List.map_cons,
      List.append_assoc,List.cons_append]
    rfl
  · simpa using hids.sublist (hsub.map _)
  · intro u hu
    have hu' : u ∈ kept ++ t :: rest ++ done ∨ u = t' := by
      simp only [List.mem_append,List.mem_cons,List.not_mem_nil,or_false] at hu ⊢
      tauto
    rcases hu' with hu' | rfl
    · exact Nat.lt_succ_of_lt (h.fresh u hu')
    · exact Nat.lt_succ_self _
  · exact fun n hn => Nat.lt_succ_of_lt (h.excludeFresh n (List.mem_of_mem_erase hn))
  · intro u hu
    refine (List.mem_erase_of_ne (hne u hu)).mpr (h.hidden u ?_)
    simp only [List.mem_append,List.mem_cons] at hu ⊢
    tauto
  · intro u hu hmem
    rcases List.mem_append.mp hu with hu | hu
    · exact h.seen u hu (List.mem_of_mem_erase hmem)
    · rw [List.mem_singleton.mp hu] at hmem
      exact absurd (h.excludeFresh _ (List.mem_of_mem_erase hmem)) (Nat.lt_irrefl _)
  · have := h.watched
    simp only [List.length_append,List.length_cons,List.length_nil] at this ⊢
    simp only [r',ackUserWrite,applyUserOverwrite]
    omega
  · have hlatest := latestState_writes (by rw [h.writes,List.map_append]) h.hidden h.seen
    rw [hlatest] at hrun
    exact hrun

def Transaction.Rerunnable (t : Transaction V) : Prop :=
  t.status = .run ∨ t.status = .needsAbort ∧ t.abortStatus ≠ some kFErrorWriteCanceled

/-- What running a queue again comes to: the transactions that are left, which have run
one after the other, and a report about each of the others. -/
structure Repo.Reran (r r' : Repo V H) (kept rest done live : List (Transaction V)) : Prop where
  rerunning : ∃ exclude, r'.Rerunning kept [] (done ++ live) exclude
  loses : r.Loses r'
  run : ∀ t ∈ live, t.status = .run
  chained : Chained (lastOutput (r.serverCache.getD default) done) live
  same : ∀ t ∈ live, ∃ t₀ ∈ rest, t₀.status = .run ∧ t.order = t₀.order ∧ t.update = t₀.update
  reports : ∃ new, r'.reports = r.reports ++ new ∧
    (new.map (·.order) ++ live.map (·.order)).Perm (rest.map (·.order)) ∧
    ∀ report ∈ new, report.committed = false ∧ ∃ t ∈ rest, t.order = report.order ∧
      (t.status = .needsAbort → report.error = t.abortStatus)

theorem Repo.Reran.aborted {t' : Transaction V} {live : List (Transaction V)}
    (h : r.Rerunning kept (t :: rest) done exclude) (horder : t'.order = t.order)
    (hstatus : t.status = .needsAbort → t'.abortStatus = t.abortStatus)
    (hr : (((r.ackUserWrite t.currentWriteId).abort t' exclude).2.2).Reran r' kept rest done live) :
    r.Reran r' kept (t :: rest) done live := by
  obtain ⟨hagain,hloses,hreports⟩ := h.abort t'
  obtain ⟨new,hnew,hperm,herrors⟩ := hr.reports
  refine ⟨hr.rerunning,hloses.trans hr.loses,hr.run,?_,fun u hu => ?_,
    ⟨t'.order,t'.abortStatus,false,t'.currentInput⟩ :: new,?_,?_,?_⟩
  · rcases hloses.view with ⟨hcache,-⟩ | ⟨-,hnone,-⟩
    · exact hcache ▸ hr.chained
    · have hlen := hagain.watched
      simp only [hnone,List.length_append] at hlen
      cases live with
      | nil => exact trivial
      | cons u live =>
        obtain ⟨t₀,ht₀,-⟩ := hr.same u List.mem_cons_self
        have := List.length_pos_of_mem ht₀
        omega
  · obtain ⟨t₀,ht₀,hsame⟩ := hr.same u hu
    exact ⟨t₀,List.mem_cons_of_mem t ht₀,hsame⟩
  · rw [hnew,hreports,List.append_assoc,List.singleton_append]
  · simpa [horder] using hperm
  · intro report hmem
    rcases List.mem_cons.mp hmem with rfl | hmem
    · exact ⟨rfl,t,List.mem_cons_self,horder.symm,hstatus⟩
    · obtain ⟨hfalse,u,hu,herror⟩ := herrors report hmem
      exact ⟨hfalse,u,List.mem_cons_of_mem t hu,herror⟩

theorem Repo.Reran.again {newVal : V} {live : List (Transaction V)}
    (h : r.Rerunning kept (t :: rest) done exclude) (hstatus : t.status = .run)
    (hrun : t.update (r.latestState exclude) = some newVal)
    (hr : ((r.applyUserOverwrite newVal).ackUserWrite t.currentWriteId).Reran r' kept rest
      (done ++ [t.ranAgain r exclude newVal]) live) :
    r.Reran r' kept (t :: rest) done (t.ranAgain r exclude newVal :: live) := by
  obtain ⟨-,hloses,hupdate⟩ := h.again hrun
  obtain ⟨new,hnew,hperm,herrors⟩ := hr.reports
  refine ⟨by simpa using hr.rerunning,hloses.trans hr.loses,?_,⟨hupdate,?_⟩,?_,new,hnew,?_,?_⟩
  · intro u hu
    rcases List.mem_cons.mp hu with rfl | hu
    · exact hstatus
    · exact hr.run u hu
  · have hchained := hr.chained
    rw [lastOutput_append] at hchained
    exact hchained
  · intro u hu
    rcases List.mem_cons.mp hu with rfl | hu
    · exact ⟨t,List.mem_cons_self,hstatus,rfl,rfl⟩
    · obtain ⟨t₀,ht₀,hsame⟩ := hr.same u hu
      exact ⟨t₀,List.mem_cons_of_mem t ht₀,hsame⟩
  · exact (List.perm_middle).trans (hperm.cons t.order)
  · intro report hmem
    obtain ⟨hfalse,u,hu,herror⟩ := herrors report hmem
    exact ⟨hfalse,u,List.mem_cons_of_mem t hu,herror⟩

/-- A queue that is run again, transactions passed over or done aside. -/
theorem rerunTransactionQueue_ok (h : r.Rerunning kept rest done exclude)
    (hrest : ∀ t ∈ rest, t.Rerunnable) :
    ∃ live, (r.rerunTransactionQueue rest exclude).1.filter (fun t => t.status ≠ .completed) =
      live ∧ r.Reran (r.rerunTransactionQueue rest exclude).2 kept rest done live := by
  induction rest generalizing done exclude r with
  | nil =>
    exact ⟨[],rfl,⟨exclude,by simpa [Repo.rerunTransactionQueue] using h⟩,r.loses_refl,by simp,
      trivial,by simp,[],by simp [Repo.rerunTransactionQueue],by simp,by simp⟩
  | cons t rest ih =>
    have hrest' : ∀ t ∈ rest, t.Rerunnable := fun u hu => hrest u (List.mem_cons_of_mem t hu)
    have haborted : ∀ t' : Transaction V, t'.order = t.order →
        (t.status = .needsAbort → t'.abortStatus = t.abortStatus) →
        r.rerunTransaction t exclude = (r.ackUserWrite t.currentWriteId).abort t' exclude →
        ∃ live, (r.rerunTransactionQueue (t :: rest) exclude).1.filter
            (fun t => t.status ≠ .completed) = live ∧
          r.Reran (r.rerunTransactionQueue (t :: rest) exclude).2 kept (t :: rest) done live := by
      intro t' horder hstatus heq
      obtain ⟨live,hlive,hran⟩ := ih (h.abort t').1 hrest'
      refine ⟨live,?_,?_⟩
      · rw [Repo.rerunTransactionQueue,heq]
        exact (List.filter_cons_of_neg (by simp [Repo.abort])).trans hlive
      · rw [Repo.rerunTransactionQueue,heq]
        exact Repo.Reran.aborted h horder hstatus hran
    rcases hrest t List.mem_cons_self with hrun | ⟨hneeds,hstatus⟩
    · by_cases hretries : kFTransactionMaxRetries ≤ t.retryCount
      · exact haborted { t with abortStatus := some kFTransactionTooManyRetries } rfl
          (by simp [hrun]) (by simp [Repo.rerunTransaction,hrun,hretries])
      · cases hupdate : t.update (r.latestState exclude) with
        | none =>
          exact haborted { t with currentInput := r.latestState exclude, abortStatus := none } rfl
            (by simp [hrun]) (by simp [Repo.rerunTransaction,hrun,hretries,hupdate])
        | some newVal =>
          obtain ⟨live,hlive,hran⟩ := ih (h.again hupdate).1 hrest'
          have hstep : r.rerunTransaction t exclude = (t.ranAgain r exclude newVal,
              exclude.erase t.currentWriteId,
              (r.applyUserOverwrite newVal).ackUserWrite t.currentWriteId) := by
            simp [Repo.rerunTransaction,Transaction.ranAgain,hrun,hretries,hupdate]
          refine ⟨t.ranAgain r exclude newVal :: live,?_,?_⟩
          · rw [Repo.rerunTransactionQueue,hstep]
            exact (List.filter_cons_of_pos (by simp [Transaction.ranAgain,hrun])).trans
              (congrArg _ hlive)
          · rw [Repo.rerunTransactionQueue,hstep]
            exact Repo.Reran.again h hrun hupdate hran
    · exact haborted t rfl (fun _ => rfl) (by simp [Repo.rerunTransaction,hneeds,hstatus])

end Reruns

section Queues

variable {r r' : Repo V H} {sent rest : List (Transaction V)}

/-- The writes of a queue that begins with what was sent. -/
structure Repo.Queued (r : Repo V H) (sent rest : List (Transaction V)) : Prop where
  queue : r.queue = sent ++ rest
  statuses : ∀ t ∈ sent, t.status = .sent
  writes : r.allWrites = (sent ++ rest).map Transaction.write
  ids : ((sent ++ rest).map (·.currentWriteId)).Nodup
  fresh : ∀ t ∈ sent ++ rest, t.currentWriteId < r.writeIdCounter
  watched : (sent ++ rest).length ≤ r.watchers

theorem Repo.Queued.congr (h : r.Queued sent rest) (hqueue : r'.queue = r.queue)
    (hwrites : r'.allWrites = r.allWrites) (hcounter : r'.writeIdCounter = r.writeIdCounter)
    (hwatchers : r'.watchers = r.watchers) : r'.Queued sent rest where
  queue := hqueue.trans h.queue
  statuses := h.statuses
  writes := hwrites.trans h.writes
  ids := h.ids
  fresh := hcounter ▸ h.fresh
  watched := hwatchers ▸ h.watched

theorem Repo.prune_queued (h : r.Queued sent rest) (hrest : ∀ t ∈ rest, t.status ≠ .completed) :
    r.pruneCompletedTransactions = r := by
  have hkeep : r.queue.filter (fun t => t.status ≠ .completed) = r.queue := by
    rw [List.filter_eq_self,h.queue]
    intro t ht
    rcases List.mem_append.mp ht with ht | ht
    · simp [h.statuses t ht]
    · exact decide_eq_true (hrest t ht)
  rw [pruneCompletedTransactions,hkeep]

variable [Inhabited V] {dataHash : V → H}

def Transaction.sending (t : Transaction V) : Transaction V :=
  { t with status := .sent, retryCount := t.retryCount + 1 }

def Repo.readyPut (dataHash : V → H) (run : List (Transaction V)) (r : Repo V H) : Put V H :=
  ⟨r.putCounter,lastOutput (r.serverCache.getD default) run,
    dataHash (r.serverCache.getD default),run.map Transaction.sending,r.canSendWrites⟩

theorem Repo.sendTransactionQueue_eq (h : r.Queued [] rest) :
    r.sendTransactionQueue dataHash =
      { r.sendAction (.put (r.readyPut dataHash rest)) with
        queue := rest.map Transaction.sending
        outstandingPuts := r.outstandingPuts ++ [r.readyPut dataHash rest]
        putCounter := r.putCounter + 1 } := by
  have hqueue : r.queue = rest := h.queue
  have hwrites : r.allWrites = rest.map Transaction.write ++
      ([] : List (Transaction V)).map Transaction.write := by simpa using h.writes
  have hlatest : r.latestState (rest.map (·.currentWriteId)) = r.serverCache.getD default :=
    latestState_writes hwrites (fun t ht => List.mem_map_of_mem ht) (by simp)
  simp only [sendTransactionQueue,hqueue,hlatest,putInternal,sendAction]
  split <;> rfl

/-- The queue waits behind what was sent, or all of it is sent. -/
theorem Repo.sendAllReady_queued (dataHash : V → H) (h : r.Queued sent rest)
    (hrest : ∀ t ∈ rest, t.status = .run) :
    (sent = [] → rest = []) ∧ r.sendAllReadyTransactions dataHash = r ∨
    sent = [] ∧ rest ≠ [] ∧
      r.sendAllReadyTransactions dataHash = r.sendTransactionQueue dataHash := by
  have hprune : r.pruneCompletedTransactions = r :=
    prune_queued h fun t ht => by simp [hrest t ht]
  rw [sendAllReadyTransactions,hprune]
  cases sent with
  | nil =>
    have hqueue : r.queue = rest := h.queue
    cases rest with
    | nil => exact .inl ⟨fun _ => rfl,by simp [hqueue]⟩
    | cons t rest =>
      have hall : (t :: rest).all (·.status = .run) := by
        rw [List.all_eq_true]
        exact fun u hu => decide_eq_true (hrest u hu)
      exact .inr ⟨rfl,by simp,by simp only [hqueue,hall,List.isEmpty_cons,if_true]; rfl⟩
  | cons t sent =>
    have hsent := h.statuses t List.mem_cons_self
    exact .inl ⟨by simp,by simp [h.queue,hsent]⟩

theorem Repo.queued_sendTransactionQueue (h : r.Queued [] rest) :
    (r.sendTransactionQueue dataHash).Queued (rest.map Transaction.sending) [] := by
  have hwrites : (rest.map Transaction.sending).map Transaction.write =
      rest.map Transaction.write := by simp [Transaction.write,Transaction.sending]
  rw [sendTransactionQueue_eq h,sendAction_eq]
  refine ⟨by simp,?_,?_,?_,?_,?_⟩
  · intro t ht
    obtain ⟨u,-,rfl⟩ := List.mem_map.mp ht
    rfl
  · simpa [hwrites] using h.writes
  · rw [List.append_nil,List.map_map]
    exact h.ids
  · simpa [Transaction.sending] using h.fresh
  · simpa using h.watched

theorem Repo.rerunTransactionQueue_sent (hsent : ∀ t ∈ sent, t.status = .sent)
    (rest : List (Transaction V)) (exclude : List Nat) (r : Repo V H) :
    r.rerunTransactionQueue (sent ++ rest) exclude =
      (sent ++ (r.rerunTransactionQueue rest exclude).1,
        (r.rerunTransactionQueue rest exclude).2) := by
  induction sent with
  | nil => rfl
  | cons t sent ih =>
    have hstatus := hsent t List.mem_cons_self
    rw [List.cons_append,rerunTransactionQueue]
    simp only [rerunTransaction,hstatus]
    rw [ih fun u hu => hsent u (List.mem_cons_of_mem t hu)]
    rfl

theorem Repo.rerunTransactions_queued (dataHash : V → H) (h : r.Queued sent rest)
    (hrest : ∀ t ∈ rest, t.Rerunnable) :
    ∃ live r', r.Reran r' sent rest [] live ∧
      Repo.Queued { r' with queue := sent ++ live } sent live ∧
      r.rerunTransactions dataHash =
        Repo.sendAllReadyTransactions dataHash { r' with queue := sent ++ live } := by
  have hexclude : ∀ t ∈ sent ++ rest,
      t.currentWriteId ∈ (sent ++ rest).map (·.currentWriteId) :=
    fun t ht => List.mem_map_of_mem ht
  have hrerunning : r.Rerunning sent rest [] ((sent ++ rest).map (·.currentWriteId)) := by
    refine ⟨by simpa using h.writes,by simpa using h.ids,by simpa using h.fresh,?_,hexclude,
      by simp,by simpa using h.watched⟩
    intro n hn
    obtain ⟨t,ht,rfl⟩ := List.mem_map.mp hn
    exact h.fresh t ht
  obtain ⟨live,hlive,hran⟩ := rerunTransactionQueue_ok hrerunning hrest
  generalize hrun : r.rerunTransactionQueue rest ((sent ++ rest).map (·.currentWriteId)) = run
    at hlive hran
  obtain ⟨exclude,hend⟩ := hran.rerunning
  have hkept : (sent ++ run.1).filter (fun t => t.status ≠ .completed) = sent ++ live := by
    rw [List.filter_append,hlive,List.filter_eq_self.mpr]
    intro t ht
    simp [h.statuses t ht]
  refine ⟨live,run.2,hran,⟨rfl,h.statuses,?_,?_,?_,?_⟩,?_⟩
  · simpa using hend.writes
  · simpa using hend.ids
  · simpa using hend.fresh
  · simpa using hend.watched
  · rw [rerunTransactions]
    cases hqueue : sent ++ rest with
    | nil =>
      obtain ⟨rfl,rfl⟩ := List.append_eq_nil_iff.mp hqueue
      obtain rfl : run = ([],r) := hrun.symm
      obtain rfl : [] = live := hlive
      have hempty : r.queue = [] := h.queue
      rw [if_pos (by simp [hempty])]
      simp only [sendAllReadyTransactions,pruneCompletedTransactions,List.append_nil,
        List.filter_nil,List.isEmpty_nil,if_true]
      rw [← hempty]
    | cons t queue =>
      have hall := rerunTransactionQueue_sent h.statuses rest
        ((sent ++ rest).map (·.currentWriteId)) r
      rw [if_neg (by simp [h.queue,hqueue]),h.queue,hall,hrun]
      simp only [pruneCompletedTransactions,hkept]

theorem Repo.rerunTransactions_idle (h : r.Queued sent []) :
    r.rerunTransactions dataHash = r := by
  have hqueue : r.queue = sent := by simpa using h.queue
  have hall : r.rerunTransactionQueue sent (sent.map (·.currentWriteId)) = (sent,r) := by
    have := rerunTransactionQueue_sent h.statuses [] (sent.map (·.currentWriteId)) r
    simpa [rerunTransactionQueue] using this
  have hself : { r with queue := sent } = r := by rw [← hqueue]
  rw [rerunTransactions]
  split
  · rfl
  · rw [hqueue,hall]
    simp only [hself]
    rw [prune_queued h (by simp)]
    rcases sendAllReady_queued dataHash h (by simp) with ⟨-,heq⟩ | ⟨-,hne,-⟩
    · exact heq
    · exact absurd rfl hne

end Queues

section Responses

variable {r r' : Repo V H} {sent rest : List (Transaction V)} {p : Put V H}

theorem Repo.modify_queue (hqueue : r.queue = sent ++ rest) (hp : p.queue = sent)
    (horders : ((sent ++ rest).map (·.order)).Nodup) (f : Transaction V → Transaction V) :
    r.modify p f = { r with queue := sent.map f ++ rest } := by
  have hsent : sent.map (fun t => if t.order ∈ sent.map (·.order) then f t else t) =
      sent.map f :=
    List.map_congr_left fun t ht => if_pos (List.mem_map_of_mem ht)
  have hrest : rest.map (fun t => if t.order ∈ sent.map (·.order) then f t else t) = rest := by
    refine (List.map_congr_left fun t ht => if_neg fun hmem => ?_).trans (List.map_id' rest)
    rw [List.map_append,List.nodup_append] at horders
    exact horders.2.2 _ hmem _ (List.mem_map_of_mem ht) rfl
  rw [modify,hp,hqueue,List.map_append,hsent,hrest]

def Transaction.committedReport (t : Transaction V) : Report V :=
  ⟨t.order,none,true,t.currentOutput⟩

theorem Repo.foldl_complete (hw : r.allWrites = (sent ++ rest).map Transaction.write)
    (hids : ((sent ++ rest).map (·.currentWriteId)).Nodup)
    (hwatched : (sent ++ rest).length ≤ r.watchers) :
    let r' := sent.foldl Repo.complete r
    r'.allWrites = rest.map Transaction.write ∧ rest.length ≤ r'.watchers ∧ r.Loses r' ∧
      r'.writeIdCounter = r.writeIdCounter ∧ r'.queue = r.queue ∧
      r'.reports = r.reports ++ sent.map Transaction.committedReport := by
  induction sent generalizing r with
  | nil => exact ⟨hw,hwatched,r.loses_refl,rfl,rfl,by simp⟩
  | cons t sent ih =>
    have hpos : 0 < r.watchers := by
      simp only [List.cons_append,List.length_cons] at hwatched
      omega
    have hloses : r.Loses (r.complete t) := by
      have hack : r.Loses ((r.ackUserWrite t.currentWriteId).onComplete t.committedReport) :=
        ⟨rfl,rfl,rfl,rfl,rfl,Nat.le_refl _,.inl ⟨rfl,rfl,.inr rfl⟩⟩
      exact hack.trans (loses_removeObserver hpos)
    obtain ⟨hw',hwatched',hloses',hcounter,hqueue,hreports⟩ := ih (r := r.complete t)
      (by
        have hfilter := filter_write (l := []) hids
        simpa [complete,onComplete,ackUserWrite,hw] using hfilter)
      (List.nodup_cons.mp hids).2
      (by
        simp only [List.cons_append,List.length_cons] at hwatched
        simp only [complete,removeObserver_watchers,onComplete,ackUserWrite]
        omega)
    refine ⟨hw',hwatched',hloses.trans hloses',?_,?_,?_⟩
    · simpa [complete,onComplete,ackUserWrite] using hcounter
    · simpa [complete,onComplete,ackUserWrite] using hqueue
    · simpa [complete,onComplete,ackUserWrite,Transaction.committedReport] using hreports

end Responses

section Holding

variable (held : List (Put V H × String)) (r : Repo V H)

def Repo.holding : Repo V H := { r with putsToAck := held }

theorem Repo.sendAction_holding (m : Outgoing V H) :
    (r.holding held).sendAction m = (r.sendAction m).holding held := by
  have hcan : (r.holding held).canSendWrites = r.canSendWrites := rfl
  simp only [sendAction,hcan]
  split <;> rfl

theorem Repo.removeObserver_holding :
    (r.holding held).removeObserver = r.removeObserver.holding held := by
  have hw : (r.holding held).watchers = r.watchers := rfl
  simp only [removeObserver,hw,sendAction_holding]
  split <;> rfl

theorem Repo.putInternal_holding (data : V) (hash : H) (queue : List (Transaction V)) :
    (r.holding held).putInternal data hash queue =
      (r.putInternal data hash queue).holding held := by
  rw [putInternal,putInternal,sendAction_holding]
  rfl

theorem Repo.foldl_complete_holding (batch : List (Transaction V)) :
    batch.foldl complete (r.holding held) = (batch.foldl complete r).holding held := by
  induction batch generalizing r with
  | nil => rfl
  | cons t batch ih =>
    have hstep : (r.holding held).complete t = (r.complete t).holding held :=
      removeObserver_holding held ((r.ackUserWrite t.currentWriteId).onComplete _)
    rw [List.foldl_cons,List.foldl_cons,hstep,ih]

variable [Inhabited V] (dataHash : V → H)

theorem Repo.sendAllReady_holding : (r.holding held).sendAllReadyTransactions dataHash =
    (r.sendAllReadyTransactions dataHash).holding held := by
  have hprune : (r.holding held).pruneCompletedTransactions =
      r.pruneCompletedTransactions.holding held := rfl
  have hsend : ∀ r : Repo V H, (r.holding held).sendTransactionQueue dataHash =
      (r.sendTransactionQueue dataHash).holding held :=
    fun r => putInternal_holding held { r with queue := _ } _ _ _
  have hqueue : ∀ r : Repo V H, (r.holding held).queue = r.queue := fun _ => rfl
  simp only [sendAllReadyTransactions,hprune,hqueue,hsend]
  split_ifs <;> rfl

theorem Repo.rerunTransaction_holding (t : Transaction V) (exclude : List Nat) :
    (r.holding held).rerunTransaction t exclude =
      ((r.rerunTransaction t exclude).1,(r.rerunTransaction t exclude).2.1,
        (r.rerunTransaction t exclude).2.2.holding held) := by
  have habort : ∀ (t : Transaction V) (r : Repo V H), (r.holding held).abort t exclude =
      ((r.abort t exclude).1,(r.abort t exclude).2.1,(r.abort t exclude).2.2.holding held) := by
    intro t r
    simp only [abort,removeObserver_holding]
    rfl
  have hack : ∀ (t : Transaction V) (id : Nat), ((r.holding held).ackUserWrite id).abort t exclude =
      (((r.ackUserWrite id).abort t exclude).1,((r.ackUserWrite id).abort t exclude).2.1,
        ((r.ackUserWrite id).abort t exclude).2.2.holding held) :=
    fun t id => habort t (r.ackUserWrite id)
  have hlatest : (r.holding held).latestState exclude = r.latestState exclude := rfl
  cases hstatus : t.status with
  | needsAbort =>
    simp only [rerunTransaction,hstatus]
    split
    · exact habort t r
    · exact hack t _
  | run =>
    simp only [rerunTransaction,hstatus,hlatest]
    split
    · exact hack _ _
    · split
      · rfl
      · exact hack _ _
  | completed | sent | sentNeedsAbort => simp only [rerunTransaction,hstatus]

theorem Repo.rerunTransactionQueue_holding (queue : List (Transaction V)) (exclude : List Nat) :
    (r.holding held).rerunTransactionQueue queue exclude =
      ((r.rerunTransactionQueue queue exclude).1,
        (r.rerunTransactionQueue queue exclude).2.holding held) := by
  induction queue generalizing exclude r with
  | nil => rfl
  | cons t queue ih => simp only [rerunTransactionQueue,rerunTransaction_holding,ih]

theorem Repo.rerunTransactions_holding : (r.holding held).rerunTransactions dataHash =
    (r.rerunTransactions dataHash).holding held := by
  have hqueue : (r.holding held).queue = r.queue := rfl
  simp only [rerunTransactions,hqueue,rerunTransactionQueue_holding]
  generalize r.rerunTransactionQueue r.queue (r.queue.map (·.currentWriteId)) = rerun
  split
  · rfl
  · exact sendAllReady_holding held
      (Repo.pruneCompletedTransactions { rerun.2 with queue := rerun.1 }) dataHash

theorem Repo.putResponse_holding (p : Put V H) (status : String) :
    (r.holding held).putResponse dataHash p status =
      (r.putResponse dataHash p status).holding held := by
  have hmodify : ∀ f, (r.holding held).modify p f = (r.modify p f).holding held := fun _ => rfl
  have hqueue : (r.holding held).queue = r.queue := rfl
  have hprune : ∀ r : Repo V H, (r.holding held).pruneCompletedTransactions =
      r.pruneCompletedTransactions.holding held := fun _ => rfl
  simp only [putResponse,hmodify,hqueue,foldl_complete_holding,hprune,sendAllReady_holding,
    rerunTransactions_holding]
  split_ifs <;> rfl

end Holding

end Answr
