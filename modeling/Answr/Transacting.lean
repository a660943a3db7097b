import Answr.Connections
set_option autoImplicit false

/-! The invariant of a client that runs transactions, and that its own calls keep it. Its
queue begins with the transactions of the put that is outstanding, or whose response is held
back. In quiet runs each transaction waits on what the one before it left. -/

namespace Answr

variable {V H : Type}

section Invariant

variable [Inhabited V]

/-- What is sent comes of the value whose hash goes with it. -/
def Put.Good (dataHash : V → H) (p : Put V H) : Prop :=
  ∃ base, p.hash = dataHash base ∧ Chained base p.queue ∧ p.data = lastOutput base p.queue

/-- How far a put has come. -/
inductive Client.Sent (applied : List (Transaction V)) (c : Client V H) (p : Put V H) : Prop where
  | unsent (hsent : p.sent = false) (hcan : c.repo.canSendWrites = false) (hputs : c.puts = [])
    (hresponses : c.responses = []) (hnew : ∀ t ∈ p.queue, t.order ∉ orders applied)
  | waiting (hsent : p.sent = true) (hcan : c.repo.canSendWrites = true) (hputs : c.puts = [p])
    (hresponses : c.responses = []) (hnew : ∀ t ∈ p.queue, t.order ∉ orders applied)
  | accepted (hsent : p.sent = true) (hcan : c.repo.canSendWrites = true) (hputs : c.puts = [])
    (hresponses : c.responses = [(p.index,kFWPResponseForActionStatusOk)])
    (happlied : ∀ t ∈ p.queue, t ∈ applied)
  | refused (status : String) (hsent : p.sent = true) (hcan : c.repo.canSendWrites = true)
    (hputs : c.puts = []) (hresponses : c.responses = [(p.index,status)])
    (hnotOk : status ≠ kFWPResponseForActionStatusOk)
    (hstatus : status ≠ kFErrorWriteCanceled) (hnew : ∀ t ∈ p.queue, t.order ∉ orders applied)

/-- What the status of a response says about the transactions of its put. -/
def Responded (applied : List (Transaction V)) (status : String) (queue : List (Transaction V)) :
    Prop :=
  status = kFWPResponseForActionStatusOk ∧ (∀ t ∈ queue, t ∈ applied) ∨
    status ≠ kFWPResponseForActionStatusOk ∧ status ≠ kFErrorWriteCanceled ∧
      ∀ t ∈ queue, t.order ∉ orders applied

/-- Nothing is outstanding, or the one put of what was sent, or its response is held back. -/
inductive Client.Flight (applied : List (Transaction V)) (c : Client V H)
    (sent : List (Transaction V)) : Prop where
  | idle (hsent : sent = []) (houts : c.repo.outstandingPuts = []) (hheld : c.repo.putsToAck = [])
    (hputs : c.puts = []) (hresponses : c.responses = [])
  | outstanding (p : Put V H) (houts : c.repo.outstandingPuts = [p])
    (hheld : c.repo.putsToAck = []) (hp : p.queue = sent) (hne : sent ≠ [])
    (hindex : p.index < c.repo.putCounter) (hsent : c.Sent applied p)
  | held (p : Put V H) (status : String) (houts : c.repo.outstandingPuts = [])
    (hheld : c.repo.putsToAck = [(p,status)]) (hp : p.queue = sent) (hne : sent ≠ [])
    (hputs : c.puts = []) (hresponses : c.responses = [])
    (hresponded : Responded applied status sent)

structure Client.Holds (quiet : Prop) (dataHash : V → H) (value : V)
    (applied : List (Transaction V)) (c : Client V H) (sent rest : List (Transaction V)) :
    Prop where
  queued : c.repo.Queued sent rest
  accounts : c.Accounts applied (sent ++ rest)
  connected : c.Connected value
  flight : c.Flight applied sent
  rest : ∀ t ∈ rest, t.order ∈ orders applied →
    t.status = .needsAbort ∧ t.abortStatus = some kFTransactionDisconnect
  good : quiet → ∀ p, p ∈ c.repo.outstandingPuts ∨ p ∈ c.late → p.Good dataHash
  held : quiet → ∀ put ∈ c.repo.putsToAck, put.1.Good dataHash ∧
    (put.2 = kFWPResponseForActionStatusOk → c.repo.serverCache = some put.1.data)

/-- What waits has run on what it waits for. -/
structure Client.Runs (quiet : Prop) (c : Client V H) (sent rest : List (Transaction V)) :
    Prop where
  statuses : ∀ t ∈ rest, t.status = .run
  chained : quiet → Chained (lastOutput (c.repo.serverCache.getD default) sent) rest

/-- The invariant between two calls. -/
def Client.Ok (quiet : Prop) (dataHash : V → H) (value : V) (applied : List (Transaction V))
    (c : Client V H) : Prop :=
  ∃ sent rest, c.Holds quiet dataHash value applied sent rest ∧ c.Runs quiet sent rest ∧
    (sent = [] → rest = [])

end Invariant

section Calls

variable {quiet : Prop} {dataHash : V → H} {value value' : V}
  {applied sent rest live : List (Transaction V)} {c c' : Client V H} {r' : Repo V H}

theorem Repo.Loses.puts (h : c.repo.Loses c'.repo) : c'.puts = c.puts := by
  rcases h.view with ⟨-,hout,-⟩ | ⟨-,-,-,hout⟩
  · rw [Client.puts,hout,Client.puts]
  · rw [Client.puts,hout,Client.puts,sendAction]
    split
    · simp [Outgoing.put?]
    · rfl

theorem Client.Sent.congr {p : Put V H} (h : c.Sent applied p)
    (hcan : c'.repo.canSendWrites = c.repo.canSendWrites) (hputs : c'.puts = c.puts)
    (hresponses : c'.responses = c.responses) : c'.Sent applied p := by
  cases h with
  | unsent h1 h2 h3 h4 h5 =>
    exact .unsent h1 (hcan.trans h2) (hputs.trans h3) (hresponses.trans h4) h5
  | waiting h1 h2 h3 h4 h5 =>
    exact .waiting h1 (hcan.trans h2) (hputs.trans h3) (hresponses.trans h4) h5
  | accepted h1 h2 h3 h4 h5 =>
    exact .accepted h1 (hcan.trans h2) (hputs.trans h3) (hresponses.trans h4) h5
  | refused status h1 h2 h3 h4 h5 h6 h7 =>
    exact .refused status h1 (hcan.trans h2) (hputs.trans h3) (hresponses.trans h4) h5 h6 h7

theorem Client.Flight.congr (h : c.Flight applied sent)
    (houts : c'.repo.outstandingPuts = c.repo.outstandingPuts)
    (hcounter : c'.repo.putCounter = c.repo.putCounter)
    (hheld : c'.repo.putsToAck = c.repo.putsToAck)
    (hcan : c'.repo.canSendWrites = c.repo.canSendWrites) (hputs : c'.puts = c.puts)
    (hresponses : c'.responses = c.responses) : c'.Flight applied sent := by
  cases h with
  | idle h1 h2 h3 h4 h5 =>
    exact .idle h1 (houts.trans h2) (hheld.trans h3) (hputs.trans h4) (hresponses.trans h5)
  | outstanding p h1 h2 h3 h4 h5 h6 =>
    exact .outstanding p (houts.trans h1) (hheld.trans h2) h3 h4 (hcounter ▸ h5)
      (h6.congr hcan hputs hresponses)
  | held p status h1 h2 h3 h4 h5 h6 h7 =>
    exact .held p status (houts.trans h1) (hheld.trans h2) h3 h4 (hputs.trans h5)
      (hresponses.trans h6) h7

theorem Client.Flight.nothing (h : c.Flight applied []) : c.repo.outstandingPuts = [] ∧
    c.repo.putsToAck = [] ∧ c.puts = [] ∧ c.responses = [] := by
  cases h with
  | idle _ houts hheld hputs hresponses => exact ⟨houts,hheld,hputs,hresponses⟩
  | outstanding _ _ _ _ hne => exact absurd rfl hne
  | held _ _ _ _ _ hne => exact absurd rfl hne

theorem Client.Holds.held_loses (h : c.Holds quiet dataHash value applied sent rest)
    (hloses : c.repo.Loses r') (hwatched : sent.length ≤ r'.watchers) (hq : quiet) :
    ∀ put ∈ r'.putsToAck, put.1.Good dataHash ∧
      (put.2 = kFWPResponseForActionStatusOk → r'.serverCache = some put.1.data) := by
  rw [hloses.putsToAck]
  rcases hloses.view with ⟨hcache,-⟩ | ⟨-,hzero,-⟩
  · rw [hcache]
    exact h.held hq
  · obtain rfl : sent = [] := List.eq_nil_of_length_eq_zero (by omega)
    simp [h.flight.nothing.2.1]

theorem Client.Holds.unwatched (h : c.Holds quiet dataHash value applied sent rest)
    (hw : c.repo.watchers = 0) : sent = [] ∧ rest = [] ∧ c.puts = [] ∧ c.responses = [] := by
  have hlen := h.queued.watched
  rw [hw,List.length_append] at hlen
  obtain rfl : sent = [] := List.eq_nil_of_length_eq_zero (by omega)
  obtain rfl : rest = [] := List.eq_nil_of_length_eq_zero (by omega)
  exact ⟨rfl,rfl,h.flight.nothing.2.2⟩

theorem Client.Holds.observe (h : c.Holds quiet dataHash value applied sent rest) :
    Client.Holds quiet dataHash value applied
      { c with repo := c.repo.addEventRegistration } sent rest := by
  have hrepo : ∃ watchers outgoing count, c.repo.addEventRegistration =
        { c.repo with
          watchers := watchers, outgoing := outgoing, unackedListensCount := count } ∧
      c.repo.watchers ≤ watchers ∧ outgoing.filterMap Outgoing.put? = c.puts := by
    rw [Repo.addEventRegistration]
    split
    · rename_i hw
      obtain ⟨outgoing,count,heq⟩ := c.repo.sendListen_eq
      have hout : outgoing = (c.repo.sendAction .listen).outgoing := by
        rw [← Repo.sendListen_outgoing,heq]
      rw [heq]
      refine ⟨_,_,_,rfl,by omega,?_⟩
      rw [hout,Repo.sendAction]
      split
      · simp [puts,Outgoing.put?]
      · rfl
    · exact ⟨_,_,_,rfl,by omega,rfl⟩
  have hconnected : Client.Connected value { c with repo := c.repo.addEventRegistration } :=
    h.connected.observes (fun hw => (h.unwatched hw).2.2.1) rfl rfl rfl
  obtain ⟨w,o,n,heq,hle,hputs⟩ := hrepo
  rw [heq] at hconnected ⊢
  have hq := h.queued
  exact ⟨⟨hq.queue,hq.statuses,hq.writes,hq.ids,hq.fresh,Nat.le_trans hq.watched hle⟩,
    h.accounts.congr rfl rfl rfl rfl,hconnected,h.flight.congr rfl rfl rfl rfl hputs rfl,h.rest,
    h.good,h.held⟩

theorem Client.Holds.unobserve (h : c.Holds quiet dataHash value applied sent rest)
    (hw : c.repo.queue.length < c.repo.watchers) :
    Client.Holds quiet dataHash value applied
      { c with repo := c.repo.removeObserver } sent rest := by
  have hloses := Repo.loses_removeObserver (r := c.repo) (by omega)
  have hq := h.queued
  have hputs : Client.puts { c with repo := c.repo.removeObserver } = c.puts :=
    Repo.Loses.puts hloses
  have hwatched : (sent ++ rest).length ≤ c.repo.removeObserver.watchers := by
    rw [Repo.removeObserver_watchers,← hq.queue]
    omega
  refine ⟨⟨by simpa using hq.queue,hq.statuses,by simpa using hq.writes,hq.ids,
    by simpa using hq.fresh,hwatched⟩,h.accounts.congr (by simp) hloses.luid rfl rfl,
    h.connected.loses hloses (fun hzero => ?_) rfl rfl,
    h.flight.congr hloses.outstandingPuts hloses.putCounter hloses.putsToAck
      hloses.canSendWrites hputs rfl,
    h.rest,?_,?_⟩
  · rw [hzero,List.length_append] at hwatched
    obtain rfl : sent = [] := List.eq_nil_of_length_eq_zero (by omega)
    exact h.flight.nothing.2.2
  · rw [hloses.outstandingPuts]
    exact h.good
  · rw [List.length_append] at hwatched
    exact h.held_loses hloses (Nat.le_of_add_right_le hwatched)

theorem Client.Runs.congr [Inhabited V] (h : c.Runs quiet sent rest)
    (hwait : sent = [] → rest = []) : c'.Runs quiet sent rest := by
  refine ⟨h.statuses,fun hq => ?_⟩
  cases sent with
  | nil =>
    rw [hwait rfl]
    exact trivial
  | cons t sent => exact h.chained hq

variable [Inhabited V]

theorem Client.Ok.congr (h : c.Ok quiet dataHash value applied)
    (hrepo : c'.repo = { c.repo with
      outgoing := c'.repo.outgoing, unackedListensCount := c'.repo.unackedListensCount })
    (hlate : c'.late = c.late) (hstarted : c'.started = c.started) (hputs : c'.puts = c.puts)
    (hresponses : c'.responses = c.responses) (hconnected : c'.Connected value') :
    c'.Ok quiet dataHash value' applied := by
  obtain ⟨sent,rest,hholds,hruns,hwait⟩ := h
  have hq := hholds.queued
  refine ⟨sent,rest,⟨?_,hholds.accounts.congr ?_ ?_ hlate hstarted,hconnected,
    hholds.flight.congr ?_ ?_ ?_ ?_ hputs hresponses,hholds.rest,?_,?_⟩,hruns.congr hwait,hwait⟩
  · rw [hrepo]
    exact hq.congr rfl rfl rfl rfl
  · rw [hrepo]
  · rw [hrepo]
  · rw [hrepo]
  · rw [hrepo]
  · rw [hrepo]
  · rw [hrepo]
  · rw [hrepo,hlate]
    exact hholds.good
  · rw [hrepo]
    exact hholds.held

theorem Client.Ok.connected (h : c.Ok quiet dataHash value applied) : c.Connected value := by
  obtain ⟨_,_,hholds,-⟩ := h
  exact hholds.connected

theorem Client.Ok.recount (h : c.Ok quiet dataHash value applied) (n elsewhere : Nat) :
    Client.Ok quiet dataHash value applied { c with
      repo := { c.repo with unackedListensCount := n }
      elsewhere := elsewhere } := by
  exact h.congr rfl rfl rfl rfl rfl (h.connected.congr rfl rfl rfl rfl rfl rfl rfl)

theorem Repo.readyPut_good (r : Repo V H) (h : Chained (r.serverCache.getD default) rest) :
    (r.readyPut dataHash rest).Good dataHash :=
  ⟨_,rfl,chained_map (f := .sending) (fun _ => rfl) (fun _ => rfl) h,
    (lastOutput_map (f := .sending) (fun _ => rfl) _ _).symm⟩

theorem Client.Holds.send (h : c.Holds quiet dataHash value applied sent rest)
    (hruns : c.Runs quiet sent rest) :
    Client.Ok quiet dataHash value applied
      { c with repo := c.repo.sendAllReadyTransactions dataHash } := by
  rcases Repo.sendAllReady_queued dataHash h.queued hruns.statuses with
    ⟨hwait,heq⟩ | ⟨rfl,hne,heq⟩
  · rw [heq]
    exact ⟨sent,rest,h,hruns,hwait⟩
  · have hqueued : Repo.Queued (c.repo.sendTransactionQueue dataHash) (rest.map .sending) [] :=
      Repo.queued_sendTransactionQueue h.queued
    obtain ⟨houts,hheld,hputs,hresponses⟩ := h.flight.nothing
    rw [heq]
    rw [Repo.sendTransactionQueue_eq h.queued,Repo.sendAction_eq] at hqueued ⊢
    refine ⟨rest.map .sending,[],⟨hqueued,?_,?_,?_,by simp,?_,by simp [hheld]⟩,
      ⟨by simp,fun _ => trivial⟩,fun _ => rfl⟩
    · have haccounts := h.accounts
      rw [List.nil_append,← List.append_nil rest] at haccounts
      exact (haccounts.map (f := .sending) (fun _ => rfl) (fun _ => rfl)).congr rfl rfl rfl rfl
    · refine h.connected.sends (p := c.repo.readyPut dataHash rest) ?_ rfl rfl rfl rfl rfl rfl rfl
      exact Nat.lt_of_lt_of_le (List.length_pos_of_ne_nil hne) (by simpa using h.queued.watched)
    · have hnew : ∀ t ∈ rest.map Transaction.sending, t.order ∉ orders applied := by
        intro t ht hmem
        obtain ⟨u,hu,rfl⟩ := List.mem_map.mp ht
        have := (h.rest u hu hmem).1
        rw [hruns.statuses u hu] at this
        cases this
      refine .outstanding (c.repo.readyPut dataHash rest) (by simp [houts]) hheld rfl
        (by simpa using hne) (Nat.lt_succ_self _) ?_
      cases hcan : c.repo.canSendWrites with
      | false =>
        exact .unsent hcan rfl (by simpa [puts,Repo.sendAction,hcan] using hputs) hresponses hnew
      | true =>
        refine .waiting hcan rfl ?_ hresponses hnew
        simp only [puts,Repo.sendAction,hcan,if_true,List.filterMap_append]
        rw [show c.repo.outgoing.filterMap Outgoing.put? = [] from hputs]
        rfl
    · intro hquiet p hp
      rcases hp with hp | hp
      · simp only [houts,List.nil_append,List.mem_singleton] at hp
        exact hp ▸ c.repo.readyPut_good (hruns.chained hquiet)
      · exact h.good hquiet p (.inr hp)

theorem Client.Holds.reran (h : c.Holds quiet dataHash value applied sent rest)
    (hran : c.repo.Reran r' sent rest [] live)
    (hqueued : Repo.Queued { r' with queue := sent ++ live } sent live)
    (hquiet : quiet → sent = [] ∨ rest = []) :
    Client.Holds quiet dataHash value applied { c with repo := { r' with queue := sent ++ live } }
        sent live ∧
      Client.Runs quiet { c with repo := { r' with queue := sent ++ live } } sent live := by
  obtain ⟨h1,h2,h3,h4,h5,h6,h7⟩ := hran.loses
  have hloses : c.repo.Loses { r' with queue := sent ++ live } := ⟨h1,h2,h3,h4,h5,h6,h7⟩
  have hputs : Client.puts { c with repo := { r' with queue := sent ++ live } } = c.puts :=
    Repo.Loses.puts hloses
  have hflight : Client.Flight applied { c with repo := { r' with queue := sent ++ live } } sent :=
    h.flight.congr h1 h2 h5 h3 hputs rfl
  have hwatched : sent.length ≤ r'.watchers := by
    have hlen := hqueued.watched
    simp only [List.length_append] at hlen
    omega
  refine ⟨⟨hqueued,h.accounts.reran hran h.rest rfl rfl rfl rfl,
    h.connected.loses hloses (fun hw => ?_) rfl rfl,hflight,?_,?_,h.held_loses hloses hwatched⟩,
    hran.run,?_⟩
  · simp only at hw
    obtain rfl : sent = [] := List.eq_nil_of_length_eq_zero (by omega)
    exact h.flight.nothing.2.2
  · intro t ht hmem
    obtain ⟨u,hu,hrun,horder,-⟩ := hran.same t ht
    have := (h.rest u hu (horder ▸ hmem)).1
    rw [hrun] at this
    cases this
  · rw [h1]
    exact h.good
  · intro hq
    rcases hquiet hq with rfl | rfl
    · have hchained := hran.chained
      rcases h7 with ⟨hcache,-⟩ | ⟨-,hzero,-⟩
      · rw [← hcache] at hchained
        exact hchained
      · have hlen := hqueued.watched
        simp only [List.length_append] at hlen hzero
        obtain rfl : live = [] := List.eq_nil_of_length_eq_zero (by omega)
        exact trivial
    · cases live with
      | nil => exact trivial
      | cons t live =>
        obtain ⟨u,hu,-⟩ := hran.same t List.mem_cons_self
        cases hu

theorem Client.Holds.rerun (h : c.Holds quiet dataHash value applied sent rest)
    (hrest : ∀ t ∈ rest, t.Rerunnable) (hquiet : quiet → sent = [] ∨ rest = []) :
    Client.Ok quiet dataHash value applied
      { c with repo := c.repo.rerunTransactions dataHash } := by
  obtain ⟨live,r',hran,hqueued,heq⟩ := Repo.rerunTransactions_queued dataHash h.queued hrest
  obtain ⟨hholds,hruns⟩ := h.reran hran hqueued hquiet
  rw [heq]
  exact hholds.send hruns

theorem Client.Holds.enqueue (h : c.Holds quiet dataHash value applied sent rest)
    (hruns : c.Runs quiet sent rest) (hw : (sent ++ rest).length < c.repo.watchers)
    {update : V → Option V} {input newVal : V}
    (hupdate : update (lastOutput (lastOutput (c.repo.serverCache.getD default) sent) rest) =
      some newVal) :
    Client.Ok quiet dataHash value applied { c with
      repo := Repo.sendAllReadyTransactions dataHash (Repo.applyUserOverwrite newVal { c.repo with
        luid := c.repo.luid + 1
        queue := c.repo.queue ++
          [⟨c.repo.luid,update,.run,0,none,c.repo.writeIdCounter,input,newVal⟩] })
      started := c.started ++ [update] } := by
  have hq := h.queued
  let t : Transaction V := ⟨c.repo.luid,update,.run,0,none,c.repo.writeIdCounter,input,newVal⟩
  have hqueue : sent ++ (rest ++ [t]) = (sent ++ rest) ++ [t] := (List.append_assoc _ _ _).symm
  have hqueued : Repo.Queued (Repo.applyUserOverwrite newVal { c.repo with
      luid := c.repo.luid + 1, queue := c.repo.queue ++ [t] }) sent (rest ++ [t]) := by
    refine ⟨?_,hq.statuses,?_,?_,?_,?_⟩
    · rw [hqueue]
      exact congrArg (· ++ [t]) hq.queue
    · rw [hqueue,List.map_append]
      exact congrArg (· ++ _) hq.writes
    · rw [hqueue,List.map_append,List.nodup_append]
      refine ⟨hq.ids,by simp,fun a ha b hb heq => ?_⟩
      obtain ⟨u,hu,rfl⟩ := List.mem_map.mp ha
      have hlt := hq.fresh u hu
      rw [heq,List.mem_singleton.mp hb] at hlt
      exact absurd hlt (Nat.lt_irrefl _)
    · rw [hqueue]
      intro u hu
      rcases List.mem_append.mp hu with hu | hu
      · exact Nat.lt_succ_of_lt (hq.fresh u hu)
      · rw [List.mem_singleton.mp hu]
        exact Nat.lt_succ_self _
    · rw [hqueue,List.length_append]
      exact hw
  have haccounts : Client.Accounts applied { c with
      repo := Repo.applyUserOverwrite newVal { c.repo with
        luid := c.repo.luid + 1, queue := c.repo.queue ++ [t] }
      started := c.started ++ [update] } (sent ++ (rest ++ [t])) := by
    rw [hqueue]
    exact h.accounts.start [] [t] (by simp [Repo.applyUserOverwrite]) rfl (by simp)
      (fun u hu => by rw [List.mem_singleton.mp hu]) rfl rfl rfl
  refine Client.Holds.send (c := { c with
      repo := Repo.applyUserOverwrite newVal { c.repo with
        luid := c.repo.luid + 1, queue := c.repo.queue ++ [t] }
      started := c.started ++ [update] })
    ⟨hqueued,haccounts,h.connected.congr rfl rfl rfl rfl rfl rfl rfl,
      h.flight.congr rfl rfl rfl rfl rfl rfl,?_,h.good,h.held⟩ ⟨?_,?_⟩
  · intro u hu hmem
    rcases List.mem_append.mp hu with hu | hu
    · exact h.rest u hu hmem
    · obtain ⟨a,ha,horder⟩ := List.mem_map.mp hmem
      have hlt := h.accounts.order_lt (.inr (.inl ha))
      rw [← h.accounts.luid,horder,List.mem_singleton.mp hu] at hlt
      exact absurd hlt (Nat.lt_irrefl _)
  · intro u hu
    rcases List.mem_append.mp hu with hu | hu
    · exact hruns.statuses u hu
    · rw [List.mem_singleton.mp hu]
  · intro hquiet
    exact chained_append.mpr ⟨hruns.chained hquiet,hupdate,trivial⟩

theorem Client.Holds.decline (h : c.Holds quiet dataHash value applied sent rest)
    (hruns : c.Runs quiet sent rest) (hwait : sent = [] → rest = [])
    (hw : (sent ++ rest).length < c.repo.watchers) (update : V → Option V) (input : V) :
    Client.Ok quiet dataHash value applied { c with
      repo := Repo.onComplete ⟨c.repo.luid,none,false,input⟩
        (Repo.removeObserver { c.repo with luid := c.repo.luid + 1 })
      started := c.started ++ [update] } := by
  have hun := h.unobserve (by rw [h.queued.queue]; exact hw)
  have hluid : c.repo.removeObserver.luid = c.repo.luid :=
    (Repo.loses_removeObserver (r := c.repo) (by omega)).luid
  have haccounts : Client.Accounts applied { c with
      repo := Repo.onComplete ⟨c.repo.luid,none,false,input⟩
        { c.repo.removeObserver with luid := c.repo.luid + 1 }
      started := c.started ++ [update] } (sent ++ rest ++ []) :=
    hun.accounts.start [⟨c.repo.luid,none,false,input⟩] [] rfl (by simp [orders,hluid]) (by simp)
      (by simp) (by simp [Repo.onComplete,hluid]) rfl rfl
  rw [List.append_nil] at haccounts
  rw [Repo.removeObserver_luid]
  exact ⟨sent,rest,⟨hun.queued.congr rfl rfl rfl rfl,haccounts,
    hun.connected.congr rfl rfl rfl rfl rfl rfl rfl,hun.flight.congr rfl rfl rfl rfl rfl rfl,
    hun.rest,hun.good,hun.held⟩,hruns.congr hwait,hwait⟩

theorem Client.Ok.start (h : c.Ok quiet dataHash value applied) (update : V → Option V) :
    Client.Ok quiet dataHash value applied { c with
      repo := c.repo.startTransaction dataHash update
      started := c.started ++ [update] } := by
  obtain ⟨sent,rest,hholds,hruns,hwait⟩ := h
  have hobserved := hholds.observe
  have hgt : (sent ++ rest).length < c.repo.addEventRegistration.watchers := by
    have := hholds.queued.watched
    rw [c.repo.addEventRegistration_eq.1]
    omega
  have hruns' : Client.Runs quiet { c with repo := c.repo.addEventRegistration } sent rest :=
    hruns.congr hwait
  rw [Repo.startTransaction]
  simp only []
  generalize c.repo.addEventRegistration = r at hobserved hgt hruns' ⊢
  have hlatest : Repo.latestState [] { r with luid := r.luid + 1 } =
      lastOutput (lastOutput (r.serverCache.getD default) sent) rest := by
    rw [← lastOutput_append]
    have hwrites : r.allWrites = ([] : List (Transaction V)).map Transaction.write ++
        (sent ++ rest).map Transaction.write := hobserved.queued.writes
    exact latestState_writes (r := { r with luid := r.luid + 1 }) hwrites (by simp) (by simp)
  rw [hlatest]
  split
  · exact hobserved.decline hruns' hwait hgt update _
  · rename_i newVal hupdate
    exact hobserved.enqueue hruns' hgt hupdate

end Calls

end Answr
