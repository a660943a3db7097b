import Answr.Transacting
set_option autoImplicit false

/-! What reaches a client that runs transactions: data, the response to its put, which it
may hold back, and the loss of its connection. -/

namespace Answr

variable {V H : Type} {quiet : Prop} {dataHash : V → H} {value : V}
  {applied sent rest : List (Transaction V)} {c : Client V H} {incoming : List (Incoming V)}

def Transaction.failed (status : String) (t : Transaction V) : Transaction V :=
  if status = kFWPResponseForActionStatusDataStale then
    { t with status := if t.status = .sentNeedsAbort then .needsAbort else .run }
  else { t with status := .needsAbort, abortStatus := some status }

@[simp] theorem Transaction.failed_order (status : String) (t : Transaction V) :
    (t.failed status).order = t.order := by
  unfold failed
  split <;> rfl

@[simp] theorem Transaction.failed_update (status : String) (t : Transaction V) :
    (t.failed status).update = t.update := by
  unfold failed
  split <;> rfl

@[simp] theorem Transaction.failed_currentWriteId (status : String) (t : Transaction V) :
    (t.failed status).currentWriteId = t.currentWriteId := by
  unfold failed
  split <;> rfl

@[simp] theorem Transaction.failed_currentOutput (status : String) (t : Transaction V) :
    (t.failed status).currentOutput = t.currentOutput := by
  unfold failed
  split <;> rfl

theorem Transaction.failed_disconnect (t : Transaction V) : t.failed kFTransactionDisconnect =
    { t with status := .needsAbort, abortStatus := some kFTransactionDisconnect } :=
  if_neg (by decide)

theorem Transaction.failed_rerunnable {status : String} {t : Transaction V}
    (ht : t.status = .sent) (hstatus : status ≠ kFErrorWriteCanceled) :
    (t.failed status).Rerunnable := by
  unfold failed
  split
  · exact .inl (by simp [ht])
  · exact .inr ⟨rfl,by simpa using hstatus⟩

theorem Repo.Queued.rerunnable {r : Repo V H} {status : String} (h : r.Queued sent rest)
    (hrest : ∀ t ∈ rest, t.status = .run) (hstatus : status ≠ kFErrorWriteCanceled) :
    ∀ t ∈ sent.map (.failed status) ++ rest, t.Rerunnable := by
  intro t ht
  rcases List.mem_append.mp ht with ht | ht
  · obtain ⟨u,hu,rfl⟩ := List.mem_map.mp ht
    exact Transaction.failed_rerunnable (h.statuses u hu) hstatus
  · exact .inl (hrest t ht)

theorem Repo.Queued.failed {r : Repo V H} (h : r.Queued sent rest) (status : String) :
    Repo.Queued { r with queue := sent.map (.failed status) ++ rest } []
      (sent.map (.failed status) ++ rest) where
  queue := rfl
  statuses := by simp
  writes := by
    rw [List.nil_append,h.writes]
    simp [Transaction.write,Function.comp_def]
  ids := by
    have hids := h.ids
    simpa [Function.comp_def] using hids
  fresh := by
    rw [List.nil_append]
    intro t ht
    rcases List.mem_append.mp ht with ht | ht
    · obtain ⟨u,hmem,rfl⟩ := List.mem_map.mp ht
      rw [Transaction.failed_currentWriteId]
      exact h.fresh u (List.mem_append_left rest hmem)
    · exact h.fresh t (List.mem_append_right sent ht)
  watched := by simpa using h.watched

theorem Client.Holds.settle (hq : c.repo.Queued sent rest)
    (haccounts : c.Accounts applied (sent ++ rest)) (hconnected : c.Connected value)
    (houts : c.repo.outstandingPuts = []) (hheld : c.repo.putsToAck = []) (hputs : c.puts = [])
    (hresponses : c.responses = [])
    (hgood : quiet → ∀ p ∈ c.late, p.Good dataHash) (hrest : ∀ t ∈ rest, t.order ∉ orders applied)
    {status : String}
    (hsent : ∀ t ∈ sent, t.order ∈ orders applied → status = kFTransactionDisconnect) :
    Client.Holds quiet dataHash value applied
      { c with repo := { c.repo with queue := sent.map (.failed status) ++ rest } } []
      (sent.map (.failed status) ++ rest) := by
  refine ⟨hq.failed status,?_,hconnected.congr rfl rfl rfl rfl rfl rfl rfl,
    .idle rfl houts hheld hputs hresponses,?_,?_,by simp [hheld]⟩
  · exact (haccounts.map (Transaction.failed_order status)
      (Transaction.failed_update status)).congr rfl rfl rfl rfl
  · intro t ht hmem
    rcases List.mem_append.mp ht with ht | ht
    · obtain ⟨u,hu,rfl⟩ := List.mem_map.mp ht
      rw [Transaction.failed_order] at hmem
      rw [hsent u hu hmem,Transaction.failed_disconnect]
      exact ⟨rfl,rfl⟩
    · exact absurd hmem (hrest t ht)
  · intro hq' p hp
    rcases hp with hp | hp
    · simp only [houts] at hp
      cases hp
    · exact hgood hq' p hp

/-- What a client knows when the response to its put comes. -/
theorem Client.Flight.response (h : c.Flight applied sent) {index : Nat} {status : String}
    (hin : c.incoming = .response index status :: incoming) :
    ∃ p, c.repo.outstandingPuts = [p] ∧ c.repo.putsToAck = [] ∧ p.queue = sent ∧ sent ≠ [] ∧
      p.index = index ∧ c.puts = [] ∧ incoming.filterMap Incoming.response? = [] ∧
      Responded applied status sent := by
  have hresponses : c.responses = (index,status) :: incoming.filterMap Incoming.response? := by
    rw [responses,hin]
    rfl
  cases h with
  | idle _ _ _ _ hnone => simp [hnone] at hresponses
  | held _ _ _ _ _ _ _ hnone => simp [hnone] at hresponses
  | outstanding p houts hheld hp hne _ hsent =>
    subst hp
    cases hsent with
    | unsent _ _ _ hnone => simp [hnone] at hresponses
    | waiting _ _ _ hnone => simp [hnone] at hresponses
    | accepted _ _ hputs hone happlied =>
      simp only [hone,List.cons.injEq,Prod.mk.injEq] at hresponses
      obtain ⟨⟨rfl,rfl⟩,hnil⟩ := hresponses
      exact ⟨p,houts,hheld,rfl,hne,rfl,hputs,hnil.symm,.inl ⟨rfl,happlied⟩⟩
    | refused status' _ _ hputs hone hnotOk hstatus hnew =>
      simp only [hone,List.cons.injEq,Prod.mk.injEq] at hresponses
      obtain ⟨⟨rfl,rfl⟩,hnil⟩ := hresponses
      exact ⟨p,houts,hheld,rfl,hne,rfl,hputs,hnil.symm,.inr ⟨hnotOk,hstatus,hnew⟩⟩

theorem Client.Sent.lost {p : Put V H} (h : c.Sent applied p)
    (hcan : c.repo.canSendWrites = true) :
    p.sent = true ∧ (c.puts = [] ∨ c.puts = [p] ∧ ∀ t ∈ p.queue, t.order ∉ orders applied) := by
  cases h with
  | unsent _ hoffline => simp [hcan] at hoffline
  | waiting hsent _ hputs _ hnew => exact ⟨hsent,.inr ⟨hputs,hnew⟩⟩
  | accepted hsent _ hputs => exact ⟨hsent,.inl hputs⟩
  | refused _ hsent _ hputs => exact ⟨hsent,.inl hputs⟩

theorem Client.Holds.abandon (h : c.Holds quiet dataHash value applied sent rest)
    {ps : List (Put V H)}
    (hknown : ∀ t ∈ ps.flatMap (·.queue), c.started[t.order]? = some t.update)
    (honce : (orders (applied ++ (c.abandoned ++ ps.flatMap (·.queue)))).Nodup)
    (hlost : ∀ t ∈ ps.flatMap (·.queue), ∃ report ∈ c.repo.reports, report.order = t.order ∧
      report.error = some kFTransactionDisconnect)
    (hgood : quiet → ∀ p ∈ ps, p.Good dataHash) :
    Client.Holds quiet dataHash value applied { c with late := c.late ++ ps } sent rest := by
  refine ⟨h.queued,h.accounts.abandon hknown honce hlost,
    h.connected.congr rfl rfl rfl rfl rfl rfl rfl,
    h.flight.congr rfl rfl rfl rfl rfl rfl,h.rest,fun hq p hp => ?_,h.held⟩
  rcases hp with hp | hp
  · exact h.good hq p (.inl hp)
  · rcases List.mem_append.mp hp with hp | hp
    · exact h.good hq p (.inr hp)
    · exact hgood hq p hp

variable [Inhabited V]

theorem Client.Holds.rest_new (h : c.Holds quiet dataHash value applied sent rest)
    (hruns : c.Runs quiet sent rest) : ∀ t ∈ rest, t.order ∉ orders applied := by
  intro t ht hmem
  have hstatus := (h.rest t ht hmem).1
  rw [hruns.statuses t ht] at hstatus
  cases hstatus

theorem Client.Ok.data (h : c.Ok quiet dataHash value applied) {data : V}
    (hin : c.incoming = .data data :: incoming) {events : Bool}
    (hquiet : quiet → c.repo.Quiet events (.data data)) :
    Client.Ok quiet dataHash value applied { c with
      repo := c.repo.onDataUpdate dataHash data events
      incoming := incoming } := by
  obtain ⟨sent,rest,hholds,hruns,hwait⟩ := h
  have hq := hholds.queued
  have hconnected := hholds.connected.receives hin fun hw => (hholds.unwatched hw).2.2.2
  have hresponses : incoming.filterMap Incoming.response? = c.responses := by
    rw [responses,hin]
    rfl
  -- what comes while a response is held back is known
  have hkept : quiet → ∀ put ∈ c.repo.putsToAck, put.1.Good dataHash ∧
      (put.2 = kFWPResponseForActionStatusOk →
        (if c.repo.watchers = 0 then c.repo.serverCache else some data) = some put.1.data) := by
    intro hq' put hput
    obtain ⟨hgood,hcache⟩ := hholds.held hq' put hput
    refine ⟨hgood,fun hok => ?_⟩
    split
    · exact hcache hok
    · rcases (hquiet hq').2 with hnone | hsame
      · rw [List.isEmpty_iff.mp hnone] at hput
        cases hput
      · exact hsame.symm.trans (hcache hok)
  have hreceived : Client.Holds quiet dataHash value applied { c with
      repo := { c.repo with
        serverCache := if c.repo.watchers = 0 then c.repo.serverCache else some data }
      incoming := incoming } sent rest :=
    ⟨hq.congr rfl rfl rfl rfl,
      hholds.accounts.congr rfl rfl rfl rfl,hconnected,
      hholds.flight.congr rfl rfl rfl rfl rfl hresponses,hholds.rest,hholds.good,
      hkept⟩
  rw [Repo.onDataUpdate]
  by_cases hw : c.repo.watchers = 0
  · simp only [if_pos hw] at hreceived ⊢
    exact ⟨sent,rest,hreceived,hruns.congr hwait,hwait⟩
  · simp only [if_neg hw] at hreceived ⊢
    cases events with
    | false => exact ⟨sent,rest,hreceived,hruns.congr hwait,hwait⟩
    | true =>
      refine hreceived.rerun (fun t ht => .inl (hruns.statuses t ht)) fun hq' => .inr ?_
      rw [List.eq_nil_iff_forall_not_mem]
      intro t ht
      have hsent := (hquiet hq').1 rfl t (hq.queue ▸ List.mem_append_right sent ht)
      rw [hruns.statuses t ht] at hsent
      cases hsent

theorem Repo.sendAllReady_idle {r : Repo V H} (h : r.Queued [] rest)
    (hrest : ∀ t ∈ rest, t.status = .run) :
    (r.sendAllReadyTransactions dataHash).rerunTransactions dataHash =
      r.sendAllReadyTransactions dataHash := by
  rcases sendAllReady_queued dataHash h hrest with ⟨hnil,heq⟩ | ⟨-,-,heq⟩
  · rw [heq]
    obtain rfl := hnil rfl
    exact rerunTransactions_idle h
  · rw [heq]
    exact rerunTransactions_idle (queued_sendTransactionQueue h)

theorem Repo.putResponse_ok {r : Repo V H} {p : Put V H} (dataHash : V → H)
    (h : r.Queued sent rest) (hp : p.queue = sent) (horders : (orders (sent ++ rest)).Nodup)
    (hrest : ∀ t ∈ rest, t.status = .run) :
    ∃ r', r.Loses r' ∧ r'.reports = r.reports ++ sent.map Transaction.committedReport ∧
      r'.Queued [] rest ∧ r.putResponse dataHash p kFWPResponseForActionStatusOk =
        r'.sendAllReadyTransactions dataHash := by
  let done : Transaction V → Transaction V := fun t => { t with status := .completed }
  have hmodify := modify_queue (f := done) h.queue hp horders
  have hbatch : r.queue.filter (fun t => t.order ∈ p.queue.map (·.order)) = sent := by
    rw [h.queue,hp,List.filter_append,List.filter_eq_self.mpr,List.filter_eq_nil_iff.mpr,
      List.append_nil]
    · intro t ht hmem
      rw [orders_append,List.nodup_append] at horders
      exact horders.2.2 _ (of_decide_eq_true hmem) _ (mem_orders ht) rfl
    · exact fun t ht => decide_eq_true (mem_orders ht)
  obtain ⟨hw,hwatched,hloses,hcounter,hqueue,hreports⟩ := foldl_complete
    (r := { r with queue := sent.map done ++ rest }) h.writes h.ids h.watched
  generalize hr' : sent.foldl Repo.complete { r with queue := sent.map done ++ rest } = r'
    at hw hwatched hloses hcounter hqueue hreports
  have hprune : r'.pruneCompletedTransactions = { r' with queue := rest } := by
    have hkeep : r'.queue.filter (fun t => t.status ≠ .completed) = rest := by
      rw [hqueue,List.filter_append,List.filter_eq_nil_iff.mpr,List.filter_eq_self.mpr,
        List.nil_append]
      · intro t ht
        simp [hrest t ht]
      · intro t ht
        obtain ⟨u,-,rfl⟩ := List.mem_map.mp ht
        simp [done]
    rw [pruneCompletedTransactions,hkeep]
  have hqueued : Repo.Queued { r' with queue := rest } [] rest := by
    refine ⟨rfl,by simp,hw,?_,?_,hwatched⟩
    · have := h.ids
      rw [List.map_append] at this
      exact this.of_append_right
    · intro t ht
      have := h.fresh t (List.mem_append_right sent ht)
      simpa [hcounter] using this
  have hrequeued : r.Loses { r with queue := sent.map done ++ rest } :=
    ⟨rfl,rfl,rfl,rfl,rfl,Nat.le_refl _,.inl ⟨rfl,rfl,.inr rfl⟩⟩
  obtain ⟨h1,h2,h3,h4,h5,h6,h7⟩ := hrequeued.trans hloses
  refine ⟨{ r' with queue := rest },⟨h1,h2,h3,h4,h5,h6,h7⟩,hreports,hqueued,?_⟩
  rw [putResponse,if_pos rfl]
  simp only [hbatch]
  rw [hmodify,hr',hprune,sendAllReady_idle hqueued hrest]

theorem Repo.putResponse_failed {r : Repo V H} {p : Put V H} {status : String}
    (dataHash : V → H) (hqueue : r.queue = sent ++ rest) (hp : p.queue = sent)
    (horders : (orders (sent ++ rest)).Nodup) (hstatus : status ≠ kFWPResponseForActionStatusOk) :
    r.putResponse dataHash p status =
      Repo.rerunTransactions dataHash { r with queue := sent.map (.failed status) ++ rest } := by
  have hmodify := modify_queue (f := .failed status) hqueue hp horders
  rw [← hmodify,putResponse,if_neg hstatus]
  unfold Transaction.failed
  split <;> rfl

theorem Repo.ackPuts_held {r : Repo V H} {p : Put V H} {status : String}
    (h : r.putsToAck = [(p,status)]) :
    r.ackPuts dataHash = (r.holding []).putResponse dataHash p status := by
  rw [ackPuts,h]
  exact (putResponse_holding [] r dataHash p status).symm

theorem Client.Holds.respond (h : c.Holds quiet dataHash value applied sent rest)
    (hruns : c.Runs quiet sent rest) {p : Put V H} {status : String}
    (houts : c.repo.outstandingPuts = []) (hheld : c.repo.putsToAck = [(p,status)])
    (hp : p.queue = sent) (hne : sent ≠ []) (hputs : c.puts = []) (hresponses : c.responses = [])
    (hresponded : Responded applied status sent) :
    Client.Ok quiet dataHash value applied { c with repo := c.repo.ackPuts dataHash } := by
  have hq : Repo.Queued (c.repo.holding []) sent rest := h.queued.congr rfl rfl rfl rfl
  have horders := h.accounts.nodup_queue
  have hconnected : Client.Connected value { c with repo := c.repo.holding [] } :=
    h.connected.congr rfl rfl rfl rfl rfl rfl rfl
  have haccounts : Client.Accounts applied { c with repo := c.repo.holding [] } (sent ++ rest) :=
    h.accounts.congr rfl rfl rfl rfl
  have hgood : quiet → ∀ q ∈ c.late, q.Good dataHash :=
    fun hq' q hmem => h.good hq' q (.inr hmem)
  rw [Repo.ackPuts_held hheld]
  rcases hresponded with ⟨rfl,happlied⟩ | ⟨hnotOk,hstatus,hnew⟩
  · obtain ⟨r',hloses,hreports,hqueued,heq⟩ := Repo.putResponse_ok dataHash hq hp horders
      hruns.statuses
    have hsame : Client.puts { c with repo := r' } =
        Client.puts { c with repo := c.repo.holding [] } :=
      Repo.Loses.puts hloses
    have hputs' : Client.puts { c with repo := r' } = [] := hsame.trans hputs
    have hout' : r'.outstandingPuts = [] := hloses.outstandingPuts.trans houts
    have hheld' : r'.putsToAck = [] := hloses.putsToAck
    have hsettled : Client.Holds quiet dataHash value applied { c with repo := r' } [] rest := by
      refine ⟨hqueued,haccounts.complete happlied hreports hloses.luid rfl rfl,
        hconnected.loses hloses (fun _ => ⟨hputs,hresponses⟩) rfl rfl,
        .idle rfl hout' hheld' hputs' hresponses,h.rest,fun hq' q hmem => ?_,by simp [hheld']⟩
      rcases hmem with hmem | hmem
      · simp [hout'] at hmem
      · exact hgood hq' q hmem
    rw [heq]
    refine hsettled.send ⟨hruns.statuses,fun hq' => ?_⟩
    -- the server's value is what was sent, and what waits has run on that
    obtain ⟨⟨base,-,-,hdata⟩,hcache⟩ := h.held hq' (p,kFWPResponseForActionStatusOk)
      (by simp [hheld])
    have hchained := hruns.chained hq'
    rw [lastOutput_of_ne hne _ base,← hp,← hdata] at hchained
    rcases hloses.view with ⟨hsame,-⟩ | ⟨-,hzero,-⟩
    · have hr' : r'.serverCache = some p.data := hsame.trans (hcache rfl)
      simp only [hr']
      exact hchained
    · have hlen := hqueued.watched
      rw [hzero,List.nil_append] at hlen
      obtain rfl : rest = [] := List.eq_nil_of_length_eq_zero (by omega)
      exact trivial
  · have hsettled : Client.Holds quiet dataHash value applied { c with
        repo := { c.repo.holding [] with queue := sent.map (.failed status) ++ rest } }
        [] (sent.map (.failed status) ++ rest) :=
      Client.Holds.settle hq haccounts hconnected houts rfl hputs hresponses hgood
        (h.rest_new hruns) (fun t ht hmem => absurd hmem (hnew t ht))
    rw [Repo.putResponse_failed dataHash hq.queue hp horders hnotOk]
    exact hsettled.rerun (hq.rerunnable hruns.statuses hstatus) fun _ => .inl rfl

/-- The last listen is answered, and what is held back is gone on with. -/
theorem Client.Ok.ackPuts (h : c.Ok quiet dataHash value applied) :
    Client.Ok quiet dataHash value applied { c with repo := c.repo.ackPuts dataHash } := by
  have hnothing : c.repo.putsToAck = [] → c.repo.ackPuts dataHash = c.repo := by
    intro hnone
    rw [Repo.ackPuts,hnone]
    exact congrArg (fun held => { c.repo with putsToAck := held }) hnone.symm
  obtain ⟨sent,rest,hholds,hruns,hwait⟩ := h
  cases hholds.flight with
  | idle _ _ hnone =>
    rw [hnothing hnone]
    exact ⟨sent,rest,hholds,hruns,hwait⟩
  | outstanding _ _ hnone =>
    rw [hnothing hnone]
    exact ⟨sent,rest,hholds,hruns,hwait⟩
  | held p status houts hheld hp hne hputs hresponses hresponded =>
    exact hholds.respond hruns houts hheld hp hne hputs hresponses hresponded

theorem Client.Ok.listened (h : c.Ok quiet dataHash value applied)
    (hin : c.incoming = .listened :: incoming) :
    Client.Ok quiet dataHash value applied { c with
      repo := c.repo.onListenResponse dataHash
      incoming := incoming } := by
  have hreceived : Client.Ok quiet dataHash value applied { c with
      repo := { c.repo with unackedListensCount := c.repo.unackedListensCount - 1 }
      incoming := incoming } :=
    h.congr rfl rfl rfl rfl (by rw [responses,responses,hin]; rfl)
      ((h.connected.receivesListened hin).congr rfl rfl rfl rfl rfl rfl rfl)
  rw [Repo.onListenResponse]
  dsimp only
  split
  · exact hreceived.ackPuts
  · exact hreceived

/-- The response to a put comes. The client goes on with it, or holds it back. -/
theorem Client.Ok.response (h : c.Ok quiet dataHash value applied) {index : Nat}
    {status : String} (hin : c.incoming = .response index status :: incoming) :
    Client.Ok quiet dataHash value applied { c with
      repo := c.repo.onPutResponse dataHash index status
      incoming := incoming } := by
  obtain ⟨sent,rest,hholds,hruns,hwait⟩ := h
  obtain ⟨p,houts,hheld,hp,hne,rfl,hputs,hnil,hresponded⟩ := hholds.flight.response hin
  have hq := hholds.queued
  have hconnected := hholds.connected.receivesResponse hin hnil []
  let r : Repo V H := { c.repo with outstandingPuts := [], putsToAck := [(p,status)] }
  have hback : Client.Holds quiet dataHash value applied
      { c with repo := r, incoming := incoming } sent rest := by
    refine ⟨hq.congr rfl rfl rfl rfl,
      hholds.accounts.congr rfl rfl rfl rfl,hconnected.congr rfl rfl rfl rfl rfl rfl rfl,
      .held p status rfl rfl hp hne hputs hnil hresponded,hholds.rest,
      fun hq' q hmem => hholds.good hq' q (.inr (hmem.resolve_left (by simp [r]))),
      fun hq' put hput => ?_⟩
    obtain rfl := List.mem_singleton.mp hput
    refine ⟨hholds.good hq' p (.inl (by simp [houts])),fun hok => ?_⟩
    obtain rfl : status = _ := hok
    obtain ⟨q,hmem,hcache⟩ := hholds.connected.answered [] p.index incoming hin
    rw [houts,List.mem_singleton] at hmem
    exact hmem ▸ hcache
  have hrepo : c.repo.onPutResponse dataHash p.index status =
      if c.repo.unackedListensCount = 0 then r.ackPuts dataHash else r := by
    have hremoved : (r.holding []).putResponse dataHash p status =
        Repo.putResponse dataHash p status { c.repo with outstandingPuts := [] } :=
      congrArg (fun held => Repo.putResponse dataHash p status
        { c.repo with outstandingPuts := [], putsToAck := held }) hheld.symm
    rw [Repo.ackPuts_held rfl,hremoved]
    simp [Repo.onPutResponse,Repo.removePut,houts,hheld,r]
  have hok : Client.Ok quiet dataHash value applied { c with repo := r, incoming := incoming } :=
    ⟨sent,rest,hback,hruns.congr hwait,hwait⟩
  rw [hrepo]
  split
  · exact hok.ackPuts
  · exact hok

theorem Repo.removePut_sendAllReady {r : Repo V H} {p : Put V H} (h : r.Queued [] rest)
    (hrest : ∀ t ∈ rest, t.status = .run) (houts : r.outstandingPuts = [p])
    (hindex : p.index < r.putCounter) :
    (r.sendAllReadyTransactions dataHash).removePut p.index =
      Repo.sendAllReadyTransactions dataHash { r with outstandingPuts := [] } := by
  have h' : Repo.Queued { r with outstandingPuts := [] } [] rest :=
    h.congr rfl rfl rfl rfl
  rcases sendAllReady_queued dataHash h hrest with ⟨hnil,heq⟩ | ⟨-,hne,heq⟩
  · rcases sendAllReady_queued dataHash h' hrest with ⟨-,heq'⟩ | ⟨-,hne,-⟩
    · rw [heq,heq',removePut,houts]
      simp
    · exact absurd (hnil rfl) hne
  · rcases sendAllReady_queued dataHash h' hrest with ⟨hnil,-⟩ | ⟨-,-,heq'⟩
    · exact absurd (hnil rfl) hne
    · have hother : (r.readyPut dataHash rest).index ≠ p.index := Nat.ne_of_gt hindex
      have hfilter : (r.outstandingPuts ++ [r.readyPut dataHash rest]).filter
          (fun q => q.index ≠ p.index) = [r.readyPut dataHash rest] := by
        rw [houts,List.singleton_append,List.filter_cons_of_neg (by simp),
          List.filter_cons_of_pos (by simpa using hother),List.filter_nil]
      have hsame : Repo.readyPut dataHash rest { r with outstandingPuts := [] } =
          r.readyPut dataHash rest := rfl
      have hout : (sendAction (.put (r.readyPut dataHash rest))
          { r with outstandingPuts := [] }).outgoing =
          (r.sendAction (.put (r.readyPut dataHash rest))).outgoing :=
        sendAction_outgoing rfl rfl
      rw [heq,heq',sendTransactionQueue_eq h,sendTransactionQueue_eq h',removePut,hsame]
      simp only [hfilter,List.nil_append]
      rw [sendAction_eq _ r,sendAction_eq _ { r with outstandingPuts := [] },hout]

/-- The put that was sent fails, and what is left of the queue runs again. -/
theorem Repo.onDisconnect_outstanding {r : Repo V H} {p : Put V H} (dataHash : V → H)
    (h : r.Queued sent rest) (hrest : ∀ t ∈ rest, t.status = .run) (hp : p.queue = sent)
    (horders : (orders (sent ++ rest)).Nodup) (houts : r.outstandingPuts = [p])
    (hsent : p.sent = true) (hindex : p.index < r.putCounter) :
    ∃ live r', Repo.Reran { r with
        queue := sent.map (.failed kFTransactionDisconnect) ++ rest
        canSendWrites := false, outgoing := [], outstandingPuts := [] } r' []
        (sent.map (.failed kFTransactionDisconnect) ++ rest) [] live ∧
      Repo.Queued { r' with queue := live } [] live ∧
      r.onDisconnect dataHash = { Repo.sendAllReadyTransactions dataHash
        { r' with queue := live } with unackedListensCount := 0 } := by
  obtain ⟨live,r',hran,hqueued,heq⟩ := Repo.rerunTransactions_queued dataHash
    (r := { r with canSendWrites := false, outgoing := [],
                   queue := sent.map (.failed kFTransactionDisconnect) ++ rest })
    ((h.failed kFTransactionDisconnect).congr rfl rfl rfl rfl) (h.rerunnable hrest (by decide))
  have hout' := hran.loses.outstandingPuts.trans houts
  have hcounter := hran.loses.putCounter
  have hresponse := Repo.putResponse_failed dataHash
    (r := { r with canSendWrites := false, outgoing := [] }) h.queue hp horders
    (show kFTransactionDisconnect ≠ kFWPResponseForActionStatusOk by decide)
  have hone : r.outstandingPuts.filter (·.sent) = [p] := by simp [houts,hsent]
  refine ⟨live,{ r' with outstandingPuts := [] },?_,?_,?_⟩
  · obtain ⟨⟨ex,e1,e2,e3,e4,e5,e6,e7⟩,⟨l1,l2,l3,l4,l5,l6,l7⟩,hrun,hchain,hsame,hreports⟩ := hran
    exact ⟨⟨ex,e1,e2,e3,e4,e5,e6,e7⟩,⟨rfl,l2,l3,l4,l5,l6,l7⟩,hrun,hchain,hsame,hreports⟩
  · exact hqueued.congr rfl rfl rfl rfl
  · rw [Repo.onDisconnect,Repo.cancelSentTransactions]
    simp only [hone,List.foldl_cons,List.foldl_nil]
    rw [hresponse,heq]
    exact congrArg (fun r => { r with unackedListensCount := 0 }) <|
      Repo.removePut_sendAllReady hqueued hran.run hout' (by simpa [hcounter] using hindex)

theorem Client.Holds.disconnect_nothing (h : c.Holds quiet dataHash value applied sent rest)
    (hruns : c.Runs quiet sent rest) (hwait : sent = [] → rest = [])
    (houts : c.repo.outstandingPuts = []) (hputs : c.puts = [])
    (hflight : Client.Flight applied { c with
      repo := { c.repo with canSendWrites := false, outgoing := [] }, incoming := [] } sent) :
    Client.Ok quiet dataHash value applied { c with
      repo := c.repo.onDisconnect dataHash
      incoming := [], listening := false, elsewhere := 0, late := c.late ++ c.puts } := by
  have hq := h.queued
  have hrepo : c.repo.onDisconnect dataHash = { c.repo with
      canSendWrites := false, outgoing := [], unackedListensCount := 0 } := by
    simp [Repo.onDisconnect,Repo.cancelSentTransactions,houts]
  rw [hrepo,hputs,List.append_nil]
  exact ⟨sent,rest,⟨hq.congr rfl rfl rfl rfl,
    h.accounts.congr rfl rfl rfl rfl,connected_offline rfl rfl rfl rfl,
    hflight.congr rfl rfl rfl rfl rfl rfl,h.rest,h.good,h.held⟩,hruns.congr hwait,hwait⟩

theorem Client.Holds.disconnect_outstanding (h : c.Holds quiet dataHash value applied sent rest)
    (hruns : c.Runs quiet sent rest) (hcan : c.repo.canSendWrites = true) {p : Put V H}
    (houts : c.repo.outstandingPuts = [p]) (hheld : c.repo.putsToAck = []) (hp : p.queue = sent)
    (hindex : p.index < c.repo.putCounter) (hsent : c.Sent applied p) :
    Client.Ok quiet dataHash value applied { c with
      repo := c.repo.onDisconnect dataHash
      incoming := [], listening := false, elsewhere := 0, late := c.late ++ c.puts } := by
  have hq := h.queued
  obtain ⟨hpsent,hlost⟩ := hsent.lost hcan
  let c₀ : Client V H := { c with
    repo := { c.repo with canSendWrites := false, outgoing := [], outstandingPuts := [] }
    incoming := []
    listening := false
    elsewhere := 0 }
  have hsettled : Client.Holds quiet dataHash value applied { c₀ with
      repo := { c₀.repo with queue := sent.map (.failed kFTransactionDisconnect) ++ rest } }
      [] (sent.map (.failed kFTransactionDisconnect) ++ rest) :=
    Client.Holds.settle (c := c₀) (hq.congr rfl rfl rfl rfl)
      (h.accounts.congr rfl rfl rfl rfl) (connected_offline rfl rfl rfl rfl) rfl hheld rfl rfl
      (fun hq' q hmem => h.good hq' q (.inr hmem)) (h.rest_new hruns) (fun _ _ _ => rfl)
  obtain ⟨live,r',hran,hqueued,hrepo⟩ := Repo.onDisconnect_outstanding dataHash hq hruns.statuses
    hp h.accounts.nodup_queue houts hpsent hindex
  obtain ⟨hholds,hruns'⟩ := hsettled.reran hran hqueued fun _ => .inl rfl
  have hreported : ∀ t ∈ sent, ∃ report ∈ r'.reports, report.order = t.order ∧
      report.error = some kFTransactionDisconnect := by
    intro t ht
    have hnodup := hsettled.accounts.nodup_queue
    rw [List.nil_append] at hnodup
    obtain ⟨report,hmem,horder,herror⟩ := hran.reported hnodup
      (List.mem_append_left rest (List.mem_map_of_mem ht)) (by rw [Transaction.failed_disconnect])
    rw [Transaction.failed_disconnect] at horder herror
    exact ⟨report,hmem,horder,herror⟩
  -- the put that was on its way may still be carried out
  have hlate : Client.Holds quiet dataHash value applied { c₀ with
      repo := { r' with queue := live }, late := c.late ++ c.puts } [] live := by
    rcases hlost with hputs | ⟨hputs,hnew⟩
    · rw [hputs,List.append_nil]
      exact hholds
    · rw [hputs]
      refine hholds.abandon ?_ ?_ ?_ fun hq' q hmem => ?_
      · rw [List.flatMap_singleton,hp]
        exact fun t ht => h.accounts.known t (.inl (List.mem_append_left rest ht))
      · have hperm : (applied ++ sent ++ c.abandoned).Perm (applied ++ (c.abandoned ++ sent)) := by
          rw [List.append_assoc]
          exact List.Perm.append_left _ List.perm_append_comm
        rw [List.flatMap_singleton,hp]
        exact (orders_perm hperm).nodup_iff.mp (h.accounts.apply (hp ▸ hnew)).once
      · rw [List.flatMap_singleton,hp]
        exact hreported
      · obtain rfl := List.mem_singleton.mp hmem
        exact h.good hq' q (.inl (by simp [houts]))
  rw [hrepo]
  exact (hlate.send ⟨hruns'.statuses,hruns'.chained⟩).recount 0 0

theorem Client.Ok.disconnect (h : c.Ok quiet dataHash value applied)
    (hcan : c.repo.canSendWrites = true) :
    Client.Ok quiet dataHash value applied { c with
      repo := c.repo.onDisconnect dataHash
      incoming := [], listening := false, elsewhere := 0, late := c.late ++ c.puts } := by
  obtain ⟨sent,rest,hholds,hruns,hwait⟩ := h
  cases hholds.flight with
  | idle hsent houts hheld hputs =>
    exact hholds.disconnect_nothing hruns hwait houts hputs (.idle hsent houts hheld rfl rfl)
  | held p status houts hheld hp hne hputs _ hresponded =>
    exact hholds.disconnect_nothing hruns hwait houts hputs
      (.held p status houts hheld hp hne rfl rfl hresponded)
  | outstanding p houts hheld hp _ hindex hsent =>
    exact hholds.disconnect_outstanding hruns hcan houts hheld hp hindex hsent

theorem Client.Ok.reconnect (h : c.Ok quiet dataHash value applied)
    (hcan : c.repo.canSendWrites = false) (elsewhere : Nat) :
    Client.Ok quiet dataHash value applied
      { c with repo := c.repo.restoreState elsewhere, elsewhere := elsewhere } := by
  obtain ⟨sent,rest,hholds,hruns,hwait⟩ := h
  have hq := hholds.queued
  obtain ⟨hout,hin,hlistening⟩ := hholds.connected.offline hcan
  have hresponses : c.responses = [] := by rw [responses,hin]; rfl
  have hconnected : Client.Connected value
      { c with repo := c.repo.restoreState elsewhere, elsewhere := elsewhere } := by
    have hrestored : Client.Connected value { c with repo := c.repo.restoreState elsewhere } := by
      refine connected_restoreState (fun hne => ?_) hin hlistening elsewhere
      refine Nat.pos_of_ne_zero fun hw => hne ?_
      obtain ⟨rfl,-⟩ := hholds.unwatched hw
      exact hholds.flight.nothing.1
    exact hrestored.congr rfl rfl rfl rfl rfl rfl rfl
  have hputs : Client.puts
      { c with repo := c.repo.restoreState elsewhere, elsewhere := elsewhere } =
      c.repo.outstandingPuts.map fun p => { p with sent := true } := by
    simp only [puts,Repo.restoreState,List.filterMap_append,List.filterMap_map]
    have hhead : (if c.repo.watchers = 0 then [] else [(.listen : Outgoing V H)]).filterMap
        Outgoing.put? = [] := by split <;> rfl
    rw [hhead,List.nil_append]
    rw [← List.filterMap_eq_map]
    rfl
  refine ⟨sent,rest,⟨hq.congr rfl rfl rfl rfl,
    hholds.accounts.congr rfl rfl rfl rfl,hconnected,?_,hholds.rest,fun hq' p hp => ?_,
    hholds.held⟩,hruns.congr hwait,hwait⟩
  · cases hholds.flight with
    | idle hnil houts hheld =>
      exact .idle hnil (by simp [Repo.restoreState,houts]) hheld (by rw [hputs,houts]; rfl)
        hresponses
    | held p status houts hheld hp hne _ _ hresponded =>
      exact .held p status (by simp [Repo.restoreState,houts]) hheld hp hne
        (by rw [hputs,houts]; rfl) hresponses hresponded
    | outstanding p houts hheld hp hne hindex hsent =>
      refine .outstanding { p with sent := true } (by simp [Repo.restoreState,houts]) hheld hp hne
        hindex ?_
      cases hsent with
      | unsent _ _ _ _ hnew =>
        exact .waiting rfl rfl (by rw [hputs,houts]; rfl) hresponses hnew
      | waiting _ hon => simp [hcan] at hon
      | accepted _ hon => simp [hcan] at hon
      | refused _ _ hon => simp [hcan] at hon
  · rcases hp with hp | hp
    · obtain ⟨q,hmem,rfl⟩ := List.mem_map.mp hp
      exact hholds.good hq' q (.inl hmem)
    · exact hholds.good hq' p (.inr hp)

end Answr
