import Answr.Settling
set_option autoImplicit false

/-! What the server does with the messages of a client that runs transactions. -/

namespace Answr

variable {V H : Type} {quiet : Prop} {dataHash : V → H} {value value' : V}
  {applied added sent rest : List (Transaction V)} {c c' : Client V H}
  {outgoing : List (Outgoing V H)} {p : Put V H}

theorem Client.Flight.waiting (h : c.Flight applied sent)
    (hout : c.repo.outgoing = .put p :: outgoing) :
    c.repo.outstandingPuts = [p] ∧ c.repo.putsToAck = [] ∧ p.queue = sent ∧ sent ≠ [] ∧
      p.index < c.repo.putCounter ∧ p.sent = true ∧ c.repo.canSendWrites = true ∧
      outgoing.filterMap Outgoing.put? = [] ∧ c.responses = [] ∧
      ∀ t ∈ p.queue, t.order ∉ orders applied := by
  have hputs : c.puts = p :: outgoing.filterMap Outgoing.put? := by
    rw [puts,hout]
    rfl
  cases h with
  | idle _ _ _ hnone => simp [hputs] at hnone
  | held _ _ _ _ _ _ hnone => simp [hputs] at hnone
  | outstanding q houts hheld hq hne hindex hsent =>
    cases hsent with
    | unsent _ _ hnone => simp [hputs] at hnone
    | waiting hsent hcan hone hresponses hnew =>
      rw [hputs,List.cons.injEq] at hone
      obtain ⟨rfl,hnil⟩ := hone
      exact ⟨houts,hheld,hq,hne,hindex,hsent,hcan,hnil,hresponses,hnew⟩
    | accepted _ _ hnone => simp [hputs] at hnone
    | refused _ _ _ hnone => simp [hputs] at hnone

theorem Responded.applies {status : String} (h : Responded applied status sent)
    (hnew : ∀ t ∈ sent, t.order ∉ orders added) : Responded (applied ++ added) status sent := by
  refine h.imp (And.imp_right fun happlied t ht => List.mem_append_left added (happlied t ht))
    (And.imp_right (And.imp_right fun hold t ht hmem => ?_))
  rw [orders_append,List.mem_append] at hmem
  exact hmem.elim (hold t ht) (hnew t ht)

theorem Client.Sent.applies (h : c.Sent applied p)
    (hnew : ∀ t ∈ p.queue, t.order ∉ orders added) : c.Sent (applied ++ added) p := by
  have hboth : (∀ t ∈ p.queue, t.order ∉ orders applied) →
      ∀ t ∈ p.queue, t.order ∉ orders (applied ++ added) := by
    intro hold t ht hmem
    rw [orders_append,List.mem_append] at hmem
    exact hmem.elim (hold t ht) (hnew t ht)
  cases h with
  | unsent h1 h2 h3 h4 h5 => exact .unsent h1 h2 h3 h4 (hboth h5)
  | waiting h1 h2 h3 h4 h5 => exact .waiting h1 h2 h3 h4 (hboth h5)
  | accepted h1 h2 h3 h4 h5 =>
    exact .accepted h1 h2 h3 h4 fun t ht => List.mem_append_left added (h5 t ht)
  | refused status h1 h2 h3 h4 h5 h6 h7 => exact .refused status h1 h2 h3 h4 h5 h6 (hboth h7)

variable [Inhabited V]

theorem Client.Ok.tell (h : c.Ok quiet dataHash value applied) :
    (c.tell value').Ok quiet dataHash value' applied := by
  have hconnected : (c.tell value').Connected value' := h.connected.tells
  revert hconnected
  unfold Client.tell
  split
  · exact h.congr rfl rfl rfl rfl (by simp [responses,Incoming.response?])
  · exact h.congr rfl rfl rfl rfl rfl

theorem Client.Ok.listens (h : c.Ok quiet dataHash value applied)
    (hout : c.repo.outgoing = .listen :: outgoing) :
    Client.Ok quiet dataHash value applied { c with
      repo := { c.repo with outgoing := outgoing }
      listening := true
      incoming := c.incoming ++ [.data value] ++ [.listened] } := by
  have hcan : c.repo.canSendWrites = true := by
    cases hcan : c.repo.canSendWrites with
    | true => rfl
    | false => simp [(h.connected.offline hcan).1] at hout
  exact h.congr rfl rfl rfl (by rw [puts,puts,hout]; rfl)
    (by simp [responses,Incoming.response?]) ((h.connected.servesListen hout).answers hcan)

theorem Client.Ok.answers (h : c.Ok quiet dataHash value applied)
    (hcan : c.repo.canSendWrites = true) (elsewhere : Nat) :
    Client.Ok quiet dataHash value applied { c with
      incoming := c.incoming ++ [.listened]
      elsewhere := elsewhere } := by
  exact h.congr rfl rfl rfl rfl (by simp [responses,Incoming.response?])
    ((h.connected.answers hcan).congr rfl rfl rfl rfl rfl rfl rfl)

theorem Client.Ok.unlistens (h : c.Ok quiet dataHash value applied)
    (hout : c.repo.outgoing = .unlisten :: outgoing) :
    Client.Ok quiet dataHash value applied { c with
      repo := { c.repo with outgoing := outgoing }
      listening := false } :=
  h.congr rfl rfl rfl (by rw [puts,puts,hout]; rfl) rfl (h.connected.servesUnlisten hout)

theorem Client.Ok.good_outgoing (h : c.Ok quiet dataHash value applied)
    (hout : c.repo.outgoing = .put p :: outgoing) (hq : quiet) : p.Good dataHash := by
  obtain ⟨sent,rest,hholds,-⟩ := h
  obtain ⟨houts,-⟩ := hholds.flight.waiting hout
  exact hholds.good hq p (.inl (by simp [houts]))

theorem Client.Ok.good_late (h : c.Ok quiet dataHash value applied) (hp : p ∈ c.late)
    (hq : quiet) : p.Good dataHash := by
  obtain ⟨sent,rest,hholds,-⟩ := h
  exact hholds.good hq p (.inr hp)

theorem Client.Ok.observe (h : c.Ok quiet dataHash value applied) :
    Client.Ok quiet dataHash value applied { c with repo := c.repo.addEventRegistration } := by
  obtain ⟨sent,rest,hholds,hruns,hwait⟩ := h
  exact ⟨sent,rest,hholds.observe,hruns.congr hwait,hwait⟩

theorem Client.Ok.unobserve (h : c.Ok quiet dataHash value applied)
    (hw : c.repo.queue.length < c.repo.watchers) :
    Client.Ok quiet dataHash value applied { c with repo := c.repo.removeObserver } := by
  obtain ⟨sent,rest,hholds,hruns,hwait⟩ := h
  exact ⟨sent,rest,hholds.unobserve hw,hruns.congr hwait,hwait⟩

theorem Client.Ok.refuses (h : c.Ok quiet dataHash value applied)
    (hout : c.repo.outgoing = .put p :: outgoing) {status : String}
    (hnotOk : status ≠ kFWPResponseForActionStatusOk) (hstatus : status ≠ kFErrorWriteCanceled) :
    Client.Ok quiet dataHash value applied { c with
      repo := { c.repo with outgoing := outgoing }
      incoming := c.incoming ++ [.response p.index status] } := by
  obtain ⟨sent,rest,hholds,hruns,hwait⟩ := h
  obtain ⟨houts,hheld,hp,hne,hindex,hsent,hcan,hnil,hresponses,hnew⟩ :=
    hholds.flight.waiting hout
  obtain ⟨hlistening,-,hpopped⟩ := hholds.connected.servesPut hout
  have hq := hholds.queued
  refine ⟨sent,rest,⟨hq.congr rfl rfl rfl rfl,
    hholds.accounts.congr rfl rfl rfl rfl,hpopped.responds hlistening p.index (absurd · hnotOk),
    .outstanding p houts hheld hp hne hindex (.refused status hsent hcan hnil ?_ hnotOk hstatus
      hnew),hholds.rest,hholds.good,hholds.held⟩,hruns.congr hwait,hwait⟩
  simp only [responses,List.filterMap_append] at hresponses ⊢
  rw [hresponses]
  rfl

/-- A put that is carried out, after the client was told of the value or knew it. -/
theorem Client.Ok.accepts (h : c.Ok quiet dataHash value applied)
    (hout : c.repo.outgoing = .put p :: outgoing) (news : List (Incoming V))
    (hnews : news.filterMap Incoming.response? = [])
    (hconnected : Client.Connected p.data { c with
      repo := { c.repo with outgoing := outgoing }, incoming := c.incoming ++ news }) :
    Client.Ok quiet dataHash p.data (applied ++ p.queue) { c with
      repo := { c.repo with outgoing := outgoing }
      incoming := c.incoming ++ news ++ [.response p.index kFWPResponseForActionStatusOk] } := by
  obtain ⟨sent,rest,hholds,hruns,hwait⟩ := h
  obtain ⟨houts,hheld,hp,hne,hindex,hsent,hcan,hnil,hresponses,hnew⟩ :=
    hholds.flight.waiting hout
  obtain ⟨hlistening,hunlisten,-⟩ := hholds.connected.servesPut hout
  have hq := hholds.queued
  have haccounts : Client.Accounts (applied ++ sent) { c with
      repo := { c.repo with outgoing := outgoing }
      incoming := c.incoming ++ news ++ [.response p.index kFWPResponseForActionStatusOk] }
      (sent ++ rest) :=
    (hholds.accounts.apply (hp ▸ hnew)).congr rfl rfl rfl rfl
  refine ⟨sent,rest,⟨hq.congr rfl rfl rfl rfl,hp ▸ haccounts,
    hconnected.responds hlistening p.index fun _ => ⟨p,by simp [houts],
      hconnected.synced hlistening hunlisten⟩,
    .outstanding p houts hheld hp hne hindex (.accepted hsent hcan hnil ?_ fun t ht =>
      List.mem_append_right applied ht),fun t ht hmem => ?_,hholds.good,hholds.held⟩,
    hruns.congr hwait,hwait⟩
  · simp only [responses,List.filterMap_append] at hresponses ⊢
    rw [hresponses,hnews]
    rfl
  · rw [orders_append,List.mem_append] at hmem
    rcases hmem with hmem | hmem
    · exact hholds.rest t ht hmem
    · have hnodup := hholds.accounts.nodup_queue
      rw [orders_append,List.nodup_append] at hnodup
      exact absurd rfl (hnodup.2.2 _ (hp ▸ hmem) _ (mem_orders ht))

theorem Client.Ok.accepted [DecidableEq V] (h : c.Ok quiet dataHash value applied)
    (hout : c.repo.outgoing = .put p :: outgoing) (announce : Bool) {told : Client V H}
    (htold : told = if p.data ≠ value ∨ announce then
        Client.tell p.data { c with repo := { c.repo with outgoing := outgoing } }
      else { c with repo := { c.repo with outgoing := outgoing } }) :
    Client.Ok quiet dataHash p.data (applied ++ p.queue) { told with
      incoming := told.incoming ++ [.response p.index kFWPResponseForActionStatusOk] } := by
  obtain ⟨hlistening,-,hpopped⟩ := h.connected.servesPut hout
  have htell : Client.Connected p.data (Client.tell p.data { c with
      repo := { c.repo with outgoing := outgoing } }) := hpopped.tells
  have heq : Client.tell p.data { c with repo := { c.repo with outgoing := outgoing } } =
      { c with
        repo := { c.repo with outgoing := outgoing }
        incoming := c.incoming ++ [.data p.data] } := if_pos hlistening
  rw [heq] at htold htell
  split at htold
  · subst htold
    exact h.accepts hout [.data p.data] rfl htell
  · rename_i hsame
    have hvalue : p.data = value := by
      by_contra hne
      exact hsame (.inl hne)
    subst htold
    have haccepted := h.accepts hout [] rfl
      (by rw [hvalue,List.append_nil]; exact hpopped)
    rw [List.append_nil] at haccepted
    exact haccepted

theorem Client.Ok.appliesLate (h : c.Ok quiet dataHash value applied) {n : Nat}
    (hp : c.late[n]? = some p) :
    Client.Ok quiet dataHash value (applied ++ p.queue)
      { c with late := c.late.eraseIdx n } := by
  obtain ⟨sent,rest,hholds,hruns,hwait⟩ := h
  have hapart : ∀ t ∈ sent ++ rest, t.order ∉ orders p.queue := by
    intro t ht hmem
    refine hholds.accounts.not_abandoned ht ?_
    have hsub := (abandoned_eraseIdx hp).map (·.order)
    exact hsub.subset (by rw [List.map_append]; exact List.mem_append_left _ hmem)
  have hq := hholds.queued
  refine ⟨sent,rest,⟨hq.congr rfl rfl rfl rfl,
    hholds.accounts.applyLate hp,hholds.connected.congr rfl rfl rfl rfl rfl rfl rfl,?_,
    fun t ht hmem => ?_,fun hq' q hmem => ?_,hholds.held⟩,hruns.congr hwait,hwait⟩
  · cases hholds.flight with
    | idle hnil houts hheld hputs hresponses => exact .idle hnil houts hheld hputs hresponses
    | held q status houts hheld hqueue hne hputs hresponses hresponded =>
      exact .held q status houts hheld hqueue hne hputs hresponses
        (hresponded.applies fun t ht => hapart t (List.mem_append_left rest ht))
    | outstanding q houts hheld hqueue hne hindex hsent =>
      refine .outstanding q houts hheld hqueue hne hindex ?_
      exact (hsent.applies fun t ht => hapart t (List.mem_append_left rest (hqueue ▸ ht))).congr
        rfl rfl rfl
  · rw [orders_append,List.mem_append] at hmem
    rcases hmem with hmem | hmem
    · exact hholds.rest t ht hmem
    · exact absurd hmem (hapart t (List.mem_append_right sent ht))
  · exact hholds.good hq' q (hmem.imp_right fun hlate => List.eraseIdx_subset hlate)

theorem Client.Ok.dropsLate (h : c.Ok quiet dataHash value applied) {n : Nat}
    (hp : c.late[n]? = some p) :
    Client.Ok quiet dataHash value applied { c with late := c.late.eraseIdx n } := by
  obtain ⟨sent,rest,hholds,hruns,hwait⟩ := h
  exact ⟨sent,rest,⟨hholds.queued,hholds.accounts.drop hp,
    hholds.connected.congr rfl rfl rfl rfl rfl rfl rfl,
    hholds.flight.congr rfl rfl rfl rfl rfl rfl,hholds.rest,
    fun hq' q hmem => hholds.good hq' q (hmem.imp_right fun hlate => List.eraseIdx_subset hlate),
    hholds.held⟩,hruns.congr hwait,hwait⟩

end Answr
