import Answr.Exchange
set_option autoImplicit false

/-! A client's account of its transactions: each one that was started is in the queue or
has been reported, and each one that was applied was applied once. -/

namespace Answr

variable {V H : Type}

/-- The transactions of puts whose connection was lost on the way. -/
def Client.abandoned (c : Client V H) : List (Transaction V) := c.late.flatMap (·.queue)

def orders (queue : List (Transaction V)) : List Nat := queue.map (·.order)

@[simp] theorem orders_append (queue queue' : List (Transaction V)) :
    orders (queue ++ queue') = orders queue ++ orders queue' := List.map_append

theorem mem_orders {queue : List (Transaction V)} {t : Transaction V} (h : t ∈ queue) :
    t.order ∈ orders queue := List.mem_map_of_mem h

theorem orders_perm {queue queue' : List (Transaction V)} (h : queue.Perm queue') :
    (orders queue).Perm (orders queue') := h.map _

structure Client.Accounts (applied : List (Transaction V)) (c : Client V H)
    (queue : List (Transaction V)) : Prop where
  all : (c.repo.reports.map (·.order) ++ orders queue).Perm (List.range c.started.length)
  luid : c.repo.luid = c.started.length
  known : ∀ t, t ∈ queue ∨ t ∈ applied ∨ t ∈ c.abandoned → c.started[t.order]? = some t.update
  once : (orders (applied ++ c.abandoned)).Nodup
  lost : ∀ t ∈ c.abandoned, ∃ report ∈ c.repo.reports, report.order = t.order ∧
    report.error = some kFTransactionDisconnect
  committed : ∀ report ∈ c.repo.reports, report.committed = true →
    ∃ t ∈ applied, t.order = report.order ∧ t.currentOutput = report.snapshot
  failed : ∀ report ∈ c.repo.reports, report.committed = false → report.order ∈ orders applied →
    report.error = some kFTransactionDisconnect

section Accounting

variable {applied sent rest live : List (Transaction V)} {c c' : Client V H}
  {queue : List (Transaction V)}

theorem Client.Accounts.nodup (h : c.Accounts applied queue) :
    (c.repo.reports.map (·.order) ++ orders queue).Nodup :=
  h.all.nodup_iff.mpr List.nodup_range

theorem Client.Accounts.nodup_queue (h : c.Accounts applied queue) : (orders queue).Nodup :=
  h.nodup.of_append_right

theorem Client.Accounts.not_reported (h : c.Accounts applied queue) {t : Transaction V}
    (ht : t ∈ queue) {report : Report V} (hr : report ∈ c.repo.reports) :
    report.order ≠ t.order :=
  (List.nodup_append.mp h.nodup).2.2 _ (List.mem_map_of_mem hr) _ (mem_orders ht)

theorem Client.Accounts.not_abandoned (h : c.Accounts applied queue) {t : Transaction V}
    (ht : t ∈ queue) : t.order ∉ orders c.abandoned := by
  intro hmem
  obtain ⟨u,hu,heq⟩ := List.mem_map.mp hmem
  obtain ⟨report,hr,horder,-⟩ := h.lost u hu
  exact h.not_reported ht hr (horder.trans heq)

theorem Client.Accounts.order_lt (h : c.Accounts applied queue) {t : Transaction V}
    (ht : t ∈ queue ∨ t ∈ applied ∨ t ∈ c.abandoned) : t.order < c.started.length := by
  obtain ⟨hlt,-⟩ := List.getElem?_eq_some_iff.mp (h.known t ht)
  exact hlt

theorem Client.Accounts.congr (h : c.Accounts applied queue)
    (hreports : c'.repo.reports = c.repo.reports) (hluid : c'.repo.luid = c.repo.luid)
    (hlate : c'.late = c.late) (hstarted : c'.started = c.started) : c'.Accounts applied queue := by
  have hab : c'.abandoned = c.abandoned := by rw [abandoned,abandoned,hlate]
  refine ⟨?_,?_,?_,?_,?_,?_,?_⟩
  · rw [hreports,hstarted]
    exact h.all
  · rw [hluid,hstarted]
    exact h.luid
  · rw [hab,hstarted]
    exact h.known
  · rw [hab]
    exact h.once
  · rw [hab,hreports]
    exact h.lost
  · rw [hreports]
    exact h.committed
  · rw [hreports]
    exact h.failed

theorem Client.Accounts.map (h : c.Accounts applied (queue ++ rest))
    {f : Transaction V → Transaction V} (ho : ∀ t, (f t).order = t.order)
    (hu : ∀ t, (f t).update = t.update) : c.Accounts applied (queue.map f ++ rest) := by
  have horders : orders (queue.map f) = orders queue := by simp [orders,ho]
  refine ⟨?_,h.luid,?_,h.once,h.lost,h.committed,h.failed⟩
  · rw [orders_append,horders,← orders_append]
    exact h.all
  · rintro t (ht | ht)
    · rcases List.mem_append.mp ht with ht | ht
      · obtain ⟨u,hmem,rfl⟩ := List.mem_map.mp ht
        rw [ho,hu]
        exact h.known u (.inl (List.mem_append_left rest hmem))
      · exact h.known t (.inl (List.mem_append_right queue ht))
    · exact h.known t (.inr ht)

theorem Client.Accounts.complete (h : c.Accounts applied (sent ++ rest))
    (happlied : ∀ t ∈ sent, t ∈ applied)
    (hreports : c'.repo.reports = c.repo.reports ++ sent.map Transaction.committedReport)
    (hluid : c'.repo.luid = c.repo.luid) (hlate : c'.late = c.late)
    (hstarted : c'.started = c.started) : c'.Accounts applied rest := by
  have hab : c'.abandoned = c.abandoned := by rw [abandoned,abandoned,hlate]
  have horders : (sent.map Transaction.committedReport).map (·.order) = orders sent := by
    rw [List.map_map]
    rfl
  refine ⟨?_,?_,?_,?_,?_,?_,?_⟩
  · rw [hreports,hstarted,List.map_append,horders,List.append_assoc,← orders_append]
    exact h.all
  · rw [hluid,h.luid,hstarted]
  · rw [hab,hstarted]
    exact fun t ht => h.known t (ht.imp_left (List.mem_append_right sent))
  · rw [hab]
    exact h.once
  · rw [hab,hreports]
    intro t ht
    obtain ⟨report,hmem,hr⟩ := h.lost t ht
    exact ⟨report,List.mem_append_left _ hmem,hr⟩
  · rw [hreports]
    intro report hmem hc
    rcases List.mem_append.mp hmem with hmem | hmem
    · exact h.committed report hmem hc
    · obtain ⟨t,ht,rfl⟩ := List.mem_map.mp hmem
      exact ⟨t,happlied t ht,rfl,rfl⟩
  · rw [hreports]
    intro report hmem hc
    rcases List.mem_append.mp hmem with hmem | hmem
    · exact h.failed report hmem hc
    · obtain ⟨t,-,rfl⟩ := List.mem_map.mp hmem
      cases hc

theorem Client.Accounts.start (new : List (Report V)) (added : List (Transaction V))
    (h : c.Accounts applied queue) {update : V → Option V}
    (hreports : c'.repo.reports = c.repo.reports ++ new)
    (hone : new.map (·.order) ++ orders added = [c.repo.luid])
    (hnew : ∀ report ∈ new, report.committed = false)
    (hadded : ∀ t ∈ added, t.update = update) (hluid : c'.repo.luid = c.repo.luid + 1)
    (hlate : c'.late = c.late) (hstarted : c'.started = c.started ++ [update]) :
    c'.Accounts applied (queue ++ added) := by
  have hab : c'.abandoned = c.abandoned := by rw [abandoned,abandoned,hlate]
  have hfresh : ∀ n, n ∈ new.map (·.order) ++ orders added → n = c.started.length := by
    intro n hn
    rw [hone,List.mem_singleton] at hn
    exact hn.trans h.luid
  have hold : ∀ t, t ∈ queue ∨ t ∈ applied ∨ t ∈ c.abandoned →
      (c.started ++ [update])[t.order]? = some t.update := by
    intro t ht
    rw [List.getElem?_append_left (h.order_lt ht)]
    exact h.known t ht
  refine ⟨?_,?_,?_,?_,?_,?_,?_⟩
  · rw [hreports,hstarted,List.map_append,orders_append,List.length_append,List.length_singleton,
      List.range_succ]
    have hone' : new.map (·.order) ++ orders added = [c.started.length] := by rw [hone,h.luid]
    rw [← hone']
    refine List.Perm.trans ?_ (h.all.append_right _)
    simp only [List.append_assoc]
    exact List.Perm.append_left _ (List.perm_append_comm_assoc _ _ _)
  · rw [hluid,h.luid,hstarted,List.length_append,List.length_singleton]
  · rw [hab,hstarted]
    rintro t (ht | ht)
    · rcases List.mem_append.mp ht with ht | ht
      · exact hold t (.inl ht)
      · rw [hfresh _ (List.mem_append_right _ (mem_orders ht)),hadded t ht]
        simp
    · exact hold t (.inr ht)
  · rw [hab]
    exact h.once
  · rw [hab,hreports]
    intro t ht
    obtain ⟨report,hmem,hr⟩ := h.lost t ht
    exact ⟨report,List.mem_append_left _ hmem,hr⟩
  · rw [hreports]
    intro report hmem hc
    rcases List.mem_append.mp hmem with hmem | hmem
    · exact h.committed report hmem hc
    · rw [hnew report hmem] at hc
      cases hc
  · rw [hreports]
    intro report hmem hc happlied
    rcases List.mem_append.mp hmem with hmem | hmem
    · exact h.failed report hmem hc happlied
    · obtain ⟨t,ht,heq⟩ := List.mem_map.mp happlied
      have hlt := h.order_lt (.inr (.inl ht))
      have hnew := hfresh _ (List.mem_append_left _ (List.mem_map_of_mem hmem))
      rw [heq] at hlt
      omega

theorem Client.Accounts.apply (h : c.Accounts applied (sent ++ rest))
    (hsent : ∀ t ∈ sent, t.order ∉ orders applied) :
    c.Accounts (applied ++ sent) (sent ++ rest) := by
  refine ⟨h.all,h.luid,?_,?_,h.lost,?_,?_⟩
  · rintro t (ht | ht | ht)
    · exact h.known t (.inl ht)
    · rcases List.mem_append.mp ht with ht | ht
      · exact h.known t (.inr (.inl ht))
      · exact h.known t (.inl (List.mem_append_left rest ht))
    · exact h.known t (.inr (.inr ht))
  · have hnodup : (orders sent).Nodup := by
      have := h.nodup_queue
      rw [orders_append] at this
      exact this.of_append_left
    rw [orders_append,orders_append,List.append_assoc,
      (List.perm_append_comm_assoc (orders applied) (orders sent) _).nodup_iff,
      List.nodup_append,← orders_append]
    refine ⟨hnodup,h.once,?_⟩
    intro n hn m hm heq
    obtain ⟨t,ht,rfl⟩ := List.mem_map.mp hn
    rw [orders_append,List.mem_append] at hm
    rcases hm with hm | hm
    · exact hsent t ht (heq ▸ hm)
    · exact h.not_abandoned (List.mem_append_left rest ht) (heq ▸ hm)
  · intro report hmem hc
    obtain ⟨t,ht,hsame⟩ := h.committed report hmem hc
    exact ⟨t,List.mem_append_left sent ht,hsame⟩
  · intro report hmem hc happlied
    rw [orders_append,List.mem_append] at happlied
    rcases happlied with happlied | happlied
    · exact h.failed report hmem hc happlied
    · obtain ⟨t,ht,heq⟩ := List.mem_map.mp happlied
      exact absurd heq.symm (h.not_reported (List.mem_append_left rest ht) hmem)

theorem Client.abandoned_eraseIdx {n : Nat} {p : Put V H} (hp : c.late[n]? = some p) :
    (p.queue ++ Client.abandoned { c with late := c.late.eraseIdx n }).Perm c.abandoned := by
  obtain ⟨hlt,rfl⟩ := List.getElem?_eq_some_iff.mp hp
  have hsplit : c.late = c.late.take n ++ c.late[n] :: c.late.drop (n+1) := by simp
  have hperm : (c.late[n] :: c.late.eraseIdx n).Perm c.late := by
    rw [List.eraseIdx_eq_take_drop_succ]
    exact List.perm_middle.symm.trans (.of_eq hsplit.symm)
  simpa [abandoned] using hperm.flatMap_right (·.queue)

theorem Client.Accounts.drop (h : c.Accounts applied queue) {n : Nat} {p : Put V H}
    (hp : c.late[n]? = some p) :
    Client.Accounts applied { c with late := c.late.eraseIdx n } queue := by
  have hperm := abandoned_eraseIdx hp
  have hmem : ∀ {t}, t ∈ Client.abandoned { c with late := c.late.eraseIdx n } →
      t ∈ c.abandoned := fun ht => hperm.subset (List.mem_append_right _ ht)
  refine ⟨h.all,h.luid,fun t ht => h.known t (ht.imp_right (Or.imp_right hmem)),?_,
    fun t ht => h.lost t (hmem ht),h.committed,h.failed⟩
  have hnodup := (orders_perm (hperm.append_left applied)).nodup_iff.mpr h.once
  exact hnodup.sublist (((List.sublist_append_right _ _).append_left applied).map _)

theorem Client.Accounts.applyLate (h : c.Accounts applied queue) {n : Nat} {p : Put V H}
    (hp : c.late[n]? = some p) :
    Client.Accounts (applied ++ p.queue) { c with late := c.late.eraseIdx n } queue := by
  have hperm := abandoned_eraseIdx hp
  have hmem : ∀ {t}, t ∈ p.queue → t ∈ c.abandoned :=
    fun ht => hperm.subset (List.mem_append_left _ ht)
  refine ⟨h.all,h.luid,?_,?_,fun t ht => h.lost t (hperm.subset (List.mem_append_right _ ht)),
    ?_,?_⟩
  · rintro t (ht | ht | ht)
    · exact h.known t (.inl ht)
    · rcases List.mem_append.mp ht with ht | ht
      · exact h.known t (.inr (.inl ht))
      · exact h.known t (.inr (.inr (hmem ht)))
    · exact h.known t (.inr (.inr (hperm.subset (List.mem_append_right _ ht))))
  · rw [List.append_assoc]
    exact (orders_perm (hperm.append_left applied)).nodup_iff.mpr h.once
  · intro report hr hc
    obtain ⟨t,ht,hsame⟩ := h.committed report hr hc
    exact ⟨t,List.mem_append_left _ ht,hsame⟩
  · intro report hr hc happlied
    rw [orders_append,List.mem_append] at happlied
    rcases happlied with happlied | happlied
    · exact h.failed report hr hc happlied
    · obtain ⟨t,ht,heq⟩ := List.mem_map.mp happlied
      obtain ⟨other,hother,horder,herror⟩ := h.lost t (hmem ht)
      have hsame : other = report :=
        List.inj_on_of_nodup_map h.nodup.of_append_left hother hr (horder.trans heq)
      exact hsame ▸ herror

theorem Client.Accounts.abandon (h : c.Accounts applied queue) {ps : List (Put V H)}
    (hknown : ∀ t ∈ ps.flatMap (·.queue), c.started[t.order]? = some t.update)
    (honce : (orders (applied ++ (c.abandoned ++ ps.flatMap (·.queue)))).Nodup)
    (hlost : ∀ t ∈ ps.flatMap (·.queue), ∃ report ∈ c.repo.reports, report.order = t.order ∧
      report.error = some kFTransactionDisconnect) :
    Client.Accounts applied { c with late := c.late ++ ps } queue := by
  have hab : Client.abandoned { c with late := c.late ++ ps } =
      c.abandoned ++ ps.flatMap (·.queue) := by simp [abandoned]
  refine ⟨h.all,h.luid,?_,?_,?_,h.committed,h.failed⟩
  · rintro t (ht | ht | ht)
    · exact h.known t (.inl ht)
    · exact h.known t (.inr (.inl ht))
    · rw [hab,List.mem_append] at ht
      rcases ht with ht | ht
      · exact h.known t (.inr (.inr ht))
      · exact hknown t ht
  · rw [hab]
    exact honce
  · intro t ht
    rw [hab,List.mem_append] at ht
    rcases ht with ht | ht
    · exact h.lost t ht
    · exact hlost t ht

variable [Inhabited V]

theorem Client.Accounts.reran {r' : Repo V H} (h : c.Accounts applied (sent ++ rest))
    (hran : c.repo.Reran r' sent rest [] live)
    (hrest : ∀ t ∈ rest, t.order ∈ orders applied →
      t.status = .needsAbort ∧ t.abortStatus = some kFTransactionDisconnect)
    (hreports : c'.repo.reports = r'.reports) (hluid : c'.repo.luid = r'.luid)
    (hlate : c'.late = c.late) (hstarted : c'.started = c.started) :
    c'.Accounts applied (sent ++ live) := by
  obtain ⟨new,hnew,hperm,herrors⟩ := hran.reports
  have hab : c'.abandoned = c.abandoned := by rw [abandoned,abandoned,hlate]
  rw [hnew] at hreports
  refine ⟨?_,?_,?_,?_,?_,?_,?_⟩
  · rw [hreports,hstarted,List.map_append,orders_append]
    refine List.Perm.trans ?_ h.all
    rw [orders_append,List.append_assoc]
    refine List.Perm.append_left _ ?_
    refine (List.perm_append_comm_assoc _ _ _).trans ?_
    exact List.Perm.append_left _ hperm
  · rw [hluid,hran.loses.luid,h.luid,hstarted]
  · rw [hab,hstarted]
    rintro t (ht | ht)
    · rcases List.mem_append.mp ht with ht | ht
      · exact h.known t (.inl (List.mem_append_left rest ht))
      · obtain ⟨u,hu,-,horder,hupdate⟩ := hran.same t ht
        rw [horder,hupdate]
        exact h.known u (.inl (List.mem_append_right sent hu))
    · exact h.known t (.inr ht)
  · rw [hab]
    exact h.once
  · rw [hab,hreports]
    intro t ht
    obtain ⟨report,hmem,hr⟩ := h.lost t ht
    exact ⟨report,List.mem_append_left new hmem,hr⟩
  · rw [hreports]
    intro report hmem hc
    rcases List.mem_append.mp hmem with hmem | hmem
    · exact h.committed report hmem hc
    · rw [(herrors report hmem).1] at hc
      cases hc
  · rw [hreports]
    intro report hmem hc happlied
    rcases List.mem_append.mp hmem with hmem | hmem
    · exact h.failed report hmem hc happlied
    · obtain ⟨-,t,ht,horder,herror⟩ := herrors report hmem
      obtain ⟨hneeds,hstatus⟩ := hrest t ht (horder ▸ happlied)
      rw [herror hneeds,hstatus]

theorem Repo.Reran.reported {r r' : Repo V H} (hran : r.Reran r' sent rest [] live)
    (hnodup : (orders rest).Nodup) {t : Transaction V} (ht : t ∈ rest)
    (hneeds : t.status = .needsAbort) :
    ∃ report ∈ r'.reports, report.order = t.order ∧ report.error = t.abortStatus := by
  obtain ⟨new,hnew,hperm,herrors⟩ := hran.reports
  have hsame : ∀ u ∈ rest, u.order = t.order → u = t :=
    fun u hu heq => List.inj_on_of_nodup_map hnodup hu ht heq
  rcases List.mem_append.mp (hperm.mem_iff.mpr (mem_orders ht)) with hmem | hmem
  · obtain ⟨report,hr,horder⟩ := List.mem_map.mp hmem
    obtain ⟨-,u,hu,horder',herror⟩ := herrors report hr
    obtain rfl := hsame u hu (horder'.trans horder)
    rw [hnew]
    exact ⟨report,List.mem_append_right _ hr,horder,herror hneeds⟩
  · obtain ⟨u,hu,horder⟩ := List.mem_map.mp hmem
    obtain ⟨u₀,hu₀,hrun,horder₀,-⟩ := hran.same u hu
    obtain rfl := hsame u₀ hu₀ (horder₀.symm.trans horder)
    rw [hneeds] at hrun
    cases hrun

end Accounting

end Answr
