import Answr.Accounts
set_option autoImplicit false

/-! What the two ends of a connection know of each other. A client that waits for the
response to a put has the server's value by the time an accepting response comes. -/

namespace Answr

variable {V H : Type}

section Streams

/-- Whether the server tells the client of changes once it has taken some messages. -/
def listensAfter : Bool → List (Outgoing V H) → Bool
  | listening, [] => listening
  | _, .listen :: rest => listensAfter true rest
  | _, .unlisten :: rest => listensAfter false rest
  | listening, .put _ :: rest => listensAfter listening rest

/-- What the client has of the server once it has received some messages. -/
def cacheAfter : Option V → List (Incoming V) → Option V
  | cache, [] => cache
  | _, .data value :: rest => cacheAfter (some value) rest
  | cache, .listened :: rest => cacheAfter cache rest
  | cache, .response _ _ :: rest => cacheAfter cache rest

def Incoming.response? : Incoming V → Option (Nat × String)
  | .response index status => some (index,status)
  | .data _ | .listened => none

def Client.responses (c : Client V H) : List (Nat × String) :=
  c.incoming.filterMap Incoming.response?

theorem listensAfter_append (listening : Bool) (l l' : List (Outgoing V H)) :
    listensAfter listening (l ++ l') = listensAfter (listensAfter listening l) l' := by
  induction l generalizing listening with
  | nil => rfl
  | cons m l ih => cases m <;> exact ih _

theorem cacheAfter_append (cache : Option V) (l l' : List (Incoming V)) :
    cacheAfter cache (l ++ l') = cacheAfter (cacheAfter cache l) l' := by
  induction l generalizing cache with
  | nil => rfl
  | cons m l ih => cases m <;> exact ih _

theorem listensAfter_true {l : List (Outgoing V H)} (h : .unlisten ∉ l) :
    listensAfter true l = true := by
  induction l with
  | nil => rfl
  | cons m l ih =>
    have hl := ih fun hmem => h (List.mem_cons_of_mem m hmem)
    cases m with
    | listen => exact hl
    | unlisten => exact absurd List.mem_cons_self h
    | put p => exact hl

theorem put_mem_puts {c : Client V H} {p : Put V H} (h : .put p ∈ c.repo.outgoing) : p ∈ c.puts :=
  List.mem_filterMap.mpr ⟨_,h,rfl⟩

theorem response_mem {c : Client V H} {index : Nat} {status : String}
    (h : .response index status ∈ c.incoming) : (index,status) ∈ c.responses :=
  List.mem_filterMap.mpr ⟨_,h,rfl⟩

end Streams

/-- The connection of a client to a server with the value. -/
structure Client.Connected (value : V) (c : Client V H) : Prop where
  offline : c.repo.canSendWrites = false →
    c.repo.outgoing = [] ∧ c.incoming = [] ∧ c.listening = false
  subscribed : c.repo.canSendWrites = true →
    listensAfter c.listening c.repo.outgoing = decide (0 < c.repo.watchers)
  putListens : ∀ l p l', c.repo.outgoing = l ++ .put p :: l' →
    listensAfter c.listening l = true ∧ .unlisten ∉ l'
  synced : c.listening = true → .unlisten ∉ c.repo.outgoing →
    cacheAfter c.repo.serverCache c.incoming = some value
  answered : ∀ l index l', c.incoming = l ++ .response index kFWPResponseForActionStatusOk :: l' →
    ∃ p ∈ c.repo.outstandingPuts, cacheAfter c.repo.serverCache l = some p.data

section Connections

variable {value : V} {c c' : Client V H}

theorem Client.connected_offline (hcan : c.repo.canSendWrites = false)
    (ho : c.repo.outgoing = []) (hi : c.incoming = []) (hl : c.listening = false) :
    c.Connected value where
  offline _ := ⟨ho,hi,hl⟩
  subscribed h := by simp [hcan] at h
  putListens l p l' h := by simp [ho] at h
  synced h := by simp [hl] at h
  answered l index l' h := by simp [hi] at h

theorem Client.Connected.congr (h : c.Connected value)
    (hcan : c'.repo.canSendWrites = c.repo.canSendWrites)
    (hout : c'.repo.outgoing = c.repo.outgoing) (hwatchers : c'.repo.watchers = c.repo.watchers)
    (hcache : c'.repo.serverCache = c.repo.serverCache)
    (houts : c'.repo.outstandingPuts = c.repo.outstandingPuts)
    (hin : c'.incoming = c.incoming) (hlistening : c'.listening = c.listening) :
    c'.Connected value where
  offline := by
    rw [hcan,hout,hin,hlistening]
    exact h.offline
  subscribed := by
    rw [hcan,hlistening,hout,hwatchers]
    exact h.subscribed
  putListens := by
    rw [hout,hlistening]
    exact h.putListens
  synced := by
    rw [hlistening,hout,hcache,hin]
    exact h.synced
  answered := by
    rw [hin,houts,hcache]
    exact h.answered

theorem Client.Connected.watching (h : c.Connected value) (hl : c.listening = true)
    (hu : .unlisten ∉ c.repo.outgoing) : 0 < c.repo.watchers := by
  have hcan : c.repo.canSendWrites = true := by
    cases hcan : c.repo.canSendWrites with
    | true => rfl
    | false => simp [(h.offline hcan).2.2] at hl
  have hsub := h.subscribed hcan
  rw [hl,listensAfter_true hu] at hsub
  exact of_decide_eq_true hsub.symm

theorem Client.Connected.loses (h : c.Connected value) (hloses : c.repo.Loses c'.repo)
    (hnone : c'.repo.watchers = 0 → c.puts = [] ∧ c.responses = [])
    (hincoming : c'.incoming = c.incoming) (hlistening : c'.listening = c.listening) :
    c'.Connected value := by
  rcases hloses.view with ⟨hcache,hout,hw⟩ | ⟨hpos,hzero,hcache,hout⟩
  · have hle := hloses.watchers
    refine ⟨?_,?_,?_,?_,?_⟩
    · rw [hloses.canSendWrites,hout,hincoming,hlistening]
      exact h.offline
    · rw [hloses.canSendWrites,hout,hlistening]
      intro hcan
      rw [h.subscribed hcan,decide_eq_decide]
      omega
    · rw [hout,hlistening]
      exact h.putListens
    · rw [hout,hlistening,hcache,hincoming]
      exact h.synced
    · rw [hincoming,hcache,hloses.outstandingPuts]
      exact h.answered
  · obtain ⟨hputs,hresponses⟩ := hnone hzero
    cases hcan : c.repo.canSendWrites with
    | false =>
      obtain ⟨ho,hi,hl⟩ := h.offline hcan
      simp only [Repo.sendAction,hcan,Bool.false_eq_true,if_false] at hout
      exact connected_offline (hloses.canSendWrites.trans hcan) (hout.trans ho)
        (hincoming.trans hi) (hlistening.trans hl)
    | true =>
      simp only [Repo.sendAction,hcan,if_true] at hout
      refine ⟨?_,?_,?_,?_,?_⟩
      · rw [hloses.canSendWrites,hcan]
        intro hfalse
        cases hfalse
      · intro _
        rw [hout,listensAfter_append,hzero]
        rfl
      · intro l p l' heq
        have hmem : (.put p : Outgoing V H) ∈ c.repo.outgoing := by
          have : (.put p : Outgoing V H) ∈ c.repo.outgoing ++ [.unlisten] := by
            rw [← hout,heq]
            simp
          simpa using this
        have := put_mem_puts hmem
        simp [hputs] at this
      · intro _ hu
        rw [hout] at hu
        simp at hu
      · intro l index l' heq
        rw [hincoming] at heq
        have hresponse : .response index kFWPResponseForActionStatusOk ∈ c.incoming := by
          rw [heq]
          simp
        have := response_mem hresponse
        simp [hresponses] at this

theorem Client.Connected.sends (h : c.Connected value) {p : Put V H}
    (hpos : 0 < c.repo.watchers) (hwatchers : c'.repo.watchers = c.repo.watchers)
    (hcan : c'.repo.canSendWrites = c.repo.canSendWrites)
    (hout : c'.repo.outgoing = (c.repo.sendAction (.put p)).outgoing)
    (hcache : c'.repo.serverCache = c.repo.serverCache)
    (houts : c'.repo.outstandingPuts = c.repo.outstandingPuts ++ [p])
    (hincoming : c'.incoming = c.incoming) (hlistening : c'.listening = c.listening) :
    c'.Connected value := by
  cases hconn : c.repo.canSendWrites with
  | false =>
    obtain ⟨ho,hi,hl⟩ := h.offline hconn
    simp only [Repo.sendAction,hconn,Bool.false_eq_true,if_false] at hout
    exact connected_offline (hcan.trans hconn) (hout.trans ho) (hincoming.trans hi)
      (hlistening.trans hl)
  | true =>
    simp only [Repo.sendAction,hconn,if_true] at hout
    refine ⟨?_,?_,?_,?_,?_⟩
    · rw [hcan,hconn]
      intro hfalse
      cases hfalse
    · intro _
      rw [hout,listensAfter_append,hlistening,h.subscribed hconn,hwatchers]
      rfl
    · intro l q l' heq
      rw [hout] at heq
      rw [hlistening]
      rcases List.eq_nil_or_concat l' with rfl | ⟨l'',m,rfl⟩
      · obtain ⟨rfl,-⟩ := List.append_inj' heq rfl
        rw [h.subscribed hconn]
        exact ⟨decide_eq_true hpos,by simp⟩
      · rw [List.concat_eq_append,← List.cons_append,← List.append_assoc] at heq
        obtain ⟨heq,hm⟩ := List.append_inj' heq rfl
        obtain ⟨hl,hu⟩ := h.putListens l q l'' heq
        obtain rfl : Outgoing.put p = m := by simpa using hm
        exact ⟨hl,by simpa using hu⟩
    · rw [hlistening,hcache,hincoming,hout]
      exact fun hl hu => h.synced hl fun hmem => hu (List.mem_append_left _ hmem)
    · intro l index l' heq
      rw [hincoming] at heq
      obtain ⟨q,hq,hdata⟩ := h.answered l index l' heq
      rw [houts,hcache]
      exact ⟨q,List.mem_append_left _ hq,hdata⟩

theorem Client.Connected.observes (h : c.Connected value)
    (hnone : c.repo.watchers = 0 → c.puts = [])
    (hrepo : c'.repo = c.repo.addEventRegistration) (hincoming : c'.incoming = c.incoming)
    (hlistening : c'.listening = c.listening) : c'.Connected value := by
  by_cases hw : c.repo.watchers = 0
  · have hrepo' : c'.repo = { c.repo.sendListen with watchers := 1 } := by
      rw [hrepo,Repo.addEventRegistration,if_pos hw]
    cases hconn : c.repo.canSendWrites with
    | false =>
      obtain ⟨ho,hi,hl⟩ := h.offline hconn
      simp only [Repo.sendListen,hconn,Bool.false_eq_true,if_false] at hrepo'
      exact connected_offline (by rw [hrepo']) (by rw [hrepo',ho]) (hincoming.trans hi)
        (hlistening.trans hl)
    | true =>
      simp only [Repo.sendListen,Repo.sendAction,hconn,if_true] at hrepo'
      refine ⟨?_,?_,?_,?_,?_⟩
      · rw [hrepo']
        intro hfalse
        cases hfalse
      · intro _
        rw [hrepo',listensAfter_append]
        rfl
      · intro l p l' heq
        have hmem : (.put p : Outgoing V H) ∈ c.repo.outgoing := by
          have hall : c.repo.outgoing ++ [.listen] = l ++ .put p :: l' := by
            rw [hrepo'] at heq
            exact heq
          have : (.put p : Outgoing V H) ∈ c.repo.outgoing ++ [.listen] :=
            hall ▸ List.mem_append_right l List.mem_cons_self
          simpa using this
        have := put_mem_puts hmem
        simp [hnone hw] at this
      · rw [hrepo',hlistening,hincoming]
        exact fun hl hu => h.synced hl fun hmem => hu (List.mem_append_left _ hmem)
      · rw [hrepo',hincoming]
        exact h.answered
  · have hrepo' : c'.repo = { c.repo with watchers := c.repo.watchers + 1 } := by
      rw [hrepo,Repo.addEventRegistration,if_neg hw]
    refine ⟨?_,?_,?_,?_,?_⟩
    · rw [hrepo',hincoming,hlistening]
      exact h.offline
    · rw [hrepo',hlistening]
      intro hcan
      rw [h.subscribed hcan,decide_eq_decide]
      simp only
      omega
    · rw [hrepo',hlistening]
      exact h.putListens
    · rw [hrepo',hincoming,hlistening]
      exact h.synced
    · rw [hrepo',hincoming]
      exact h.answered

theorem Client.Connected.receives (h : c.Connected value) {data : V}
    {rest : List (Incoming V)} (hin : c.incoming = .data data :: rest)
    (hnone : c.repo.watchers = 0 → c.responses = []) :
    Client.Connected value { c with
      repo := { c.repo with
        serverCache := if c.repo.watchers = 0 then c.repo.serverCache else some data }
      incoming := rest } := by
  have hcan : c.repo.canSendWrites = true := by
    cases hcan : c.repo.canSendWrites with
    | true => rfl
    | false => simp [(h.offline hcan).2.1] at hin
  refine ⟨fun hfalse => absurd (hcan.symm.trans hfalse) (by simp),h.subscribed,h.putListens,?_,?_⟩
  · intro hl hu
    have hpos := h.watching hl hu
    have hsynced := h.synced hl hu
    rw [hin,cacheAfter] at hsynced
    rw [if_neg (by omega)]
    exact hsynced
  · intro l index l' heq
    have hpos : c.repo.watchers ≠ 0 := by
      intro hw
      have hmem : (index,kFWPResponseForActionStatusOk) ∈ c.responses := by
        apply response_mem
        rw [hin]
        simp only at heq
        rw [heq]
        simp
      simp [hnone hw] at hmem
    obtain ⟨p,hp,hdata⟩ := h.answered (.data data :: l) index l' (by rw [hin]; simpa using heq)
    rw [if_neg hpos]
    exact ⟨p,hp,hdata⟩

theorem Client.Connected.receivesListened (h : c.Connected value) {rest : List (Incoming V)}
    (hin : c.incoming = .listened :: rest) :
    Client.Connected value { c with incoming := rest } := by
  have hcan : c.repo.canSendWrites = true := by
    cases hcan : c.repo.canSendWrites with
    | true => rfl
    | false => simp [(h.offline hcan).2.1] at hin
  refine ⟨fun hfalse => absurd (hcan.symm.trans hfalse) (by simp),h.subscribed,h.putListens,?_,?_⟩
  · intro hl hu
    have hsynced := h.synced hl hu
    rw [hin,cacheAfter] at hsynced
    exact hsynced
  · intro l index l' heq
    exact h.answered (.listened :: l) index l' (by rw [hin]; simpa using heq)

theorem Client.Connected.receivesResponse (h : c.Connected value) {index : Nat}
    {status : String} {rest : List (Incoming V)}
    (hin : c.incoming = .response index status :: rest)
    (hnone : rest.filterMap Incoming.response? = []) (puts : List (Put V H)) :
    Client.Connected value { c with
      repo := { c.repo with outstandingPuts := puts }
      incoming := rest } := by
  have hcan : c.repo.canSendWrites = true := by
    cases hcan : c.repo.canSendWrites with
    | true => rfl
    | false => simp [(h.offline hcan).2.1] at hin
  refine ⟨fun hfalse => absurd (hcan.symm.trans hfalse) (by simp),h.subscribed,h.putListens,?_,?_⟩
  · intro hl hu
    have hsynced := h.synced hl hu
    rw [hin,cacheAfter] at hsynced
    exact hsynced
  · intro l i l' heq
    have hmem : (i,kFWPResponseForActionStatusOk) ∈ rest.filterMap Incoming.response? := by
      simp only at heq
      rw [heq]
      simp [Incoming.response?]
    simp [hnone] at hmem

theorem Client.connected_restoreState (hputs : c.repo.outstandingPuts ≠ [] → 0 < c.repo.watchers)
    (hincoming : c.incoming = []) (hlistening : c.listening = false) (elsewhere : Nat) :
    Client.Connected value { c with repo := c.repo.restoreState elsewhere } where
  offline h := by simp [Repo.restoreState] at h
  subscribed _ := by
    have hplain : ∀ (listening : Bool) (ps : List (Put V H)),
        listensAfter listening (ps.map .put) = listening := by
      intro listening ps
      induction ps with
      | nil => rfl
      | cons p ps ih => exact ih
    simp only [Repo.restoreState,hlistening,listensAfter_append,hplain]
    by_cases hw : c.repo.watchers = 0
    · simp [hw,listensAfter]
    · simp [hw,listensAfter,Nat.pos_of_ne_zero hw]
  putListens l p l' heq := by
    have hnone : ∀ ps : List (Put V H), (.unlisten : Outgoing V H) ∉ ps.map .put := by simp
    by_cases hw : c.repo.watchers = 0
    · have hempty : c.repo.outstandingPuts = [] := by
        by_contra hne
        have := hputs hne
        omega
      simp [Repo.restoreState,hw,hempty] at heq
    · simp only [Repo.restoreState,hw,if_false,List.singleton_append] at heq
      cases l with
      | nil => simp at heq
      | cons m l =>
        rw [List.cons_append,List.cons.injEq] at heq
        obtain ⟨rfl,htail⟩ := heq
        have hsplit := hnone (c.repo.outstandingPuts.map fun p => { p with sent := true })
        rw [htail] at hsplit
        simp only [List.mem_append,List.mem_cons,not_or] at hsplit
        exact ⟨listensAfter_true hsplit.1,hsplit.2.2⟩
  synced h := by simp [hlistening] at h
  answered l index l' heq := by simp [hincoming] at heq

end Connections

section Serving

variable {value value' : V} {c c' : Client V H}

theorem answered_append {incoming : List (Incoming V)} {m : Incoming V}
    {Good : List (Incoming V) → Prop}
    (h : ∀ l index l', incoming = l ++ .response index kFWPResponseForActionStatusOk :: l' → Good l)
    (hm : ∀ index, m = .response index kFWPResponseForActionStatusOk → Good incoming)
    (l : List (Incoming V)) (index : Nat) (l' : List (Incoming V))
    (heq : incoming ++ [m] = l ++ .response index kFWPResponseForActionStatusOk :: l') :
    Good l := by
  rcases List.eq_nil_or_concat l' with rfl | ⟨l'',m',rfl⟩
  · obtain ⟨rfl,hlast⟩ := List.append_inj' heq rfl
    exact hm index (by simpa using hlast)
  · rw [List.concat_eq_append,← List.cons_append,← List.append_assoc] at heq
    exact h l index l'' (List.append_inj' heq rfl).1

theorem Client.Connected.answers (h : c.Connected value) (hcan : c.repo.canSendWrites = true) :
    Client.Connected value { c with incoming := c.incoming ++ [.listened] } := by
  refine ⟨fun hfalse => absurd (hcan.symm.trans hfalse) (by simp),h.subscribed,h.putListens,?_,
    answered_append h.answered fun index heq => by cases heq⟩
  intro hl hu
  rw [cacheAfter_append]
  exact h.synced hl hu

theorem Client.Connected.servesListen (h : c.Connected value) {rest : List (Outgoing V H)}
    (hout : c.repo.outgoing = .listen :: rest) :
    Client.Connected value { c with
      repo := { c.repo with outgoing := rest }
      listening := true
      incoming := c.incoming ++ [.data value] } where
  offline hcan := by
    have := (h.offline hcan).1
    simp [hout] at this
  subscribed hcan := by
    have hsub := h.subscribed hcan
    rw [hout] at hsub
    exact hsub
  putListens l p l' heq := h.putListens (.listen :: l) p l' (by rw [hout]; simpa using heq)
  synced _ _ := by rw [cacheAfter_append]; rfl
  answered := answered_append h.answered fun index heq => by cases heq

theorem Client.Connected.servesUnlisten (h : c.Connected value) {rest : List (Outgoing V H)}
    (hout : c.repo.outgoing = .unlisten :: rest) :
    Client.Connected value { c with
      repo := { c.repo with outgoing := rest }
      listening := false } where
  offline hcan := by
    have := (h.offline hcan).1
    simp [hout] at this
  subscribed hcan := by
    have hsub := h.subscribed hcan
    rw [hout] at hsub
    exact hsub
  putListens l p l' heq := h.putListens (.unlisten :: l) p l' (by rw [hout]; simpa using heq)
  synced hl := by simp at hl
  answered := h.answered

theorem Client.Connected.servesPut (h : c.Connected value) {p : Put V H}
    {rest : List (Outgoing V H)} (hout : c.repo.outgoing = .put p :: rest) :
    c.listening = true ∧ .unlisten ∉ rest ∧
      Client.Connected value { c with repo := { c.repo with outgoing := rest } } := by
  obtain ⟨hl,hu⟩ := h.putListens [] p rest hout
  refine ⟨hl,hu,?_,?_,?_,?_,h.answered⟩
  · intro hcan
    have := (h.offline hcan).1
    simp [hout] at this
  · intro hcan
    have hsub := h.subscribed hcan
    rw [hout] at hsub
    exact hsub
  · exact fun l q l' heq => h.putListens (.put p :: l) q l' (by rw [hout]; simpa using heq)
  · exact fun hl hu => h.synced hl (by simpa [hout] using hu)

theorem Client.Connected.tells (h : c.Connected value) : (c.tell value').Connected value' := by
  unfold tell
  split
  · rename_i hl
    refine ⟨fun hcan => ?_,h.subscribed,h.putListens,fun _ _ => ?_,?_⟩
    · have := (h.offline hcan).2.2
      simp [hl] at this
    · rw [cacheAfter_append]
      rfl
    · exact answered_append h.answered fun index heq => by cases heq
  · rename_i hl
    exact ⟨h.offline,h.subscribed,h.putListens,fun htrue => absurd htrue hl,h.answered⟩

theorem Client.Connected.responds (h : c.Connected value) (hl : c.listening = true) (index : Nat)
    {status : String} (hok : status = kFWPResponseForActionStatusOk →
      ∃ p ∈ c.repo.outstandingPuts, cacheAfter c.repo.serverCache c.incoming = some p.data) :
    Client.Connected value { c with incoming := c.incoming ++ [.response index status] } := by
  refine ⟨fun hcan => ?_,h.subscribed,h.putListens,fun hl hu => ?_,?_⟩
  · have := (h.offline hcan).2.2
    simp [hl] at this
  · rw [cacheAfter_append]
    exact h.synced hl hu
  · exact answered_append h.answered fun i heq => hok (by cases heq; rfl)

end Serving

end Answr
