import Answr.Served
import Mathlib.Logic.Function.Defs
set_option autoImplicit false

/-! Runs of clients that run transactions at one location. The changes of the value are
logged at the server; in quiet runs the log is a serial history of them. -/

namespace Answr
open Steps

variable {ι V H : Type}

section Logs

/-- The value after the changes of a log, if every update in it has one. -/
def replay : V → List (Change ι V) → Option V
  | value, [] => some value
  | value, .transaction _ t :: log => (t.update value).bind fun value' => replay value' log
  | _, .other value :: log => replay value log

theorem replay_append (value : V) (log log' : List (Change ι V)) :
    replay value (log ++ log') = (replay value log).bind fun value' => replay value' log' := by
  induction log generalizing value with
  | nil => rfl
  | cons change log ih =>
    cases change with
    | transaction i t =>
      cases h : t.update value with
      | none => simp [replay,h]
      | some value' => simp [replay,h,ih]
    | other value' => exact ih value'

theorem replay_chained (i : ι) {base : V} {queue : List (Transaction V)} (h : Chained base queue) :
    replay base (queue.map (.transaction i)) = some (lastOutput base queue) := by
  induction queue generalizing base with
  | nil => rfl
  | cons t queue ih =>
    simp only [List.map_cons,replay,h.1,Option.bind_some]
    exact ih h.2

/-- Every transaction of the log left what its client computed. -/
def Faithful (start : V) (log : List (Change ι V)) : Prop :=
  ∀ l i t l', log = l ++ .transaction i t :: l' →
    replay start (l ++ [.transaction i t]) = some t.currentOutput

theorem faithful_append {start value : V} {log : List (Change ι V)} (h : Faithful start log)
    (hvalue : replay start log = some value) (i : ι) {queue : List (Transaction V)}
    (hchained : Chained value queue) :
    Faithful start (log ++ queue.map (.transaction i)) := by
  intro l j t l' heq
  rcases List.append_eq_append_iff.mp heq with ⟨k,rfl,hk⟩ | ⟨k,hk,hl'⟩
  · obtain ⟨queue₁,queue₂,rfl,rfl,hmap⟩ := List.map_eq_append_iff.mp hk
    obtain ⟨u,queue₃,rfl,hu,-⟩ := List.map_eq_cons_iff.mp hmap
    cases hu
    rw [List.append_assoc,replay_append,hvalue,Option.bind_some]
    have hsplit : queue₁ ++ t :: queue₃ = (queue₁ ++ [t]) ++ queue₃ := by simp
    rw [hsplit,chained_append] at hchained
    have hrun := replay_chained i hchained.1
    rw [List.map_append,lastOutput_append] at hrun
    exact hrun
  · cases k with
    | nil =>
      rw [List.append_nil] at hk
      rw [List.nil_append] at hl'
      obtain ⟨u,queue₃,rfl,hu,-⟩ := List.map_eq_cons_iff.mp hl'.symm
      cases hu
      rw [← hk,replay_append,hvalue,Option.bind_some]
      exact replay_chained i (show Chained value [t] from ⟨hchained.1,trivial⟩)
    | cons change k =>
      rw [List.cons_append,List.cons.injEq] at hl'
      obtain ⟨rfl,-⟩ := hl'
      exact h l j t k hk

end Logs

section System

variable [DecidableEq ι]

def Change.by? (i : ι) : Change ι V → Option (Transaction V)
  | .transaction j t => if j = i then some t else none
  | .other _ => none

def Exchange.applied (s : Exchange ι V H) (i : ι) : List (Transaction V) :=
  s.log.filterMap (Change.by? i)

theorem filterMap_by (i : ι) (queue : List (Transaction V)) :
    (queue.map (.transaction i)).filterMap (Change.by? i) = queue := by
  rw [List.filterMap_map]
  exact (List.filterMap_congr fun t _ => by simp [Change.by?]).trans List.filterMap_some

theorem filterMap_by_ne {i j : ι} (h : i ≠ j) (queue : List (Transaction V)) :
    (queue.map (.transaction i)).filterMap (Change.by? j) = [] := by
  rw [List.filterMap_eq_nil_iff]
  intro change hmem
  obtain ⟨t,-,rfl⟩ := List.mem_map.mp hmem
  simp [Change.by?,h]

variable [Inhabited V] {quiet : Prop} {dataHash : V → H}
  {start value : V} {s s' : Exchange ι V H} {i : ι} {c : Client V H} {p : Put V H}

structure Exchange.Ok (quiet : Prop) (dataHash : V → H) (start : V) (s : Exchange ι V H) :
    Prop where
  clients : ∀ i, (s.clients i).Ok quiet dataHash s.value (s.applied i)
  replays : quiet → replay start s.log = some s.value
  faithful : quiet → Faithful start s.log

theorem Exchange.Ok.modify (h : s.Ok quiet dataHash start)
    (hc : c.Ok quiet dataHash s.value (s.applied i)) : (s.modify i c).Ok quiet dataHash start := by
  refine ⟨fun j => ?_,h.replays,h.faithful⟩
  simp only [Exchange.modify]
  by_cases hj : j = i
  · subst hj
    rw [Function.update_self]
    exact hc
  · rw [Function.update_of_ne hj]
    exact h.clients j

theorem Exchange.Ok.accept (h : s.Ok quiet dataHash start) (hgood : quiet → p.Good dataHash)
    (hhash : p.hash = dataHash s.value) (hinj : quiet → Function.Injective dataHash) (i : ι) :
    (quiet → replay start (s.log ++ p.queue.map (.transaction i)) = some p.data) ∧
      (quiet → Faithful start (s.log ++ p.queue.map (.transaction i))) := by
  have hbase : quiet → Chained s.value p.queue ∧ p.data = lastOutput s.value p.queue := by
    intro hq
    obtain ⟨base,hbase,hchained,hdata⟩ := hgood hq
    obtain rfl : base = s.value := hinj hq (hbase.symm.trans hhash)
    exact ⟨hchained,hdata⟩
  refine ⟨fun hq => ?_,fun hq => faithful_append (h.faithful hq) (h.replays hq) i (hbase hq).1⟩
  rw [replay_append,h.replays hq,Option.bind_some,replay_chained i (hbase hq).1,(hbase hq).2]

variable [DecidableEq V]

theorem Exchange.Ok.other (h : s.Ok quiet dataHash start) {j : ι} (hj : i ≠ j)
    (announce : Bool) :
    Client.Ok quiet dataHash p.data
      ((s.log ++ p.queue.map (Change.transaction i)).filterMap (Change.by? j))
      (if p.data ≠ s.value ∨ announce then (s.clients j).tell p.data else s.clients j) := by
  rw [List.filterMap_append,filterMap_by_ne hj,List.append_nil]
  split
  · exact (h.clients j).tell
  · rename_i hsame
    have hvalue : p.data = s.value := by
      by_contra hne
      exact hsame (.inl hne)
    rw [hvalue]
    exact h.clients j

variable [DecidableEq H]

theorem Exchange.Ok.serve (h : s.Ok quiet dataHash start) {status : String} {announce : Bool}
    (hinj : quiet → Function.Injective dataHash)
    (hs : s.serve dataHash i status announce = some s') : s'.Ok quiet dataHash start := by
  have hc := h.clients i
  simp only [Exchange.serve] at hs
  split at hs
  · cases hs
  · rename_i outgoing hout
    obtain rfl := Option.some.inj hs
    exact h.modify (hc.listens hout)
  · rename_i outgoing hout
    obtain rfl := Option.some.inj hs
    exact h.modify (hc.unlistens hout)
  · rename_i p outgoing hout
    generalize hs₁ : s.modify i { s.clients i with
      repo := { (s.clients i).repo with outgoing := outgoing } } = s₁ at hs
    have hself : s₁.clients i = { s.clients i with
        repo := { (s.clients i).repo with outgoing := outgoing } } := by
      rw [← hs₁]
      exact Function.update_self _ _ _
    have hother : ∀ j, i ≠ j → s₁.clients j = s.clients j := by
      intro j hj
      rw [← hs₁]
      exact Function.update_of_ne (Ne.symm hj) _ _
    have hvalue : s₁.value = s.value := by rw [← hs₁]; rfl
    have hlog : s₁.log = s.log := by rw [← hs₁]; rfl
    split at hs
    · rename_i hstatus
      subst hstatus
      obtain ⟨s₂,hs₂,rfl⟩ := Option.map_eq_some_iff.mp hs
      obtain ⟨hhash,hvalue₂,hlog₂,hclients⟩ := Exchange.accept_some hs₂
      rw [hvalue] at hhash hclients
      rw [hlog] at hlog₂
      obtain ⟨hreplays,hfaithful⟩ := h.accept (hc.good_outgoing hout) hhash hinj i
      refine ⟨fun j => ?_,?_,?_⟩
      · by_cases hj : i = j
        · subst hj
          have htold := hclients i
          rw [hself] at htold
          have haccepted := hc.accepted hout announce htold
          simp only [Exchange.respond,Exchange.modify,Exchange.applied,Function.update_self,
            hvalue₂,hlog₂,List.filterMap_append,filterMap_by]
          exact haccepted
        · have hrest := h.other (p := p) hj announce
          simp only [Exchange.respond,Exchange.modify,Exchange.applied,
            Function.update_of_ne (Ne.symm hj),hvalue₂,hlog₂,hclients,hother j hj]
          exact hrest
      · simp only [Exchange.respond,Exchange.modify,hvalue₂,hlog₂]
        exact hreplays
      · simp only [Exchange.respond,Exchange.modify,hlog₂]
        exact hfaithful
    · rename_i hnotOk
      split at hs
      · cases hs
      · rename_i hstatus
        obtain rfl := Option.some.inj hs
        rw [Exchange.respond,hself,← hs₁]
        have hmodify : ∀ c' : Client V H, (s.modify i { s.clients i with
            repo := { (s.clients i).repo with outgoing := outgoing } }).modify i c' =
              s.modify i c' := by
          intro c'
          simp [Exchange.modify]
        rw [hmodify]
        exact h.modify (hc.refuses hout hnotOk hstatus)

theorem Exchange.Ok.late (h : s.Ok quiet dataHash start) {n : Nat} {accepted announce : Bool}
    (hinj : quiet → Function.Injective dataHash)
    (hs : s.step dataHash (.late i n accepted announce) = some s') :
    s'.Ok quiet dataHash start := by
  have hc := h.clients i
  simp only [Exchange.step] at hs
  split at hs
  · cases hs
  · rename_i p hp
    generalize hs₁ : s.modify i { s.clients i with late := (s.clients i).late.eraseIdx n } = s₁
      at hs
    have hself : s₁.clients i = { s.clients i with late := (s.clients i).late.eraseIdx n } := by
      rw [← hs₁]
      exact Function.update_self _ _ _
    have hother : ∀ j, i ≠ j → s₁.clients j = s.clients j := by
      intro j hj
      rw [← hs₁]
      exact Function.update_of_ne (Ne.symm hj) _ _
    have hvalue : s₁.value = s.value := by rw [← hs₁]; rfl
    have hlog : s₁.log = s.log := by rw [← hs₁]; rfl
    cases accepted with
    | false =>
      obtain rfl := Option.some.inj hs
      rw [← hs₁]
      exact h.modify (hc.dropsLate hp)
    | true =>
      obtain ⟨hhash,hvalue₂,hlog₂,hclients⟩ := Exchange.accept_some hs
      rw [hvalue] at hhash hclients
      rw [hlog] at hlog₂
      obtain ⟨hreplays,hfaithful⟩ := h.accept (hc.good_late (List.mem_of_getElem? hp)) hhash hinj i
      refine ⟨fun j => ?_,by rw [hlog₂,hvalue₂]; exact hreplays,by rw [hlog₂]; exact hfaithful⟩
      by_cases hj : i = j
      · subst hj
        have happlied := hc.appliesLate hp
        rw [Exchange.applied,hlog₂,hvalue₂,hclients,hself,List.filterMap_append,filterMap_by]
        split
        · exact happlied.tell
        · rename_i hsame
          have hdata : p.data = s.value := by
            by_contra hne
            exact hsame (.inl hne)
          rw [hdata]
          exact happlied
      · rw [Exchange.applied,hlog₂,hvalue₂,hclients,hother j hj]
        exact h.other hj announce

-- A transaction that waits runs again without the one that was sent before it, and
-- overwrites it: 10 less 3 less 2 ends as 8.
example : (play (Exchange.step id) (fun _ _ => True) (.initial (10 : Int)) [
      .reconnect () 0,.runTransactionBlock () fun n => some (n - 3),.serve () "" false,
      .serve () "datastale" false,.receive () false,.receive () false,.receive () false,
      .runTransactionBlock () fun n => some (n - 2),.resend (),.receive () true,
      .serve () "ok" false,.receive () false,.receive () false,.serve () "ok" false,
      .receive () false,.receive () false]).map (fun s => (s.value,(s.clients ()).repo.reports)) =
    some (8,[⟨0,none,true,7⟩,⟨1,none,true,8⟩]) := rfl

-- While the response to the first put is held back somebody writes 20. The second
-- transaction has run on 7, is sent with the hash of 20 and overwrites it.
example : (play (Exchange.step id) (fun _ _ => True) (.initial (10 : Int)) [
      .reconnect () 0,.runTransactionBlock () fun n => some (n - 3),.serve () "" false,
      .serve () "datastale" false,.receive () false,.receive () false,.receive () false,
      .listenElsewhere (),.serve () "ok" false,.receive () false,.receive () false,
      .runTransactionBlock () fun n => some (n - 2),.others 20,.receive () false,
      .answerElsewhere (),.receive () false,.serve () "ok" false,.receive () false,
      .receive () false]).map (fun s => (s.value,(s.clients ()).repo.reports)) =
    some (5,[⟨0,none,true,7⟩,⟨1,none,true,5⟩]) := rfl

end System

end Answr
