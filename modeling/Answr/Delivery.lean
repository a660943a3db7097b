import Mathlib.Data.List.Forall2
import Mathlib.Data.List.Perm.Basic
import Mathlib.Data.Option.Basic
import Answr.Steps
import Answr.Countdown
set_option autoImplicit false

/-! What joined calls hand over, whatever the order of the messages: the sub-calls are
numbered, each has its own result, and the join's is all of them in some order. -/

namespace Countdown

section Agree

variable {ρ : Type} {R : ρ → ρ → Prop} {l l' l₁ l₁' : List ρ}

/-- The same members up to their order and a relation. -/
def Agree (R : ρ → ρ → Prop) (l l' : List ρ) : Prop := ∃ m, l.Perm m ∧ List.Forall₂ R m l'

theorem agree_nil : Agree R [] [] := ⟨[],.refl _,.nil⟩

theorem Agree.trans_perm (h : Agree R l l') (hp : l'.Perm l₁') : Agree R l l₁' := by
  obtain ⟨m,hm,hrel⟩ := h
  have hcomp : Relation.Comp (List.Forall₂ R) List.Perm m l₁' := ⟨l',hrel,hp⟩
  rw [List.forall₂_comp_perm_eq_perm_comp_forall₂] at hcomp
  obtain ⟨m',hm',hrel'⟩ := hcomp
  exact ⟨m',hm.trans hm',hrel'⟩

theorem forall₂_trans (hR : ∀ a b c, R a b → R b c → R a c) (h : List.Forall₂ R l l₁)
    (h₁ : List.Forall₂ R l₁ l') : List.Forall₂ R l l' := by
  induction h generalizing l' with
  | nil => exact h₁
  | cons hab _ ih =>
    cases h₁ with
    | cons hbc hrest => exact .cons (hR _ _ _ hab hbc) (ih hrest)

theorem Agree.symm (hR : ∀ a b, R a b → R b a) (h : Agree R l l') : Agree R l' l := by
  obtain ⟨m,hm,hrel⟩ := h
  have hback : Agree R l' m := by
    refine ⟨l',.refl _,?_⟩
    exact hrel.flip.imp fun _ _ h => hR _ _ h
  exact hback.trans_perm hm.symm

theorem Agree.trans (hR : ∀ a b c, R a b → R b c → R a c) (h : Agree R l l₁)
    (h₁ : Agree R l₁ l') : Agree R l l' := by
  obtain ⟨m₁,hm₁,hrel₁⟩ := h₁
  obtain ⟨m,hm,hrel⟩ := h.trans_perm hm₁
  exact ⟨m,hm,forall₂_trans hR hrel hrel₁⟩

theorem Agree.append (h : Agree R l l') (h₁ : Agree R l₁ l₁') : Agree R (l ++ l₁) (l' ++ l₁') := by
  obtain ⟨m,hm,hrel⟩ := h
  obtain ⟨m₁,hm₁,hrel₁⟩ := h₁
  exact ⟨m ++ m₁,hm.append hm₁,List.rel_append hrel hrel₁⟩

theorem agree_map {α : Type} {f g : α → ρ} {xs ys : List α} (hp : xs.Perm ys)
    (h : ∀ x ∈ ys, R (f x) (g x)) : Agree R (xs.map f) (ys.map g) := by
  refine ⟨ys.map f,hp.map f,?_⟩
  rw [List.forall₂_map_left_iff,List.forall₂_map_right_iff]
  exact List.forall₂_same.mpr h

theorem Agree.exists_left (h : Agree R l l') {x : ρ} (hx : x ∈ l) : ∃ y ∈ l', R x y := by
  obtain ⟨m,hm,hrel⟩ := h
  obtain ⟨i,hi,rfl⟩ := List.getElem_of_mem (hm.mem_iff.mp hx)
  have hi' : i < l'.length := hrel.length_eq ▸ hi
  exact ⟨l'[i],List.getElem_mem hi',hrel.get hi hi'⟩

theorem agree_toList {r r' : Option ρ} (h : Option.Rel R r r') : Agree R r.toList r'.toList := by
  cases h with
  | none => exact agree_nil
  | some h => exact ⟨_,.refl _,.cons h .nil⟩

theorem rel_self {o o' : Option ρ} (h : o = o') : Option.Rel Eq o o' := by
  subst h
  cases o with
  | none => exact .none
  | some r => exact .some rfl

theorem agree_eq : Agree Eq l l' ↔ l.Perm l' := by
  constructor
  · rintro ⟨m,hm,hrel⟩
    rw [List.forall₂_eq_eq_eq] at hrel
    exact hrel ▸ hm
  · exact fun h => ⟨l',h,List.forall₂_same.mpr fun _ _ => rfl⟩

end Agree

section Numbered

variable {ι ρ : Type} (fired : ι → Bool) (expect : Nat → Option ρ)

/-- What the sub-calls that have called were to hand over, when they are numbered from
`k` on. -/
def due (k : Nat) (subs : List ι) : List ρ :=
  (subs.zipIdx k).filterMap fun s => if fired s.1 then expect s.2 else none

variable {fired expect} {k i : Nat} {subs : List ι} {s s' : ι}

theorem due_set (hs : subs[i]? = some s) (hf : fired s' = fired s) :
    due fired expect k (subs.set i s') = due fired expect k subs := by
  induction subs generalizing i k with
  | nil => simp at hs
  | cons x subs ih =>
    cases i with
    | zero =>
      obtain rfl : x = s := by simpa using hs
      simp [due,List.filterMap_cons,hf]
    | succ i =>
      have hrest := ih (i := i) (k := k+1) (by simpa using hs)
      simp only [due] at hrest
      simp [due,List.filterMap_cons,hrest]

theorem due_set_perm (hs : subs[i]? = some s) (hf : fired s = false) (hf' : fired s' = true) :
    (due fired expect k subs ++ (expect (k+i)).toList).Perm
      (due fired expect k (subs.set i s')) := by
  induction subs generalizing i k with
  | nil => simp at hs
  | cons x subs ih =>
    cases i with
    | zero =>
      obtain rfl : x = s := by simpa using hs
      cases he : expect k with
      | none => simp [due,hf,hf',he]
      | some r =>
        simp only [due,List.zipIdx_cons,List.filterMap_cons,List.set_cons_zero,hf,hf',he,
          Bool.false_eq_true,if_false,if_true,Option.toList_some]
        exact List.perm_append_singleton _ _
    | succ i =>
      have hrest := ih (i := i) (k := k+1) (by simpa using hs)
      rw [Nat.add_right_comm k 1 i] at hrest
      simp only [due,List.zipIdx_cons,List.set_cons_succ] at hrest ⊢
      cases hx : (if fired x then expect k else none) with
      | none =>
        simp only [List.filterMap_cons,hx]
        exact hrest
      | some r =>
        simp only [List.filterMap_cons,hx,List.cons_append]
        exact hrest.cons r

theorem due_none (h : ∀ s ∈ subs, fired s = false) : due fired expect k subs = [] := by
  rw [due,List.filterMap_eq_nil_iff]
  rintro ⟨s,n⟩ hs
  simp [h s (List.fst_mem_of_mem_zipIdx hs)]

theorem due_all (h : ∀ s ∈ subs, fired s = true) :
    due fired expect k subs = (List.range' k subs.length).filterMap expect := by
  induction subs generalizing k with
  | nil => rfl
  | cons x subs ih =>
    have hrest := ih (k := k+1) fun s hs => h s (List.mem_cons_of_mem x hs)
    have hx := h x List.mem_cons_self
    simp only [due] at hrest
    rw [due,List.zipIdx_cons,List.length_cons,List.range'_succ,List.filterMap_cons,
      List.filterMap_cons,hrest,hx,if_pos rfl]

def numbered {τ : Type} (f : Nat → τ → Option ρ) (ts : List τ) : List ρ :=
  ts.zipIdx.filterMap fun t => f t.2 t.1

theorem filterMap_range {τ : Type} (f : Nat → τ → Option ρ) (ts : List τ) :
    (List.range ts.length).filterMap (fun i => ts[i]?.bind (f i)) = numbered f ts := by
  have hall : ∀ k, (List.range' k ts.length).filterMap (fun i => ts[i-k]?.bind (f i)) =
      (ts.zipIdx k).filterMap fun t => f t.2 t.1 := by
    induction ts with
    | nil => exact fun _ => rfl
    | cons t ts ih =>
      intro k
      have hshift : (List.range' (k+1) ts.length).filterMap
          (fun i => (t :: ts)[i-k]?.bind (f i)) =
          (List.range' (k+1) ts.length).filterMap (fun i => ts[i-(k+1)]?.bind (f i)) := by
        refine List.filterMap_congr fun i hi => ?_
        obtain ⟨hle,-⟩ := List.mem_range'_1.mp hi
        obtain ⟨d,rfl⟩ := Nat.exists_eq_add_of_le hle
        have hsub : k+1+d-k = d+1 := by omega
        rw [hsub,List.getElem?_cons_succ,Nat.add_sub_cancel_left]
      rw [List.length_cons,List.range'_succ,List.zipIdx_cons,List.filterMap_cons,
        List.filterMap_cons,hshift,ih]
      simp
  rw [List.range_eq_range']
  exact hall 0

end Numbered

section Deliver

variable {ι ρ α ε σ β : Type}

/-- Calls that hand such a result to their handler, once at most. -/
structure Delivers (answer : α → σ → Except ε (σ × Option β)) (fired : σ → Bool)
    (Msg : α → Prop) (Ok : σ → Prop) (Result : β → Prop) : Prop
    extends Once answer fired Msg Ok where
  result : ∀ a s s' r, Msg a → Ok s → answer a s = .ok (s',some r) → Result r

theorem delivers_at {κ : Type} {answer : α → σ → Except ε (σ × Option β)} {fired : σ → Bool}
    {Msg : α → Prop} {Ok : κ → σ → Prop} {ResultAt : κ → β → Prop} {Result : β → Prop}
    {key : Option κ} (h : ∀ k, Delivers answer fired Msg (Ok k) (ResultAt k))
    (hresult : ∀ k r, key = some k → ResultAt k r → Result r) :
    Delivers answer fired Msg (fun s => ∃ k, key = some k ∧ Ok k s) Result where
  quiet m s s' hm hok hrun := by
    obtain ⟨k,hk,hok⟩ := hok
    obtain ⟨hok',hf⟩ := (h k).quiet m s s' hm hok hrun
    exact ⟨⟨k,hk,hok'⟩,hf⟩
  calls m s s' r hm hok hrun := by
    obtain ⟨k,hk,hok⟩ := hok
    obtain ⟨hok',hf⟩ := (h k).calls m s s' r hm hok hrun
    exact ⟨⟨k,hk,hok'⟩,hf⟩
  result m s s' r hm hok hrun := by
    obtain ⟨k,hk,hok⟩ := hok
    exact hresult k r hk ((h k).result m s s' r hm hok hrun)

/-- A join of `n` numbered sub-calls that has collected what those that have called
were to hand over. -/
structure Join.Tracking (fired : ι → Bool) (Ok : Nat → ι → Prop) (R : ρ → ρ → Prop)
    (expect : Nat → Option ρ) (n : Nat) (j : Join ι ρ) : Prop where
  length : j.subs.length = n
  subs : ∀ i s, j.subs[i]? = some s → Ok i s
  counting : j.Counting fired fun _ => True
  collected : Agree R j.collected (due fired expect 0 j.subs)

variable {fired : ι → Bool} {Ok : Nat → ι → Prop} {R : ρ → ρ → Prop} {expect : Nat → Option ρ}
  {n i : Nat} {answer : α → ι → Except ε (ι × Option (Option ρ))} {Msg : Nat → α → Prop}
  {j j' : Join ι ρ} {a : α} {called : Option (List ρ)} {s s' : ι}

theorem Join.tracking_start {subs : List ι} (hok : ∀ i s, subs[i]? = some s → Ok i s)
    (hnone : ∀ s ∈ subs, fired s = false) :
    (Join.start (ρ := ρ) subs).Tracking fired Ok R expect subs.length where
  length := rfl
  subs := hok
  counting := Join.counting_start (fun _ _ => trivial) hnone
  collected := by
    rw [Join.start,due_none hnone]
    exact agree_nil

theorem Join.tracking_map {κ : Type} {keys : List κ} {start : κ → ι}
    (hok : ∀ i k, keys[i]? = some k → Ok i (start k)) (hnone : ∀ k, fired (start k) = false) :
    (Join.start (ρ := ρ) (keys.map start)).Tracking fired Ok R expect keys.length := by
  have hsubs : ∀ i s, (keys.map start)[i]? = some s → Ok i s := by
    intro i s hs
    rw [List.getElem?_map,Option.map_eq_some_iff] at hs
    obtain ⟨k,hk,rfl⟩ := hs
    exact hok i k hk
  have hfired : ∀ s ∈ keys.map start, fired s = false := by
    intro s hs
    obtain ⟨k,-,rfl⟩ := List.mem_map.mp hs
    exact hnone k
  have h : Join.Tracking fired Ok R expect _ (Join.start (ρ := ρ) (keys.map start)) :=
    Join.tracking_start hsubs hfired
  rwa [List.length_map] at h

theorem ok_set {subs : List ι} (h : ∀ i s, subs[i]? = some s → Ok i s) (h' : Ok i s') :
    ∀ k s, (subs.set i s')[k]? = some s → Ok k s := by
  intro k s hs
  rw [List.getElem?_set] at hs
  split at hs
  · rename_i hik
    subst hik
    split at hs
    · exact Option.some.inj hs ▸ h'
    · cases hs
  · exact h k s hs

theorem Join.Tracking.quiet (h : j.Tracking fired Ok R expect n) (hs : j.subs[i]? = some s)
    (hok : Ok i s') (hf : fired s' = fired s) :
    Join.Tracking fired Ok R expect n { j with subs := j.subs.set i s' } where
  length := by simpa using h.length
  subs := ok_set h.subs hok
  counting := h.counting.quiet hs trivial hf
  collected := by
    rw [due_set hs hf]
    exact h.collected

theorem Join.Tracking.handle (h : j.Tracking fired Ok R expect n) (hs : j.subs[i]? = some s)
    (hok : Ok i s') (hf : fired s = false) (hf' : fired s' = true) {result : Option ρ}
    (hr : Option.Rel R result (expect i)) :
    Join.Tracking fired Ok R expect n
      ⟨j.subs.set i s',j.counter-1,j.collected ++ result.toList⟩ where
  length := by simpa using h.length
  subs := ok_set h.subs hok
  counting := h.counting.handle hs trivial hf hf' result
  collected := by
    have hperm := @due_set_perm ι ρ fired expect 0 i j.subs s s' hs hf hf'
    rw [Nat.zero_add] at hperm
    exact (h.collected.append (agree_toList hr)).trans_perm hperm

theorem Join.Tracking.all (h : j.Tracking fired Ok R expect n) (he : j.ended fired = true) :
    Agree R j.collected ((List.range n).filterMap expect) := by
  have hall : ∀ s ∈ j.subs, fired s = true := by
    rw [Join.ended,Bool.and_eq_true,List.all_eq_true] at he
    exact he.2
  have hc := h.collected
  rwa [due_all hall,h.length,← List.range_eq_range'] at hc

theorem Join.Tracking.next (h : j.Tracking fired Ok R expect n)
    (hsub : ∀ i, Delivers answer fired (Msg i) (Ok i) fun r => Option.Rel R r (expect i))
    (hm : Msg i a) (hrun : j.answer answer i a = .ok (j',called)) :
    j'.Tracking fired Ok R expect n := by
  obtain ⟨rfl,-⟩ | ⟨s,s',hs,⟨ha,rfl,-⟩ | ⟨result,ha,rfl,-⟩⟩ := Join.answer_ok hrun
  · exact h
  · obtain ⟨hok,hf⟩ := (hsub i).quiet _ _ _ hm (h.subs i s hs) ha
    exact h.quiet hs hok hf
  · obtain ⟨hok,hf,hf'⟩ := (hsub i).calls _ _ _ _ hm (h.subs i s hs) ha
    exact h.handle hs hok hf hf' ((hsub i).result _ _ _ _ hm (h.subs i s hs) ha)

/-- A join of sub-calls that deliver delivers what they were to hand over. -/
theorem delivers_join
    (h : ∀ i, Delivers answer fired (Msg i) (Ok i) fun r => Option.Rel R r (expect i)) :
    Delivers (fun (m : Nat × α) (j : Join ι ρ) => j.answer answer m.1 m.2) (Join.ended fired)
      (fun m => Msg m.1 m.2) (Join.Tracking fired Ok R expect n)
      (fun results => Agree R results ((List.range n).filterMap expect)) where
  quiet m j j' hm hj hrun := by
    refine ⟨hj.next h hm hrun,?_⟩
    obtain ⟨rfl,-⟩ | ⟨s,s',hs,⟨ha,rfl,-⟩ | ⟨result,ha,rfl,hnone⟩⟩ := Join.answer_ok hrun
    · rfl
    · exact hj.counting.ended_quiet hs ((h m.1).quiet _ _ _ hm (hj.subs m.1 s hs) ha).2
    · obtain ⟨-,hf,hf'⟩ := (h m.1).calls _ _ _ _ hm (hj.subs m.1 s hs) ha
      exact hj.counting.ended_handle hs hf hf' hnone
  calls m j j' r hm hj hrun := by
    refine ⟨hj.next h hm hrun,?_⟩
    obtain ⟨-,hnone⟩ | ⟨s,s',hs,⟨-,-,hnone⟩ | ⟨result,ha,rfl,hsome⟩⟩ := Join.answer_ok hrun
    · cases hnone
    · cases hnone
    · obtain ⟨-,hf,hf'⟩ := (h m.1).calls _ _ _ _ hm (hj.subs m.1 s hs) ha
      exact hj.counting.ended_calls hs hf hf' hsome
  result m j j' r hm hj hrun := by
    have hj' := hj.next h hm hrun
    rw [← Join.called_eq hrun]
    apply hj'.all
    obtain ⟨-,hnone⟩ | ⟨s,s',hs,⟨-,-,hnone⟩ | ⟨result,ha,rfl,hsome⟩⟩ := Join.answer_ok hrun
    · cases hnone
    · cases hnone
    · obtain ⟨-,hf,hf'⟩ := (h m.1).calls _ _ _ _ hm (hj.subs m.1 s hs) ha
      exact (hj.counting.ended_calls hs hf hf' hsome).2

end Deliver

section Calls

variable {α ε σ β : Type}

/-- A call, with what it has handed to its handler, the latest first. -/
structure Calls (σ β : Type) where
  state : σ
  calls : List β
  deriving DecidableEq, Repr

/-- A message that stops the app has no next state. -/
def Calls.step (answer : α → σ → Except ε (σ × Option β)) (run : Calls σ β) (a : α) :
    Option (Calls σ β) :=
  match answer a run.state with
  | .error _ => none
  | .ok (s,called) => some ⟨s,called.toList ++ run.calls⟩

variable {answer : α → σ → Except ε (σ × Option β)} {fired waiting : σ → Bool} {Msg : α → Prop}
  {Ok : σ → Prop} {Result : β → Prop} {work : σ → Nat} {run run' : Calls σ β} {a : α}

theorem Calls.of_step (h : run.step answer a = some run') :
    ∃ s called, answer a run.state = .ok (s,called) ∧ run' = ⟨s,called.toList ++ run.calls⟩ := by
  unfold Calls.step at h
  split at h
  · cases h
  · rename_i s called hrun
    exact ⟨s,called,hrun,(Option.some.inj h).symm⟩

structure Calls.Keeps (fired : σ → Bool) (Ok : σ → Prop) (Result : β → Prop)
    (run : Calls σ β) : Prop where
  ok : Ok run.state
  once : run.calls.length = if fired run.state then 1 else 0
  results : ∀ r ∈ run.calls, Result r

theorem Calls.Keeps.called_iff (h : run.Keeps fired Ok Result) :
    run.calls ≠ [] ↔ fired run.state = true := by
  rw [← List.length_pos_iff,h.once]
  cases fired run.state <;> simp

theorem Calls.Keeps.step (h : run.Keeps fired Ok Result)
    (hd : Delivers answer fired Msg Ok Result) (hm : Msg a)
    (hs : run.step answer a = some run') : run'.Keeps fired Ok Result := by
  obtain ⟨s,called,hrun,rfl⟩ := Calls.of_step hs
  cases called with
  | none =>
    obtain ⟨hok,hf⟩ := hd.quiet _ _ _ hm h.ok hrun
    refine ⟨hok,?_,h.results⟩
    rw [hf]
    exact h.once
  | some r =>
    obtain ⟨hok,hf,hf'⟩ := hd.calls _ _ _ _ hm h.ok hrun
    have hnone := h.once
    rw [hf] at hnone
    refine ⟨hok,?_,?_⟩
    · simp [hf',hnone]
    · intro r' hr'
      rcases List.mem_cons.mp hr' with rfl | hr'
      · exact hd.result _ _ _ _ hm h.ok hrun
      · exact h.results r' hr'

open Steps in
theorem Calls.keeps_of_reaches {s : σ} (hd : Delivers answer fired Msg Ok Result) (hok : Ok s)
    (hf : fired s = false) (hr : Reaches (Calls.step answer) (fun _ a => Msg a) ⟨s,[]⟩ run) :
    run.Keeps fired Ok Result := by
  have hstart : Calls.Keeps fired Ok Result ⟨s,[]⟩ := ⟨hok,by simp [hf],by simp⟩
  have hstep : ∀ run a run', Calls.Keeps fired Ok Result run → Msg a →
      Calls.step answer run a = some run' → Calls.Keeps fired Ok Result run' :=
    fun _ _ _ h hm hs => h.step hd hm hs
  exact hr.inv hstep hstart

/-- While a call waits for something, there is a message that brings it on. -/
def Progresses (answer : α → σ → Except ε (σ × Option β)) (Msg : α → Prop) (Ok : σ → Prop)
    (waiting : σ → Bool) (work : σ → Nat) : Prop :=
  ∀ s, Ok s → waiting s = true → ∃ a, Msg a ∧ ∀ s' called, answer a s = .ok (s',called) →
    work s' < work s

open Steps in
/-- A call that is never stopped can be brought to wait for nothing. -/
theorem exists_settled {start : Calls σ β} (hp : Progresses answer Msg Ok waiting work)
    (hok : ∀ run, Reaches (Calls.step answer) (fun _ a => Msg a) start run → Ok run.state)
    (hgo : ∀ run, Reaches (Calls.step answer) (fun _ a => Msg a) start run →
      ∀ a, Msg a → (run.step answer a).isSome = true)
    (hr : Reaches (Calls.step answer) (fun _ a => Msg a) start run) :
    ∃ run', Reaches (Calls.step answer) (fun _ a => Msg a) start run' ∧
      waiting run'.state = false := by
  induction hn : work run.state using Nat.strong_induction_on generalizing run with
  | _ n ih =>
    cases hw : waiting run.state with
    | false => exact ⟨run,hr,hw⟩
    | true =>
      obtain ⟨a,hm,hless⟩ := hp run.state (hok run hr) hw
      obtain ⟨run₁,hrun₁⟩ := Option.isSome_iff_exists.mp (hgo run hr a hm)
      obtain ⟨s,called,hrun,rfl⟩ := Calls.of_step hrun₁
      exact ih _ (hn ▸ hless s called hrun) (hr.next hm hrun₁) rfl

end Calls

section Settling

variable {ι ρ α ε : Type} {fired waiting : ι → Bool} {Ok : Nat → ι → Prop} {R : ρ → ρ → Prop}
  {expect : Nat → Option ρ} {n i k : Nat} {j j' : Join ι ρ} {Fine : Nat → Prop}
  {answer : α → ι → Except ε (ι × Option (Option ρ))} {Msg : Nat → α → Prop}
  {work : Nat → ι → Nat} {subs : List ι} {s s' : ι}

theorem Join.Tracking.settled_of_ended (h : j.Tracking fired Ok R expect n)
    (hsub : ∀ i s, Ok i s → fired s = true → waiting s = false) (he : j.ended fired = true) :
    j.subs.any waiting = false := by
  rw [Join.ended,Bool.and_eq_true,List.all_eq_true] at he
  rw [List.any_eq_false]
  intro s hs
  obtain ⟨i,hi⟩ := List.getElem?_of_mem hs
  rw [hsub i s (h.subs i s hi) (he.2 s hs)]
  exact Bool.false_ne_true

/-- When nothing is waited for, the join has called exactly if there were sub-calls and
all went well. -/
theorem Join.Tracking.ended_iff_fine (h : j.Tracking fired Ok R expect n)
    (hsub : ∀ i s, Ok i s → waiting s = false → (fired s = true ↔ Fine i))
    (hnone : j.subs.any waiting = false) :
    j.ended fired = true ↔ n ≠ 0 ∧ ∀ i < n, Fine i := by
  rw [List.any_eq_false] at hnone
  have hiff : ∀ i s, j.subs[i]? = some s → (fired s = true ↔ Fine i) := fun i s hi =>
    hsub i s (h.subs i s hi) (by simpa using hnone s (List.mem_of_getElem? hi))
  rw [Join.ended,Bool.and_eq_true,List.all_eq_true]
  constructor
  · rintro ⟨hne,hall⟩
    refine ⟨fun hz => ?_,fun i hi => ?_⟩
    · have hnil := List.length_eq_zero_iff.mp (h.length.trans hz)
      simp [hnil] at hne
    · have hlt : i < j.subs.length := h.length ▸ hi
      exact (hiff i _ (List.getElem?_eq_getElem hlt)).mp (hall _ (List.getElem_mem hlt))
  · rintro ⟨hne,hall⟩
    refine ⟨?_,fun s hs => ?_⟩
    · cases hj : j.subs with
      | nil => exact absurd (h.length.symm.trans (by simp [hj])) hne
      | cons s subs => rfl
    · obtain ⟨i,hi⟩ := List.getElem?_of_mem hs
      have hlt : i < n := h.length ▸ (List.getElem?_eq_some_iff.mp hi).1
      exact (hiff i s hi).mpr (hall i hlt)

theorem Join.Tracking.answer_ok (h : j.Tracking fired Ok R expect n) {a : α}
    (hsub : ∀ i s a e, i < n → Ok i s → Msg i a → answer a s ≠ .error e) (hm : Msg i a) (e : ε) :
    j.answer answer i a ≠ .error e := by
  intro herr
  rw [Join.answer] at herr
  split at herr
  · cases herr
  · rename_i s hs
    have hlt : i < n := h.length ▸ (List.getElem?_eq_some_iff.mp hs).1
    split at herr
    · rename_i e' ha
      exact hsub i s a e' hlt (h.subs i s hs) hm ha
    · cases herr
    · cases herr

def totalWork (work : Nat → ι → Nat) (k : Nat) (subs : List ι) : Nat :=
  ((subs.zipIdx k).map fun s => work s.2 s.1).sum

theorem totalWork_set (hs : subs[i]? = some s) (hless : work (k+i) s' < work (k+i) s) :
    totalWork work k (subs.set i s') < totalWork work k subs := by
  induction subs generalizing i k with
  | nil => simp at hs
  | cons x subs ih =>
    cases i with
    | zero =>
      obtain rfl : x = s := by simpa using hs
      simpa [totalWork] using hless
    | succ i =>
      have hrest := ih (i := i) (k := k+1) (by simpa using hs) (by
        rw [Nat.add_right_comm k 1 i]
        exact hless)
      simpa [totalWork] using hrest

theorem progresses_join (h : ∀ i, Progresses answer (Msg i) (Ok i) waiting (work i)) :
    Progresses (fun (m : Nat × α) (j : Join ι ρ) => j.answer answer m.1 m.2)
      (fun m => Msg m.1 m.2) (Join.Tracking fired Ok R expect n) (fun j => j.subs.any waiting)
      (fun j => totalWork work 0 j.subs) := by
  intro j hj hw
  obtain ⟨s,hs,hws⟩ := List.any_eq_true.mp hw
  obtain ⟨i,hi⟩ := List.getElem?_of_mem hs
  obtain ⟨a,hm,hless⟩ := h i s (hj.subs i s hi) hws
  have hset : ∀ s' called, answer a s = .ok (s',called) →
      totalWork work 0 (j.subs.set i s') < totalWork work 0 j.subs := by
    intro s' called ha
    refine totalWork_set hi ?_
    rw [Nat.zero_add]
    exact hless s' called ha
  refine ⟨(i,a),hm,fun j' called hrun => ?_⟩
  simp only [Join.answer,hi] at hrun
  split at hrun
  · cases hrun
  · rename_i s' ha
    obtain ⟨rfl,-⟩ := Prod.mk.inj (Except.ok.inj hrun)
    exact hset s' _ ha
  · rename_i s' result ha
    obtain ⟨rfl,-⟩ := Prod.mk.inj (Except.ok.inj hrun)
    exact hset s' _ ha

end Settling

end Countdown
