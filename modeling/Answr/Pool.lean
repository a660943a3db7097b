import Mathlib.Algebra.BigOperators.Group.Multiset.Basic
import Mathlib.Algebra.GroupWithZero.Nat
import Mathlib.Algebra.Order.BigOperators.Group.Multiset
set_option autoImplicit false

/-! Operations that were all issued and are carried out one at a time, in any order.
An operation can fail and can leave further operations to be done. -/

namespace Pool

variable {σ ι ε : Type}

structure Config (σ ι : Type) where
  state : σ
  pending : Multiset ι

/-- The configurations an interleaving passes through. -/
inductive Runs (run : ι → σ → Except ε (σ × List ι)) : Config σ ι → Config σ ι → Prop where
  | refl (c : Config σ ι) : Runs run c c
  | step {s s' : σ} {op : ι} {rest : Multiset ι} {more : List ι} {c : Config σ ι} :
      run op s = .ok (s',more) → Runs run ⟨s',more + rest⟩ c → Runs run ⟨s,op ::ₘ rest⟩ c

/-- No interleaving stops in an error, each can be brought to its end, and the state
in which one ends satisfies `Post`. -/
structure Ends (run : ι → σ → Except ε (σ × List ι)) (start : Config σ ι)
    (Post : σ → Prop) : Prop where
  noError : ∀ c, Runs run start c → ∀ op ∈ c.pending, ∃ r, run op c.state = .ok r
  finishes : ∀ c, Runs run start c → ∃ s, Runs run c ⟨s,0⟩
  post : ∀ s, Runs run start ⟨s,0⟩ → Post s

variable {run : ι → σ → Except ε (σ × List ι)} {Inv : Config σ ι → Prop}

theorem runs_inv
    (hstep : ∀ s op rest s' more, Inv ⟨s,op ::ₘ rest⟩ → run op s = .ok (s',more) →
      Inv ⟨s',more + rest⟩)
    {c c' : Config σ ι} (hr : Runs run c c') (hc : Inv c) : Inv c' := by
  induction hr with
  | refl => exact hc
  | step hrun _ ih => exact ih (hstep _ _ _ _ _ hc hrun)

/-- An invariant under which every operation succeeds, leaving cheaper ones. -/
def Steady (run : ι → σ → Except ε (σ × List ι)) (cost : ι → Nat) (Inv : Config σ ι → Prop) :
    Prop :=
  ∀ s op rest, Inv ⟨s,op ::ₘ rest⟩ →
    ∃ s' more, run op s = .ok (s',more) ∧ (more.map cost).sum < cost op ∧ Inv ⟨s',more + rest⟩

variable {cost : ι → Nat}

theorem Steady.runs (h : Steady run cost Inv) {c c' : Config σ ι} (hr : Runs run c c')
    (hc : Inv c) : Inv c' := by
  refine runs_inv (fun s op rest s' more hi hrun => ?_) hr hc
  obtain ⟨s₁,more₁,hrun₁,-,hi₁⟩ := h s op rest hi
  rw [hrun₁,Except.ok.injEq,Prod.mk.injEq] at hrun
  obtain ⟨rfl,rfl⟩ := hrun
  exact hi₁

theorem Steady.finishes (h : Steady run cost Inv) (s : σ) (pending : Multiset ι)
    (hc : Inv ⟨s,pending⟩) : ∃ s', Runs run ⟨s,pending⟩ ⟨s',0⟩ := by
  induction hn : (pending.map cost).sum using Nat.strong_induction_on generalizing s pending with
  | _ n ih =>
    by_cases hp : pending = 0
    · subst hp
      exact ⟨s,.refl _⟩
    · obtain ⟨op,hop⟩ := Multiset.exists_mem_of_ne_zero hp
      obtain ⟨rest,rfl⟩ := Multiset.exists_cons_of_mem hop
      obtain ⟨s',more,hrun,hcost,hi⟩ := h s op rest hc
      have hlt : (Multiset.map cost (↑more + rest)).sum < n := by
        rw [← hn]
        simp only [Multiset.map_add,Multiset.map_coe,Multiset.sum_add,Multiset.sum_coe,
          Multiset.map_cons,Multiset.sum_cons]
        omega
      obtain ⟨s'',hr⟩ := ih _ hlt s' _ hi rfl
      exact ⟨s'',.step hrun hr⟩

/-- Total correctness of a pool. -/
theorem ends_of_steady (h : Steady run cost Inv) {start : Config σ ι} (hstart : Inv start)
    {Post : σ → Prop} (hpost : ∀ s, Inv ⟨s,0⟩ → Post s) : Ends run start Post where
  noError c hr op hop := by
    obtain ⟨s,pending⟩ := c
    obtain ⟨rest,rfl⟩ := Multiset.exists_cons_of_mem hop
    obtain ⟨s',more,hrun,-⟩ := h s op rest (h.runs hr hstart)
    exact ⟨_,hrun⟩
  finishes c hr := h.finishes c.state c.pending (h.runs hr hstart)
  post s hr := hpost s (h.runs hr hstart)

/-- The interleaving that takes the operations in the order of the list, each one's
follow-ups right after it. -/
def inOrder (run : ι → σ → Except ε (σ × List ι)) : Nat → List ι → σ → Option σ
  | _, [], s => some s
  | 0, _ :: _, _ => none
  | rounds+1, op :: rest, s =>
    match run op s with
    | .ok (s',more) => inOrder run rounds (more ++ rest) s'
    | .error _ => none

theorem runs_of_inOrder {rounds : Nat} {ops : List ι} {s s' : σ}
    (h : inOrder run rounds ops s = some s') : Runs run ⟨s,ops⟩ ⟨s',0⟩ := by
  induction rounds generalizing ops s with
  | zero =>
    cases ops with
    | nil =>
      simp only [inOrder,Option.some.injEq] at h
      subst h
      exact .refl _
    | cons op rest => simp [inOrder] at h
  | succ rounds ih =>
    cases ops with
    | nil =>
      simp only [inOrder,Option.some.injEq] at h
      subst h
      exact .refl _
    | cons op rest =>
      rw [inOrder] at h
      split at h
      · rename_i s₁ more hrun
        have hr := ih h
        rw [← Multiset.coe_add] at hr
        exact .step hrun hr
      · cases h

section Effect

variable {τ : Type} [DecidableEq ι]

/-- What a pending operation will still do to an observation of the state, when
every copy of it does the same and nothing else touches the observation. -/
def due (op : ι) (f : τ → τ) (pending : Multiset ι) (t : τ) : τ := f^[pending.count op] t

@[simp] theorem due_zero (op : ι) (f : τ → τ) (t : τ) : due op f 0 t = t := rfl

theorem due_step {op op' : ι} {f : τ → τ} {rest : Multiset ι} {more : List ι} {t t' : τ}
    (hself : op' = op → t' = f t) (hother : op' ≠ op → t' = t) (hmore : op ∉ more) :
    due op f (more + rest) t' = due op f (op' ::ₘ rest) t := by
  have hnone : Multiset.count op (more : Multiset ι) = 0 := by
    rw [Multiset.coe_count]
    exact List.count_eq_zero.mpr hmore
  simp only [due,Multiset.count_add,hnone,Nat.zero_add]
  by_cases h : op' = op
  · subst h
    rw [hself rfl,Multiset.count_cons_self,Function.iterate_succ_apply]
  · rw [hother h,Multiset.count_cons_of_ne (Ne.symm h)]

end Effect

end Pool
