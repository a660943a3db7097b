import Mathlib.Data.List.Sort
set_option autoImplicit false

/-! Loops of an imperative program as total functions, with the rule that proves
them. A loop that uses up its rounds ends in an error of its own, so a normal
result is a result of the unbounded loop. -/

namespace Loops

variable {σ ε : Type}

/-- `while cond { body }`, stopped with the error `endless` when the condition
still holds after the given number of rounds. -/
def whileLoop (endless : ε) (cond : σ → Bool) (body : σ → Except ε σ) :
    Nat → σ → Except ε σ
  | 0, s => if cond s then .error endless else .ok s
  | rounds+1, s =>
    if cond s then (body s).bind (whileLoop endless cond body rounds) else .ok s

/-- The states in which the loop tests its condition when started in the first
argument. -/
inductive Visits (cond : σ → Bool) (body : σ → Except ε σ) : σ → σ → Prop where
  | start (s : σ) : Visits cond body s s
  | round {s t u : σ} : cond s = true → body s = .ok t → Visits cond body t u →
      Visits cond body s u

theorem Visits.trans {cond : σ → Bool} {body : σ → Except ε σ} {s t u : σ}
    (h₁ : Visits cond body s t) (h₂ : Visits cond body t u) : Visits cond body s u := by
  induction h₁ with
  | start => exact h₂
  | round hc hb _ ih => exact .round hc hb (ih h₂)

theorem Visits.inv {cond : σ → Bool} {body : σ → Except ε σ} {s t : σ} (Inv : σ → Prop)
    (hv : Visits cond body s t) (hs : Inv s)
    (hstep : ∀ u v, Visits cond body s u → Inv u → cond u = true → body u = .ok v → Inv v) :
    Inv t := by
  induction hv with
  | start => exact hs
  | round hc hb _ ih =>
    exact ih (hstep _ _ (.start _) hs hc hb) fun u v hu => hstep u v (.round hc hb hu)

section Rule

variable {cond : σ → Bool} {body : σ → Except ε σ}
  {Inv Good : σ → Prop} {variant : σ → Nat}

/-- One round keeps the invariant and lowers the variant, wherever the side
condition `Good` on the visited state holds. -/
def Progress (cond : σ → Bool) (body : σ → Except ε σ) (Inv Good : σ → Prop)
    (variant : σ → Nat) : Prop :=
  ∀ s, Inv s → cond s = true → Good s →
    ∃ t, body s = .ok t ∧ Inv t ∧ variant t < variant s

theorem visits_inv (hp : Progress cond body Inv Good variant) {s t : σ} (hs : Inv s)
    (hg : ∀ u, Visits cond body s u → Inv u → cond u = true → Good u)
    (hv : Visits cond body s t) : Inv t := by
  induction hv with
  | start => exact hs
  | @round s t u hc hb hv ih =>
    obtain ⟨t',ht',hi,_⟩ := hp s hs hc (hg s (.start s) hs hc)
    obtain rfl : t' = t := by rw [hb] at ht'; exact (Except.ok.inj ht').symm
    exact ih hi (fun v hv => hg v (.round hc hb hv))

/-- Total correctness: with a variant below the number of rounds the loop
returns, the invariant holds of its result and the condition does not. -/
theorem whileLoop_total (endless : ε) (hp : Progress cond body Inv Good variant)
    (rounds : Nat) {s : σ}
    (hs : Inv s) (hr : variant s ≤ rounds)
    (hg : ∀ u, Visits cond body s u → Inv u → cond u = true → Good u) :
    ∃ t, whileLoop endless cond body rounds s = .ok t ∧ Inv t ∧ cond t = false ∧
      Visits cond body s t := by
  induction rounds generalizing s with
  | zero =>
    cases hc : cond s with
    | false => exact ⟨s,by simp [whileLoop,hc],hs,hc,.start s⟩
    | true =>
      obtain ⟨t,_,_,hlt⟩ := hp s hs hc (hg s (.start s) hs hc)
      omega
  | succ rounds ih =>
    cases hc : cond s with
    | false => exact ⟨s,by simp [whileLoop,hc],hs,hc,.start s⟩
    | true =>
      obtain ⟨t,hb,hi,hlt⟩ := hp s hs hc (hg s (.start s) hs hc)
      obtain ⟨u,hu,hiu,hcu,hv⟩ := ih hi (by omega) (fun v hv => hg v (.round hc hb hv))
      refine ⟨u,?_,hiu,hcu,.round hc hb hv⟩
      simp [whileLoop,hc,hb,Except.bind,hu]

end Rule

theorem exists_falsifying_round {cond : σ → Bool} {body : σ → Except ε σ} {s t : σ}
    (P : σ → Prop) (hv : Visits cond body s t) (hs : P s) (ht : ¬ P t) :
    ∃ u v, Visits cond body s u ∧ cond u = true ∧ body u = .ok v ∧ P u ∧ ¬ P v := by
  induction hv with
  | start => exact absurd hs ht
  | @round s t u hc hb hv ih =>
    by_cases hpt : P t
    · obtain ⟨u',v,hu,hrest⟩ := ih hpt ht
      exact ⟨u',v,.round hc hb hu,hrest⟩
    · exact ⟨s,t,.start s,hc,hb,hs,hpt⟩

end Loops
