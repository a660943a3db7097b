import Mathlib.Logic.Basic
set_option autoImplicit false

/-! A system that takes one event at a time, where the event is possible, and the
states that it reaches by events which meet a condition. -/

namespace Steps

variable {σ ε : Type}

inductive Reaches (step : σ → ε → Option σ) (Meets : σ → ε → Prop) (start : σ) : σ → Prop where
  | start : Reaches step Meets start start
  | next {s s' : σ} {e : ε} : Reaches step Meets start s → Meets s e → step s e = some s' →
      Reaches step Meets start s'

variable {step : σ → ε → Option σ} {Meets Meets' : σ → ε → Prop} {Inv : σ → Prop}
  {start s s' : σ}

/-- What the start satisfies and every step keeps holds in all states reached. -/
theorem Reaches.inv (h : Reaches step Meets start s)
    (hstep : ∀ s e s', Inv s → Meets s e → step s e = some s' → Inv s') (hstart : Inv start) :
    Inv s := by
  induction h with
  | start => exact hstart
  | next _ hmeets hs ih => exact hstep _ _ _ ih hmeets hs

theorem Reaches.mono (h : Reaches step Meets start s) (hmeets : ∀ s e, Meets s e → Meets' s e) :
    Reaches step Meets' start s := by
  induction h with
  | start => exact .start
  | next _ hm hs ih => exact .next ih (hmeets _ _ hm) hs

theorem Reaches.trans (h : Reaches step Meets start s) (h' : Reaches step Meets s s') :
    Reaches step Meets start s' := by
  induction h' with
  | start => exact h
  | next _ hm hs ih => exact .next ih hm hs

section Play

/-- The state after a list of events, if each of them is possible and meets the
condition where it happens. -/
def play (step : σ → ε → Option σ) (Meets : σ → ε → Prop) [∀ s e, Decidable (Meets s e)] :
    σ → List ε → Option σ
  | s, [] => some s
  | s, e :: es => if Meets s e then (step s e).bind fun s' => play step Meets s' es else none

theorem reaches_of_play [∀ s e, Decidable (Meets s e)] {es : List ε}
    (h : play step Meets start es = some s) : Reaches step Meets start s := by
  induction es generalizing start with
  | nil =>
    simp only [play,Option.some.injEq] at h
    exact h ▸ .start
  | cons e es ih =>
    rw [play] at h
    split at h
    · rename_i hmeets
      obtain ⟨s₁,hs,hrest⟩ := Option.bind_eq_some_iff.mp h
      exact (Reaches.next .start hmeets hs).trans (ih hrest)
    · cases h

end Play

end Steps
