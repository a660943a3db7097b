import Answr.LLRB
import Mathlib.Algebra.Group.Nat.Defs
set_option autoImplicit false

/-! The tree of a node's children stays balanced: no red node has a red child or leans to
the right, and every path passes as many black nodes. -/

namespace Answr
open Std Entries

namespace LLRBNode

variable {κ ν : Type}

section Invariant

/-- A balanced tree, with the color of its root and its black depth. -/
inductive Balanced : LLRBNode κ ν → LLRBColor → Nat → Prop where
  | empty : Balanced .empty .black 0
  | red {l r : LLRBNode κ ν} {k : κ} {v : ν} {n : Nat} : Balanced l .black n →
      Balanced r .black n → Balanced (.value .red l k v r) .red n
  | black {l r : LLRBNode κ ν} {k : κ} {v : ν} {c : LLRBColor} {n : Nat} : Balanced l c n →
      Balanced r .black n → Balanced (.value .black l k v r) .black (n+1)

/-- Balanced but for a red left child of a red root. -/
inductive Nearly : LLRBNode κ ν → Nat → Prop where
  | balanced {t : LLRBNode κ ν} {c : LLRBColor} {n : Nat} : Balanced t c n → Nearly t n
  | redred {l r : LLRBNode κ ν} {k : κ} {v : ν} {n : Nat} : Balanced l .red n →
      Balanced r .black n → Nearly (.value .red l k v r) n

variable {t l r : LLRBNode κ ν} {c c' : LLRBColor} {n : Nat} {k : κ} {v : ν}

theorem Balanced.isRed_black (h : Balanced t .black n) : t.isRed = false := by
  cases h <;> rfl

theorem Balanced.isRed_red (h : Balanced t .red n) : t.isRed = true := by
  cases h
  rfl

theorem Balanced.of_red (h : Balanced t .red n) : ∃ l k v r, t = .value .red l k v r ∧
    Balanced l .black n ∧ Balanced r .black n := by
  cases h with
  | red hl hr => exact ⟨_,_,_,_,rfl,hl,hr⟩

theorem Balanced.of_black (h : Balanced t .black (n+1)) : ∃ l c k v r,
    t = .value .black l k v r ∧ Balanced l c n ∧ Balanced r .black n := by
  cases h with
  | black hl hr => exact ⟨_,_,_,_,_,rfl,hl,hr⟩

theorem Balanced.blacken (h : Nearly t n) :
    ∃ n', Balanced (t.withColor .black) .black n' := by
  cases h with
  | redred hl hr => exact ⟨_,.black hl hr⟩
  | balanced h =>
    cases h with
    | empty => exact ⟨_,.empty⟩
    | red hl hr => exact ⟨_,.black hl hr⟩
    | black hl hr => exact ⟨_,.black hl hr⟩

theorem Balanced.check_ok (h : Balanced t c n) (description : ν → String) :
    t.check description = .ok n := by
  induction h with
  | empty => rfl
  | red hl hr ihl ihr =>
    simp [check,hl.isRed_black,hr.isRed_black,ihl,ihr,bind,Except.bind,pure,Except.pure]
  | black hl hr ihl ihr =>
    simp [check,hr.isRed_black,ihl,ihr,bind,Except.bind,pure,Except.pure]

/-- `checkMaxDepth` -/
theorem Balanced.pow_le_count (h : Balanced t c n) : 2^n ≤ t.count+1 := by
  induction h with
  | empty => exact Nat.le_refl _
  | red hl hr ihl ihr =>
    simp only [count]
    omega
  | black hl hr ihl ihr =>
    simp only [count,Nat.pow_succ]
    omega

end Invariant

section FixUp

variable {l r : LLRBNode κ ν} {c c' : LLRBColor} {n : Nat} {k : κ} {v : ν}

theorem Balanced.fixUp_eq {t : LLRBNode κ ν} (h : Balanced t c n) : t.fixUp = t := by
  cases h with
  | empty => rfl
  | red hl hr => simp [fixUp,hl.isRed_black,hr.isRed_black]
  | @black l r k v c n hl hr =>
    cases hl with
    | empty => simp [fixUp,hr.isRed_black]
    | red hll hlr => simp [fixUp,hll.isRed_black,hr.isRed_black]
    | black hll hlr => simp [fixUp,hr.isRed_black]

theorem fixUp_black (hl : Balanced l c n) (hr : Balanced r c' n) :
    ∃ c'', Balanced (value .black l k v r).fixUp c'' (n+1) ∧
      (c = .black → c'' = .black) := by
  cases c' with
  | black =>
    have hblack : Balanced (value .black l k v r) .black (n+1) := .black hl hr
    exact ⟨.black,by rw [hblack.fixUp_eq]; exact hblack,fun _ => rfl⟩
  | red =>
    obtain ⟨rl,rk,rv,rr,rfl,hrl,hrr⟩ := hr.of_red
    cases c with
    | black =>
      refine ⟨.black,?_,fun _ => rfl⟩
      have hfix : (value .black l k v (value .red rl rk rv rr)).fixUp =
          value .black (value .red l k v rl) rk rv rr := by
        simp [fixUp,hl.isRed_black,hrr.isRed_black]
      rw [hfix]
      exact .black (.red hl hrl) hrr
    | red =>
      obtain ⟨ll,lk,lv,lr,rfl,hll,hlr⟩ := hl.of_red
      refine ⟨.red,?_,fun h => by cases h⟩
      have hfix : (value .black (value .red ll lk lv lr) k v (value .red rl rk rv rr)).fixUp =
          value .red (value .black ll lk lv lr) k v (value .black rl rk rv rr) := by
        simp [fixUp,hll.isRed_black]
      rw [hfix]
      exact .red (.black hll hlr) (.black hrl hrr)

theorem fixUp_nearly (hl : Nearly l n) (hr : Balanced r .black n) :
    ∃ c, Balanced (value .black l k v r).fixUp c (n+1) := by
  cases hl with
  | balanced hl =>
    obtain ⟨c'',h,-⟩ := fixUp_black (k := k) (v := v) hl hr
    exact ⟨c'',h⟩
  | @redred ll lr lk lv n hll hlr =>
    obtain ⟨a,x,w,b,rfl,ha,hb⟩ := hll.of_red
    have hfix : (value .black (value .red (value .red a x w b) lk lv lr) k v r).fixUp =
        value .red (value .black a x w b) lk lv (value .black lr k v r) := by
      simp [fixUp,hr.isRed_black]
    rw [hfix]
    exact ⟨.red,.red (.black ha hb) (.black hlr hr)⟩

theorem fixUp_red_left (hl : Balanced l c n) (hr : Balanced r .black n) :
    Nearly (value .red l k v r).fixUp n := by
  cases c with
  | black =>
    have hred : Balanced (value .red l k v r) .red n := .red hl hr
    rw [hred.fixUp_eq]
    exact .balanced hred
  | red =>
    obtain ⟨ll,lk,lv,lr,rfl,hll,hlr⟩ := hl.of_red
    have hfix : (value .red (value .red ll lk lv lr) k v r).fixUp =
        value .red (value .red ll lk lv lr) k v r := by
      simp [fixUp,hll.isRed_black,hr.isRed_black]
    rw [hfix]
    exact .redred hl hr

theorem fixUp_red_right (hl : Balanced l .black n) (hr : Balanced r c n) :
    Nearly (value .red l k v r).fixUp n := by
  cases c with
  | black => exact fixUp_red_left hl hr
  | red =>
    obtain ⟨rl,rk,rv,rr,rfl,hrl,hrr⟩ := hr.of_red
    have hfix : (value .red l k v (value .red rl rk rv rr)).fixUp =
        value .red (value .red l k v rl) rk rv rr := by
      simp [fixUp,hl.isRed_black,hrr.isRed_black]
    rw [hfix]
    exact .redred (.red hl hrl) hrr

end FixUp

section Insert

variable {t : LLRBNode κ ν} {c : LLRBColor} {n : Nat} {cmp : κ → κ → Ordering}

/-- An insertion leaves the black depth, and may leave the root of a red tree in need of
its parent. -/
theorem Balanced.insertKey (h : Balanced t c n) (aKey : κ) (aValue : ν) :
    (c = .black → ∃ c', Balanced (t.insertKey cmp aKey aValue) c' n) ∧
      Nearly (t.insertKey cmp aKey aValue) n := by
  induction h with
  | empty =>
    have hred : Balanced (value .red .empty aKey aValue .empty) .red 0 := .red .empty .empty
    exact ⟨fun _ => ⟨_,hred⟩,.balanced hred⟩
  | @red l r k v n hl hr ihl ihr =>
    refine ⟨by simp,?_⟩
    rw [LLRBNode.insertKey]
    split
    · obtain ⟨c',hl'⟩ := ihl.1 rfl
      exact fixUp_red_left hl' hr
    · exact fixUp_red_left hl hr
    · obtain ⟨c',hr'⟩ := ihr.1 rfl
      exact fixUp_red_right hl hr'
  | @black l r k v c n hl hr ihl ihr =>
    have hbalanced : ∃ c',
        Balanced ((value .black l k v r).insertKey cmp aKey aValue) c' (n+1) := by
      rw [LLRBNode.insertKey]
      split
      · exact fixUp_nearly ihl.2 hr
      · exact fixUp_nearly (.balanced hl) hr
      · obtain ⟨c',hr'⟩ := ihr.1 rfl
        obtain ⟨c'',h,-⟩ := fixUp_black (k := k) (v := v) hl hr'
        exact ⟨c'',h⟩
    obtain ⟨c',h⟩ := hbalanced
    exact ⟨fun _ => ⟨c',h⟩,.balanced h⟩

end Insert

end LLRBNode

end Answr
