import Answr.Balance
set_option autoImplicit false

/-! Removals from a balanced tree. On the way down a red node is lent to the side where
something is removed, so that the black depth is kept there. -/

namespace Answr
open Std Entries

namespace LLRBNode

variable {κ ν : Type}

section Ready

variable {t l r : LLRBNode κ ν} {c : LLRBColor} {n : Nat} {k : κ} {v : ν}

theorem Balanced.flipped_red (h : Balanced t .red n) : Balanced t.flipped .black (n+1) := by
  obtain ⟨l,k,v,r,rfl,hl,hr⟩ := h.of_red
  exact .black hl hr

theorem fixUp_both_red (hl : Balanced l .red n) (hr : Balanced r .red n) :
    (value c.flip l k v r).fixUp = value c l.flipped k v r.flipped := by
  obtain ⟨ll,lk,lv,lr,rfl,hll,hlr⟩ := hl.of_red
  obtain ⟨rl,rk,rv,rr,rfl,hrl,hrr⟩ := hr.of_red
  simp [fixUp,hll.isRed_black]

/-- Ready for a removal on the left, where the children are black: either the left child has
a red one by then, or both children are red. -/
inductive ReadyLeft (c : LLRBColor) (n : Nat) (k : κ) (v : ν) (r : LLRBNode κ ν) :
    LLRBNode κ ν → Prop where
  | lent {l' r' : LLRBNode κ ν} {k' : κ} {v' : ν} : Balanced l' .black n → l'.left.isRed = true →
      Balanced r' .black n → (k',v') :: r'.toList <:+ (k,v) :: r.toList →
      ReadyLeft c n k v r (value c l' k' v' r')
  | merged {l' r' : LLRBNode κ ν} {m : Nat} : n = m+1 → Balanced l' .red m →
      Balanced r' .red m → r'.toList = r.toList → ReadyLeft c n k v r (value c.flip l' k v r')

theorem Balanced.readyLeft (hl : Balanced l .black n) (hr : Balanced r .black n)
    (hne : l.isEmpty = false) : ReadyLeft c n k v r (value c l k v r).readyLeft := by
  cases hl with
  | empty => cases hne
  | @black ll lr lk lv lc m hll hlr =>
    obtain ⟨rl,rc,rk,rv,rr,rfl,hrl,hrr⟩ := hr.of_black
    cases lc with
    | red =>
      have hsame : (value c (value .black ll lk lv lr) k v (value .black rl rk rv rr)).readyLeft =
          value c (value .black ll lk lv lr) k v (value .black rl rk rv rr) := by
        simp [LLRBNode.readyLeft,hll.isRed_red]
      rw [hsame]
      exact .lent (.black hll hlr) hll.isRed_red (.black hrl hrr) (List.suffix_refl _)
    | black =>
      cases rc with
      | black =>
        have hflip : (value c (value .black ll lk lv lr) k v (value .black rl rk rv rr)).readyLeft =
            value c.flip (value .red ll lk lv lr) k v (value .red rl rk rv rr) := by
          simp [LLRBNode.readyLeft,moveRedLeft,hll.isRed_black,hrl.isRed_black]
        rw [hflip]
        exact .merged rfl (.red hll hlr) (.red hrl hrr) rfl
      | red =>
        obtain ⟨a,x,w,b,rfl,ha,hb⟩ := hrl.of_red
        have hmove : (value c (value .black ll lk lv lr) k v
            (value .black (value .red a x w b) rk rv rr)).readyLeft =
            value c (value .black (value .red ll lk lv lr) k v a) x w
              (value .black b rk rv rr) := by
          simp [LLRBNode.readyLeft,moveRedLeft,hll.isRed_black]
        rw [hmove]
        exact .lent (.black (.red hll hlr) ha) rfl (.black hb hrr)
          ⟨(k,v) :: a.toList,by simp [toList]⟩

theorem Balanced.empty_of_left (h : Balanced (value c l k v r) .red n)
    (hempty : l.isEmpty = true) : n = 0 ∧ r = .empty := by
  cases h with
  | red hl hr =>
    rw [isEmpty_eq.mp hempty] at hl
    cases hl
    cases hr
    exact ⟨rfl,rfl⟩

theorem readyLeft_of_red (hl : Balanced l .red n) :
    (value c l k v r).readyLeft = value c l k v r := by
  simp [LLRBNode.readyLeft,hl.isRed_red]

end Ready

section RemoveMin

variable {t l r : LLRBNode κ ν} {c : LLRBColor} {n : Nat} {k : κ} {v : ν}

def Lends (t : LLRBNode κ ν) (c : LLRBColor) : Prop := c = .red ∨ t.left.isRed = true

theorem toList_ne_nil (h : t.isEmpty = false) : t.toList ≠ [] := by
  cases t with
  | empty => cases h
  | value c l k v r => simp [toList]

theorem tail_append_cons {l : LLRBNode κ ν} (h : l.isEmpty = false) (xs : List (κ × ν)) :
    (l.toList ++ xs).tail = l.toList.tail ++ xs :=
  List.tail_append_of_ne_nil (toList_ne_nil h)

theorem Balanced.isEmpty_red (h : Balanced t .red n) : t.isEmpty = false := by
  cases h
  rfl

theorem isEmpty_of_left_red (h : t.left.isRed = true) : t.isEmpty = false := by
  cases t with
  | empty => cases h
  | value c l k v r => rfl

theorem Balanced.removeMin (h : Balanced t c n) (hlends : t.Lends c) :
    ∃ c', Balanced t.removeMin c' n ∧ (c = .black → c' = .black) ∧
      t.removeMin.toList = t.toList.tail := by
  induction t using LLRBNode.removeMin.induct generalizing c n with
  | case1 t hempty =>
    rw [LLRBNode.removeMin,if_pos hempty]
    cases h with
    | empty => rcases hlends with hc | hc <;> cases hc
    | @red l r k v n hl hr =>
      obtain ⟨rfl,rfl⟩ := (Balanced.red (k := k) (v := v) hl hr).empty_of_left hempty
      refine ⟨.black,.empty,fun _ => rfl,?_⟩
      rw [show l = .empty from isEmpty_eq.mp hempty]
      rfl
    | black hl hr =>
      rcases hlends with hc | hc
      · cases hc
      · rw [isEmpty_eq.mp hempty] at hc
        cases hc
  | case2 t hne ih =>
    rw [LLRBNode.removeMin,if_neg hne]
    cases h with
    | empty => exact absurd rfl hne
    | @black l r k v lc n hl hr =>
      obtain rfl : lc = .red := by
        cases lc with
        | red => rfl
        | black =>
          rcases hlends with hc | hc
          · cases hc
          · rw [left_value,hl.isRed_black] at hc
            cases hc
      rw [readyLeft_of_red hl,left_value] at ih
      rw [readyLeft_of_red hl]
      obtain ⟨c',hl',-,htail⟩ := ih hl (.inl rfl)
      have hblack : Balanced (value .black l.removeMin k v r) .black (n+1) := .black hl' hr
      refine ⟨.black,?_,fun _ => rfl,?_⟩
      · rw [withLeft_value,left_value,hblack.fixUp_eq]
        exact hblack
      · rw [toList_fixUp,withLeft_value,left_value,toList,toList,htail,
          tail_append_cons hl.isEmpty_red]
    | @red l r k v n hl hr =>
      have hready := hl.readyLeft (c := .red) (k := k) (v := v) hr (by simpa using hne)
      have hlist := toList_readyLeft (value .red l k v r)
      generalize (value .red l k v r).readyLeft = t' at hready hlist ih
      cases hready with
      | @lent l' r' k' v' hl' hred hr' hsuffix =>
        rw [left_value] at ih
        obtain ⟨c',hl'',hblack,htail⟩ := ih hl' (.inr hred)
        obtain rfl := hblack rfl
        have hroot : Balanced (value .red l'.removeMin k' v' r') .red n := .red hl'' hr'
        refine ⟨.red,?_,by simp,?_⟩
        · rw [withLeft_value,left_value,hroot.fixUp_eq]
          exact hroot
        · rw [toList_fixUp,withLeft_value,left_value,toList,htail,← hlist,toList,
            tail_append_cons (isEmpty_of_left_red hred)]
      | @merged l' r' m hn hl' hr' hsame =>
        rw [left_value] at ih
        obtain ⟨c',hl'',-,htail⟩ := ih hl' (.inl rfl)
        obtain ⟨c'',hroot,-⟩ := fixUp_black (k := k) (v := v) hl'' hr'
        refine ⟨c'',?_,by simp,?_⟩
        · rw [withLeft_value,left_value,hn]
          exact hroot
        · rw [toList_fixUp,withLeft_value,left_value,toList,htail,← hlist,toList,
            tail_append_cons hl'.isEmpty_red]

end RemoveMin

section Absent

variable {t l r : LLRBNode κ ν} {c : LLRBColor} {n : Nat} {k : κ} {v : ν}
  {cmp : κ → κ → Ordering} {aKey : κ}

theorem remove_empty : (empty : LLRBNode κ ν).remove cmp aKey = empty := by rw [remove]

theorem readyLeft_of_empty : (value c .empty k v r).readyLeft = value c .empty k v r := rfl

theorem Balanced.left_cases (h : Balanced (value c l k v r) c n) :
    (∃ m, n = m+1 ∧ c = .black ∧ Balanced l .red m ∧ Balanced r .black m) ∨
      ∃ m, Balanced l .black m ∧ Balanced r .black m ∧
        (c = .red ∧ n = m ∨ c = .black ∧ n = m+1) := by
  cases h with
  | red hl hr => exact .inr ⟨_,hl,hr,.inl ⟨rfl,rfl⟩⟩
  | @black l r k v lc m hl hr =>
    cases lc with
    | red => exact .inl ⟨m,rfl,rfl,hl,hr⟩
    | black => exact .inr ⟨m,hl,hr,.inr ⟨rfl,rfl⟩⟩

theorem balanced_of_black {m : Nat} (hl : Balanced l .black m) (hr : Balanced r .black m)
    (hc : c = .red ∧ n = m ∨ c = .black ∧ n = m+1) : Balanced (value c l k v r) c n := by
  rcases hc with ⟨rfl,rfl⟩ | ⟨rfl,rfl⟩
  · exact .red hl hr
  · exact .black hl hr

/-- A key that comes before all others is looked for in vain, and what is made ready on the
way down is put right on the way up. -/
theorem Balanced.remove_absent (h : Balanced t c n)
    (habsent : ∀ e ∈ t.toList, cmp aKey e.1 = .lt) :
    Balanced (t.remove cmp aKey) c n ∧ (t.remove cmp aKey).toList = t.toList := by
  induction hcount : t.count using Nat.strongRecOn generalizing t c n with
  | ind size ih =>
    cases t with
    | empty =>
      rw [remove_empty]
      exact ⟨h,rfl⟩
    | value c₁ l k v r =>
      obtain rfl : c = c₁ := by cases h <;> rfl
      have hk : cmp aKey k = .lt := habsent (k,v) (by simp [toList])
      rw [remove_lt hk]
      have hsmaller : ∀ l', l'.count < (value c l k v r).count → (∀ e ∈ l'.toList,
          e ∈ (value c l k v r).toList) → ∀ c' m, Balanced l' c' m →
          Balanced (l'.remove cmp aKey) c' m ∧ (l'.remove cmp aKey).toList = l'.toList :=
        fun l' hlt hsub c' m hl' => ih l'.count (hcount ▸ hlt) hl'
          (fun e he => habsent e (hsub e he)) rfl
      rcases h.left_cases with ⟨m,rfl,rfl,hl,hr⟩ | ⟨m,hl,hr,hc⟩
      · obtain ⟨hl',hlist⟩ := hsmaller l (by simp only [count]; omega)
          (fun e he => List.mem_append_left _ he) .red m hl
        have hroot : Balanced (value .black (l.remove cmp aKey) k v r) .black (m+1) :=
          .black hl' hr
        rw [readyLeft_of_red hl,withLeft_value,left_value,hroot.fixUp_eq]
        exact ⟨hroot,by rw [toList,hlist,toList]⟩
      · cases hne : l.isEmpty with
        | true =>
          obtain rfl := isEmpty_eq.mp hne
          rw [readyLeft_of_empty,withLeft_value,left_value,remove_empty,h.fixUp_eq]
          exact ⟨h,rfl⟩
        | false =>
          have hready := hl.readyLeft (c := c) (k := k) (v := v) hr hne
          have hlist := toList_readyLeft (value c l k v r)
          have hsame := count_readyLeft (value c l k v r)
          generalize (value c l k v r).readyLeft = t' at hready hlist hsame
          cases hready with
          | @lent l' r' k' v' hl' hred hr' hsuffix =>
            obtain ⟨hl'',hlist'⟩ := hsmaller l' (by rw [← hsame]; simp only [count]; omega)
              (fun e he => hlist ▸ List.mem_append_left _ he) .black m hl'
            have hroot : Balanced (value c (l'.remove cmp aKey) k' v' r') c n :=
              balanced_of_black hl'' hr' hc
            rw [withLeft_value,left_value,hroot.fixUp_eq]
            exact ⟨hroot,by rw [toList,hlist',← hlist,toList]⟩
          | @merged l' r' m' hm hl' hr' hsame' =>
            obtain ⟨hl'',hlist'⟩ := hsmaller l' (by rw [← hsame]; simp only [count]; omega)
              (fun e he => hlist ▸ List.mem_append_left _ he) .red m' hl'
            rw [withLeft_value,left_value,fixUp_both_red hl'' hr']
            refine ⟨balanced_of_black (hm ▸ hl''.flipped_red) (hm ▸ hr'.flipped_red) hc,?_⟩
            rw [toList,toList_flipped,toList_flipped,hlist',← hlist,toList]

end Absent

section Remove

variable {t l r l' r' : LLRBNode κ ν} {c c' cr : LLRBColor} {n m : Nat} {k k' : κ} {v v' : ν}
  {cmp : κ → κ → Ordering} {aKey : κ}

/-- What a removal is called on: the root or a child is red. A red right child is there only
after its parent came down from the left, and then the key is not on that side. -/
inductive Removable (cmp : κ → κ → Ordering) (aKey : κ) :
    LLRBNode κ ν → LLRBColor → Nat → Prop where
  | red {t : LLRBNode κ ν} {n : Nat} : Balanced t .red n → Removable cmp aKey t .red n
  | left {l r : LLRBNode κ ν} {k : κ} {v : ν} {n : Nat} : Balanced l .red n →
      Balanced r .black n → Removable cmp aKey (.value .black l k v r) .black (n+1)
  | right {l r : LLRBNode κ ν} {k : κ} {v : ν} {n : Nat} : Balanced l .black n →
      Balanced r .red n → cmp aKey k ≠ .lt → Removable cmp aKey (.value .black l k v r) .black (n+1)

theorem Balanced.removable (h : Balanced t .black n) (hred : t.left.isRed = true) :
    Removable cmp aKey t .black n := by
  cases h with
  | empty => cases hred
  | @black l r k v c n hl hr =>
    cases c with
    | red => exact .left hl hr
    | black =>
      rw [left_value,hl.isRed_black] at hred
      cases hred

/-- What the removal of a key makes of a tree. -/
def Removes (cmp : κ → κ → Ordering) (aKey : κ) (t : LLRBNode κ ν) (c : LLRBColor) (n : Nat) :
    Prop :=
  ∃ c', Balanced (t.remove cmp aKey) c' n ∧ (c = .black → c' = .black) ∧
    (t.remove cmp aKey).toList = drop cmp aKey t.toList

inductive RightRemoved (cmp : κ → κ → Ordering) (aKey : κ) (t : LLRBNode κ ν) (c' : LLRBColor)
    (l' : LLRBNode κ ν) (cr : LLRBColor) (m : Nat) : Prop where
  | intro {k : κ} {v : ν} {r : LLRBNode κ ν} {c : LLRBColor} :
      t.remove cmp aKey = (value c' l' k v r).fixUp → Balanced r c m →
      (cr = .black → c = .black) → l'.toList ++ (k,v) :: r.toList = drop cmp aKey t.toList →
      RightRemoved cmp aKey t c' l' cr m

theorem RightRemoved.black (h : RightRemoved cmp aKey t .black l' cr m)
    (hl : Balanced l' c m) : ∃ c', Balanced (t.remove cmp aKey) c' (m+1) ∧
      (c = .black → c' = .black) ∧ (t.remove cmp aKey).toList = drop cmp aKey t.toList := by
  obtain ⟨hremove,hr,-,hlist⟩ := h
  obtain ⟨c',hroot,hblack⟩ := fixUp_black hl hr
  rw [hremove]
  exact ⟨c',hroot,hblack,by rw [toList_fixUp,toList,hlist]⟩

theorem RightRemoved.red (h : RightRemoved cmp aKey t .red l' .black m)
    (hl : Balanced l' .black m) : Removes cmp aKey t .red m := by
  cases h with
  | @intro k v r c hremove hr hblack hlist =>
    obtain rfl := hblack rfl
    have hroot : Balanced (value .red l' k v r) .red m := .red hl hr
    rw [Removes,hremove,hroot.fixUp_eq]
    exact ⟨.red,hroot,id,by rw [toList,hlist]⟩

variable [TransCmp cmp]

theorem remove_right (hk : cmp aKey k ≠ .lt)
    (hready : (value c l k v r).readyRight = value c' l' k' v' r') (hk' : cmp aKey k' ≠ .lt)
    (hs : Sorted cmp (value c l k v r).toList)
    (heq : cmp aKey k' = .eq → Balanced r' cr m ∧ r'.Lends cr)
    (hgt : cmp aKey k' ≠ .eq → Removes cmp aKey r' cr m) :
    RightRemoved cmp aKey (value c l k v r) c' l' cr m := by
  have hlist : l'.toList ++ (k',v') :: r'.toList = (value c l k v r).toList := by
    rw [← toList_readyRight (value c l k v r),hready]
    rfl
  rw [← hlist] at hs
  obtain ⟨-,-,hbelow,habove,-⟩ := sorted_append.mp hs
  by_cases hsame : cmp aKey k' = .eq
  · obtain ⟨hr',hlends⟩ := heq hsame
    have habove' : ∀ e ∈ r'.toList, cmp aKey e.1 = .lt :=
      fun e he => TransCmp.lt_of_eq_of_lt hsame (habove e he)
    have hne : r'.isEmpty = false := by
      rcases hlends with rfl | hred
      · exact hr'.isEmpty_red
      · exact isEmpty_of_left_red hred
    obtain ⟨smallest,rest,hrest⟩ := List.exists_cons_of_ne_nil (toList_ne_nil hne)
    obtain ⟨c₁,hr₁,hblack,htail⟩ := hr'.removeMin hlends
    have habsent : ∀ e ∈ r'.removeMin.toList, cmp aKey e.1 = .lt := fun e he =>
      habove' e (by rw [htail,hrest] at he; rw [hrest]; exact List.mem_cons_of_mem _ he)
    obtain ⟨hr₂,hsame₂⟩ := hr₁.remove_absent habsent
    have hmin : r'.min = some smallest := by rw [min_eq_head?,hrest]; rfl
    refine .intro (remove_eq hk hready hsame hmin) hr₂ hblack ?_
    rw [hsame₂,htail,← hlist,hrest,List.tail_cons]
    exact (drop_eq hsame (fun e he => TransCmp.lt_of_lt_of_eq (hbelow e he)
      (OrientedCmp.eq_symm hsame)) (hrest ▸ habove')).symm
  · obtain ⟨c₁,hr₁,hblack,hdrop⟩ := hgt hsame
    have hcmp : cmp aKey k' = .gt := by
      cases h : cmp aKey k' with
      | lt => exact absurd h hk'
      | eq => exact absurd h hsame
      | gt => rfl
    refine .intro (remove_gt hk hready hsame) hr₁ hblack ?_
    rw [hdrop,← hlist]
    exact (drop_gt (gt_of_gt hcmp hbelow)).symm

theorem removes_left (hk : cmp aKey k = .lt) (h : Removable cmp aKey (value c l k v r) c n)
    (hs : Sorted cmp (value c l k v r).toList)
    (ih : ∀ t' : LLRBNode κ ν, t'.count < (value c l k v r).count → ∀ c' m,
      Removable cmp aKey t' c' m → Sorted cmp t'.toList → Removes cmp aKey t' c' m) :
    Removes cmp aKey (value c l k v r) c n := by
  obtain ⟨hsl,-,-,habove⟩ := sorted_value hs
  have hdrop : drop cmp aKey (value c l k v r).toList =
      drop cmp aKey l.toList ++ (k,v) :: r.toList := drop_lt (lt_of_lt hk habove)
  rw [Removes,remove_lt hk]
  cases h with
  | right hl hr hge => exact absurd hk hge
  | @left l r k v n hl hr =>
    obtain ⟨c',hl',-,hlist⟩ := ih l (by simp only [count]; omega) .red n (.red hl) hsl
    have hroot : Balanced (value .black (l.remove cmp aKey) k v r) .black (n+1) := .black hl' hr
    rw [readyLeft_of_red hl,withLeft_value,left_value,hroot.fixUp_eq]
    exact ⟨.black,hroot,fun _ => rfl,by rw [toList,hlist,hdrop]⟩
  | red h =>
    obtain ⟨l,k,v,r,heq,hl,hr⟩ := h.of_red
    cases heq
    cases hne : l.isEmpty with
    | true =>
      obtain rfl := isEmpty_eq.mp hne
      rw [readyLeft_of_empty,withLeft_value,left_value,remove_empty,h.fixUp_eq]
      exact ⟨.red,h,id,hdrop.symm⟩
    | false =>
      have hready := hl.readyLeft (c := .red) (k := k) (v := v) hr hne
      have hlist := toList_readyLeft (value .red l k v r)
      have hsame := count_readyLeft (value .red l k v r)
      generalize (value .red l k v r).readyLeft = t' at hready hlist hsame
      rw [← hlist] at hs
      cases hready with
      | @lent l' r' k' v' hl' hred hr' hsuffix =>
        obtain ⟨c',hl'',hblack,hdrop'⟩ := ih l' (by rw [← hsame]; simp only [count]; omega)
          .black n (hl'.removable hred) (sorted_value hs).1
        obtain rfl := hblack rfl
        have hroot : Balanced (value .red (l'.remove cmp aKey) k' v' r') .red n := .red hl'' hr'
        rw [withLeft_value,left_value,hroot.fixUp_eq]
        refine ⟨.red,hroot,id,?_⟩
        rw [toList,hdrop',← hlist,toList]
        exact (drop_lt fun e he => lt_of_lt hk habove e (hsuffix.subset he)).symm
      | @merged l' r' m hm hl' hr' hsame' =>
        obtain ⟨c',hl'',-,hdrop'⟩ := ih l' (by rw [← hsame]; simp only [count]; omega)
          .red m (.red hl') (sorted_value hs).1
        obtain ⟨c'',hroot,-⟩ := fixUp_black (k := k) (v := v) hl'' hr'
        rw [withLeft_value,left_value]
        refine ⟨c'',hm ▸ hroot,by simp,?_⟩
        rw [toList_fixUp,toList,hdrop',← hlist,toList]
        exact (drop_lt fun e he => lt_of_lt hk habove e (by rwa [hsame'] at he)).symm

theorem removes_right (hk : cmp aKey k ≠ .lt)
    (h : Removable cmp aKey (value c l k v r) c n) (hs : Sorted cmp (value c l k v r).toList)
    (ih : ∀ t' : LLRBNode κ ν, t'.count < (value c l k v r).count → ∀ c' m,
      Removable cmp aKey t' c' m → Sorted cmp t'.toList → Removes cmp aKey t' c' m) :
    Removes cmp aKey (value c l k v r) c n := by
  -- what is right of the node when it is ready is smaller and sorted
  have hright : ∀ c' l' k' v' r', (value c l k v r).readyRight = value c' l' k' v' r' →
      ∀ cr m, Removable cmp aKey r' cr m → Removes cmp aKey r' cr m := by
    intro c' l' k' v' r' hready cr m hr
    have hsame := count_readyRight (value c l k v r)
    have hlist := toList_readyRight (value c l k v r)
    rw [hready] at hsame hlist
    rw [← hlist] at hs
    exact ih r' (by rw [← hsame]; simp only [count]; omega) cr m hr (sorted_value hs).2.1
  cases h with
  | @right l r k v n hl hr hge =>
    have hready : (value .black l k v r).readyRight = value .black l k v r := by
      simp [readyRight,hl.isRed_black,hr.isRed_red]
    obtain ⟨c',h,hblack,hlist⟩ := (remove_right hk hready hk hs (fun _ => ⟨hr,.inl rfl⟩)
      fun _ => hright _ _ _ _ _ hready _ _ (.red hr)).black hl
    exact ⟨c',h,fun _ => hblack rfl,hlist⟩
  | @left l r k v n hl hr =>
    obtain ⟨ll,lk,lv,lr,rfl,hll,hlr⟩ := hl.of_red
    have hready : (value .black (value .red ll lk lv lr) k v r).readyRight =
        value .black ll lk lv (value .red lr k v r) := by
      simp [readyRight]
    have hlk : cmp aKey lk ≠ .lt := by
      have hlt := (sorted_value hs).2.2.1 (lk,lv) (by simp [toList])
      exact fun hlt' => hk (TransCmp.lt_trans hlt' hlt)
    have hred : Balanced (value .red lr k v r) .red n := .red hlr hr
    obtain ⟨c',h,hblack,hlist⟩ := (remove_right hk hready hlk hs (fun _ => ⟨hred,.inl rfl⟩)
      fun _ => hright _ _ _ _ _ hready _ _ (.red hred)).black hll
    exact ⟨c',h,fun _ => hblack rfl,hlist⟩
  | red h =>
    obtain ⟨l,k,v,r,heq,hl,hr⟩ := h.of_red
    cases heq
    cases hr with
    | empty =>
      cases hl
      have hready : (value .red (.empty : LLRBNode κ ν) k v .empty).readyRight =
        value .red .empty k v .empty := rfl
      by_cases hsame : cmp aKey k = .eq
      · rw [Removes,remove_last hk hready hsame rfl]
        refine ⟨.black,.empty,fun _ => rfl,?_⟩
        exact (drop_eq hsame (l := []) (by simp) (by simp)).symm
      · have hnone : Removes cmp aKey (.empty : LLRBNode κ ν) .black 0 := by
          rw [Removes,remove_empty]
          exact ⟨.black,.empty,id,rfl⟩
        exact (remove_right hk hready hk hs (fun heq => absurd heq hsame) fun _ => hnone).red
          .empty
    | @black rl rr rk rv rc m hrl hrr =>
      obtain ⟨ll,lc,lk,lv,lr,rfl,hll,hlr⟩ := hl.of_black
      cases rc with
      | red =>
        have hready : (value .red (value .black ll lk lv lr) k v
            (value .black rl rk rv rr)).readyRight =
            value .red (value .black ll lk lv lr) k v (value .black rl rk rv rr) := by
          simp [readyRight,hrl.isRed_red]
        refine (remove_right hk hready hk hs (fun _ => ⟨.black hrl hrr,.inr hrl.isRed_red⟩)
          fun _ => hright _ _ _ _ _ hready _ _ (.left hrl hrr)).red (.black hll hlr)
      | black =>
        cases lc with
        | black =>
          have hready : (value .red (value .black ll lk lv lr) k v
              (value .black rl rk rv rr)).readyRight =
              value .black (value .red ll lk lv lr) k v (value .red rl rk rv rr) := by
            simp [readyRight,moveRedRight,hll.isRed_black,hrl.isRed_black]
          have hred : Balanced (value .red rl rk rv rr) .red m := .red hrl hrr
          obtain ⟨c',h,-,hlist⟩ := (remove_right hk hready hk hs (fun _ => ⟨hred,.inl rfl⟩)
            fun _ => hright _ _ _ _ _ hready _ _ (.red hred)).black (.red hll hlr)
          exact ⟨c',h,by simp,hlist⟩
        | red =>
          obtain ⟨a,x,w,b,rfl,ha,hb⟩ := hll.of_red
          have hready : (value .red (value .black (value .red a x w b) lk lv lr) k v
              (value .black rl rk rv rr)).readyRight =
              value .red (value .black a x w b) lk lv
                (value .black lr k v (value .red rl rk rv rr)) := by
            simp [readyRight,moveRedRight,hrl.isRed_black]
          have hlt := (sorted_value hs).2.2.1 (lk,lv) (by simp [toList])
          have hlk : cmp aKey lk ≠ .lt := fun hlt' => hk (TransCmp.lt_trans hlt' hlt)
          have hne : cmp aKey lk ≠ .eq := fun heq => hk (TransCmp.lt_of_eq_of_lt heq hlt)
          have hremovable : Removable cmp aKey
              (value .black lr k v (value .red rl rk rv rr)) .black (m+1) :=
            .right hlr (.red hrl hrr) hk
          exact (remove_right hk hready hlk hs (fun heq => absurd heq hne)
            fun _ => hright _ _ _ _ _ hready _ _ hremovable).red (.black ha hb)

/-- A removal drops the entry and keeps the black depth; a black tree stays black. -/
theorem Removable.removes (h : Removable cmp aKey t c n) (hs : Sorted cmp t.toList) :
    Removes cmp aKey t c n := by
  induction hcount : t.count using Nat.strongRecOn generalizing t c n with
  | ind size ih =>
    have hsmaller : ∀ t' : LLRBNode κ ν, t'.count < t.count → ∀ c' m,
        Removable cmp aKey t' c' m → Sorted cmp t'.toList → Removes cmp aKey t' c' m :=
      fun t' hlt c' m h' hs' => ih t'.count (hcount ▸ hlt) h' hs' rfl
    cases t with
    | empty =>
      cases h with
      | red h => cases h
    | value c₁ l k v r =>
      obtain rfl : c = c₁ := by
        cases h with
        | red h => cases h; rfl
        | left | right => rfl
      by_cases hk : cmp aKey k = .lt
      · exact removes_left hk h hs hsmaller
      · exact removes_right hk h hs hsmaller

end Remove

section Roots

variable {t : LLRBNode κ ν} {n : Nat} {cmp : κ → κ → Ordering} {aKey : κ}

@[simp] theorem left_withColor (c : LLRBColor) (t : LLRBNode κ ν) :
    (t.withColor c).left = t.left := by
  cases t <;> rfl

@[simp] theorem right_withColor (c : LLRBColor) (t : LLRBNode κ ν) :
    (t.withColor c).right = t.right := by
  cases t <;> rfl

theorem withColor_withLeft (c : LLRBColor) (t l : LLRBNode κ ν) :
    (t.withColor c).withLeft l = (t.withLeft l).withColor c := by
  cases t <;> rfl

theorem withColor_withRight (c : LLRBColor) (t r : LLRBNode κ ν) :
    (t.withColor c).withRight r = (t.withRight r).withColor c := by
  cases t <;> rfl

theorem rotateLeft_withColor (c : LLRBColor) (t : LLRBNode κ ν) :
    (t.withColor c).rotateLeft = t.rotateLeft.withColor c := by
  match t with
  | .empty => rfl
  | .value _ _ _ _ .empty => rfl
  | .value _ _ _ _ (.value _ _ _ _ _) => rfl

theorem rotateRight_withColor (c : LLRBColor) (t : LLRBNode κ ν) :
    (t.withColor c).rotateRight = t.rotateRight.withColor c := by
  match t with
  | .empty => rfl
  | .value _ .empty _ _ _ => rfl
  | .value _ (.value _ _ _ _ _) _ _ _ => rfl

theorem colorFlip_withColor (c : LLRBColor) (t : LLRBNode κ ν) :
    (t.withColor c).colorFlip = t.colorFlip.withColor c.flip := by
  cases t <;> rfl

theorem withColor_withColor (c c' : LLRBColor) (t : LLRBNode κ ν) :
    (t.withColor c).withColor c' = t.withColor c' := by
  cases t <;> rfl

theorem fixUp_withColor (c : LLRBColor) (t : LLRBNode κ ν) :
    ∃ c', (t.withColor c).fixUp = t.fixUp.withColor c' := by
  simp only [fixUp,left_withColor,right_withColor,rotateLeft_withColor,
    ← apply_ite (withColor c),rotateRight_withColor,colorFlip_withColor]
  split <;> split <;> split <;> exact ⟨_,rfl⟩

theorem readyLeft_withColor (c : LLRBColor) (t : LLRBNode κ ν) :
    ∃ c', (t.withColor c).readyLeft = t.readyLeft.withColor c' := by
  simp only [readyLeft,moveRedLeft,left_withColor,right_withColor,colorFlip_withColor,
    withColor_withRight,rotateLeft_withColor]
  split
  · split <;> exact ⟨_,rfl⟩
  · exact ⟨_,rfl⟩

theorem readyRight_withColor (c : LLRBColor) (t : LLRBNode κ ν) :
    ∃ c', (t.withColor c).readyRight = t.readyRight.withColor c' := by
  simp only [readyRight,moveRedRight,left_withColor,right_withColor,rotateRight_withColor,
    ← apply_ite (withColor c),colorFlip_withColor]
  split
  · split
    · split <;> exact ⟨_,rfl⟩
    · exact ⟨_,rfl⟩
  · split
    · split <;> exact ⟨_,rfl⟩
    · exact ⟨_,rfl⟩

theorem remove_withColor (cmp : κ → κ → Ordering) (aKey : κ) (c : LLRBColor) (t : LLRBNode κ ν) :
    ∃ c', (t.withColor c).remove cmp aKey = (t.remove cmp aKey).withColor c' := by
  cases t with
  | empty => exact ⟨c,by simp [withColor,remove_empty]⟩
  | value c₀ l k v r =>
    have hcolor : (value c₀ l k v r).withColor c = value c l k v r := rfl
    by_cases hk : cmp aKey k = .lt
    · obtain ⟨c₁,hready⟩ := readyLeft_withColor c (value c₀ l k v r)
      rw [hcolor] at hready ⊢
      rw [remove_lt hk,remove_lt hk,hready,left_withColor,withColor_withLeft]
      exact fixUp_withColor c₁ _
    · obtain ⟨c₁,hready⟩ := readyRight_withColor c (value c₀ l k v r)
      rw [hcolor] at hready ⊢
      have hcount := count_readyRight (value c₀ l k v r)
      cases hroot : (value c₀ l k v r).readyRight with
      | empty =>
        simp only [hroot,count] at hcount
        omega
      | value c' l' k' v' r' =>
        rw [hroot] at hready
        have hready' : (value c l k v r).readyRight = value c₁ l' k' v' r' := hready
        by_cases hsame : cmp aKey k' = .eq
        · cases hmin : r'.min with
          | none =>
            rw [remove_last hk hroot hsame hmin,remove_last hk hready' hsame hmin]
            exact ⟨c,rfl⟩
          | some smallest =>
            rw [remove_eq hk hroot hsame hmin,remove_eq hk hready' hsame hmin]
            exact fixUp_withColor c₁ (value c' l' _ _ _)
        · rw [remove_gt hk hroot hsame,remove_gt hk hready' hsame]
          exact fixUp_withColor c₁ (value c' l' k' v' _)

theorem Balanced.removeKey [TransCmp cmp] (h : Balanced t .black n)
    (hs : Sorted cmp t.toList) (aKey : κ) :
    (∃ n', Balanced ((t.remove cmp aKey).withColor .black) .black n') ∧
      (t.remove cmp aKey).toList = drop cmp aKey t.toList := by
  have hblack : ∀ (t' : LLRBNode κ ν) c m, Removable cmp aKey t' c m → Sorted cmp t'.toList →
      (∃ n', Balanced ((t'.remove cmp aKey).withColor .black) .black n') ∧
        (t'.remove cmp aKey).toList = drop cmp aKey t'.toList := by
    intro t' c m hr hs'
    obtain ⟨c',hb,-,hlist⟩ := hr.removes hs'
    exact ⟨Balanced.blacken (.balanced hb),hlist⟩
  cases h with
  | empty =>
    rw [remove_empty]
    exact ⟨⟨0,.empty⟩,rfl⟩
  | @black l r k v c n hl hr =>
    cases c with
    | red => exact hblack _ _ _ (.left hl hr) hs
    | black =>
      -- as if the root were red
      obtain ⟨c',hcolor⟩ := remove_withColor cmp aKey .red (value .black l k v r)
      obtain ⟨hb,hlist⟩ := hblack (value .red l k v r) .red n (.red (.red hl hr)) hs
      have hred : (value .red l k v r).remove cmp aKey =
          ((value .black l k v r).remove cmp aKey).withColor c' := hcolor
      rw [hred,withColor_withColor] at hb
      rw [hred,toList_withColor] at hlist
      exact ⟨hb,hlist⟩

end Roots

end LLRBNode

end Answr
