import Answr.Entries
set_option autoImplicit false

/-! The left-leaning red-black trees that the database library keeps the children of a node
in, and what the operations do to the entries in the order of the keys. -/

namespace Answr
open Std Entries

/-- `FLLRBColor` -/
inductive LLRBColor where
  | red
  | black
  deriving DecidableEq, Repr

def LLRBColor.flip : LLRBColor → LLRBColor
  | .red => .black
  | .black => .red

/-- `FLLRBEmptyNode` and `FLLRBValueNode` -/
inductive LLRBNode (κ ν : Type) where
  | empty
  | value (color : LLRBColor) (left : LLRBNode κ ν) (key : κ) (val : ν) (right : LLRBNode κ ν)
  deriving DecidableEq, Repr

namespace LLRBNode

variable {κ ν : Type}

section Nodes

def isEmpty : LLRBNode κ ν → Bool
  | empty => true
  | value _ _ _ _ _ => false

def isRed : LLRBNode κ ν → Bool
  | value .red _ _ _ _ => true
  | _ => false

def left : LLRBNode κ ν → LLRBNode κ ν
  | empty => empty
  | value _ l _ _ _ => l

def right : LLRBNode κ ν → LLRBNode κ ν
  | empty => empty
  | value _ _ _ _ r => r

/-- `copyWith` of one part. The empty node stays empty. -/
def withColor (c : LLRBColor) : LLRBNode κ ν → LLRBNode κ ν
  | empty => empty
  | value _ l k v r => value c l k v r

def withLeft : LLRBNode κ ν → LLRBNode κ ν → LLRBNode κ ν
  | empty, _ => empty
  | value c _ k v r, l => value c l k v r

def withRight : LLRBNode κ ν → LLRBNode κ ν → LLRBNode κ ν
  | empty, _ => empty
  | value c l k v _, r => value c l k v r

def count : LLRBNode κ ν → Nat
  | empty => 0
  | value _ l _ _ r => l.count + 1 + r.count

def inorderTraversal {σ : Type} (action : κ → ν → σ → σ × Bool) :
    LLRBNode κ ν → σ → σ × Bool
  | empty, s => (s,false)
  | value _ l k v r, s =>
    let a := l.inorderTraversal action s
    if a.2 then a
    else
      let b := action k v a.1
      if b.2 then b else r.inorderTraversal action b.1

def reverseTraversal {σ : Type} (action : κ → ν → σ → σ × Bool) :
    LLRBNode κ ν → σ → σ × Bool
  | empty, s => (s,false)
  | value _ l k v r, s =>
    let a := r.reverseTraversal action s
    if a.2 then a
    else
      let b := action k v a.1
      if b.2 then b else l.reverseTraversal action b.1

def min : LLRBNode κ ν → Option (κ × ν)
  | empty => none
  | value _ empty k v _ => some (k,v)
  | value _ (value c l k v r) _ _ _ => (value c l k v r).min

def minKey (n : LLRBNode κ ν) : Option κ := n.min.map (·.1)

def maxKey : LLRBNode κ ν → Option κ
  | empty => none
  | value _ _ k _ empty => some k
  | value _ _ _ _ (value c l k v r) => (value c l k v r).maxKey

/-- `check`, which throws at a violation. The description is that of a value. -/
def check (description : ν → String) : LLRBNode κ ν → Except String Nat
  | empty => .ok 0
  | value c l _ v r => do
    if c = .red ∧ l.isRed then throw "Red node has a red child"
    if r.isRed then throw "Right child is red"
    let blackDepth ← l.check description
    let other ← r.check description
    if blackDepth ≠ other then
      throw ("(" ++ description v ++ " -> " ++ (if c = .red then "red" else "black") ++
        ")blackDepth: " ++ toString blackDepth ++ " ; self.right check: " ++ toString other)
    return blackDepth + if c = .red then 0 else 1

end Nodes

section Balancing

def rotateLeft (n : LLRBNode κ ν) : LLRBNode κ ν :=
  match n with
  | value c l k v (value _ rl rk rv rr) => value c (value .red l k v rl) rk rv rr
  | _ => empty

def rotateRight (n : LLRBNode κ ν) : LLRBNode κ ν :=
  match n with
  | value c (value _ ll lk lv lr) k v r => value c ll lk lv (value .red lr k v r)
  | _ => empty

def flipped : LLRBNode κ ν → LLRBNode κ ν
  | empty => empty
  | value c l k v r => value c.flip l k v r

def colorFlip (n : LLRBNode κ ν) : LLRBNode κ ν :=
  ((n.withLeft n.left.flipped).withRight n.right.flipped).flipped

def fixUp (n : LLRBNode κ ν) : LLRBNode κ ν :=
  let n := if n.right.isRed && !n.left.isRed then n.rotateLeft else n
  let n := if n.left.isRed && n.left.left.isRed then n.rotateRight else n
  if n.left.isRed && n.right.isRed then n.colorFlip else n

def moveRedLeft (n : LLRBNode κ ν) : LLRBNode κ ν :=
  let n := n.colorFlip
  if n.right.left.isRed then ((n.withRight n.right.rotateRight).rotateLeft).colorFlip else n

def moveRedRight (n : LLRBNode κ ν) : LLRBNode κ ν :=
  let n := n.colorFlip
  if n.left.left.isRed then n.rotateRight.colorFlip else n

def insertKey (cmp : κ → κ → Ordering) (aKey : κ) (aValue : ν) : LLRBNode κ ν → LLRBNode κ ν
  | empty => value .red empty aKey aValue empty
  | value c l k v r =>
    match cmp aKey k with
    | .lt => (value c (l.insertKey cmp aKey aValue) k v r).fixUp
    | .eq => (value c l k aValue r).fixUp
    | .gt => (value c l k v (r.insertKey cmp aKey aValue)).fixUp

end Balancing

section Shapes

variable (c rc lc : LLRBColor) (l r x ll lr rl rr : LLRBNode κ ν) (k lk rk : κ) (v lv rv : ν)

@[simp] theorem isRed_empty : (empty : LLRBNode κ ν).isRed = false := rfl

@[simp] theorem isRed_red : (value .red l k v r).isRed = true := rfl

@[simp] theorem isRed_black : (value .black l k v r).isRed = false := rfl

@[simp] theorem left_value : (value c l k v r).left = l := rfl

@[simp] theorem right_value : (value c l k v r).right = r := rfl

@[simp] theorem withLeft_value : (value c l k v r).withLeft x = value c x k v r := rfl

@[simp] theorem withRight_value : (value c l k v r).withRight x = value c l k v x := rfl

@[simp] theorem flip_red : LLRBColor.red.flip = .black := rfl

@[simp] theorem flip_black : LLRBColor.black.flip = .red := rfl

@[simp] theorem flip_flip : c.flip.flip = c := by cases c <;> rfl

@[simp] theorem isEmpty_value : (value c l k v r).isEmpty = false := rfl

@[simp] theorem flipped_value : (value c l k v r).flipped = value c.flip l k v r := rfl

@[simp] theorem colorFlip_value :
    (value c l k v r).colorFlip = value c.flip l.flipped k v r.flipped := rfl

@[simp] theorem rotateLeft_value : (value c l k v (value rc rl rk rv rr)).rotateLeft =
    value c (value .red l k v rl) rk rv rr := rfl

@[simp] theorem rotateRight_value : (value c (value lc ll lk lv lr) k v r).rotateRight =
    value c ll lk lv (value .red lr k v r) := rfl

end Shapes

section Order

variable {n : LLRBNode κ ν} {c c' : LLRBColor} {l r : LLRBNode κ ν} {k : κ} {v : ν}

def toList : LLRBNode κ ν → List (κ × ν)
  | empty => []
  | value _ l k v r => l.toList ++ (k,v) :: r.toList

@[simp] theorem toList_withColor (c : LLRBColor) (n : LLRBNode κ ν) :
    (n.withColor c).toList = n.toList := by
  cases n <;> rfl

@[simp] theorem toList_flipped (n : LLRBNode κ ν) : n.flipped.toList = n.toList := by
  cases n <;> rfl

theorem count_eq (n : LLRBNode κ ν) : n.count = n.toList.length := by
  induction n with
  | empty => rfl
  | value c l k v r ihl ihr =>
    simp only [count,toList,List.length_append,List.length_cons,ihl,ihr]
    omega

theorem toList_colorFlip (n : LLRBNode κ ν) : n.colorFlip.toList = n.toList := by
  cases n with
  | empty => rfl
  | value c l k v r => simp [toList]

theorem toList_rotateLeft (h : n.right.isRed = true) : n.rotateLeft.toList = n.toList := by
  match n,h with
  | value c l k v (value _ rl rk rv rr),_ => simp [rotateLeft,toList]

theorem toList_rotateRight (h : n.left.isRed = true) : n.rotateRight.toList = n.toList := by
  match n,h with
  | value c (value _ ll lk lv lr) k v r,_ => simp [rotateRight,toList]

theorem toList_fixUp (n : LLRBNode κ ν) : n.fixUp.toList = n.toList := by
  rw [fixUp]
  have hleft : (if n.right.isRed && !n.left.isRed then n.rotateLeft else n).toList =
      n.toList := by
    split
    · rename_i h
      exact toList_rotateLeft (Bool.and_eq_true_iff.mp h).1
    · rfl
  generalize (if n.right.isRed && !n.left.isRed then n.rotateLeft else n) = n₁ at hleft
  have hright : (if n₁.left.isRed && n₁.left.left.isRed then n₁.rotateRight else n₁).toList =
      n₁.toList := by
    split
    · rename_i h
      exact toList_rotateRight (Bool.and_eq_true_iff.mp h).1
    · rfl
  generalize (if n₁.left.isRed && n₁.left.left.isRed then n₁.rotateRight else n₁) = n₂ at hright
  split
  · rw [toList_colorFlip,hright,hleft]
  · rw [hright,hleft]

theorem isEmpty_eq : n.isEmpty = true ↔ n = empty := by
  cases n <;> simp [isEmpty]

/-- The node is ready for a removal on its left. -/
def readyLeft (n : LLRBNode κ ν) : LLRBNode κ ν :=
  if !n.left.isEmpty && !n.left.isRed && !n.left.left.isRed then n.moveRedLeft else n

def readyRight (n : LLRBNode κ ν) : LLRBNode κ ν :=
  let n := if n.left.isRed then n.rotateRight else n
  if !n.right.isEmpty && !n.right.isRed && !n.right.left.isRed then n.moveRedRight else n

theorem toList_moveRedLeft (n : LLRBNode κ ν) : n.moveRedLeft.toList = n.toList := by
  rw [moveRedLeft]
  have hflip := toList_colorFlip n
  generalize n.colorFlip = m at hflip
  split
  · rename_i h
    match m,h with
    | value c l k v (value rc rl rk rv rr),h =>
      have hr : (value rc rl rk rv rr).rotateRight.toList =
        (value rc rl rk rv rr).toList := toList_rotateRight h
      match rl,h with
      | value _ a x w b,_ =>
        rw [toList_colorFlip,← hflip]
        simp [withRight,right,rotateRight,rotateLeft,toList]
  · exact hflip

theorem toList_moveRedRight (n : LLRBNode κ ν) : n.moveRedRight.toList = n.toList := by
  rw [moveRedRight]
  have hflip := toList_colorFlip n
  generalize n.colorFlip = m at hflip
  split
  · rename_i h
    match m,h with
    | value c (value lc ll lk lv lr) k v r,_ =>
      rw [toList_colorFlip,← hflip]
      simp [rotateRight,toList]
  · exact hflip

theorem toList_readyLeft (n : LLRBNode κ ν) : n.readyLeft.toList = n.toList := by
  rw [readyLeft]
  split
  · exact toList_moveRedLeft n
  · rfl

theorem toList_readyRight (n : LLRBNode κ ν) : n.readyRight.toList = n.toList := by
  have hfirst : (if n.left.isRed then n.rotateRight else n).toList = n.toList := by
    split
    · rename_i h
      exact toList_rotateRight h
    · rfl
  rw [readyRight]
  generalize (if n.left.isRed then n.rotateRight else n) = m at hfirst
  split
  · rw [toList_moveRedRight,hfirst]
  · exact hfirst

theorem count_left_lt (h : n.count ≠ 0) : n.left.count < n.count := by
  cases n with
  | empty => exact absurd rfl h
  | value c l k v r =>
    simp only [left,count]
    omega

theorem count_readyLeft (n : LLRBNode κ ν) : n.readyLeft.count = n.count := by
  rw [count_eq,toList_readyLeft,← count_eq]

theorem count_readyRight (n : LLRBNode κ ν) : n.readyRight.count = n.count := by
  rw [count_eq,toList_readyRight,← count_eq]

theorem count_ne_zero (h : ¬ n.left.isEmpty = true) : n.count ≠ 0 := by
  cases n with
  | empty => exact absurd rfl h
  | value c l k v r =>
    simp only [count]
    omega

/-- It is called on value nodes alone. -/
def removeMin (n : LLRBNode κ ν) : LLRBNode κ ν :=
  if n.left.isEmpty then empty
  else (n.readyLeft.withLeft n.readyLeft.left.removeMin).fixUp
termination_by n.count
decreasing_by
  rename_i h
  have hcount := count_readyLeft n
  have hlt := count_left_lt (n := n.readyLeft) (by rw [hcount]; exact count_ne_zero h)
  omega

theorem count_fixUp (n : LLRBNode κ ν) : n.fixUp.count = n.count := by
  rw [count_eq,toList_fixUp,← count_eq]

theorem count_removeMin_le (n : LLRBNode κ ν) : n.removeMin.count ≤ n.count := by
  induction n using removeMin.induct with
  | case1 n h =>
    rw [removeMin,if_pos h]
    exact Nat.zero_le _
  | case2 n h ih =>
    rw [removeMin,if_neg h,count_fixUp,← count_readyLeft n]
    cases hready : n.readyLeft with
    | empty => exact Nat.le_refl _
    | value c l k v r =>
      rw [hready] at ih
      simp only [withLeft,left,count] at ih ⊢
      omega

/-- The smallest entry of the right subtree takes the place of the one that goes. -/
def remove (cmp : κ → κ → Ordering) (aKey : κ) (n : LLRBNode κ ν) : LLRBNode κ ν :=
  match _hn : n with
  | empty => empty
  | value _ _ k _ _ =>
    if cmp aKey k = .lt then
      (n.readyLeft.withLeft (n.readyLeft.left.remove cmp aKey)).fixUp
    else
      match _hready : n.readyRight with
      | empty => empty
      | value c l k v r =>
        if cmp aKey k = .eq then
          match r.min with
          | none => empty
          | some smallest =>
            (value c l smallest.1 smallest.2 (r.removeMin.remove cmp aKey)).fixUp
        else (value c l k v (r.remove cmp aKey)).fixUp
termination_by n.count
decreasing_by
  · have hcount := count_readyLeft n
    have hpos : n.count ≠ 0 := by simp [_hn,count]
    have hlt := count_left_lt (n := n.readyLeft) (by rw [hcount]; exact hpos)
    rw [← _hn]
    omega
  all_goals
    have hcount := count_readyRight n
    have hmin := count_removeMin_le r
    rw [_hready] at hcount
    simp only [count] at hcount hmin ⊢
    subst _hn
    simp only [count] at hcount ⊢
    omega

variable {cmp : κ → κ → Ordering} {aKey : κ}

theorem remove_lt (h : cmp aKey k = .lt) : (value c l k v r).remove cmp aKey =
    ((value c l k v r).readyLeft.withLeft
      ((value c l k v r).readyLeft.left.remove cmp aKey)).fixUp := by
  rw [remove,if_pos h]

variable {l' r' : LLRBNode κ ν} {k' : κ} {v' : ν} {smallest : κ × ν}

theorem remove_gt (h : cmp aKey k ≠ .lt)
    (hready : (value c l k v r).readyRight = value c' l' k' v' r') (hne : cmp aKey k' ≠ .eq) :
    (value c l k v r).remove cmp aKey = (value c' l' k' v' (r'.remove cmp aKey)).fixUp := by
  rw [remove,if_neg h]
  split
  · rename_i heq
    rw [hready] at heq
    cases heq
  · rename_i heq
    rw [hready] at heq
    cases heq
    rw [if_neg hne]

theorem remove_eq (h : cmp aKey k ≠ .lt)
    (hready : (value c l k v r).readyRight = value c' l' k' v' r') (heq : cmp aKey k' = .eq)
    (hmin : r'.min = some smallest) : (value c l k v r).remove cmp aKey =
      (value c' l' smallest.1 smallest.2 (r'.removeMin.remove cmp aKey)).fixUp := by
  rw [remove,if_neg h]
  split
  · rename_i hr
    rw [hready] at hr
    cases hr
  · rename_i hr
    rw [hready] at hr
    cases hr
    rw [if_pos heq,hmin]

theorem remove_last (h : cmp aKey k ≠ .lt)
    (hready : (value c l k v r).readyRight = value c' l' k' v' r') (heq : cmp aKey k' = .eq)
    (hmin : r'.min = none) : (value c l k v r).remove cmp aKey = empty := by
  rw [remove,if_neg h]
  split
  · rfl
  · rename_i hr
    rw [hready] at hr
    cases hr
    rw [if_pos heq,hmin]

theorem min_eq_head? (n : LLRBNode κ ν) : n.min = n.toList.head? := by
  induction n using min.induct with
  | case1 => rfl
  | case2 => rfl
  | case3 c lc ll lk lv lr k v r ih =>
    rw [min,ih]
    simp [toList,List.head?_append]

theorem sorted_value (h : Sorted cmp (value c l k v r).toList) :
    Sorted cmp l.toList ∧ Sorted cmp r.toList ∧ (∀ e ∈ l.toList, cmp e.1 k = .lt) ∧
      ∀ e ∈ r.toList, cmp k e.1 = .lt := by
  obtain ⟨hl,hr,hbelow,habove,-⟩ := sorted_append.mp h
  exact ⟨hl,hr,hbelow,habove⟩

variable [TransCmp cmp]

theorem gt_of_gt {aKey : κ} (hgt : cmp aKey k = .gt)
    (hl : ∀ e ∈ l.toList, cmp e.1 k = .lt) :
    ∀ e ∈ l.toList ++ [(k,v)], cmp e.1 aKey = .lt := by
  have hlt : cmp k aKey = .lt := OrientedCmp.lt_of_gt hgt
  intro e he
  rcases List.mem_append.mp he with he | he
  · exact TransCmp.lt_trans (hl e he) hlt
  · rw [List.mem_singleton.mp he]
    exact hlt

theorem lt_of_lt {aKey : κ} (hlt : cmp aKey k = .lt) (hr : ∀ e ∈ r.toList, cmp k e.1 = .lt) :
    ∀ e ∈ (k,v) :: r.toList, cmp aKey e.1 = .lt := by
  intro e he
  rcases List.mem_cons.mp he with rfl | he
  · exact hlt
  · exact TransCmp.lt_trans hlt (hr e he)

theorem toList_insertKey (h : Sorted cmp n.toList) (aKey : κ) (aValue : ν) :
    (n.insertKey cmp aKey aValue).toList =
      put cmp aKey (keyFor cmp aKey n.toList) aValue n.toList := by
  induction n with
  | empty => rfl
  | value c l k v r ihl ihr =>
    obtain ⟨hl,hr,hbelow,habove⟩ := sorted_value h
    rw [insertKey]
    cases hcmp : cmp aKey k with
    | lt =>
      simp only [toList_fixUp,toList,ihl hl]
      exact (put_lt (lt_of_lt hcmp habove)).symm
    | eq =>
      simp only [toList_fixUp,toList]
      exact (put_eq hcmp (fun e he => TransCmp.lt_of_lt_of_eq (hbelow e he)
        (OrientedCmp.eq_symm hcmp)) fun e he => TransCmp.lt_of_eq_of_lt hcmp (habove e he)).symm
    | gt =>
      simp only [toList_fixUp,toList,ihr hr]
      exact (put_gt (gt_of_gt hcmp hbelow)).symm

end Order

end LLRBNode

end Answr
