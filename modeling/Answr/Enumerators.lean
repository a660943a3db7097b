import Answr.DictionaryReads
set_option autoImplicit false

/-! The enumerators of the sorted dictionaries: a position in an array, or a stack of the
nodes of a tree that are still to come. -/

namespace Answr
open Std Entries LLRBNode

variable {κ ν : Type}

section Calls

variable {σ α : Type}

/-- What the call after `n` others returns. -/
def nthObject (nextObject : σ → Option α × σ) : Nat → σ → Option α
  | 0, s => (nextObject s).1
  | n+1, s => nthObject nextObject n (nextObject s).2

theorem nthObject_eq {nextObject : σ → Option α × σ} (left : σ → List α) (Inv : σ → Prop)
    (hhead : ∀ s, Inv s → (nextObject s).1 = (left s).head?)
    (htail : ∀ s, Inv s → left (nextObject s).2 = (left s).tail)
    (hinv : ∀ s, Inv s → Inv (nextObject s).2) (n : Nat) (s : σ) (hs : Inv s) :
    nthObject nextObject n s = (left s)[n]? := by
  induction n generalizing s with
  | zero => rw [nthObject,hhead s hs,List.head?_eq_getElem?]
  | succ n ih => rw [nthObject,ih _ (hinv s hs),htail s hs,List.getElem?_tail]

end Calls

section Enumerators

/-- `FArraySortedDictionaryEnumerator` -/
structure ArrayEnumerator (κ : Type) where
  keys : List κ
  pos : Int
  reverse : Bool

def ArrayEnumerator.nextObject (e : ArrayEnumerator κ) : Option κ × ArrayEnumerator κ :=
  if 0 ≤ e.pos ∧ e.pos < e.keys.length then
    (e.keys[e.pos.toNat]?,{ e with pos := if e.reverse then e.pos-1 else e.pos+1 })
  else (none,e)

/-- `FTreeSortedDictionaryEnumerator`, the top of its stack first -/
structure TreeEnumerator (κ ν : Type) where
  isReverse : Bool
  stack : List (LLRBNode κ ν)

variable (cmp : κ → κ → Ordering) (startKey : Option κ) (isReverse : Bool)

/-- How the key lies to the start key. It is flipped if we are going in reverse, also where
there is no start key. -/
def fromStart (key : κ) : Ordering :=
  let ordering := match startKey with
    | some start => cmp key start
    | none => .gt
  if isReverse then ordering.swap else ordering

/-- The loop of `initWithImmutableSortedDictionary`. -/
def initStack : LLRBNode κ ν → List (LLRBNode κ ν) → List (LLRBNode κ ν)
  | .empty, stack => stack
  | .value c l k v r, stack =>
    match fromStart cmp startKey isReverse k with
    | .lt => if isReverse then initStack l stack else initStack r stack
    | .eq => .value c l k v r :: stack
    | .gt =>
      if isReverse then initStack r (.value c l k v r :: stack)
      else initStack l (.value c l k v r :: stack)

/-- The loop of `nextObject`. -/
def pushAll : LLRBNode κ ν → List (LLRBNode κ ν) → List (LLRBNode κ ν)
  | .empty, stack => stack
  | .value c l k v r, stack =>
    if isReverse then pushAll r (.value c l k v r :: stack)
    else pushAll l (.value c l k v r :: stack)

def TreeEnumerator.nextObject (e : TreeEnumerator κ ν) : Option κ × TreeEnumerator κ ν :=
  match e.stack with
  | [] => (none,e)
  | .empty :: stack => (none,{ e with stack := stack })
  | .value _ l k _ r :: stack =>
    (some k,{ e with stack := pushAll e.isReverse (if e.isReverse then l else r) stack })

namespace SortedDictionary

inductive Enumerator (κ ν : Type) where
  | array (e : ArrayEnumerator κ)
  | tree (e : TreeEnumerator κ ν)

def Enumerator.nextObject : Enumerator κ ν → Option κ × Enumerator κ ν
  | .array e => (e.nextObject.1,.array e.nextObject.2)
  | .tree e => (e.nextObject.1,.tree e.nextObject.2)

def keyEnumerator : SortedDictionary κ ν → Enumerator κ ν
  | .array entries => .array ⟨entries.map (·.1),0,false⟩
  | .tree root => .tree ⟨false,initStack cmp none false root []⟩

def keyEnumeratorFrom (start : κ) : SortedDictionary κ ν → Enumerator κ ν
  | .array entries =>
    .array ⟨entries.map (·.1),findInsertPositionForKey cmp start entries,false⟩
  | .tree root => .tree ⟨false,initStack cmp (some start) false root []⟩

def reverseKeyEnumerator : SortedDictionary κ ν → Enumerator κ ν
  | .array entries => .array ⟨entries.map (·.1),entries.length-1,true⟩
  | .tree root => .tree ⟨true,initStack cmp none true root []⟩

/-- It starts just before the insertion position, unless the key there is the same. -/
def reverseKeyEnumeratorFrom (start : κ) : SortedDictionary κ ν → Enumerator κ ν
  | .array entries =>
    let startPos := findInsertPositionForKey cmp start entries
    let same := (entries[startPos]?).any fun e => cmp e.1 start = .eq
    .array ⟨entries.map (·.1),if same then startPos else startPos-1,true⟩
  | .tree root => .tree ⟨true,initStack cmp (some start) true root []⟩

end SortedDictionary

end Enumerators

section Stacks

variable {cmp : κ → κ → Ordering} {startKey : Option κ} {isReverse : Bool}

def directed (isReverse : Bool) (l : List (κ × ν)) : List (κ × ν) :=
  if isReverse then l.reverse else l

/-- What a node on the stack stands for: itself and the side that is to come. -/
def held (isReverse : Bool) : LLRBNode κ ν → List (κ × ν)
  | .empty => []
  | .value _ l k v r => (k,v) :: directed isReverse (if isReverse then l else r).toList

theorem directed_value (isReverse : Bool) (c : LLRBColor) (l : LLRBNode κ ν) (k : κ) (v : ν)
    (r : LLRBNode κ ν) : directed isReverse (value c l k v r).toList =
      directed isReverse (if isReverse then r else l).toList ++
        held isReverse (value c l k v r) := by
  cases isReverse <;> simp [directed,held,toList]

theorem pushAll_held (isReverse : Bool) (root : LLRBNode κ ν) (stack : List (LLRBNode κ ν)) :
    (pushAll isReverse root stack).flatMap (held isReverse) =
      directed isReverse root.toList ++ stack.flatMap (held isReverse) := by
  induction root generalizing stack with
  | empty => cases isReverse <;> rfl
  | value c l k v r ihl ihr =>
    rw [directed_value,pushAll,List.append_assoc,← List.flatMap_cons]
    cases isReverse with
    | false => exact ihl _
    | true => exact ihr _

theorem pushAll_nonempty (isReverse : Bool) (root : LLRBNode κ ν) {stack : List (LLRBNode κ ν)}
    (h : ∀ node ∈ stack, node.isEmpty = false) :
    ∀ node ∈ pushAll isReverse root stack, node.isEmpty = false := by
  induction root generalizing stack with
  | empty => exact h
  | value c l k v r ihl ihr =>
    have hcons : ∀ node ∈ value c l k v r :: stack, node.isEmpty = false := by
      intro node hnode
      rcases List.mem_cons.mp hnode with rfl | hnode
      · rfl
      · exact h node hnode
    cases isReverse with
    | false => exact ihl hcons
    | true => exact ihr hcons

theorem TreeEnumerator.nthObject_eq (n : Nat) (e : TreeEnumerator κ ν)
    (h : ∀ node ∈ e.stack, node.isEmpty = false) :
    nthObject TreeEnumerator.nextObject n e =
      ((e.stack.flatMap (held e.isReverse)).map (·.1))[n]? := by
  refine Answr.nthObject_eq (fun e => (e.stack.flatMap (held e.isReverse)).map (·.1))
    (fun e => ∀ node ∈ e.stack, node.isEmpty = false) ?_ ?_ ?_ n e h
  · rintro ⟨isReverse,stack⟩ hs
    match stack,hs with
    | [],_ => rfl
    | .empty :: _,hs => exact absurd (hs _ (.head _)) Bool.noConfusion
    | .value _ _ _ _ _ :: _,_ => rfl
  · rintro ⟨isReverse,stack⟩ hs
    match stack,hs with
    | [],_ => rfl
    | .empty :: _,hs => exact absurd (hs _ (.head _)) Bool.noConfusion
    | .value c l k v r :: stack,_ =>
      simp only [TreeEnumerator.nextObject,pushAll_held,List.flatMap_cons,held,List.cons_append,
        List.map_cons,List.tail_cons]
  · rintro ⟨isReverse,stack⟩ hs
    match stack,hs with
    | [],hs => exact hs
    | .empty :: _,hs => exact absurd (hs _ (.head _)) Bool.noConfusion
    | .value c l k v r :: stack,hs =>
      exact pushAll_nonempty isReverse _ fun node hnode => hs node (.tail _ hnode)

theorem initStack_nonempty (cmp : κ → κ → Ordering) (startKey : Option κ) (isReverse : Bool)
    (root : LLRBNode κ ν) {stack : List (LLRBNode κ ν)}
    (h : ∀ node ∈ stack, node.isEmpty = false) :
    ∀ node ∈ initStack cmp startKey isReverse root stack, node.isEmpty = false := by
  induction root generalizing stack with
  | empty => exact h
  | value c l k v r ihl ihr =>
    have hcons : ∀ node ∈ value c l k v r :: stack, node.isEmpty = false := by
      intro node hnode
      rcases List.mem_cons.mp hnode with rfl | hnode
      · rfl
      · exact h node hnode
    rw [initStack]
    split
    · split
      · exact ihl h
      · exact ihr h
    · exact hcons
    · split
      · exact ihr hcons
      · exact ihl hcons

variable [TransCmp cmp]

theorem fromStart_before {a b : κ} (hab : cmp a b = if isReverse then .gt else .lt)
    (hb : fromStart cmp startKey isReverse b ≠ .gt) :
    fromStart cmp startKey isReverse a = .lt := by
  cases startKey with
  | none =>
    cases isReverse with
    | false => exact absurd rfl hb
    | true => rfl
  | some start =>
    cases isReverse with
    | false =>
      have hlt : cmp a b = .lt := hab
      cases hc : cmp b start with
      | lt => exact TransCmp.lt_trans hlt hc
      | eq => exact TransCmp.lt_of_lt_of_eq hlt hc
      | gt => exact absurd hc hb
    | true =>
      have hlt : cmp b a = .lt := OrientedCmp.lt_of_gt hab
      have hstart : cmp start a = .lt := by
        cases hc : cmp b start with
        | lt => exact absurd (show (cmp b start).swap = .gt by rw [hc]; rfl) hb
        | eq => exact TransCmp.lt_of_eq_of_lt (OrientedCmp.eq_symm hc) hlt
        | gt => exact TransCmp.lt_trans (OrientedCmp.lt_of_gt hc) hlt
      show (cmp a start).swap = .lt
      rw [OrientedCmp.gt_of_lt hstart]
      rfl

theorem fromStart_after {a b : κ} (hab : cmp a b = if isReverse then .gt else .lt)
    (ha : fromStart cmp startKey isReverse a ≠ .lt) :
    fromStart cmp startKey isReverse b = .gt := by
  cases hb : fromStart cmp startKey isReverse b with
  | gt => rfl
  | lt => exact absurd (fromStart_before hab (by rw [hb]; decide)) ha
  | eq => exact absurd (fromStart_before hab (by rw [hb]; decide)) ha

theorem filter_before {a : κ × ν} {l : List (κ × ν)}
    (hl : ∀ e ∈ l, cmp e.1 a.1 = if isReverse then .gt else .lt)
    (ha : fromStart cmp startKey isReverse a.1 ≠ .gt) :
    l.filter (fun e => fromStart cmp startKey isReverse e.1 ≠ .lt) = [] :=
  List.filter_eq_nil_iff.mpr fun e he hne =>
    (of_decide_eq_true hne) (fromStart_before (hl e he) ha)

theorem filter_after {a : κ × ν} {l : List (κ × ν)}
    (hl : ∀ e ∈ l, cmp a.1 e.1 = if isReverse then .gt else .lt)
    (ha : fromStart cmp startKey isReverse a.1 ≠ .lt) :
    l.filter (fun e => fromStart cmp startKey isReverse e.1 ≠ .lt) = l :=
  List.filter_eq_self.mpr fun e he => decide_eq_true (by
    rw [fromStart_after (hl e he) ha]
    decide)

/-- The way down leaves on the stack what lies from the start on. -/
def LeavesFromStart (cmp : κ → κ → Ordering) (startKey : Option κ) (isReverse : Bool)
    (root : LLRBNode κ ν) : Prop :=
  ∀ stack, (initStack cmp startKey isReverse root stack).flatMap (held isReverse) =
    (directed isReverse root.toList).filter
      (fun e => fromStart cmp startKey isReverse e.1 ≠ .lt) ++ stack.flatMap (held isReverse)

theorem initStack_held {root : LLRBNode κ ν} (hs : Sorted cmp root.toList) :
    LeavesFromStart cmp startKey isReverse root := by
  induction root with
  | empty => intro stack; cases isReverse <;> rfl
  | value c l k v r ihl ihr =>
    obtain ⟨hl,hr,hbelow,habove⟩ := sorted_value hs
    have hbefore : ∀ e ∈ directed isReverse (if isReverse then r else l).toList,
        cmp e.1 k = if isReverse then .gt else .lt := by
      intro e he
      cases isReverse with
      | false => exact hbelow e he
      | true => exact OrientedCmp.gt_of_lt (habove e (List.mem_reverse.mp he))
    have hafter : ∀ e ∈ directed isReverse (if isReverse then l else r).toList,
        cmp k e.1 = if isReverse then .gt else .lt := by
      intro e he
      cases isReverse with
      | false => exact habove e he
      | true => exact OrientedCmp.gt_of_lt (hbelow e (List.mem_reverse.mp he))
    have ihbefore : LeavesFromStart cmp startKey isReverse (if isReverse then r else l) := by
      cases isReverse with
      | false => exact ihl hl
      | true => exact ihr hr
    have ihafter : LeavesFromStart cmp startKey isReverse (if isReverse then l else r) := by
      cases isReverse with
      | false => exact ihr hr
      | true => exact ihl hl
    have hheld : held isReverse (value c l k v r) =
      (k,v) :: directed isReverse (if isReverse then l else r).toList := rfl
    intro stack
    rw [directed_value,List.filter_append,initStack]
    cases hk : fromStart cmp startKey isReverse k with
    | lt =>
      -- the node and all before it are left out
      have hdown : (if isReverse then initStack cmp startKey isReverse l stack
          else initStack cmp startKey isReverse r stack) =
          initStack cmp startKey isReverse (if isReverse then l else r) stack := by
        cases isReverse <;> rfl
      rw [filter_before (a := (k,v)) hbefore (by rw [hk]; decide),hheld,
        List.filter_cons_of_neg (by simp [hk]),List.nil_append]
      simp only [hdown]
      exact ihafter stack
    | eq =>
      rw [filter_before (a := (k,v)) hbefore (by rw [hk]; decide),hheld,
        List.filter_cons_of_pos (by simp [hk]),filter_after (a := (k,v)) hafter
          (by rw [hk]; decide),List.nil_append,← hheld]
      exact List.flatMap_cons
    | gt =>
      have hdown : (if isReverse then initStack cmp startKey isReverse r
          (value c l k v r :: stack) else
          initStack cmp startKey isReverse l (value c l k v r :: stack)) =
          initStack cmp startKey isReverse (if isReverse then r else l)
            (value c l k v r :: stack) := by
        cases isReverse <;> rfl
      rw [hheld,List.filter_cons_of_pos (by simp [hk]),filter_after (a := (k,v)) hafter
        (by rw [hk]; decide),← hheld,List.append_assoc,← List.flatMap_cons]
      simp only [hdown]
      exact ihbefore _

end Stacks

section Positions

variable {cmp : κ → κ → Ordering} [TransCmp cmp] {l : List (κ × ν)}

def ArrayEnumerator.left (e : ArrayEnumerator κ) : List κ :=
  if e.reverse then (e.keys.take (e.pos+1).toNat).reverse else e.keys.drop e.pos.toNat

def ArrayEnumerator.Inside (e : ArrayEnumerator κ) : Prop :=
  if e.reverse then -1 ≤ e.pos ∧ e.pos < e.keys.length else 0 ≤ e.pos

theorem ArrayEnumerator.Inside.forward {keys : List κ} {pos : Int} (h : 0 ≤ pos) :
    Inside ⟨keys,pos,false⟩ := h

theorem ArrayEnumerator.Inside.backward {keys : List κ} {pos : Int}
    (h : -1 ≤ pos ∧ pos < keys.length) : Inside ⟨keys,pos,true⟩ := h

theorem ArrayEnumerator.nextObject_left (e : ArrayEnumerator κ) (h : e.Inside) :
    e.nextObject.1 = e.left.head? ∧ e.nextObject.2.left = e.left.tail ∧
      e.nextObject.2.Inside := by
  obtain ⟨keys,pos,reverse⟩ := e
  cases reverse with
  | false =>
    obtain ⟨n,rfl⟩ := Int.eq_ofNat_of_zero_le h
    by_cases hn : n < keys.length
    · have hpos : ((n : Int)+1).toNat = n+1 := by omega
      have hinside : (0 : Int) ≤ n ∧ (n : Int) < keys.length := by omega
      simp only [nextObject,if_pos hinside,left,Inside,Bool.false_eq_true,if_false,
        Int.toNat_natCast,hpos,List.head?_drop,List.tail_drop]
      exact ⟨trivial,trivial,by omega⟩
    · have hout : ¬ ((0 : Int) ≤ n ∧ (n : Int) < keys.length) := by omega
      have hnil : keys.drop n = [] := List.drop_eq_nil_of_le (by omega)
      simp only [nextObject,if_neg hout,left,Inside,Bool.false_eq_true,if_false,
        Int.toNat_natCast,hnil,List.head?_nil,List.tail_nil]
      exact ⟨trivial,trivial,by omega⟩
  | true =>
    obtain ⟨hlow,hhigh⟩ : -1 ≤ pos ∧ pos < keys.length := h
    by_cases hpos : 0 ≤ pos
    · obtain ⟨n,rfl⟩ := Int.eq_ofNat_of_zero_le hpos
      obtain ⟨a,ha⟩ : ∃ a, keys[n]? = some a := ⟨_,List.getElem?_eq_getElem (by omega)⟩
      have htake : (keys.take (n+1)).reverse = a :: (keys.take n).reverse := by
        rw [List.take_add_one,ha]
        simp
      have hnext : ((n : Int)-1+1).toNat = n := by omega
      have hnow : ((n : Int)+1).toNat = n+1 := by omega
      simp only [nextObject,if_pos (And.intro hpos hhigh),left,Inside,if_true,hnext,hnow,htake,
        Int.toNat_natCast,ha]
      exact ⟨rfl,rfl,by omega⟩
    · obtain rfl : pos = -1 := by omega
      simp only [nextObject,left,Inside]
      exact ⟨rfl,rfl,hlow,hhigh⟩

theorem ArrayEnumerator.nthObject_eq (n : Nat) (e : ArrayEnumerator κ) (h : e.Inside) :
    nthObject ArrayEnumerator.nextObject n e = e.left[n]? :=
  Answr.nthObject_eq ArrayEnumerator.left ArrayEnumerator.Inside
    (fun e he => (e.nextObject_left he).1) (fun e he => (e.nextObject_left he).2.1)
    (fun e he => (e.nextObject_left he).2.2) n e h

theorem not_lt_of_mem_above {k : κ} {e : κ × ν} (he : e ∈ above cmp k l) :
    cmp e.1 k ≠ .lt := OrientedCmp.not_lt_of_lt (above_lt he)

theorem drop_insertPosition (hs : Sorted cmp l) (start : κ) :
    l.drop (findInsertPositionForKey cmp start l) =
      l.filter fun e => cmp e.1 start ≠ .lt := by
  obtain ⟨same,hl,hsame,-⟩ := hs.split start
  have hbelow : (below cmp start l).filter (fun e => cmp e.1 start ≠ .lt) = [] :=
    List.filter_eq_nil_iff.mpr fun e he hne => of_decide_eq_true hne (below_lt he)
  have hrest : (same ++ above cmp start l).filter (fun e => cmp e.1 start ≠ .lt) =
      same ++ above cmp start l := by
    refine List.filter_eq_self.mpr fun e he => decide_eq_true ?_
    rcases List.mem_append.mp he with he | he
    · rw [hsame e he]
      decide
    · exact not_lt_of_mem_above he
  rw [findInsertPositionForKey_eq hs]
  conv => lhs; arg 2; rw [hl]
  conv => rhs; rw [hl]
  rw [List.drop_left,List.filter_append,hbelow,hrest,List.nil_append]

theorem take_insertPosition (hs : Sorted cmp l) (start : κ) :
    l.take (findInsertPositionForKey cmp start l + if (l[findInsertPositionForKey cmp start l]?).any
        (fun e => cmp e.1 start = .eq) then 1 else 0) =
      l.filter fun e => cmp e.1 start ≠ .gt := by
  obtain ⟨same,hl,hsame,hlen⟩ := hs.split start
  have habove : (above cmp start l).filter (fun e => cmp e.1 start ≠ .gt) = [] :=
    List.filter_eq_nil_iff.mpr fun e he hne =>
      of_decide_eq_true hne (OrientedCmp.gt_of_lt (above_lt he))
  have hrest : (below cmp start l ++ same).filter (fun e => cmp e.1 start ≠ .gt) =
      below cmp start l ++ same := by
    refine List.filter_eq_self.mpr fun e he => decide_eq_true ?_
    rcases List.mem_append.mp he with he | he
    · rw [below_lt he]
      decide
    · rw [hsame e he]
      decide
  have hsplit : l = below cmp start l ++ same ++ above cmp start l := by
    rw [List.append_assoc]
    exact hl
  have hfilter : l.filter (fun e => cmp e.1 start ≠ .gt) = below cmp start l ++ same := by
    conv => lhs; rw [hsplit]
    rw [List.filter_append,habove,hrest,List.append_nil]
  have hget : ∀ first rest, l = first ++ rest → l[first.length]? = rest.head? := by
    rintro first rest rfl
    rw [List.getElem?_append_right (Nat.le_refl _),Nat.sub_self,List.head?_eq_getElem?]
  have hsize : (if ((same ++ above cmp start l).head?).any (fun e => cmp e.1 start = .eq)
      then 1 else 0) = same.length := by
    match same,hsame,hlen with
    | [e],hsame,_ => simp [hsame e (.head _)]
    | [],_,_ =>
      cases hhead : (above cmp start l).head? with
      | none => simp [hhead]
      | some e =>
        have hgt : cmp e.1 start = .gt :=
          OrientedCmp.gt_of_lt (above_lt (List.mem_of_mem_head? hhead))
        simp [hhead,hgt]
  rw [findInsertPositionForKey_eq hs,hget _ _ hl,hsize,hfilter,← List.length_append]
  conv => lhs; arg 2; rw [hsplit]
  exact List.take_left

namespace SortedDictionary

variable {d : SortedDictionary κ ν}

theorem nthObject_array (n : Nat) (e : ArrayEnumerator κ) :
    nthObject (Enumerator.nextObject (ν := ν)) n (.array e) =
      nthObject ArrayEnumerator.nextObject n e := by
  induction n generalizing e with
  | zero => rfl
  | succ n ih => exact ih _

theorem nthObject_tree (n : Nat) (e : TreeEnumerator κ ν) :
    nthObject Enumerator.nextObject n (.tree e) = nthObject TreeEnumerator.nextObject n e := by
  induction n generalizing e with
  | zero => rfl
  | succ n ih => exact ih _

theorem nthObject_initStack {root : LLRBNode κ ν} (hs : Sorted cmp root.toList)
    (startKey : Option κ) (isReverse : Bool) (n : Nat) :
    nthObject Enumerator.nextObject n (.tree ⟨isReverse,initStack cmp startKey isReverse root []⟩) =
      (((directed isReverse root.toList).filter
        (fun e => fromStart cmp startKey isReverse e.1 ≠ .lt)).map (·.1))[n]? := by
  rw [nthObject_tree,TreeEnumerator.nthObject_eq n _
    (initStack_nonempty cmp startKey isReverse root (by simp)),initStack_held hs,
    List.flatMap_nil,List.append_nil]

/-- The enumerators hand out the keys in order, from a start key on in either direction, for
an array as for a tree; but backwards without a start key a tree hands out none. -/
theorem enumerators_exact (h : Valid cmp d) (start : κ) (n : Nat) :
    nthObject Enumerator.nextObject n (d.keyEnumerator cmp) = (d.entries.map (·.1))[n]? ∧
      nthObject Enumerator.nextObject n (d.keyEnumeratorFrom cmp start) =
        ((d.entries.filter fun e => cmp e.1 start ≠ .lt).map (·.1))[n]? ∧
      nthObject Enumerator.nextObject n (d.reverseKeyEnumeratorFrom cmp start) =
        ((d.entries.filter fun e => cmp e.1 start ≠ .gt).reverse.map (·.1))[n]? ∧
      nthObject Enumerator.nextObject n (d.reverseKeyEnumerator cmp) =
        match d with
        | .array l => (l.reverse.map (·.1))[n]?
        | .tree _ => none := by
  cases h with
  | @tree root n' hs hbalanced =>
    have hforward : (directed false root.toList).filter
        (fun e => fromStart cmp none false e.1 ≠ .lt) = root.toList :=
      List.filter_eq_self.mpr fun e _ => rfl
    have hbackward : (directed true root.toList).filter
        (fun e => fromStart cmp none true e.1 ≠ .lt) = [] :=
      List.filter_eq_nil_iff.mpr fun e _ hne => of_decide_eq_true hne rfl
    have hflip : (directed true root.toList).filter
        (fun e => fromStart cmp (some start) true e.1 ≠ .lt) =
          (root.toList.filter fun e => cmp e.1 start ≠ .gt).reverse := by
      rw [← List.filter_reverse]
      refine List.filter_congr fun e _ => decide_eq_decide.mpr ?_
      show (cmp e.1 start).swap ≠ .lt ↔ cmp e.1 start ≠ .gt
      cases cmp e.1 start <;> decide
    refine ⟨?_,nthObject_initStack hs (some start) false n,?_,?_⟩
    · rw [keyEnumerator,nthObject_initStack hs,hforward]
      rfl
    · rw [reverseKeyEnumeratorFrom,nthObject_initStack hs,hflip]
      rfl
    · rw [reverseKeyEnumerator,nthObject_initStack hs,hbackward]
      rfl
  | @array l hs hlen =>
    simp only [keyEnumerator,keyEnumeratorFrom,reverseKeyEnumeratorFrom,reverseKeyEnumerator,
      nthObject_array]
    have htake := take_insertPosition hs start
    refine ⟨?_,?_,?_,?_⟩
    · rw [ArrayEnumerator.nthObject_eq n _ (.forward (Int.le_refl 0))]
      rfl
    · rw [ArrayEnumerator.nthObject_eq n _ (.forward (Int.natCast_nonneg _))]
      simp only [ArrayEnumerator.left,Bool.false_eq_true,if_false,Int.toNat_natCast,
        ← List.map_drop,drop_insertPosition hs]
      rfl
    · have hpos : findInsertPositionForKey cmp start l ≤ l.length := by
        rw [findInsertPositionForKey_eq hs]
        exact List.length_filter_le ..
      generalize findInsertPositionForKey cmp start l = pos at htake hpos ⊢
      cases hsame : (l[pos]?).any fun e => cmp e.1 start = .eq with
      | false =>
        have hnat : ((pos : Int)-1+1).toNat = pos := by omega
        rw [hsame,if_neg (by decide),Nat.add_zero] at htake
        rw [if_neg (by decide),ArrayEnumerator.nthObject_eq n _
          (.backward (by rw [List.length_map]; omega))]
        simp only [ArrayEnumerator.left,if_true,hnat,← List.map_take,htake,List.map_reverse]
        rfl
      | true =>
        have hnat : ((pos : Int)+1).toNat = pos+1 := by omega
        have hin : pos < l.length := by
          by_contra hout
          rw [List.getElem?_eq_none (by omega)] at hsame
          cases hsame
        rw [hsame,if_pos rfl] at htake
        rw [if_pos rfl,ArrayEnumerator.nthObject_eq n _
          (.backward (by rw [List.length_map]; omega))]
        simp only [ArrayEnumerator.left,if_true,hnat,← List.map_take,htake,List.map_reverse]
        rfl
    · have hnat : ((l.length : Int)-1+1).toNat = l.length := by omega
      rw [ArrayEnumerator.nthObject_eq n _ (.backward (by rw [List.length_map]; omega))]
      simp only [ArrayEnumerator.left,if_true,hnat,← List.map_take,List.take_length,
        List.map_reverse]

theorem enumerators_exact_pair :
    nthObject Enumerator.nextObject 0 ((SortedDictionary.tree
      (.value .black (.value .red .empty 1 5 .empty) 2 6 .empty)).keyEnumeratorFrom compare 2) =
        some 2 ∧
      nthObject Enumerator.nextObject 0 ((SortedDictionary.tree
        (.value .black (.value .red .empty 1 5 .empty) 2 6 .empty)).reverseKeyEnumerator
          compare) = none := by
  have hsorted : Sorted compare (value .black (.value .red .empty 1 5 .empty) 2 6
      .empty).toList := by
    unfold Sorted
    decide
  have hvalid : Valid compare (.tree
      (.value .black (.value .red .empty 1 5 .empty) 2 6 .empty)) :=
    .tree hsorted (.black (.red .empty .empty) .empty)
  obtain ⟨-,hfrom,-,hreverse⟩ := enumerators_exact hvalid 2 0
  exact ⟨hfrom.trans (by decide),hreverse⟩

end SortedDictionary

end Positions

end Answr
