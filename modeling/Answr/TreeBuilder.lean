import Answr.Balance
set_option autoImplicit false

/-! A balanced tree built at once from entries in order: pennants of descending sizes, one
or two of each size, along the left edge. -/

namespace Answr
open Entries LLRBNode

variable {κ ν : Type}

section Builder

/-- The base{1,2} number as a binary number and the number of bits that we care about. -/
structure Base12List where
  bits : Nat
  count : Nat
  current : Nat

/-- A quotient of logarithms, rounded down; it is exact for numbers of 32 bits. -/
def logBase2 (num : Nat) : Nat := num.log2

def bitMask (x : Nat) : Nat := if 32 ≤ x then 2^32-1 else 2^x-1

def Base12List.new (length : Nat) : Base12List :=
  let num := (length+1) % 2^32
  let count := logBase2 num
  { bits := num &&& bitMask count
    count := count
    current := count-1 }

/-- Whether the next digit is a 1, from the most significant one on. -/
def Base12List.next (list : Base12List) : Bool × Base12List :=
  (!list.bits.testBit list.current,{ list with current := list.current-1 })

def nodeAt (keys : List (κ × ν)) (index : Nat) (color : LLRBColor) (left right : LLRBNode κ ν) :
    LLRBNode κ ν :=
  match keys[index]? with
  | none => .empty
  | some e => .value color left e.1 e.2 right

def buildBalancedTree (keys : List (κ × ν)) (startIndex length : Nat) : LLRBNode κ ν :=
  -- bound length by the actual length of the array
  if Nat.min (keys.length-startIndex) length = 0 then .empty
  else if Nat.min (keys.length-startIndex) length = 1 then
    nodeAt keys startIndex .black .empty .empty
  else
    let middle := Nat.min (keys.length-startIndex) length / 2
    nodeAt keys (startIndex+middle) .black (buildBalancedTree keys startIndex middle)
      (buildBalancedTree keys (startIndex+middle+1) middle)
termination_by length
decreasing_by
  all_goals
    have hle : Nat.min (keys.length-startIndex) length ≤ length := Nat.min_le_right ..
    omega

/-- On the left of the pennant that came last. -/
def attachPennant : LLRBNode κ ν → LLRBNode κ ν → LLRBNode κ ν
  | .empty, pennant => pennant
  | .value c l k v r, pennant => .value c (attachPennant l pennant) k v r

/-- One pennant of the keys just before the index. -/
def buildPennant (keyList : List (κ × ν)) (color : LLRBColor) (chunkSize : Nat)
    (root : LLRBNode κ ν) (index : Nat) : LLRBNode κ ν × Nat :=
  let childTree := buildBalancedTree keyList (index-chunkSize+1) (chunkSize-1)
  (attachPennant root (nodeAt keyList (index-chunkSize) color .empty childTree),index-chunkSize)

def pennants (keyList : List (κ × ν)) : Nat → Base12List → LLRBNode κ ν → Nat → LLRBNode κ ν
  | 0, _, root, _ => root
  | m+1, list, root, index =>
    let chunkSize := 2^m
    let black := buildPennant keyList .black chunkSize root index
    if list.next.1 then pennants keyList m list.next.2 black.1 black.2
    else
      let red := buildPennant keyList .red chunkSize black.1 black.2
      pennants keyList m list.next.2 red.1 red.2

def rootFrom12List (list : Base12List) (keyList : List (κ × ν)) : LLRBNode κ ν :=
  pennants keyList list.count list .empty keyList.length

end Builder

section Balance

variable {keys : List (κ × ν)} {start m : Nat}

theorem take_around {e : κ × ν} (he : keys[start+m]? = some e) (m' : Nat) :
    (keys.drop start).take (m+1+m') =
      (keys.drop start).take m ++ e :: (keys.drop (start+m+1)).take m' := by
  obtain ⟨hlt,hget⟩ := List.getElem?_eq_some_iff.mp he
  have hdrop : keys.drop (start+m) = e :: keys.drop (start+m+1) := by
    rw [List.drop_eq_getElem_cons hlt,hget]
  rw [Nat.add_assoc,List.take_add,List.drop_drop,hdrop,Nat.add_comm 1,List.take_succ_cons]

theorem nodeAt_eq {e : κ × ν} {index : Nat} (he : keys[index]? = some e) (color : LLRBColor)
    (left right : LLRBNode κ ν) :
    nodeAt keys index color left right = .value color left e.1 e.2 right := by
  rw [nodeAt,he]

theorem buildBalancedTree_pow (keys : List (κ × ν)) (j start : Nat)
    (h : start+(2^j-1) ≤ keys.length) :
    Balanced (buildBalancedTree keys start (2^j-1)) .black j ∧
      (buildBalancedTree keys start (2^j-1)).toList = (keys.drop start).take (2^j-1) := by
  have hmin : ∀ j start, start+(2^j-1) ≤ keys.length →
      Nat.min (keys.length-start) (2^j-1) = 2^j-1 := by
    intro j start h
    exact Nat.min_eq_right (by omega)
  induction j generalizing start with
  | zero =>
    have hnone : Nat.min (keys.length-start) (2^0-1) = 0 := hmin 0 start h
    rw [buildBalancedTree,if_pos hnone]
    exact ⟨.empty,rfl⟩
  | succ j ih =>
    have hpow : 2^(j+1) = 2^j+2^j := by rw [Nat.pow_succ]; omega
    have hpos : 0 < 2^j := Nat.two_pow_pos j
    have hlen : 2^(j+1)-1 = (2^j-1)+1+(2^j-1) := by omega
    obtain ⟨e,he⟩ : ∃ e, keys[start+(2^j-1)]? = some e :=
      ⟨_,List.getElem?_eq_getElem (by omega)⟩
    rw [buildBalancedTree,hmin (j+1) start h,if_neg (by omega)]
    split
    · rename_i hone
      obtain rfl : j = 0 := by
        by_contra hj
        have htwo : 2^1 ≤ 2^j := Nat.pow_le_pow_right (by decide) (by omega)
        omega
      rw [nodeAt_eq (by simpa using he),hone]
      refine ⟨.black .empty .empty,?_⟩
      have htake := take_around (m := 0) (by simpa using he) 0
      simpa [toList] using htake.symm
    · have hmiddle : (2^(j+1)-1)/2 = 2^j-1 := by omega
      simp only [hmiddle]
      obtain ⟨hl,hll⟩ := ih start (by omega)
      obtain ⟨hr,hrl⟩ := ih (start+(2^j-1)+1) (by omega)
      rw [nodeAt_eq he,hlen,take_around he]
      exact ⟨.black hl hr,by rw [toList,hll,hrl]⟩

theorem attachPennant_assoc (root p t : LLRBNode κ ν) :
    attachPennant (attachPennant root p) t = attachPennant root (attachPennant p t) := by
  induction root with
  | empty => rfl
  | value c l k v r ihl ihr => rw [attachPennant,attachPennant,attachPennant,ihl]

theorem buildPennant_eq {index : Nat} (hle : index ≤ keys.length) (hm : 2^m ≤ index)
    (color : LLRBColor) (root : LLRBNode κ ν) : ∃ e child,
      buildPennant keys color (2^m) root index =
        (attachPennant root (.value color .empty e.1 e.2 child),index-2^m) ∧
      Balanced child .black m ∧
      keys.take index = keys.take (index-2^m) ++ e :: child.toList := by
  have hpos : 0 < 2^m := Nat.two_pow_pos m
  obtain ⟨e,he⟩ : ∃ e, keys[index-2^m]? = some e := ⟨_,List.getElem?_eq_getElem (by omega)⟩
  obtain ⟨hchild,hlist⟩ := buildBalancedTree_pow keys m (index-2^m+1) (by omega)
  refine ⟨e,_,by rw [buildPennant,nodeAt_eq he],hchild,?_⟩
  have htake := take_around (by simpa using he : keys[0+(index-2^m)]? = some e) (2^m-1)
  have hsplit : index-2^m+1+(2^m-1) = index := by omega
  rw [List.drop_zero,hsplit,Nat.zero_add] at htake
  rw [hlist,htake]

/-- The rounds that are left put what they build under the root, for an index that is the
value of the digits that are left. -/
theorem pennants_eq (keys : List (κ × ν)) (m : Nat) (list : Base12List)
    (root : LLRBNode κ ν) (index : Nat)
    (hcurrent : list.current = m-1) (hindex : index = 2^m-1+list.bits % 2^m)
    (hle : index ≤ keys.length) : ∃ t, pennants keys m list root index = attachPennant root t ∧
      Balanced t .black m ∧ t.toList = keys.take index := by
  induction m generalizing list root index with
  | zero =>
    obtain rfl : index = 0 := by rw [hindex,Nat.pow_zero,Nat.mod_one]
    refine ⟨.empty,?_,.empty,rfl⟩
    rw [pennants]
    induction root with
    | empty => rfl
    | value c l k v r ihl ihr => rw [attachPennant,← ihl]
  | succ m ih =>
    have hpow : 2^(m+1) = 2^m+2^m := by rw [Nat.pow_succ]; omega
    have hpos : 0 < 2^m := Nat.two_pow_pos m
    have hmod : list.bits % 2^(m+1) = list.bits % 2^m + 2^m*(list.bits.testBit m).toNat := by
      rw [Nat.mod_pow_succ,Nat.toNat_testBit]
    have hnext : list.next.2.current = m-1 ∧ list.next.2.bits = list.bits := by
      simp [Base12List.next,hcurrent]
    obtain ⟨e,child,hblack,hchild,htake⟩ :=
      buildPennant_eq hle (m := m) (by omega) .black root
    rw [pennants]
    simp only [hblack]
    cases hbit : list.bits.testBit m with
    | false =>
      -- the digit 1: one black pennant
      have hone : list.next.1 = true := by simp [Base12List.next,hcurrent,hbit]
      rw [if_pos hone]
      obtain ⟨t,ht,hbalanced,hlist⟩ := ih list.next.2
        (attachPennant root (.value .black .empty e.1 e.2 child)) (index-2^m) hnext.1
        (by rw [hnext.2]; simp only [hbit,Bool.toNat_false] at hmod; omega) (by omega)
      refine ⟨.value .black t e.1 e.2 child,?_,.black hbalanced hchild,?_⟩
      · rw [ht,attachPennant_assoc]
        rfl
      · rw [toList,hlist,htake]
    | true =>
      -- the digit 2: a black pennant with a red one on its left
      have htwo : list.next.1 = false := by simp [Base12List.next,hcurrent,hbit]
      simp only [hbit,Bool.toNat_true] at hmod
      rw [if_neg (by rw [htwo]; decide)]
      obtain ⟨e',child',hred,hchild',htake'⟩ := buildPennant_eq
        (by omega : index-2^m ≤ keys.length) (m := m) (by omega) .red
        (attachPennant root (.value .black .empty e.1 e.2 child))
      simp only [hred]
      obtain ⟨t,ht,hbalanced,hlist⟩ := ih list.next.2
        (attachPennant (attachPennant root (.value .black .empty e.1 e.2 child))
          (.value .red .empty e'.1 e'.2 child')) (index-2^m-2^m) hnext.1
        (by rw [hnext.2]; omega) (by omega)
      refine ⟨.value .black (.value .red t e'.1 e'.2 child') e.1 e.2 child,?_,
        .black (.red hbalanced hchild') hchild,?_⟩
      · rw [ht,attachPennant_assoc,attachPennant_assoc]
        rfl
      · rw [toList,toList,hlist,htake,htake']

/-- Fewer keys than 32 bits count make a balanced tree of all of them. -/
theorem rootFrom12List_balanced (h : keys.length+1 < 2^32) :
    Balanced (rootFrom12List (.new keys.length) keys) .black (keys.length+1).log2 ∧
      (rootFrom12List (.new keys.length) keys).toList = keys := by
  have hnum : (keys.length+1) % 2^32 = keys.length+1 := Nat.mod_eq_of_lt h
  have hlog : 2^(keys.length+1).log2 ≤ keys.length+1 := Nat.log2_self_le (by omega)
  have hlog' : keys.length+1 < 2^((keys.length+1).log2+1) := Nat.lt_log2_self
  have hcount : (keys.length+1).log2 < 32 := (Nat.log2_lt (by omega)).mpr h
  have hbits : (Base12List.new keys.length).bits =
      (keys.length+1) % 2^(keys.length+1).log2 := by
    rw [Base12List.new]
    simp only [hnum,logBase2,bitMask,if_neg (Nat.not_le.mpr hcount)]
    exact Nat.and_two_pow_sub_one_eq_mod ..
  have hmod : (keys.length+1) % 2^(keys.length+1).log2 =
      keys.length+1-2^(keys.length+1).log2 := by
    rw [Nat.pow_succ] at hlog'
    rw [Nat.mod_eq_sub_mod hlog,Nat.mod_eq_of_lt (by omega)]
  have hcount' : (Base12List.new keys.length).count = (keys.length+1).log2 := by
    simp only [Base12List.new,hnum,logBase2]
  have hcurrent : (Base12List.new keys.length).current = (keys.length+1).log2-1 := by
    simp only [Base12List.new,hnum,logBase2]
  obtain ⟨t,ht,hbalanced,hlist⟩ := pennants_eq keys (keys.length+1).log2
    (.new keys.length) .empty keys.length hcurrent
    (by rw [hbits,Nat.mod_mod,hmod]; omega) (Nat.le_refl _)
  rw [rootFrom12List,hcount',ht,attachPennant]
  exact ⟨hbalanced,by rw [hlist,List.take_length]⟩

end Balance

end Answr
