import Answr.SortedDictionary
set_option autoImplicit false

/-! What is read of a dictionary depends on its entries in their order alone, not on whether
an array or a tree holds them. -/

namespace Answr
open Std Entries LLRBNode

variable {κ ν : Type}

namespace SortedDictionary

def entries : SortedDictionary κ ν → List (κ × ν)
  | .array l => l
  | .tree root => root.toList

/-- In order, an array up to the threshold, a tree balanced below a black root. -/
inductive Valid (cmp : κ → κ → Ordering) : SortedDictionary κ ν → Prop where
  | array {l : List (κ × ν)} : Sorted cmp l → l.length ≤ arrayToTreeSizeThreshold →
      Valid cmp (.array l)
  | tree {root : LLRBNode κ ν} {n : Nat} : Sorted cmp root.toList → Balanced root .black n →
      Valid cmp (.tree root)

theorem Valid.sorted {cmp : κ → κ → Ordering} {d : SortedDictionary κ ν} (h : Valid cmp d) :
    Sorted cmp d.entries := by
  cases h with
  | array hs => exact hs
  | tree hs => exact hs

end SortedDictionary

section Traversals

variable {σ : Type} {block : κ → ν → σ → σ × Bool}

open SortedDictionary

theorem untilStopped_append (l l' : List (κ × ν)) (s : σ) :
    untilStopped block (l ++ l') s =
      if (untilStopped block l s).2 then untilStopped block l s
      else untilStopped block l' (untilStopped block l s).1 := by
  induction l generalizing s with
  | nil => rfl
  | cons e l ih =>
    rw [List.cons_append,untilStopped,untilStopped]
    split
    · simp
    · exact ih _

theorem LLRBNode.inorderTraversal_eq (root : LLRBNode κ ν) (s : σ) :
    root.inorderTraversal block s = untilStopped block root.toList s := by
  induction root generalizing s with
  | empty => rfl
  | value c l k v r ihl ihr =>
    rw [toList,untilStopped_append,inorderTraversal,ihl,untilStopped]
    split
    · rfl
    · simp only [ihr]

theorem LLRBNode.reverseTraversal_eq (root : LLRBNode κ ν) (s : σ) :
    root.reverseTraversal block s = untilStopped block root.toList.reverse s := by
  induction root generalizing s with
  | empty => rfl
  | value c l k v r ihl ihr =>
    rw [toList,List.reverse_append,List.reverse_cons,List.append_assoc,List.singleton_append,
      untilStopped_append,reverseTraversal,ihr,untilStopped]
    split
    · rfl
    · simp only [ihl]

end Traversals

section Trees

variable {cmp : κ → κ → Ordering} [TransCmp cmp] {key : κ}

namespace LLRBNode

theorem get_eq (cmp : κ → κ → Ordering) [TransCmp cmp] (key : κ) {root : LLRBNode κ ν}
    (hs : Sorted cmp root.toList) : root.get cmp key = lookup cmp key root.toList := by
  induction root with
  | empty => rfl
  | value c l k v r ihl ihr =>
    obtain ⟨hl,hr,hbelow,habove⟩ := sorted_value hs
    rw [get,toList]
    cases hcmp : cmp key k with
    | lt =>
      have hlt := lt_of_lt (v := v) hcmp habove
      rw [lookup_append_left fun e he => ne_eq_of_lt (hlt e he)]
      exact ihl hl
    | eq =>
      exact (lookup_eq hcmp fun e he =>
        TransCmp.lt_of_lt_of_eq (hbelow e he) (OrientedCmp.eq_symm hcmp)).symm
    | gt =>
      have hgt := gt_of_gt (v := v) hcmp hbelow
      rw [List.append_cons,lookup_append_right fun e he => ne_eq_of_gt (hgt e he)]
      exact ihr hr

theorem maxKey_eq (root : LLRBNode κ ν) : root.maxKey = root.toList.getLast?.map (·.1) := by
  induction root using maxKey.induct with
  | case1 => rfl
  | case2 c l k v => simp [maxKey,toList]
  | case3 c l k v rc rl rk rv rr ih =>
    rw [maxKey,ih]
    simp [toList,List.getLast?_append,List.getLast?_cons]

theorem minKey_eq (root : LLRBNode κ ν) : root.minKey = root.toList.head?.map (·.1) := by
  rw [minKey,min_eq_head?]

theorem getPredecessorKey_eq (rightParent : Option κ) {root : LLRBNode κ ν}
    (hs : Sorted cmp root.toList) : root.getPredecessorKey cmp key rightParent =
      if (lookup cmp key root.toList).isSome then
        .ok (((below cmp key root.toList).getLast?.map (·.1)).or rightParent)
      else .error "getPredecessorKey called with nonexistent key." := by
  induction root generalizing rightParent with
  | empty => rfl
  | value c l k v r ihl ihr =>
    obtain ⟨hl,hr,hbelow,habove⟩ := sorted_value hs
    rw [getPredecessorKey,← get_eq cmp key hs,get,toList]
    cases hcmp : cmp key k with
    | lt =>
      obtain ⟨hb,-⟩ := parts_lt (lt_of_lt (v := v) hcmp habove) l.toList
      rw [hb,get_eq cmp key hl]
      exact ihl rightParent hl
    | eq =>
      obtain ⟨hb,-⟩ := parts_eq (v := v) hcmp (fun e he =>
        TransCmp.lt_of_lt_of_eq (hbelow e he) (OrientedCmp.eq_symm hcmp)) fun e he =>
        TransCmp.lt_of_eq_of_lt hcmp (habove e he)
      rw [hb,← maxKey_eq]
      simp only [Option.isSome_some,if_true]
      cases l with
      | empty => rfl
      | value lc ll lk lv lr =>
        rw [maxKey_eq]
        simp [toList,List.getLast?_append,List.getLast?_cons,isEmpty]
    | gt =>
      obtain ⟨hb,-⟩ := parts_gt (gt_of_gt (v := v) hcmp hbelow) r.toList
      rw [hb,get_eq cmp key hr]
      simp only [ihr (some k) hr]
      cases hlast : (below cmp key r.toList).getLast? with
      | none => simp [List.getLast?_append,List.getLast?_cons,hlast]
      | some e => simp [List.getLast?_append,List.getLast?_cons,hlast]

end LLRBNode

end Trees

namespace SortedDictionary

section Reads

variable {cmp : κ → κ → Ordering} [TransCmp cmp] {d : SortedDictionary κ ν} {σ : Type}

theorem Valid.get_eq (h : Valid cmp d) (key : κ) :
    d.get cmp key = lookup cmp key d.entries := by
  cases h with
  | tree hs => exact LLRBNode.get_eq cmp key hs
  | @array l hs hlen =>
    rw [get,entries]
    cases hfind : findKey cmp key l with
    | none => exact (lookup_eq_none.mpr (findKey_none hs hfind)).symm
    | some pos =>
      obtain ⟨l₁,e,l₂,rfl,rfl,hsame,hbelow,-⟩ := findKey_some hs hfind
      rw [lookup_eq hsame hbelow,Option.bind_some,List.getElem?_append_right (Nat.le_refl _),
        Nat.sub_self]
      rfl

theorem Valid.contains_eq (h : Valid cmp d) (key : κ) :
    d.contains cmp key = (d.get cmp key).isSome := by
  cases h with
  | tree hs => rfl
  | @array l hs hlen =>
    rw [contains,get]
    cases hfind : findKey cmp key l with
    | none => rfl
    | some pos =>
      obtain ⟨l₁,e,l₂,rfl,rfl,-⟩ := findKey_some hs hfind
      simp

theorem count_eq (d : SortedDictionary κ ν) : d.count = d.entries.length := by
  cases d with
  | array l => rfl
  | tree root => exact root.count_eq

theorem minKey_eq (d : SortedDictionary κ ν) : d.minKey = d.entries.head?.map (·.1) := by
  cases d with
  | array l => rfl
  | tree root => exact root.minKey_eq

theorem maxKey_eq (d : SortedDictionary κ ν) : d.maxKey = d.entries.getLast?.map (·.1) := by
  cases d with
  | array l => rfl
  | tree root => exact root.maxKey_eq

/-- It throws for a key that is not there. -/
theorem Valid.getPredecessorKey_eq (h : Valid cmp d) (key : κ) :
    (d.getPredecessorKey cmp key).toOption = if (d.get cmp key).isSome then
      some ((below cmp key d.entries).getLast?.map (·.1)) else none := by
  rw [h.get_eq]
  cases h with
  | @tree root n hs hbalanced =>
    rw [getPredecessorKey,LLRBNode.getPredecessorKey_eq none hs,entries,Option.or_none]
    split <;> rfl
  | @array l hs hlen =>
    rw [getPredecessorKey,entries]
    cases hfind : findKey cmp key l with
    | none =>
      rw [lookup_eq_none.mpr (findKey_none hs hfind)]
      rfl
    | some pos =>
      obtain ⟨l₁,e,l₂,rfl,rfl,hsame,hbelow,habove⟩ := findKey_some hs hfind
      obtain ⟨hb,-⟩ := parts_eq (v := e.2) hsame hbelow habove
      rw [lookup_eq hsame hbelow,hb]
      rcases List.eq_nil_or_concat l₁ with rfl | ⟨l₁,a,rfl⟩
      · rfl
      · simp [Except.toOption]

theorem enumerate_eq (reverse : Bool) (block : κ → ν → σ → σ × Bool)
    (d : SortedDictionary κ ν) (s : σ) : d.enumerateKeysAndObjects reverse block s =
      untilStopped block (if reverse then d.entries.reverse else d.entries) s := by
  cases d with
  | array l => rfl
  | tree root =>
    cases reverse with
    | false => exact root.inorderTraversal_eq s
    | true => exact root.reverseTraversal_eq s

end Reads

end SortedDictionary

end Answr
