import Answr.Removals
import Answr.TreeBuilder
set_option autoImplicit false

/-! The sorted dictionaries of the database library: an array of entries that turns into a
tree once it grows. Whatever is inserted and removed, what they hold is a finite map in the
order of its keys. -/

namespace Answr
open Std Entries

variable {κ ν : Type}

/-- `FArraySortedDictionary`, its keys and values side by side, and `FTreeSortedDictionary` -/
inductive SortedDictionary (κ ν : Type) where
  | array (entries : List (κ × ν))
  | tree (root : LLRBNode κ ν)
  deriving DecidableEq, Repr

def arrayToTreeSizeThreshold : Nat := 25

section Arrays

variable (cmp : κ → κ → Ordering)

def findInsertPositionForKey (key : κ) : List (κ × ν) → Nat
  | [] => 0
  | e :: entries => if cmp e.1 key = .lt then findInsertPositionForKey key entries + 1 else 0

def findKey (key : κ) : List (κ × ν) → Option Nat
  | [] => none
  | e :: entries =>
    match cmp key e.1 with
    | .eq => some 0
    | .lt => none
    | .gt => (findKey key entries).map (·+1)

/-- `setObject` of a hash map, whose entries come in any order. -/
def setObject [DecidableEq κ] (key : κ) (value : ν) (dict : List (κ × ν)) : List (κ × ν) :=
  dict.filter (fun e => e.1 ≠ key) ++ [(key,value)]

/-- The keys of a hash map sorted, with their values; it throws when two have the same order. -/
def sortedEntries (dictionary : List (κ × ν)) : Except String (List (κ × ν)) :=
  let sorted := dictionary.mergeSort fun a b => (cmp a.1 b.1).isLE
  if (sorted.zip sorted.tail).all fun p => cmp p.1.1 p.2.1 = .lt then .ok sorted
  else .error "Can't create FImmutableSortedDictionary with keys with same ordering!"

end Arrays

namespace LLRBNode

variable (cmp : κ → κ → Ordering)

def get (key : κ) : LLRBNode κ ν → Option ν
  | empty => none
  | value _ l k v r =>
    match cmp key k with
    | .eq => some v
    | .lt => l.get key
    | .gt => r.get key

/-- The loop of `getPredecessorKey`, with the last node that it left to the right. -/
def getPredecessorKey (key : κ) (rightParent : Option κ) :
    LLRBNode κ ν → Except String (Option κ)
  | empty => .error "getPredecessorKey called with nonexistent key."
  | value _ l k _ r =>
    match cmp key k with
    | .eq => .ok (if l.isEmpty then rightParent else l.maxKey)
    | .lt => l.getPredecessorKey key rightParent
    | .gt => r.getPredecessorKey key (some k)

end LLRBNode

namespace SortedDictionary

section Operations

variable (cmp : κ → κ → Ordering)

def treeFromDictionary (dictionary : List (κ × ν)) : Except String (SortedDictionary κ ν) := do
  let sortedKeyList ← sortedEntries cmp dictionary
  return .tree (rootFrom12List (.new sortedKeyList.length) sortedKeyList)

def arrayFromDictionary (dictionary : List (κ × ν)) : Except String (SortedDictionary κ ν) := do
  let keys ← sortedEntries cmp dictionary
  return .array keys

def fromDictionary (dictionary : List (κ × ν)) : Except String (SortedDictionary κ ν) :=
  if dictionary.length ≤ arrayToTreeSizeThreshold then arrayFromDictionary cmp dictionary
  else treeFromDictionary cmp dictionary

def insertKey [DecidableEq κ] (aKey : κ) (aValue : ν) :
    SortedDictionary κ ν → Except String (SortedDictionary κ ν)
  | .array entries =>
    match findKey cmp aKey entries with
    | some pos => .ok (.array (entries.set pos (aKey,aValue)))
    | none =>
      if arrayToTreeSizeThreshold ≤ entries.length then
        let dict := entries.foldl (fun dict e => setObject e.1 e.2 dict) []
        treeFromDictionary cmp (setObject aKey aValue dict)
      else
        .ok (.array (entries.insertIdx (findInsertPositionForKey cmp aKey entries) (aKey,aValue)))
  | .tree root => .ok (.tree ((root.insertKey cmp aKey aValue).withColor .black))

def get (key : κ) : SortedDictionary κ ν → Option ν
  | .array entries => (findKey cmp key entries).bind fun pos => (entries[pos]?).map (·.2)
  | .tree root => root.get cmp key

def contains (key : κ) : SortedDictionary κ ν → Bool
  | .array entries => (findKey cmp key entries).isSome
  | .tree root => (root.get cmp key).isSome

/-- A tree is only touched for a key that it has. -/
def removeKey (aKey : κ) (d : SortedDictionary κ ν) : SortedDictionary κ ν :=
  match d with
  | .array entries =>
    match findKey cmp aKey entries with
    | none => d
    | some pos => .array (entries.eraseIdx pos)
  | .tree root =>
    if !d.contains cmp aKey then d
    else .tree ((root.remove cmp aKey).withColor .black)

def getPredecessorKey (key : κ) : SortedDictionary κ ν → Except String (Option κ)
  | .array entries =>
    match findKey cmp key entries with
    | none => .error "Can't get predecessor key for non-existent key"
    | some 0 => .ok none
    | some (pos+1) => .ok ((entries[pos]?).map (·.1))
  | .tree root => root.getPredecessorKey cmp key none

def count : SortedDictionary κ ν → Nat
  | .array entries => entries.length
  | .tree root => root.count

def minKey : SortedDictionary κ ν → Option κ
  | .array entries => entries.head?.map (·.1)
  | .tree root => root.minKey

def maxKey : SortedDictionary κ ν → Option κ
  | .array entries => entries.getLast?.map (·.1)
  | .tree root => root.maxKey

def untilStopped {σ : Type} (block : κ → ν → σ → σ × Bool) : List (κ × ν) → σ → σ × Bool
  | [], s => (s,false)
  | e :: entries, s =>
    let called := block e.1 e.2 s
    if called.2 then called else untilStopped block entries called.1

def enumerateKeysAndObjects {σ : Type} (reverse : Bool) (block : κ → ν → σ → σ × Bool) :
    SortedDictionary κ ν → σ → σ × Bool
  | .array entries => untilStopped block (if reverse then entries.reverse else entries)
  | .tree root =>
    if reverse then root.reverseTraversal block else root.inorderTraversal block

end Operations

end SortedDictionary

section ArrayLemmas

variable {cmp : κ → κ → Ordering} [TransCmp cmp] {key : κ} {entries : List (κ × ν)}

theorem findInsertPositionForKey_eq (hs : Sorted cmp entries) :
    findInsertPositionForKey cmp key entries = (below cmp key entries).length := by
  induction entries with
  | nil => rfl
  | cons e entries ih =>
    obtain ⟨he,hs⟩ := List.pairwise_cons.mp hs
    rw [findInsertPositionForKey]
    split
    · rename_i hlt
      have hcons : below cmp key (e :: entries) = e :: below cmp key entries :=
        List.filter_cons_of_pos (decide_eq_true hlt)
      rw [hcons,List.length_cons,ih hs]
    · rename_i hge
      have hnone : below cmp key (e :: entries) = [] := by
        refine below_eq_nil fun a ha hlt => hge ?_
        rcases List.mem_cons.mp ha with rfl | ha
        · exact hlt
        · exact TransCmp.lt_trans (he a ha) hlt
      rw [hnone]
      rfl

theorem findKey_none (hs : Sorted cmp entries) (h : findKey cmp key entries = none) :
    ∀ e ∈ entries, cmp key e.1 ≠ .eq := by
  induction entries with
  | nil => simp
  | cons e entries ih =>
    obtain ⟨he,hs⟩ := List.pairwise_cons.mp hs
    rw [findKey] at h
    intro a ha
    cases hcmp : cmp key e.1 with
    | eq => simp [hcmp] at h
    | lt =>
      rcases List.mem_cons.mp ha with rfl | ha
      · exact ne_eq_of_lt hcmp
      · exact ne_eq_of_lt (TransCmp.lt_trans hcmp (he a ha))
    | gt =>
      simp only [hcmp,Option.map_eq_none_iff] at h
      rcases List.mem_cons.mp ha with rfl | ha
      · exact ne_eq_of_gt (OrientedCmp.lt_of_gt hcmp)
      · exact ih hs h a ha

theorem findKey_some {pos : Nat} (hs : Sorted cmp entries)
    (h : findKey cmp key entries = some pos) : ∃ l e l', entries = l ++ e :: l' ∧
      pos = l.length ∧ cmp key e.1 = .eq ∧ (∀ a ∈ l, cmp a.1 key = .lt) ∧
      ∀ a ∈ l', cmp key a.1 = .lt := by
  induction entries generalizing pos with
  | nil => cases h
  | cons e entries ih =>
    obtain ⟨he,hs⟩ := List.pairwise_cons.mp hs
    rw [findKey] at h
    cases hcmp : cmp key e.1 with
    | eq =>
      simp only [hcmp,Option.some.injEq] at h
      exact ⟨[],e,entries,rfl,h.symm,hcmp,by simp,
        fun a ha => TransCmp.lt_of_eq_of_lt hcmp (he a ha)⟩
    | lt => simp [hcmp] at h
    | gt =>
      have hgt : cmp e.1 key = .lt := OrientedCmp.lt_of_gt hcmp
      simp only [hcmp,Option.map_eq_some_iff] at h
      obtain ⟨pos,hfind,rfl⟩ := h
      obtain ⟨l,a,l',rfl,rfl,hsame,hbelow,habove⟩ := ih hs hfind
      refine ⟨e :: l,a,l',rfl,rfl,hsame,fun b hb => ?_,habove⟩
      rcases List.mem_cons.mp hb with rfl | hb
      · exact hgt
      · exact hbelow b hb

end ArrayLemmas

section Sorting

variable {cmp : κ → κ → Ordering} [TransCmp cmp] {dictionary : List (κ × ν)}

theorem mergeSort_le (dictionary : List (κ × ν)) :
    (dictionary.mergeSort fun a b => (cmp a.1 b.1).isLE).Pairwise
      fun a b => (cmp a.1 b.1).isLE = true :=
  List.pairwise_mergeSort (fun _ _ _ => TransCmp.isLE_trans)
    (fun a b => by
      rw [Bool.or_eq_true]
      cases h : cmp a.1 b.1 with
      | lt => exact .inl rfl
      | eq => exact .inl rfl
      | gt => exact .inr (by rw [OrientedCmp.lt_of_gt h]; rfl)) dictionary

theorem sortedEntries_cases (cmp : κ → κ → Ordering) [TransCmp cmp]
    (dictionary : List (κ × ν)) :
    (Distinct cmp dictionary ∧ ∃ l, sortedEntries cmp dictionary = .ok l ∧ Sorted cmp l ∧
      l.Perm dictionary) ∨
    (¬ Distinct cmp dictionary ∧ sortedEntries cmp dictionary =
      .error "Can't create FImmutableSortedDictionary with keys with same ordering!") := by
  have hperm := List.mergeSort_perm dictionary fun a b => (cmp a.1 b.1).isLE
  by_cases h : Distinct cmp dictionary
  · have hsorted : Sorted cmp (dictionary.mergeSort fun a b => (cmp a.1 b.1).isLE) := by
      refine ((mergeSort_le dictionary).and (h.of_perm hperm.symm)).imp ?_
      rintro a b ⟨hle,hne⟩
      cases hcmp : cmp a.1 b.1 with
      | lt => rfl
      | eq => exact absurd hcmp hne
      | gt => simp [hcmp] at hle
    refine .inl ⟨h,_,?_,hsorted,hperm⟩
    rw [sortedEntries]
    exact if_pos (neighbours_of_sorted hsorted)
  · refine .inr ⟨h,?_⟩
    rw [sortedEntries]
    exact if_neg fun hall => h ((sorted_of_neighbours hall).distinct.of_perm hperm)

theorem sortedEntries_distinct (h : Distinct cmp dictionary) :
    ∃ l, sortedEntries cmp dictionary = .ok l ∧ Sorted cmp l ∧ l.Perm dictionary := by
  rcases sortedEntries_cases cmp dictionary with ⟨-,hl⟩ | ⟨hne,-⟩
  · exact hl
  · exact absurd h hne

theorem sortedEntries_perm {dictionary' : List (κ × ν)} (h : dictionary.Perm dictionary') :
    sortedEntries cmp dictionary = sortedEntries cmp dictionary' := by
  rcases sortedEntries_cases cmp dictionary with ⟨hd,l,hl,hs,hp⟩ | ⟨hd,hl⟩ <;>
    rcases sortedEntries_cases cmp dictionary' with ⟨hd',l',hl',hs',hp'⟩ | ⟨hd',hl'⟩
  · rw [hl,hl',hs.eq_of_perm hs' (hp.trans (h.trans hp'.symm))]
  · exact absurd (hd.of_perm h) hd'
  · exact absurd (hd'.of_perm h.symm) hd
  · rw [hl,hl']

end Sorting

end Answr
