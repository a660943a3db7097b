import Answr.DictionaryReads
set_option autoImplicit false

/-! Insertions and removals over whole runs: the array and the tree keep the same finite
map, and the change from one to the other is not seen. -/

namespace Answr
open Std Entries LLRBNode

variable {κ ν : Type}

namespace SortedDictionary

section Building

variable {cmp : κ → κ → Ordering} {dictionary dictionary' : List (κ × ν)}

theorem treeFromDictionary_ok {l : List (κ × ν)} (hl : sortedEntries cmp dictionary = .ok l) :
    treeFromDictionary cmp dictionary = .ok (.tree (rootFrom12List (.new l.length) l)) := by
  rw [treeFromDictionary,hl]
  rfl

theorem valid_rootFrom12List {l : List (κ × ν)} (hs : Sorted cmp l)
    (hsize : l.length+1 < 2^32) : Valid cmp (.tree (rootFrom12List (.new l.length) l)) := by
  obtain ⟨hbalanced,hlist⟩ := rootFrom12List_balanced hsize
  rw [← hlist] at hs
  exact .tree hs hbalanced

theorem fromDictionary_ok {l : List (κ × ν)} (hl : sortedEntries cmp dictionary = .ok l) :
    fromDictionary cmp dictionary =
      .ok (if dictionary.length ≤ arrayToTreeSizeThreshold then .array l
        else .tree (rootFrom12List (.new l.length) l)) := by
  rw [fromDictionary,treeFromDictionary_ok hl,arrayFromDictionary,hl]
  split <;> rfl

variable [TransCmp cmp]

theorem fromDictionary_valid (hd : Distinct cmp dictionary)
    (hsize : dictionary.length+1 < 2^32) : ∃ d, fromDictionary cmp dictionary = .ok d ∧
      Valid cmp d ∧ d.entries.Perm dictionary := by
  obtain ⟨l,hl,hs,hperm⟩ := sortedEntries_distinct hd
  rw [fromDictionary_ok hl]
  have hlen := hperm.length_eq
  split
  · rename_i hle
    exact ⟨_,rfl,.array hs (by omega),hperm⟩
  · refine ⟨_,rfl,valid_rootFrom12List hs (by omega),?_⟩
    rw [entries,(rootFrom12List_balanced (by omega : l.length+1 < 2^32)).2]
    exact hperm

theorem fromDictionary_throws (hd : ¬ Distinct cmp dictionary) :
    fromDictionary cmp dictionary =
      .error "Can't create FImmutableSortedDictionary with keys with same ordering!" := by
  have hthrow := (sortedEntries_cases cmp dictionary).resolve_left fun h => hd h.1
  rw [fromDictionary]
  split
  · rw [arrayFromDictionary,hthrow.2]
    rfl
  · rw [treeFromDictionary,hthrow.2]
    rfl

theorem fromDictionary_perm (h : dictionary.Perm dictionary') :
    fromDictionary cmp dictionary = fromDictionary cmp dictionary' := by
  rw [fromDictionary,fromDictionary,arrayFromDictionary,arrayFromDictionary,treeFromDictionary,
    treeFromDictionary,sortedEntries_perm h,h.length_eq]

/-- The keys of a hash map, in whatever order it gives them, make one dictionary, unless two
of them have the same order; the black depth of a tree is the binary logarithm of their
number and one. -/
theorem fromDictionary_exact (cmp : κ → κ → Ordering) [TransCmp cmp]
    {dictionary : List (κ × ν)} (hsize : dictionary.length+1 < 2^32) :
    ((∃ d, fromDictionary cmp dictionary = .ok d) ↔ Distinct cmp dictionary) ∧
      (∀ dictionary' : List (κ × ν), dictionary'.Perm dictionary →
        fromDictionary cmp dictionary' = fromDictionary cmp dictionary) ∧
      ∀ d, fromDictionary cmp dictionary = .ok d → Sorted cmp d.entries ∧
        d.entries.Perm dictionary ∧
        ∀ root, d = .tree root → ∀ description,
          root.check description = .ok (dictionary.length+1).log2 := by
  have hdistinct : ∀ d, fromDictionary cmp dictionary = .ok d → Distinct cmp dictionary := by
    intro d h
    by_contra hd
    rw [fromDictionary_throws hd] at h
    cases h
  refine ⟨⟨fun ⟨d,h⟩ => hdistinct d h,fun hd => ?_⟩,fun _ => fromDictionary_perm,
    fun d h => ?_⟩
  · obtain ⟨d,h,-⟩ := fromDictionary_valid hd hsize
    exact ⟨d,h⟩
  · obtain ⟨d',hd',hvalid,hperm⟩ := fromDictionary_valid (hdistinct d h) hsize
    obtain rfl := Except.ok.inj (hd'.symm.trans h)
    refine ⟨hvalid.sorted,hperm,?_⟩
    rintro root rfl description
    obtain ⟨l,hl,hs,hperm'⟩ := sortedEntries_distinct (hdistinct _ h)
    rw [fromDictionary_ok hl] at h
    split at h
    · cases h
    · have hroot := SortedDictionary.tree.inj (Except.ok.inj h)
      rw [← hroot,← hperm'.length_eq]
      rw [← hperm'.length_eq] at hsize
      exact (rootFrom12List_balanced hsize).1.check_ok description

def thirtyKeys : List (Nat × Nat) := (List.range 30).map fun k => (30-k,k)

theorem fromDictionary_exact_thirty : ∃ d, fromDictionary compare thirtyKeys = .ok d ∧
    Sorted compare d.entries ∧
      ∀ root, d = .tree root → ∀ description, root.check description = .ok 4 := by
  have hexact := fromDictionary_exact compare (by decide : thirtyKeys.length+1 < 2^32)
  obtain ⟨d,hd⟩ := hexact.1.mpr (by unfold Distinct; decide)
  obtain ⟨hs,-,hcheck⟩ := hexact.2.2 d hd
  have hdepth : (thirtyKeys.length+1).log2 = 4 := by decide
  rw [hdepth] at hcheck
  exact ⟨d,hd,hs,hcheck⟩

end Building

section Operations

variable {cmp : κ → κ → Ordering} [TransCmp cmp] {d : SortedDictionary κ ν}

theorem foldl_setObject [DecidableEq κ] (cmp : κ → κ → Ordering) [TransCmp cmp]
    (l l' : List (κ × ν)) (h : Distinct cmp (l' ++ l)) :
    l.foldl (fun dict e => setObject e.1 e.2 dict) l' = l' ++ l := by
  induction l generalizing l' with
  | nil => exact (List.append_nil l').symm
  | cons e l ih =>
    have hset : setObject e.1 e.2 l' = l' ++ [e] := by
      rw [setObject,List.filter_eq_self.mpr]
      intro a ha
      refine decide_eq_true fun heq => (List.pairwise_append.mp h).2.2 a ha e (.head _) ?_
      rw [heq]
      exact ReflCmp.compare_self
    rw [List.foldl_cons,hset,ih (l' ++ [e]) (by rw [List.append_assoc]; exact h),
      List.append_assoc]
    rfl

theorem insertIdx_append_length (l l' : List (κ × ν)) (e : κ × ν) :
    (l ++ l').insertIdx l.length e = l ++ e :: l' := by
  induction l with
  | nil => rfl
  | cons a l ih => rw [List.cons_append,List.length_cons,List.insertIdx_succ_cons,ih]; rfl

theorem Valid.insertKey [DecidableEq κ] (h : Valid cmp d) (aKey : κ) (aValue : ν) :
    ∃ d' k', d.insertKey cmp aKey aValue = .ok d' ∧ Valid cmp d' ∧ cmp aKey k' = .eq ∧
      d'.entries = put cmp aKey k' aValue d.entries := by
  cases h with
  | @tree root n hs hbalanced =>
    have hlist := toList_insertKey hs aKey aValue
    have hsame := keyFor_same cmp aKey root.toList
    obtain ⟨n',hb⟩ : ∃ n', Balanced ((root.insertKey cmp aKey aValue).withColor .black)
        .black n' := Balanced.blacken (hbalanced.insertKey aKey aValue).2
    refine ⟨_,_,rfl,.tree ?_ hb,hsame,?_⟩
    · rw [toList_withColor,hlist]
      exact hs.put hsame
    · rw [entries,toList_withColor,hlist]
      rfl
  | @array l hs hlen =>
    have hself : cmp aKey aKey = .eq := ReflCmp.compare_self
    have hput : Sorted cmp (put cmp aKey aKey aValue l) := hs.put hself
    rw [SortedDictionary.insertKey]
    cases hfind : findKey cmp aKey l with
    | some pos =>
      obtain ⟨l₁,e,l₂,rfl,rfl,hsame,hbelow,habove⟩ := findKey_some hs hfind
      obtain ⟨hb,ha⟩ := parts_eq (v := e.2) hsame hbelow habove
      have hset : (l₁ ++ e :: l₂).set l₁.length (aKey,aValue) =
          put cmp aKey aKey aValue (l₁ ++ e :: l₂) := by
        rw [put,hb,ha]
        simp
      rw [← hset] at hput
      exact ⟨_,aKey,rfl,.array hput (by rw [List.length_set]; exact hlen),hself,hset⟩
    | none =>
      have hparts := parts_absent hs (findKey_none hs hfind)
      have hperm : (put cmp aKey aKey aValue l).Perm (l ++ [(aKey,aValue)]) := by
        conv => rhs; rw [← hparts,List.append_assoc]
        exact List.Perm.append_left _ (List.perm_append_singleton ..).symm
      by_cases hfull : arrayToTreeSizeThreshold ≤ l.length
      · -- the array becomes a tree
        have hdistinct : Distinct cmp (l ++ [(aKey,aValue)]) := hput.distinct.of_perm hperm
        have hdict : setObject aKey aValue
            (l.foldl (fun dict e => setObject e.1 e.2 dict) []) = l ++ [(aKey,aValue)] := by
          rw [foldl_setObject cmp l [] hs.distinct]
          exact foldl_setObject cmp [(aKey,aValue)] l hdistinct
        have hsize : (l ++ [(aKey,aValue)]).length+1 < 2^32 := by
          rw [List.length_append,List.length_singleton]
          unfold arrayToTreeSizeThreshold at hlen
          omega
        obtain ⟨l',hl',hs',hperm'⟩ := sortedEntries_distinct hdistinct
        rw [← hperm'.length_eq] at hsize
        obtain rfl := hs'.eq_of_perm hput (hperm'.trans hperm.symm)
        refine ⟨_,aKey,?_,valid_rootFrom12List hput hsize,hself,?_⟩
        · simp only [if_pos hfull,hdict]
          exact treeFromDictionary_ok hl'
        · exact (rootFrom12List_balanced hsize).2
      · have hinsert : l.insertIdx (findInsertPositionForKey cmp aKey l) (aKey,aValue) =
            put cmp aKey aKey aValue l := by
          rw [findInsertPositionForKey_eq hs,put]
          conv => lhs; arg 1; rw [← hparts]
          exact insertIdx_append_length ..
        have hlen' : (put cmp aKey aKey aValue l).length = l.length+1 := by
          rw [hperm.length_eq,List.length_append]
          rfl
        simp only [if_neg hfull,hinsert]
        exact ⟨_,aKey,rfl,.array hput (by omega),hself,rfl⟩

theorem Valid.removeKey (h : Valid cmp d) (aKey : κ) :
    Valid cmp (d.removeKey cmp aKey) ∧
      (d.removeKey cmp aKey).entries = drop cmp aKey d.entries := by
  cases h with
  | @tree root n hs hbalanced =>
    rw [SortedDictionary.removeKey]
    cases hhas : (SortedDictionary.tree root).contains cmp aKey with
    | false =>
      have hnone : lookup cmp aKey root.toList = none := by
        rw [← LLRBNode.get_eq cmp aKey hs]
        exact Option.not_isSome_iff_eq_none.mp (by simpa [contains] using hhas)
      simp only [Bool.not_false,if_true]
      exact ⟨.tree hs hbalanced,(parts_absent hs (lookup_eq_none.mp hnone)).symm⟩
    | true =>
      obtain ⟨⟨n',hb⟩,hlist⟩ := hbalanced.removeKey hs aKey
      simp only [Bool.not_true,Bool.false_eq_true,if_false]
      refine ⟨.tree ?_ hb,?_⟩
      · rw [toList_withColor,hlist]
        exact hs.drop
      · rw [entries,toList_withColor,hlist]
        rfl
  | @array l hs hlen =>
    rw [SortedDictionary.removeKey]
    cases hfind : findKey cmp aKey l with
    | none =>
      exact ⟨.array hs hlen,(parts_absent hs (findKey_none hs hfind)).symm⟩
    | some pos =>
      obtain ⟨l₁,e,l₂,rfl,rfl,hsame,hbelow,habove⟩ := findKey_some hs hfind
      have herase : (l₁ ++ e :: l₂).eraseIdx l₁.length = drop cmp aKey (l₁ ++ e :: l₂) := by
        rw [List.eraseIdx_append_of_length_le (Nat.le_refl _),Nat.sub_self]
        have hdrop : drop cmp aKey (l₁ ++ e :: l₂) = l₁ ++ l₂ := drop_eq hsame hbelow habove
        exact hdrop.symm
      have hsorted := hs.drop (k := aKey)
      rw [← herase] at hsorted
      refine ⟨.array hsorted ?_,herase⟩
      rw [List.length_eraseIdx]
      split
      · omega
      · exact hlen

end Operations

end SortedDictionary

inductive DictionaryOp (κ ν : Type) where
  | insertKey (aKey : κ) (aValue : ν)
  | removeKey (aKey : κ)

section Runs

variable (cmp : κ → κ → Ordering)

def DictionaryOp.apply [DecidableEq κ] (op : DictionaryOp κ ν) (d : SortedDictionary κ ν) :
    Except String (SortedDictionary κ ν) :=
  match op with
  | .insertKey aKey aValue => d.insertKey cmp aKey aValue
  | .removeKey aKey => .ok (d.removeKey cmp aKey)

def DictionaryOp.applyAll [DecidableEq κ] :
    List (DictionaryOp κ ν) → SortedDictionary κ ν → Except String (SortedDictionary κ ν)
  | [], d => .ok d
  | op :: ops, d => do applyAll ops (← op.apply cmp d)

/-- The change to a map from keys, of which those that compare the same are one. -/
def DictionaryOp.onMap (op : DictionaryOp κ ν) (map : κ → Option ν) : κ → Option ν :=
  match op with
  | .insertKey aKey aValue => fun key => if cmp key aKey = .eq then some aValue else map key
  | .removeKey aKey => fun key => if cmp key aKey = .eq then none else map key

def DictionaryOp.mapAfter (ops : List (DictionaryOp κ ν)) (map : κ → Option ν) : κ → Option ν :=
  ops.foldl (fun map op => op.onMap cmp map) map

end Runs

section Replays

variable {cmp : κ → κ → Ordering} [TransCmp cmp] [DecidableEq κ] {d d' : SortedDictionary κ ν}

open SortedDictionary DictionaryOp

theorem DictionaryOp.apply_valid (op : DictionaryOp κ ν) (h : Valid cmp d) :
    ∃ d', op.apply cmp d = .ok d' ∧ Valid cmp d' ∧
      ∀ key, d'.get cmp key = op.onMap cmp (d.get cmp) key := by
  cases op with
  | insertKey aKey aValue =>
    obtain ⟨d',k',hd',hvalid,hsame,hentries⟩ := h.insertKey aKey aValue
    refine ⟨d',hd',hvalid,fun key => ?_⟩
    rw [hvalid.get_eq,hentries,lookup_put h.sorted hsame,← h.get_eq]
    rfl
  | removeKey aKey =>
    obtain ⟨hvalid,hentries⟩ := h.removeKey aKey
    refine ⟨_,rfl,hvalid,fun key => ?_⟩
    rw [hvalid.get_eq,hentries,lookup_drop h.sorted,← h.get_eq]
    rfl

theorem DictionaryOp.applyAll_valid (ops : List (DictionaryOp κ ν)) (h : Valid cmp d) :
    ∃ d', applyAll cmp ops d = .ok d' ∧ Valid cmp d' ∧
      ∀ key, d'.get cmp key = mapAfter cmp ops (d.get cmp) key := by
  induction ops generalizing d with
  | nil => exact ⟨d,rfl,h,fun _ => rfl⟩
  | cons op ops ih =>
    obtain ⟨d₁,hd₁,hvalid₁,hget₁⟩ := op.apply_valid h
    obtain ⟨d₂,hd₂,hvalid₂,hget₂⟩ := ih hvalid₁
    refine ⟨d₂,by rw [applyAll,hd₁]; exact hd₂,hvalid₂,fun key => ?_⟩
    rw [hget₂,funext hget₁]
    rfl

/-- Any changes to a dictionary made of any keys: none throws, the entries stay in order,
each key has what the changes leave of it, and a tree passes its check. -/
theorem dictionary_replays {dictionary : List (κ × ν)} {d₀ : SortedDictionary κ ν}
    (hsize : dictionary.length+1 < 2^32) (h : fromDictionary cmp dictionary = .ok d₀)
    (ops : List (DictionaryOp κ ν)) : ∃ d, applyAll cmp ops d₀ = .ok d ∧
      Sorted cmp d.entries ∧
      (∀ key, d.get cmp key = mapAfter cmp ops (fun k => lookup cmp k dictionary) key) ∧
      ∀ root, d = .tree root → ∃ blackDepth,
        (∀ description, root.check description = .ok blackDepth) ∧
          2^blackDepth ≤ root.count+1 := by
  have hd : Distinct cmp dictionary := by
    by_contra hd
    rw [fromDictionary_throws hd] at h
    cases h
  obtain ⟨d₁,hd₁,hvalid,hperm⟩ := fromDictionary_valid hd hsize
  obtain rfl : d₁ = d₀ := Except.ok.inj (hd₁.symm.trans h)
  obtain ⟨d,hd',hvalid',hget⟩ := applyAll_valid ops hvalid
  have hmap : (fun k => d₁.get cmp k) = fun k => lookup cmp k dictionary := by
    funext k
    rw [hvalid.get_eq,hvalid.sorted.distinct.lookup_perm hperm]
  rw [← hmap]
  refine ⟨d,hd',hvalid'.sorted,hget,?_⟩
  rintro root rfl
  cases hvalid' with
  | tree hs hbalanced => exact ⟨_,hbalanced.check_ok,hbalanced.pow_le_count⟩

theorem dictionary_replays_thirty : ∃ d₀ d : SortedDictionary Nat Nat,
    fromDictionary compare thirtyKeys = .ok d₀ ∧
      applyAll compare [.removeKey 3,.insertKey 40 7,.insertKey 5 1] d₀ = .ok d ∧
      d.get compare 40 = some 7 ∧ d.get compare 3 = none ∧ d.get compare 2 = some 28 := by
  have hsize : thirtyKeys.length+1 < 2^32 := by decide
  have hdistinct : Distinct compare thirtyKeys := by unfold Distinct; decide
  obtain ⟨d₀,hd₀,-⟩ := fromDictionary_valid hdistinct hsize
  obtain ⟨d,hd,-,hget,-⟩ := dictionary_replays hsize hd₀
    [.removeKey 3,.insertKey 40 7,.insertKey 5 1]
  refine ⟨d₀,d,hd₀,hd,?_,?_,?_⟩
  · rw [hget]; decide
  · rw [hget]; decide
  · rw [hget]; decide

theorem DictionaryOp.apply_alike (op : DictionaryOp κ ν) (h : Valid cmp d)
    (h' : Valid cmp d') (halike : Alike cmp d.entries d'.entries) :
    ∃ e e', op.apply cmp d = .ok e ∧ op.apply cmp d' = .ok e' ∧ Valid cmp e ∧ Valid cmp e' ∧
      Alike cmp e.entries e'.entries := by
  cases op with
  | insertKey aKey aValue =>
    obtain ⟨e,k,he,hvalid,hsame,hentries⟩ := h.insertKey aKey aValue
    obtain ⟨e',k',he',hvalid',hsame',hentries'⟩ := h'.insertKey aKey aValue
    refine ⟨e,e',he,he',hvalid,hvalid',?_⟩
    rw [hentries,hentries']
    exact halike.put aKey (TransCmp.eq_trans (OrientedCmp.eq_symm hsame) hsame') aValue
  | removeKey aKey =>
    obtain ⟨hvalid,hentries⟩ := h.removeKey aKey
    obtain ⟨hvalid',hentries'⟩ := h'.removeKey aKey
    refine ⟨_,_,rfl,rfl,hvalid,hvalid',?_⟩
    rw [hentries,hentries']
    exact halike.drop aKey

/-- Whether an array or a tree holds the entries is not seen, by any changes and reads. -/
theorem dictionaries_alike (h : Valid cmp d) (h' : Valid cmp d')
    (halike : Alike cmp d.entries d'.entries) (ops : List (DictionaryOp κ ν)) :
    ∃ e e', applyAll cmp ops d = .ok e ∧ applyAll cmp ops d' = .ok e' ∧
      Alike cmp e.entries e'.entries ∧ e.count = e'.count ∧
      (∀ key, e.get cmp key = e'.get cmp key ∧ e.contains cmp key = e'.contains cmp key) ∧
      Option.Rel (cmp · · = .eq) e.minKey e'.minKey ∧
      Option.Rel (cmp · · = .eq) e.maxKey e'.maxKey ∧
      ∀ key, Option.Rel (Option.Rel (cmp · · = .eq)) (e.getPredecessorKey cmp key).toOption
        (e'.getPredecessorKey cmp key).toOption := by
  induction ops generalizing d d' with
  | cons op ops ih =>
    obtain ⟨e,e',he,he',hvalid,hvalid',halike'⟩ := op.apply_alike h h' halike
    simp only [applyAll,he,he']
    exact ih hvalid hvalid' halike'
  | nil =>
    have hget : ∀ key, d.get cmp key = d'.get cmp key := by
      intro key
      rw [h.get_eq,h'.get_eq,halike.lookup_eq]
    refine ⟨d,d',rfl,rfl,halike,?_,fun key => ⟨hget key,?_⟩,?_,?_,fun key => ?_⟩
    · rw [d.count_eq,d'.count_eq,halike.length_eq]
    · rw [h.contains_eq,h'.contains_eq,hget]
    · rw [d.minKey_eq,d'.minKey_eq]
      exact halike.headKey
    · rw [d.maxKey_eq,d'.maxKey_eq]
      exact halike.lastKey
    · rw [h.getPredecessorKey_eq,h'.getPredecessorKey_eq,hget]
      split
      · exact .some (halike.below key).lastKey
      · exact .none

/-- Keys with the same tens are in the same place. -/
def byTens : Nat → Nat → Ordering := compareOn (· / 10)

def tensArray : SortedDictionary Nat Nat := .array [(1,2),(12,5),(25,7)]

def tensTree : SortedDictionary Nat Nat :=
  .tree (.value .black (.value .black .empty 3 2 .empty) 12 5 (.value .black .empty 28 7 .empty))

theorem dictionaries_alike_tens : ∃ e e' : SortedDictionary Nat Nat,
    applyAll byTens [.insertKey 34 4,.removeKey 15] tensArray = .ok e ∧
      applyAll byTens [.insertKey 34 4,.removeKey 15] tensTree = .ok e' ∧
      Alike byTens e.entries e'.entries ∧ e.count = e'.count ∧
      e'.get byTens 12 = none ∧ e'.get byTens 25 = some 7 ∧ e'.get byTens 30 = some 4 ∧
      Option.Rel (byTens · · = .eq) e.minKey e'.minKey := by
  have : TransCmp byTens := inferInstanceAs (TransCmp (compareOn fun k : Nat => k / 10))
  have harray : Valid byTens tensArray := .array (by unfold Sorted; decide) (by decide)
  have htree : Valid byTens tensTree :=
    .tree (by unfold Sorted; decide) (.black (.black .empty .empty) (.black .empty .empty))
  obtain ⟨e,e',he,he',halike,hcount,hget,hmin,-⟩ := dictionaries_alike harray htree
    (.cons ⟨by decide,rfl⟩ (.cons ⟨by decide,rfl⟩ (.cons ⟨by decide,rfl⟩ .nil)))
    [.insertKey 34 4,.removeKey 15]
  have hread : (applyAll byTens [.insertKey 34 4,.removeKey 15] tensArray).toOption.map (fun e =>
      [e.get byTens 12,e.get byTens 25,e.get byTens 30]) = some [none,some 7,some 4] := by decide
  rw [he] at hread
  have hvalues := Option.some.inj hread
  simp only [(hget _).1,List.cons.injEq] at hvalues
  exact ⟨e,e',he,he',halike,hcount,hvalues.1,hvalues.2.1,
    hvalues.2.2.1,hmin⟩

end Replays

end Answr
