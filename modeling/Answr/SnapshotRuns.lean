import Answr.SnapshotNode
set_option autoImplicit false

/-! Writes to the nodes of the database library are writes to a database of leaves: what
lies at a path depends on the order of its keys alone, and a node exists as long as a leaf
lies at or below it. -/

namespace Answr
open Std Entries SortedDictionary

namespace SnapshotNode

section Invariant

/-- The children are valid dictionaries of nodes that are not empty. -/
inductive WellFormed : SnapshotNode → Prop where
  | leafNode {value : Leaf} {priority : Option Leaf} : WellFormed (.leafNode value priority)
  | childrenNode {priority : Option Leaf} {children : Children} : Valid compareKey children →
      (∀ e ∈ children.entries, WellFormed e.2) →
      (∀ e ∈ children.entries, e.2.isEmpty = false) →
      (∀ e ∈ children.entries, e.1 ≠ priorityKey) → WellFormed (.childrenNode priority children)

/-- The value of the leaf at the path. -/
def valueAt (path : List NodeKey) (n : SnapshotNode) : Option Leaf :=
  match n.getChild path with
  | .leafNode value _ => some value
  | .childrenNode _ _ => none

variable {n newChildNode : SnapshotNode} {priority : Option Leaf} {children : Children}
  {key key' : NodeKey} {path : List NodeKey}

theorem wellFormed_empty : WellFormed emptyNode :=
  .childrenNode (.array .nil (Nat.zero_le _)) (by simp [entries]) (by simp [entries])
    (by simp [entries])

theorem wellFormed_ofPriority : WellFormed (ofPriority priority) := by
  cases priority with
  | none => exact wellFormed_empty
  | some value => exact .leafNode

theorem getImmediateChild_children (hkey : key ≠ priorityKey) :
    (SnapshotNode.childrenNode priority children).getImmediateChild key =
      (children.get compareKey key).getD emptyNode := if_neg hkey

theorem mem_of_get (hv : Valid compareKey children)
    (h : children.get compareKey key = some n) : ∃ key', (key',n) ∈ children.entries := by
  rw [hv.get_eq,lookup_eq_some hv.sorted.distinct] at h
  obtain ⟨key',hmem,-⟩ := h
  exact ⟨key',hmem⟩

theorem get_of_mem {child : SnapshotNode} (hv : Valid compareKey children)
    (hmem : (key,child) ∈ children.entries) : children.get compareKey key = some child := by
  rw [hv.get_eq,lookup_eq_some hv.sorted.distinct]
  exact ⟨key,hmem,ReflCmp.compare_self⟩

theorem WellFormed.child (h : WellFormed n) (key : NodeKey) :
    WellFormed (n.getImmediateChild key) := by
  by_cases hkey : key = priorityKey
  · cases h <;> simp [SnapshotNode.getImmediateChild,hkey,wellFormed_ofPriority]
  · cases h with
    | leafNode => simp [SnapshotNode.getImmediateChild,hkey,wellFormed_empty]
    | @childrenNode priority children hv hchildren _ _ =>
      rw [getImmediateChild_children hkey]
      cases hget : children.get compareKey key with
      | none => exact wellFormed_empty
      | some child =>
        obtain ⟨key',hmem⟩ := mem_of_get hv hget
        exact hchildren _ hmem

theorem getChild_emptyNode (path : List NodeKey) : emptyNode.getChild path = emptyNode := by
  induction path with
  | nil => rfl
  | cons front path ih =>
    have hchild : emptyNode.getImmediateChild front = emptyNode := by
      by_cases hkey : front = priorityKey
      · simp [getImmediateChild,emptyNode,hkey,ofPriority]
      · rw [emptyNode,getImmediateChild_children hkey]
        rfl
    show (emptyNode.getImmediateChild front).getChild path = emptyNode
    rw [hchild,ih]

@[simp] theorem valueAt_emptyNode (path : List NodeKey) : emptyNode.valueAt path = none := by
  rw [valueAt,getChild_emptyNode]
  rfl

@[simp] theorem valueAt_children_nil :
    (SnapshotNode.childrenNode priority children).valueAt [] = none := rfl

theorem valueAt_cons (hkey : key ≠ priorityKey) (n : SnapshotNode) (path : List NodeKey) :
    n.valueAt (key :: path) = (n.getImmediateChild key).valueAt path := by
  cases n with
  | leafNode value priority => simp [valueAt,getChild,getImmediateChild,hkey,getChild_emptyNode]
  | childrenNode priority children => rfl

theorem valueAt_leaf_cons (hkey : key ≠ priorityKey) (value : Leaf) (path : List NodeKey) :
    (SnapshotNode.leafNode value priority).valueAt (key :: path) = none := by
  rw [valueAt_cons hkey,getImmediateChild,if_neg hkey,valueAt_emptyNode]

theorem valueAt_of_isEmpty (h : WellFormed n) (hempty : n.isEmpty = true)
    (hpath : priorityKey ∉ path) : n.valueAt path = none := by
  cases h with
  | leafNode => cases hempty
  | @childrenNode priority children hv _ _ _ =>
    cases path with
    | nil => rfl
    | cons key path =>
      have hkey : key ≠ priorityKey := fun heq => hpath (heq ▸ .head _)
      have hnil : children.entries = [] := by
        have hcount : children.count = 0 := by simpa [isEmpty] using hempty
        rw [children.count_eq] at hcount
        exact List.length_eq_zero_iff.mp hcount
      rw [valueAt_cons hkey,getImmediateChild_children hkey,hv.get_eq,hnil]
      exact valueAt_emptyNode path

end Invariant

section Updates

variable {n newChildNode : SnapshotNode} {priority : Option Leaf} {children : Children}
  {key : NodeKey} {path : List NodeKey}

theorem priorityKey_same (h : compareKey key priorityKey = .eq) : key = priorityKey := by
  have hcanonical := compareKey_eq.mp h
  cases key with
  | minName => cases hcanonical
  | maxName => cases hcanonical
  | name chars =>
    have hchars : canonicalName chars = [46,112,114,105,111,114,105,116,121] :=
      NodeKey.name.inj hcanonical
    rcases canonicalName_cases chars with ⟨hself,-⟩ | ⟨n,-,-,-,hzeros⟩
    · rw [priorityKey,← hself,hchars]
    · rw [hchars,List.replicate_succ] at hzeros
      simp at hzeros

def withChildren (priority : Option Leaf) (children : Children) : SnapshotNode :=
  if children.count = 0 then emptyNode else .childrenNode priority children

theorem withChildren_spec (h : WellFormed (.childrenNode priority children)) :
    WellFormed (withChildren priority children) ∧
      (withChildren priority children).isEmpty = (children.count == 0) ∧
      (withChildren priority children).valueAt [] = none ∧
      ∀ key, key ≠ priorityKey → ∀ path, (withChildren priority children).valueAt (key :: path) =
        ((children.get compareKey key).getD emptyNode).valueAt path := by
  cases h with
  | childrenNode hv hchildren hne hkeys =>
    rw [withChildren]
    by_cases hcount : children.count = 0
    · rw [if_pos hcount,hcount]
      refine ⟨wellFormed_empty,rfl,rfl,fun key hkey path => ?_⟩
      rw [children.count_eq,List.length_eq_zero_iff] at hcount
      rw [valueAt_emptyNode,hv.get_eq,hcount]
      exact (valueAt_emptyNode path).symm
    · rw [if_neg hcount]
      refine ⟨.childrenNode hv hchildren hne hkeys,rfl,rfl,fun key hkey path => ?_⟩
      rw [valueAt_cons hkey,getImmediateChild_children hkey]

theorem updateChildren_spec (h : WellFormed (.childrenNode priority children))
    (hnew : WellFormed newChildNode) (hkey : key ≠ priorityKey) :
    ∃ n', updateChildren key newChildNode priority children = .ok n' ∧ WellFormed n' ∧
      (newChildNode.isEmpty = false → n'.isEmpty = false) ∧ n'.valueAt [] = none ∧
      ∀ key', key' ≠ priorityKey → ∀ path, priorityKey ∉ path →
        n'.valueAt (key' :: path) = if compareKey key' key = .eq then newChildNode.valueAt path
          else (SnapshotNode.childrenNode priority children).valueAt (key' :: path) := by
  have hold : ∀ key', key' ≠ priorityKey → ∀ path,
      (SnapshotNode.childrenNode priority children).valueAt (key' :: path) =
        ((children.get compareKey key').getD emptyNode).valueAt path := by
    intro key' hkey' path
    rw [valueAt_cons hkey',getImmediateChild_children hkey']
  cases h with
  | childrenNode hv hchildren hne hkeys =>
    cases hempty : newChildNode.isEmpty with
    | true =>
      obtain ⟨hv',hentries⟩ := hv.removeKey key
      have hsub : ∀ e ∈ (children.removeKey compareKey key).entries, e ∈ children.entries := by
        intro e he
        rw [hentries] at he
        exact (mem_drop.mp he).1
      have hwell : WellFormed (.childrenNode priority (children.removeKey compareKey key)) :=
        .childrenNode hv' (fun e he => hchildren e (hsub e he))
          (fun e he => hne e (hsub e he)) fun e he => hkeys e (hsub e he)
      obtain ⟨hw,-,hnil,hvalues⟩ := withChildren_spec hwell
      refine ⟨withChildren priority (children.removeKey compareKey key),?_,hw,
        by simp,hnil,fun key' hkey' path hpath => ?_⟩
      · simp [updateChildren,hkey,hempty,withChildren,pure,Except.pure,bind,Except.bind]
      · rw [hvalues key' hkey',hold key' hkey',hv'.get_eq,hentries,lookup_drop hv.sorted,
          ← hv.get_eq]
        split
        · rw [Option.getD_none,valueAt_emptyNode,valueAt_of_isEmpty hnew hempty hpath]
        · rfl
    | false =>
      obtain ⟨children',key₁,hchildren',hv',hsame,hentries⟩ := hv.insertKey key newChildNode
      have hmem : ∀ e ∈ children'.entries, e = (key₁,newChildNode) ∨ e ∈ children.entries := by
        intro e he
        rw [hentries] at he
        exact (mem_put.mp he).imp_right And.left
      have hkey₁ : key₁ ≠ priorityKey := fun heq => hkey (priorityKey_same (heq ▸ hsame))
      have hwell : WellFormed (.childrenNode priority children') := by
        refine .childrenNode hv' (fun e he => ?_) (fun e he => ?_) fun e he => ?_
        · rcases hmem e he with rfl | he
          · exact hnew
          · exact hchildren e he
        · rcases hmem e he with rfl | he
          · exact hempty
          · exact hne e he
        · rcases hmem e he with rfl | he
          · exact hkey₁
          · exact hkeys e he
      obtain ⟨hw,hisEmpty,hnil,hvalues⟩ := withChildren_spec hwell
      have hcount : children'.count ≠ 0 := by
        rw [children'.count_eq,hentries,put]
        simp
      refine ⟨withChildren priority children',?_,hw,fun _ => ?_,hnil,
        fun key' hkey' path hpath => ?_⟩
      · simp [updateChildren,hkey,hempty,hchildren',withChildren,pure,Except.pure,bind,
          Except.bind]
      · simpa [hisEmpty] using hcount
      · rw [hvalues key' hkey',hold key' hkey',hv'.get_eq,hentries,lookup_put hv.sorted hsame,
          ← hv.get_eq]
        split <;> rfl

theorem updatePriority_spec (aPriority : SnapshotNode) (h : WellFormed n) :
    WellFormed (updatePriority aPriority n) ∧
      (updatePriority aPriority n).isEmpty = n.isEmpty ∧
      ∀ path, priorityKey ∉ path → (updatePriority aPriority n).valueAt path = n.valueAt path := by
  cases h with
  | leafNode =>
    refine ⟨.leafNode,rfl,fun path hpath => ?_⟩
    cases path with
    | nil => rfl
    | cons key path =>
      have hkey : key ≠ priorityKey := fun heq => hpath (heq ▸ .head _)
      rw [valueAt_leaf_cons hkey,updatePriority,valueAt_leaf_cons hkey]
  | @childrenNode priority children hv hchildren hne hkeys =>
    cases hempty : (SnapshotNode.childrenNode priority children).isEmpty with
    | true =>
      rw [updatePriority,if_pos hempty]
      refine ⟨wellFormed_empty,rfl,fun path hpath => ?_⟩
      rw [valueAt_emptyNode,valueAt_of_isEmpty (.childrenNode hv hchildren hne hkeys) hempty hpath]
    | false =>
      rw [updatePriority,if_neg (by rw [hempty]; decide)]
      refine ⟨.childrenNode hv hchildren hne hkeys,hempty,fun path hpath => ?_⟩
      cases path with
      | nil => rfl
      | cons key path =>
        have hkey : key ≠ priorityKey := fun heq => hpath (heq ▸ .head _)
        rw [valueAt_cons hkey,valueAt_cons hkey,getImmediateChild_children hkey,
          getImmediateChild_children hkey]

end Updates

section Paths

variable {n newChildNode : SnapshotNode} {front key : NodeKey} {p q : List NodeKey}

def canonicalPath (path : List NodeKey) : List NodeKey := path.map NodeKey.canonical

/-- What lies at `q` once a node has been put at `p`. -/
def overwritten (p : List NodeKey) (newChildNode n : SnapshotNode) (q : List NodeKey) :
    Option Leaf :=
  if canonicalPath p <+: canonicalPath q then newChildNode.valueAt (q.drop p.length)
  else if newChildNode.isEmpty = false ∧ canonicalPath q <+: canonicalPath p then none
  else n.valueAt q

theorem canonicalPath_cons : canonicalPath (front :: p) <+: canonicalPath (key :: q) ↔
    compareKey key front = .eq ∧ canonicalPath p <+: canonicalPath q := by
  rw [compareKey_eq,canonicalPath,canonicalPath,List.map_cons,List.map_cons,
    List.cons_prefix_cons]
  exact and_congr_left fun _ => eq_comm

theorem WellFormed.child_congr (h : WellFormed n) (hkey : key ≠ priorityKey)
    (hfront : front ≠ priorityKey) (hsame : compareKey key front = .eq) :
    n.getImmediateChild key = n.getImmediateChild front := by
  cases h with
  | leafNode => rw [getImmediateChild,getImmediateChild,if_neg hkey,if_neg hfront]
  | @childrenNode priority children hv _ _ _ =>
    rw [getImmediateChild_children hkey,getImmediateChild_children hfront,hv.get_eq,hv.get_eq,
      lookup_congr hsame]

theorem overwritten_cons (h : WellFormed n) (hkey : key ≠ priorityKey)
    (hfront : front ≠ priorityKey) : overwritten (front :: p) newChildNode n (key :: q) =
      if compareKey key front = .eq then
        overwritten p newChildNode (n.getImmediateChild front) q
      else n.valueAt (key :: q) := by
  have hback : canonicalPath (key :: q) <+: canonicalPath (front :: p) ↔
      compareKey key front = .eq ∧ canonicalPath q <+: canonicalPath p := by
    rw [canonicalPath_cons]
    exact and_congr_left fun _ => OrientedCmp.eq_comm
  by_cases hsame : compareKey key front = .eq
  · rw [if_pos hsame,overwritten,overwritten,valueAt_cons hkey,
      h.child_congr hkey hfront hsame]
    simp only [canonicalPath_cons,hback,hsame,true_and,List.length_cons,List.drop_succ_cons]
  · rw [if_neg hsame,overwritten]
    simp only [canonicalPath_cons,hback,hsame,false_and,and_false,if_false]

/-- A change at a path is seen at and below it, and a leaf on the way gives place. -/
theorem updateChild_spec (hn : WellFormed n) (hnew : WellFormed newChildNode)
    (hp : priorityKey ∉ p) : ∃ n', updateChild p newChildNode n = .ok n' ∧ WellFormed n' ∧
      (newChildNode.isEmpty = false → n'.isEmpty = false) ∧
      ∀ q, priorityKey ∉ q → n'.valueAt q = overwritten p newChildNode n q := by
  induction p generalizing n with
  | nil =>
    refine ⟨newChildNode,by rw [updateChild],hnew,id,fun q _ => ?_⟩
    rw [overwritten,if_pos (by simp [canonicalPath])]
    rfl
  | cons front p ih =>
    have hfront : front ≠ priorityKey := fun heq => hp (heq ▸ .head _)
    have hp' : priorityKey ∉ p := fun hmem => hp (.tail _ hmem)
    have hroot : ∀ n₁ : SnapshotNode, n₁.valueAt [] = none →
        (newChildNode.isEmpty = false ∨ n.valueAt [] = none) →
        n₁.valueAt [] = overwritten (front :: p) newChildNode n [] := by
      intro n₁ hnone hor
      rw [hnone,overwritten,if_neg (by simp [canonicalPath])]
      split
      · rfl
      · rename_i hnot
        exact (hor.resolve_left fun hne => hnot ⟨hne,List.nil_prefix ..⟩).symm
    cases hn with
    | @childrenNode priority children hv hchildren hne hkeys =>
      have hwell : WellFormed (.childrenNode priority children) :=
        .childrenNode hv hchildren hne hkeys
      obtain ⟨child,hchild,hcwell,hcempty,hcvalues⟩ := ih (hwell.child front) hp'
      obtain ⟨n',hn',hwell',hempty,hnil,hvalues⟩ := updateChildren_spec hwell hcwell hfront
      refine ⟨n',?_,hwell',fun h => hempty (hcempty h),fun q hq => ?_⟩
      · rw [updateChild,hchild]
        exact hn'
      · cases q with
        | nil => exact hroot n' hnil (.inr rfl)
        | cons key q =>
          have hkey : key ≠ priorityKey := fun heq => hq (heq ▸ .head _)
          have hq' : priorityKey ∉ q := fun hmem => hq (.tail _ hmem)
          rw [hvalues key hkey q hq',overwritten_cons hwell hkey hfront,hcvalues q hq']
    | @leafNode value priority =>
      have hwell : WellFormed (.leafNode value priority) := .leafNode
      cases hnewEmpty : newChildNode.isEmpty with
      | true =>
        refine ⟨.leafNode value priority,by rw [updateChild,if_pos ⟨hnewEmpty,hfront⟩],hwell,
          by simp,fun q hq => ?_⟩
        cases q with
        | nil =>
          rw [overwritten,if_neg (by simp [canonicalPath]),if_neg (by simp [hnewEmpty])]
        | cons key q =>
          have hkey : key ≠ priorityKey := fun heq => hq (heq ▸ .head _)
          have hdrop : priorityKey ∉ (key :: q).drop (front :: p).length :=
            fun hmem => hq (List.mem_of_mem_drop hmem)
          rw [overwritten,valueAt_leaf_cons hkey,valueAt_of_isEmpty hnew hnewEmpty hdrop]
          simp
      | false =>
        obtain ⟨child,hchild,hcwell,hcempty,hcvalues⟩ := ih wellFormed_empty hp'
        obtain ⟨n₁,hn₁,hwell₁,hempty₁,hnil₁,hvalues₁⟩ :=
          updateChildren_spec (wellFormed_empty : WellFormed (.childrenNode none (.array [])))
            hcwell hfront
        obtain ⟨hwell',hempty',hvalues'⟩ := updatePriority_spec (ofPriority priority) hwell₁
        have hne := hcempty hnewEmpty
        refine ⟨updatePriority (ofPriority priority) n₁,?_,hwell',
          fun _ => hempty'.trans (hempty₁ hne),fun q hq => ?_⟩
        · rw [updateChild,if_neg (by simp [hnewEmpty]),hchild]
          simp only [bind,Except.bind,updateImmediateChild,if_neg hfront,hne,hn₁]
          rfl
        · rw [hvalues' q hq]
          cases q with
          | nil => exact hroot n₁ hnil₁ (.inl hnewEmpty)
          | cons key q =>
            have hkey : key ≠ priorityKey := fun heq => hq (heq ▸ .head _)
            have hq' : priorityKey ∉ q := fun hmem => hq (.tail _ hmem)
            rw [hvalues₁ key hkey q hq',overwritten_cons hwell hkey hfront,hcvalues q hq',
              getImmediateChild,if_neg hfront,valueAt_leaf_cons hkey]
            split
            · rfl
            · exact valueAt_emptyNode _

end Paths

section Writes

variable {n : SnapshotNode} {p q : List NodeKey} {db : LeafTree.Leaves NodeKey Leaf}

def nodeFrom : Option Leaf → SnapshotNode
  | some value => .leafNode value none
  | none => emptyNode

def updateAll : List (List NodeKey × Option Leaf) → SnapshotNode → Except String SnapshotNode
  | [], n => .ok n
  | w :: writes, n => do updateAll writes (← updateChild w.1 (nodeFrom w.2) n)

/-- The node holds just the leaves of the database, under the canonical names of its keys. -/
structure Represents (n : SnapshotNode) (db : LeafTree.Leaves NodeKey Leaf) : Prop where
  wellFormed : WellFormed n
  values : ∀ q, priorityKey ∉ q → n.valueAt q = LeafTree.get (canonicalPath q) db
  canonical : ∀ e ∈ db, ∃ q, priorityKey ∉ q ∧ e.1 = canonicalPath q

theorem valueAt_leaf (value : Leaf) (hq : priorityKey ∉ q) :
    (SnapshotNode.leafNode value none).valueAt q = if q = [] then some value else none := by
  cases q with
  | nil => rfl
  | cons key q =>
    rw [valueAt_leaf_cons fun heq => hq (heq ▸ .head _),if_neg (by simp)]

theorem overwritten_write (h : n.Represents db) (hq : priorityKey ∉ q) (o : Option Leaf) :
    overwritten p (nodeFrom o) n q =
      LeafTree.get (canonicalPath q) (LeafTree.write (canonicalPath p) o db) := by
  have hlength : ∀ path : List NodeKey, (canonicalPath path).length = path.length :=
    fun path => List.length_map ..
  have hdrop : priorityKey ∉ q.drop p.length := fun hmem => hq (List.mem_of_mem_drop hmem)
  rw [overwritten,h.values q hq]
  cases o with
  | none =>
    rw [LeafTree.write,LeafTree.get_remove,nodeFrom,valueAt_emptyNode]
    split
    · rfl
    · rw [if_neg (by simp [emptyNode,isEmpty,SortedDictionary.count])]
  | some value =>
    rw [LeafTree.write,nodeFrom,valueAt_leaf value hdrop]
    by_cases heq : canonicalPath p = canonicalPath q
    · have hlen : p.length = q.length := by rw [← hlength p,heq,hlength q]
      rw [if_pos (heq ▸ List.prefix_refl _),heq,LeafTree.get_put_self,if_pos]
      rw [hlen,List.drop_length]
    · rw [LeafTree.get_put _ _ db value heq]
      by_cases hbelow : canonicalPath p <+: canonicalPath q
      · rw [if_pos hbelow,if_neg,if_neg fun hapart => hapart.1 hbelow]
        intro hnil
        have hle : q.length ≤ p.length := List.drop_eq_nil_iff.mp hnil
        exact heq (hbelow.eq_of_length_le (by rw [hlength,hlength]; exact hle))
      · rw [if_neg hbelow]
        by_cases habove : canonicalPath q <+: canonicalPath p
        · rw [if_pos ⟨rfl,habove⟩,if_neg fun hapart => hapart.2 habove]
        · rw [if_neg fun hboth => habove hboth.2,if_pos ⟨hbelow,habove⟩]

theorem wellFormed_nodeFrom (o : Option Leaf) : WellFormed (nodeFrom o) := by
  cases o with
  | none => exact wellFormed_empty
  | some value => exact .leafNode

/-- One write keeps to the database. -/
theorem Represents.updateChild (h : n.Represents db) (hp : priorityKey ∉ p) (o : Option Leaf) :
    ∃ n', SnapshotNode.updateChild p (nodeFrom o) n = .ok n' ∧
      n'.Represents (LeafTree.write (canonicalPath p) o db) := by
  obtain ⟨n',hn',hwell,-,hvalues⟩ := updateChild_spec h.wellFormed (wellFormed_nodeFrom o) hp
  refine ⟨n',hn',hwell,fun q hq => ?_,fun e he => ?_⟩
  · rw [hvalues q hq,overwritten_write h hq]
  · cases o with
    | none => exact h.canonical e (List.mem_filter.mp he).1
    | some value =>
      rcases List.mem_append.mp he with he | he
      · exact h.canonical e (List.mem_filter.mp he).1
      · exact ⟨p,hp,congrArg (·.1) (List.mem_singleton.mp he)⟩

/-- The database that the writes leave of an empty one. -/
def written (writes : List (List NodeKey × Option Leaf))
    (db : LeafTree.Leaves NodeKey Leaf) : LeafTree.Leaves NodeKey Leaf :=
  writes.foldl (fun db w => LeafTree.write (canonicalPath w.1) w.2 db) db

theorem Represents.updateAll {writes : List (List NodeKey × Option Leaf)}
    (h : n.Represents db) (hwrites : ∀ w ∈ writes, priorityKey ∉ w.1) :
    ∃ n', SnapshotNode.updateAll writes n = .ok n' ∧ n'.Represents (written writes db) := by
  induction writes generalizing n db with
  | nil => exact ⟨n,rfl,h⟩
  | cons w writes ih =>
    obtain ⟨n₁,hn₁,h₁⟩ := h.updateChild (hwrites w (.head _)) w.2
    obtain ⟨n₂,hn₂,h₂⟩ := ih h₁ fun w' hw' => hwrites w' (.tail _ hw')
    exact ⟨n₂,by rw [SnapshotNode.updateAll,hn₁]; exact hn₂,h₂⟩

theorem represents_empty : emptyNode.Represents [] :=
  ⟨wellFormed_empty,fun q _ => valueAt_emptyNode q,by simp⟩

end Writes

section Reads

variable {n : SnapshotNode} {p q : List NodeKey} {db : LeafTree.Leaves NodeKey Leaf}

theorem getChild_append (hp : priorityKey ∉ p) (n : SnapshotNode) (q : List NodeKey) :
    n.getChild (p ++ q) = (n.getChild p).getChild q := by
  induction p generalizing n with
  | nil => rfl
  | cons front p ih =>
    have hfront : front ≠ priorityKey := fun heq => hp (heq ▸ .head _)
    have hp' : priorityKey ∉ p := fun hmem => hp (.tail _ hmem)
    cases n with
    | leafNode value priority =>
      simp only [List.cons_append,getChild,if_neg hfront,getChild_emptyNode]
    | childrenNode priority children =>
      simp only [List.cons_append,getChild,ih hp']

theorem valueAt_append (hp : priorityKey ∉ p) (n : SnapshotNode) (q : List NodeKey) :
    n.valueAt (p ++ q) = (n.getChild p).valueAt q := by
  rw [valueAt,getChild_append hp,valueAt]

theorem WellFormed.descendant (h : WellFormed n) (p : List NodeKey) :
    WellFormed (n.getChild p) := by
  induction p generalizing n with
  | nil => exact h
  | cons front p ih =>
    cases n with
    | leafNode value priority =>
      rw [SnapshotNode.getChild]
      split
      · exact wellFormed_ofPriority
      · exact wellFormed_empty
    | childrenNode priority children => exact ih (h.child front)

theorem WellFormed.exists_leaf (h : WellFormed n) (hne : n.isEmpty = false) :
    ∃ q value, priorityKey ∉ q ∧ n.valueAt q = some value := by
  induction h with
  | @leafNode value priority => exact ⟨[],value,by simp,rfl⟩
  | @childrenNode priority children hv _ hchildren hkeys ih =>
    have hcount : children.entries ≠ [] := by
      intro hnil
      rw [isEmpty,children.count_eq,hnil] at hne
      cases hne
    obtain ⟨⟨key,child⟩,hmem⟩ := List.exists_mem_of_ne_nil _ hcount
    obtain ⟨q,value,hq,hvalue⟩ := ih _ hmem (hchildren _ hmem)
    have hkey := hkeys _ hmem
    refine ⟨key :: q,value,?_,?_⟩
    · intro hin
      rcases List.mem_cons.mp hin with heq | hin
      · exact hkey heq.symm
      · exact hq hin
    · rw [valueAt_cons hkey,getImmediateChild_children hkey,get_of_mem hv hmem]
      exact hvalue

theorem childNames_eq (priority : Option Leaf) (children : Children) :
    (SnapshotNode.childrenNode priority children).childNames =
      children.entries.map (·.1) := by
  have hall : ∀ (l : List (NodeKey × SnapshotNode)) (names : List NodeKey),
      (untilStopped (fun key _ names => (names ++ [key],false)) l names).1 =
        names ++ l.map (·.1) := by
    intro l
    induction l with
    | nil => intro names; exact (List.append_nil names).symm
    | cons e l ih =>
      intro names
      rw [untilStopped]
      simp only [Bool.false_eq_true,if_false,ih,List.map_cons,List.append_assoc,
        List.singleton_append]
  rw [childNames,enumerate_eq]
  exact hall _ _

theorem plain_append {r : List NodeKey} (hq : priorityKey ∉ q) (hr : priorityKey ∉ r) :
    priorityKey ∉ q ++ r := by
  simp [hq,hr]

theorem Represents.value_of_mem (h : n.Represents db) (hq : priorityKey ∉ q)
    {rest : List NodeKey} {v : Leaf} (hmem : (canonicalPath q ++ rest,v) ∈ db) :
    ∃ r value, priorityKey ∉ r ∧ canonicalPath r = rest ∧ n.valueAt (q ++ r) = some value := by
  obtain ⟨path,hpath,heq⟩ := h.canonical _ hmem
  obtain ⟨value,hvalue⟩ := LeafTree.get_of_mem _ db hmem
  obtain ⟨q',r,rfl,-,hr⟩ := List.map_eq_append_iff.mp heq.symm
  have hr' : priorityKey ∉ r := fun hin => hpath (List.mem_append_right _ hin)
  refine ⟨r,value,hr',hr,?_⟩
  rw [h.values _ (plain_append hq hr'),canonicalPath,List.map_append,hr]
  exact hvalue

theorem Represents.mem_of_value (h : n.Represents db) (hq : priorityKey ∉ q)
    {r : List NodeKey} {value : Leaf} (hr : priorityKey ∉ r)
    (hvalue : n.valueAt (q ++ r) = some value) :
    (canonicalPath q ++ canonicalPath r,value) ∈ db := by
  rw [h.values _ (plain_append hq hr),canonicalPath,List.map_append] at hvalue
  exact LeafTree.mem_of_get _ _ hvalue

theorem Represents.isEmpty_iff (h : n.Represents db) (hq : priorityKey ∉ q) :
    (n.getChild q).isEmpty = true ↔ LeafTree.below (canonicalPath q) db = [] := by
  have hwell := h.wellFormed.descendant q
  constructor
  · intro hempty
    refine List.filter_eq_nil_iff.mpr fun e he hbelow => ?_
    obtain ⟨rest,hrest⟩ := of_decide_eq_true hbelow
    obtain ⟨r,value,hr,-,hvalue⟩ := h.value_of_mem hq
      (show (canonicalPath q ++ rest,e.2) ∈ db by rw [hrest]; exact he)
    rw [valueAt_append hq,valueAt_of_isEmpty hwell hempty hr] at hvalue
    cases hvalue
  · intro hnil
    by_contra hne
    obtain ⟨r,value,hr,hvalue⟩ := hwell.exists_leaf (Bool.eq_false_iff.mpr hne)
    rw [← valueAt_append hq] at hvalue
    have hmem : (canonicalPath q ++ canonicalPath r,value) ∈
        LeafTree.below (canonicalPath q) db :=
      List.mem_filter.mpr ⟨h.mem_of_value hq hr hvalue,decide_eq_true (List.prefix_append ..)⟩
    rw [hnil] at hmem
    cases hmem

theorem Represents.childNames (h : n.Represents db) (hq : priorityKey ∉ q) :
    (n.getChild q).childNames.Pairwise (compareKey · · = .lt) ∧
      ((n.getChild q).childNames.map NodeKey.canonical).Perm
        (LeafTree.keys (canonicalPath q) db) := by
  have hwell := h.wellFormed.descendant q
  have hvalues := fun r => valueAt_append hq n r
  generalize n.getChild q = child at hwell hvalues
  cases hwell with
  | @leafNode value priority =>
    refine ⟨.nil,?_⟩
    have hnil : LeafTree.keys (canonicalPath q) db = [] := by
      refine List.eq_nil_iff_forall_not_mem.mpr fun key hkey => ?_
      obtain ⟨rest,v,hmem⟩ := (LeafTree.mem_keys _ _).mp hkey
      obtain ⟨r,value,hr,hcanonical,hvalue⟩ := h.value_of_mem hq hmem
      obtain ⟨key',r,rfl,-,-⟩ := List.map_eq_cons_iff.mp hcanonical
      rw [hvalues,valueAt_leaf_cons fun heq => hr (heq ▸ .head _)] at hvalue
      cases hvalue
    rw [hnil]
    exact .nil
  | @childrenNode priority children hv hchildren hne hkeys =>
    have hsorted : (children.entries.map (·.1)).Pairwise (compareKey · · = .lt) :=
      List.pairwise_map.mpr hv.sorted
    rw [childNames_eq]
    refine ⟨hsorted,?_⟩
    have hnodup : ((children.entries.map (·.1)).map NodeKey.canonical).Nodup := by
      refine List.pairwise_map.mpr (hsorted.imp fun hlt heq => ?_)
      rw [compareKey_eq.mpr heq] at hlt
      cases hlt
    refine (List.perm_ext_iff_of_nodup hnodup (LeafTree.keys_nodup _ _)).mpr fun key => ?_
    rw [LeafTree.mem_keys,List.map_map]
    constructor
    · intro hkey
      obtain ⟨⟨key,child⟩,hmem,rfl⟩ := List.mem_map.mp hkey
      obtain ⟨r,value,hr,hvalue⟩ := (hchildren _ hmem).exists_leaf (hne _ hmem)
      have hcons : priorityKey ∉ key :: r := fun hin => by
        rcases List.mem_cons.mp hin with heq | hin
        · exact hkeys _ hmem heq.symm
        · exact hr hin
      refine ⟨canonicalPath r,value,h.mem_of_value hq hcons ?_⟩
      rw [hvalues,valueAt_cons (hkeys _ hmem),getImmediateChild_children (hkeys _ hmem),
        get_of_mem hv hmem]
      exact hvalue
    · rintro ⟨rest,v,hmem⟩
      obtain ⟨r,value,hr,hcanonical,hvalue⟩ := h.value_of_mem hq hmem
      obtain ⟨key',r,rfl,rfl,-⟩ := List.map_eq_cons_iff.mp hcanonical
      have hkey' : key' ≠ priorityKey := fun heq => hr (heq ▸ .head _)
      rw [hvalues,valueAt_cons hkey',getImmediateChild_children hkey'] at hvalue
      cases hget : children.get compareKey key' with
      | none =>
        rw [hget,Option.getD_none,valueAt_emptyNode] at hvalue
        cases hvalue
      | some child =>
        rw [hv.get_eq,lookup_eq_some hv.sorted.distinct] at hget
        obtain ⟨key,hin,hsame⟩ := hget
        exact List.mem_map.mpr ⟨_,hin,(compareKey_eq.mp hsame).symm⟩

/-- Any writes to an empty node, by paths that the library accepts: what can be read of the
node afterwards is what the writes leave in a database of leaves. -/
theorem snapshot_writes {writes : List (List NodeKey × Option Leaf)}
    (hwrites : ∀ w ∈ writes, priorityKey ∉ w.1) : ∃ n, updateAll writes emptyNode = .ok n ∧
      ∀ q, priorityKey ∉ q → n.valueAt q = LeafTree.get (canonicalPath q) (written writes []) ∧
        ((n.getChild q).isEmpty = true ↔
          LeafTree.below (canonicalPath q) (written writes []) = []) ∧
        (n.getChild q).childNames.Pairwise (compareKey · · = .lt) ∧
        ((n.getChild q).childNames.map NodeKey.canonical).Perm
          (LeafTree.keys (canonicalPath q) (written writes [])) := by
  obtain ⟨n,hn,h⟩ := represents_empty.updateAll hwrites
  exact ⟨n,hn,fun q hq => ⟨h.values q hq,h.isEmpty_iff hq,h.childNames hq⟩⟩

theorem snapshot_writes_below : ∃ n, updateAll [([.name [97]],some (.bool true)),
    ([.name [97],.name [98]],some (.string "b"))] emptyNode = .ok n ∧
      n.valueAt [.name [97]] = none ∧ n.valueAt [.name [97],.name [98]] = some (.string "b") := by
  have hwrites : ∀ w ∈ [([NodeKey.name [97]],some (Leaf.bool true)),
      ([.name [97],.name [98]],some (.string "b"))], priorityKey ∉ w.1 := by decide
  obtain ⟨n,hn,hread⟩ := snapshot_writes hwrites
  refine ⟨n,hn,?_,?_⟩
  · rw [(hread [.name [97]] (by decide)).1]
    decide
  · rw [(hread [.name [97],.name [98]] (by decide)).1]
    decide

end Reads

end SnapshotNode

end Answr
