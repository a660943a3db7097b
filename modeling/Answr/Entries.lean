import Mathlib.Data.List.Forall2
import Mathlib.Data.List.Perm.Basic
import Mathlib.Order.Defs.LinearOrder
set_option autoImplicit false

/-! Lists of entries in the strict order of a comparison of their keys: a finite map, with
what it is to put an entry in, to drop one and to look one up. The comparison may take
different keys to be the same. -/

namespace Entries
open Std

variable {κ ν : Type}

section Lists

variable (cmp : κ → κ → Ordering)

def Sorted (l : List (κ × ν)) : Prop := l.Pairwise fun a b => cmp a.1 b.1 = .lt

def lookup (k : κ) (l : List (κ × ν)) : Option ν :=
  (l.find? fun e => cmp k e.1 = .eq).map (·.2)

/-- The key that stands for the same as `k`, else `k`. -/
def keyFor (k : κ) (l : List (κ × ν)) : κ :=
  ((l.find? fun e => cmp k e.1 = .eq).map (·.1)).getD k

def below (k : κ) (l : List (κ × ν)) : List (κ × ν) := l.filter fun e => cmp e.1 k = .lt

def above (k : κ) (l : List (κ × ν)) : List (κ × ν) := l.filter fun e => cmp k e.1 = .lt

/-- The entries with that of `k` replaced or added, under the key `k'`. -/
def put (k k' : κ) (v : ν) (l : List (κ × ν)) : List (κ × ν) :=
  below cmp k l ++ (k',v) :: above cmp k l

def drop (k : κ) (l : List (κ × ν)) : List (κ × ν) := below cmp k l ++ above cmp k l

def Distinct (l : List (κ × ν)) : Prop := l.Pairwise fun a b => cmp a.1 b.1 ≠ .eq

/-- The same but for keys that compare the same. -/
def Alike (l l' : List (κ × ν)) : Prop :=
  List.Forall₂ (fun a b => cmp a.1 b.1 = .eq ∧ a.2 = b.2) l l'

end Lists

section Parts

variable {cmp : κ → κ → Ordering} {k k' : κ} {v v' : ν} {l l' : List (κ × ν)}

theorem sorted_append : Sorted cmp (l ++ (k,v) :: l') ↔ Sorted cmp l ∧ Sorted cmp l' ∧
    (∀ e ∈ l, cmp e.1 k = .lt) ∧ (∀ e ∈ l', cmp k e.1 = .lt) ∧
      ∀ e ∈ l, ∀ e' ∈ l', cmp e.1 e'.1 = .lt := by
  simp only [Sorted,List.pairwise_append,List.pairwise_cons,List.mem_cons]
  constructor
  · rintro ⟨hl,⟨hk,hl'⟩,hcross⟩
    exact ⟨hl,hl',fun e he => hcross e he _ (.inl rfl),hk,
      fun e he e' he' => hcross e he e' (.inr he')⟩
  · rintro ⟨hl,hl',hbelow,habove,hcross⟩
    refine ⟨hl,⟨habove,hl'⟩,fun e he e' he' => ?_⟩
    rcases he' with rfl | he'
    · exact hbelow e he
    · exact hcross e he e' he'

@[simp] theorem below_append (l l' : List (κ × ν)) :
    below cmp k (l ++ l') = below cmp k l ++ below cmp k l' := List.filter_append ..

@[simp] theorem above_append (l l' : List (κ × ν)) :
    above cmp k (l ++ l') = above cmp k l ++ above cmp k l' := List.filter_append ..

theorem below_eq_self (h : ∀ e ∈ l, cmp e.1 k = .lt) : below cmp k l = l :=
  List.filter_eq_self.mpr fun e he => decide_eq_true (h e he)

theorem above_eq_self (h : ∀ e ∈ l, cmp k e.1 = .lt) : above cmp k l = l :=
  List.filter_eq_self.mpr fun e he => decide_eq_true (h e he)

theorem below_eq_nil (h : ∀ e ∈ l, cmp e.1 k ≠ .lt) : below cmp k l = [] :=
  List.filter_eq_nil_iff.mpr fun e he heq => h e he (of_decide_eq_true heq)

theorem below_lt {e : κ × ν} (h : e ∈ below cmp k l) : cmp e.1 k = .lt :=
  of_decide_eq_true (List.mem_filter.mp h).2

theorem above_lt {e : κ × ν} (h : e ∈ above cmp k l) : cmp k e.1 = .lt :=
  of_decide_eq_true (List.mem_filter.mp h).2

theorem Sorted.below (h : Sorted cmp l) : Sorted cmp (below cmp k l) := h.filter _

theorem Sorted.above (h : Sorted cmp l) : Sorted cmp (above cmp k l) := h.filter _

theorem find_some {e : κ × ν} (h : l.find? (fun e => cmp k e.1 = .eq) = some e) :
    e ∈ l ∧ cmp k e.1 = .eq :=
  ⟨List.mem_of_find?_eq_some h,by simpa using List.find?_some h⟩

theorem Sorted.distinct (h : Sorted cmp l) : Distinct cmp l :=
  List.Pairwise.imp (fun hlt => by rw [hlt]; decide) h

theorem neighbours_of_sorted (h : Sorted cmp l) :
    (l.zip l.tail).all (fun p => cmp p.1.1 p.2.1 = .lt) = true := by
  induction l with
  | nil => rfl
  | cons a l ih =>
    obtain ⟨ha,hl⟩ := List.pairwise_cons.mp h
    cases l with
    | nil => rfl
    | cons b l =>
      simp only [List.tail_cons,List.zip_cons_cons,List.all_cons,Bool.and_eq_true,
        decide_eq_true_eq]
      exact ⟨ha b (.head _),ih hl⟩

theorem lookup_eq_none : lookup cmp k l = none ↔ ∀ e ∈ l, cmp k e.1 ≠ .eq := by
  rw [lookup,Option.map_eq_none_iff,List.find?_eq_none]
  simp

theorem lookup_append_left (h : ∀ e ∈ l', cmp k e.1 ≠ .eq) :
    lookup cmp k (l ++ l') = lookup cmp k l := by
  have hnone : l'.find? (fun e => cmp k e.1 = .eq) = none :=
    List.find?_eq_none.mpr fun e he heq => h e he (of_decide_eq_true heq)
  rw [lookup,lookup,List.find?_append,hnone,Option.or_none]

theorem lookup_append_right (h : ∀ e ∈ l, cmp k e.1 ≠ .eq) :
    lookup cmp k (l ++ l') = lookup cmp k l' := by
  have hnone : l.find? (fun e => cmp k e.1 = .eq) = none :=
    List.find?_eq_none.mpr fun e he heq => h e he (of_decide_eq_true heq)
  rw [lookup,lookup,List.find?_append,hnone,Option.none_or]

theorem keyFor_append_left (h : ∀ e ∈ l', cmp k e.1 ≠ .eq) :
    keyFor cmp k (l ++ l') = keyFor cmp k l := by
  have hnone : l'.find? (fun e => cmp k e.1 = .eq) = none :=
    List.find?_eq_none.mpr fun e he heq => h e he (of_decide_eq_true heq)
  rw [keyFor,keyFor,List.find?_append,hnone,Option.or_none]

theorem keyFor_append_right (h : ∀ e ∈ l, cmp k e.1 ≠ .eq) :
    keyFor cmp k (l ++ l') = keyFor cmp k l' := by
  have hnone : l.find? (fun e => cmp k e.1 = .eq) = none :=
    List.find?_eq_none.mpr fun e he heq => h e he (of_decide_eq_true heq)
  rw [keyFor,keyFor,List.find?_append,hnone,Option.none_or]

theorem ne_eq_of_lt {e : κ × ν} (h : cmp k e.1 = .lt) : cmp k e.1 ≠ .eq := by
  rw [h]
  decide

theorem Alike.headKey (h : Alike cmp l l') :
    Option.Rel (cmp · · = .eq) (l.head?.map (·.1)) (l'.head?.map (·.1)) := by
  cases h with
  | nil => exact .none
  | cons hab => exact .some hab.1

theorem Alike.lastKey (h : Alike cmp l l') :
    Option.Rel (cmp · · = .eq) (l.getLast?.map (·.1)) (l'.getLast?.map (·.1)) := by
  rw [← List.head?_reverse,← List.head?_reverse]
  exact Alike.headKey (List.rel_reverse h)

variable [OrientedCmp cmp]

theorem Distinct.of_perm (h : Distinct cmp l) (hperm : l.Perm l') : Distinct cmp l' :=
  (hperm.pairwise_iff fun hab hba => hab (OrientedCmp.eq_symm hba)).mp h

theorem Sorted.eq_of_perm (hl : Sorted cmp l) (hl' : Sorted cmp l') (h : l.Perm l') : l = l' := by
  refine h.eq_of_pairwise (fun a b _ _ hab hba => ?_) hl hl'
  exact absurd hba (OrientedCmp.not_lt_of_lt hab)

theorem above_eq_nil (h : ∀ e ∈ l, cmp e.1 k = .lt) : above cmp k l = [] :=
  List.filter_eq_nil_iff.mpr fun e he heq =>
    OrientedCmp.not_lt_of_lt (h e he) (of_decide_eq_true heq)

theorem below_eq_nil_of_lt (h : ∀ e ∈ l, cmp k e.1 = .lt) : below cmp k l = [] :=
  below_eq_nil fun e he => OrientedCmp.not_lt_of_lt (h e he)

theorem parts_lt (h : ∀ e ∈ (k',v) :: l', cmp k e.1 = .lt) (l : List (κ × ν)) :
    below cmp k (l ++ (k',v) :: l') = below cmp k l ∧
      above cmp k (l ++ (k',v) :: l') = above cmp k l ++ (k',v) :: l' := by
  rw [below_append,above_append,below_eq_nil_of_lt h,above_eq_self h,List.append_nil]
  exact ⟨rfl,rfl⟩

theorem parts_gt (h : ∀ e ∈ l ++ [(k',v)], cmp e.1 k = .lt) (l' : List (κ × ν)) :
    below cmp k (l ++ (k',v) :: l') = l ++ (k',v) :: below cmp k l' ∧
      above cmp k (l ++ (k',v) :: l') = above cmp k l' := by
  rw [List.append_cons,below_append,above_append,below_eq_self h,above_eq_nil h]
  simp

theorem parts_eq (h : cmp k k' = .eq) (hbelow : ∀ e ∈ l, cmp e.1 k = .lt)
    (habove : ∀ e ∈ l', cmp k e.1 = .lt) :
    below cmp k (l ++ (k',v) :: l') = l ∧ above cmp k (l ++ (k',v) :: l') = l' := by
  have hsame : cmp k' k = .eq := OrientedCmp.eq_symm h
  have hbelow' : below cmp k ((k',v) :: l') = [] := by
    refine below_eq_nil fun e he => ?_
    rcases List.mem_cons.mp he with rfl | he
    · simp [hsame]
    · exact OrientedCmp.not_lt_of_lt (habove e he)
  have habove' : above cmp k ((k',v) :: l') = l' := by
    rw [above,List.filter_cons_of_neg (by simp [h])]
    exact above_eq_self habove
  rw [below_append,above_append,below_eq_self hbelow,above_eq_nil hbelow,hbelow',habove']
  exact ⟨List.append_nil l,rfl⟩

theorem ne_eq_of_gt {e : κ × ν} (h : cmp e.1 k = .lt) : cmp k e.1 ≠ .eq := by
  rw [OrientedCmp.gt_of_lt h]
  decide

theorem lookup_eq (h : cmp k k' = .eq) (hbelow : ∀ e ∈ l, cmp e.1 k = .lt) :
    lookup cmp k (l ++ (k',v) :: l') = some v := by
  rw [lookup_append_right fun e he => ne_eq_of_gt (hbelow e he)]
  simp [lookup,h]

theorem put_lt (h : ∀ e ∈ (k',v') :: l', cmp k e.1 = .lt) :
    put cmp k (keyFor cmp k (l ++ (k',v') :: l')) v (l ++ (k',v') :: l') =
      put cmp k (keyFor cmp k l) v l ++ (k',v') :: l' := by
  obtain ⟨hbelow,habove⟩ := parts_lt h l
  rw [put,put,hbelow,habove,keyFor_append_left fun e he => ne_eq_of_lt (h e he),
    List.append_assoc,List.cons_append]

theorem put_gt (h : ∀ e ∈ l ++ [(k',v')], cmp e.1 k = .lt) :
    put cmp k (keyFor cmp k (l ++ (k',v') :: l')) v (l ++ (k',v') :: l') =
      l ++ (k',v') :: put cmp k (keyFor cmp k l') v l' := by
  obtain ⟨hbelow,habove⟩ := parts_gt h l'
  have hkey : keyFor cmp k (l ++ (k',v') :: l') = keyFor cmp k l' := by
    rw [List.append_cons]
    exact keyFor_append_right fun e he => ne_eq_of_gt (h e he)
  rw [put,put,hbelow,habove,hkey,List.append_assoc,List.cons_append]

theorem put_eq (h : cmp k k' = .eq) (hbelow : ∀ e ∈ l, cmp e.1 k = .lt)
    (habove : ∀ e ∈ l', cmp k e.1 = .lt) :
    put cmp k (keyFor cmp k (l ++ (k',v') :: l')) v (l ++ (k',v') :: l') =
      l ++ (k',v) :: l' := by
  obtain ⟨hb,ha⟩ := parts_eq (v := v') h hbelow habove
  have hkey : keyFor cmp k (l ++ (k',v') :: l') = k' := by
    rw [keyFor_append_right fun e he => ne_eq_of_gt (hbelow e he),keyFor,
      List.find?_cons_of_pos (by simp [h])]
    rfl
  rw [put,hb,ha,hkey]

theorem drop_lt (h : ∀ e ∈ (k',v') :: l', cmp k e.1 = .lt) :
    drop cmp k (l ++ (k',v') :: l') = drop cmp k l ++ (k',v') :: l' := by
  obtain ⟨hbelow,habove⟩ := parts_lt h l
  rw [drop,drop,hbelow,habove,List.append_assoc]

theorem drop_gt (h : ∀ e ∈ l ++ [(k',v')], cmp e.1 k = .lt) :
    drop cmp k (l ++ (k',v') :: l') = l ++ (k',v') :: drop cmp k l' := by
  obtain ⟨hbelow,habove⟩ := parts_gt h l'
  rw [drop,drop,hbelow,habove,List.append_assoc,List.cons_append]

theorem drop_eq (h : cmp k k' = .eq) (hbelow : ∀ e ∈ l, cmp e.1 k = .lt)
    (habove : ∀ e ∈ l', cmp k e.1 = .lt) :
    drop cmp k (l ++ (k',v') :: l') = l ++ l' := by
  obtain ⟨hb,ha⟩ := parts_eq (v := v') h hbelow habove
  rw [drop,hb,ha]

end Parts

section Maps

variable {cmp : κ → κ → Ordering} [TransCmp cmp] {k k' : κ} {v v' : ν} {l l' : List (κ × ν)}

theorem sorted_of_neighbours (h : (l.zip l.tail).all (fun p => cmp p.1.1 p.2.1 = .lt) = true) :
    Sorted cmp l := by
  induction l with
  | nil => exact .nil
  | cons a l ih =>
    cases l with
    | nil => exact List.pairwise_singleton _ _
    | cons b l =>
      simp only [List.tail_cons,List.zip_cons_cons,List.all_cons,Bool.and_eq_true,
        decide_eq_true_eq] at h
      have hrest : Sorted cmp (b :: l) := ih h.2
      refine List.pairwise_cons.mpr ⟨fun e he => ?_,hrest⟩
      rcases List.mem_cons.mp he with rfl | he
      · exact h.1
      · exact TransCmp.lt_trans h.1 ((List.pairwise_cons.mp hrest).1 e he)

theorem Distinct.eq_of_mem (h : Distinct cmp l) {e e' : κ × ν} (he : e ∈ l) (he' : e' ∈ l)
    (heq : cmp e.1 e'.1 = .eq) : e = e' := by
  induction l with
  | nil => cases he
  | cons a l ih =>
    obtain ⟨ha,hl⟩ := List.pairwise_cons.mp h
    rcases List.mem_cons.mp he with rfl | hmem
    · rcases List.mem_cons.mp he' with rfl | hmem'
      · rfl
      · exact absurd heq (ha e' hmem')
    · rcases List.mem_cons.mp he' with rfl | hmem'
      · exact absurd (OrientedCmp.eq_symm heq) (ha e hmem)
      · exact ih hl hmem hmem'

theorem lookup_eq_some (h : Distinct cmp l) :
    lookup cmp k l = some v ↔ ∃ k', (k',v) ∈ l ∧ cmp k k' = .eq := by
  constructor
  · intro hl
    obtain ⟨e,he,rfl⟩ := Option.map_eq_some_iff.mp hl
    exact ⟨e.1,find_some he⟩
  · rintro ⟨k',hmem,heq⟩
    cases hfind : l.find? fun e => cmp k e.1 = .eq with
    | none => exact absurd (decide_eq_true heq) (List.find?_eq_none.mp hfind _ hmem)
    | some e =>
      obtain ⟨he,hsame⟩ := find_some hfind
      have heq' : cmp e.1 k' = .eq := TransCmp.eq_trans (OrientedCmp.eq_symm hsame) heq
      obtain rfl := h.eq_of_mem he hmem heq'
      rw [lookup,hfind]
      rfl

theorem Distinct.lookup_perm (h : Distinct cmp l) (hperm : l.Perm l') (k : κ) :
    lookup cmp k l = lookup cmp k l' := by
  ext w
  rw [lookup_eq_some h,lookup_eq_some (h.of_perm hperm)]
  simp only [hperm.mem_iff]

theorem parts_absent (h : Sorted cmp l) (hne : ∀ e ∈ l, cmp k e.1 ≠ .eq) :
    below cmp k l ++ above cmp k l = l := by
  induction l with
  | nil => rfl
  | cons a l ih =>
    obtain ⟨ha,hl⟩ := List.pairwise_cons.mp h
    cases hcmp : cmp k a.1 with
    | eq => exact absurd hcmp (hne a (.head _))
    | lt =>
      have hlt : ∀ e ∈ a :: l, cmp k e.1 = .lt := by
        intro e he
        rcases List.mem_cons.mp he with rfl | he
        · exact hcmp
        · exact TransCmp.lt_trans hcmp (ha e he)
      rw [below_eq_nil_of_lt hlt,above_eq_self hlt,List.nil_append]
    | gt =>
      have hbelow : below cmp k (a :: l) = a :: below cmp k l :=
        List.filter_cons_of_pos (decide_eq_true (OrientedCmp.lt_of_gt hcmp))
      have habove : above cmp k (a :: l) = above cmp k l :=
        List.filter_cons_of_neg (by simp [hcmp])
      rw [hbelow,habove,List.cons_append,ih hl fun e he => hne e (.tail _ he)]

theorem Sorted.split (h : Sorted cmp l) (k : κ) : ∃ same,
    l = Entries.below cmp k l ++ (same ++ Entries.above cmp k l) ∧
      (∀ e ∈ same, cmp e.1 k = .eq) ∧ same.length ≤ 1 := by
  by_cases hsame : ∃ e ∈ l, cmp k e.1 = .eq
  · obtain ⟨e,he,heq⟩ := hsame
    obtain ⟨l₁,l₂,rfl⟩ := List.append_of_mem he
    obtain ⟨-,-,hbelow,habove,-⟩ := sorted_append.mp h
    obtain ⟨hb,ha⟩ := parts_eq (v := e.2) heq (fun a ha =>
      TransCmp.lt_of_lt_of_eq (hbelow a ha) (OrientedCmp.eq_symm heq)) fun a ha =>
      TransCmp.lt_of_eq_of_lt heq (habove a ha)
    refine ⟨[e],by rw [hb,ha]; rfl,fun a ha => ?_,Nat.le_refl _⟩
    rw [List.mem_singleton.mp ha]
    exact OrientedCmp.eq_symm heq
  · exact ⟨[],(parts_absent h fun e he heq => hsame ⟨e,he,heq⟩).symm,by simp,Nat.zero_le _⟩

theorem mem_below_or_above {e : κ × ν} :
    e ∈ below cmp k l ∨ e ∈ above cmp k l ↔ e ∈ l ∧ cmp k e.1 ≠ .eq := by
  simp only [below,above,List.mem_filter,decide_eq_true_eq,← and_or_left,and_congr_right_iff]
  intro _
  cases hc : cmp k e.1 with
  | lt => simp
  | eq => simp [OrientedCmp.eq_symm hc]
  | gt => simp [OrientedCmp.lt_of_gt hc]

theorem mem_put {e : κ × ν} : e ∈ put cmp k k' v l ↔ e = (k',v) ∨ e ∈ l ∧ cmp k e.1 ≠ .eq := by
  rw [← mem_below_or_above,put,List.mem_append,List.mem_cons]
  exact or_left_comm

theorem mem_drop {e : κ × ν} : e ∈ drop cmp k l ↔ e ∈ l ∧ cmp k e.1 ≠ .eq := by
  rw [← mem_below_or_above,drop,List.mem_append]

theorem Sorted.put (h : Sorted cmp l) (heq : cmp k k' = .eq) :
    Sorted cmp (put cmp k k' v l) :=
  sorted_append.mpr ⟨h.below,h.above,fun _ he => TransCmp.lt_of_lt_of_eq (below_lt he) heq,
    fun _ he => TransCmp.lt_of_eq_of_lt (OrientedCmp.eq_symm heq) (above_lt he),
    fun _ he _ he' => TransCmp.lt_trans (below_lt he) (above_lt he')⟩

theorem Sorted.drop (h : Sorted cmp l) : Sorted cmp (drop cmp k l) :=
  List.pairwise_append.mpr ⟨h.below,h.above,
    fun _ he _ he' => TransCmp.lt_trans (below_lt he) (above_lt he')⟩

theorem lookup_congr (h : cmp k k' = .eq) : lookup cmp k l = lookup cmp k' l := by
  simp only [lookup,TransCmp.congr_left h]

theorem lookup_put (h : Sorted cmp l) (heq : cmp k k' = .eq) (k'' : κ) :
    lookup cmp k'' (put cmp k k' v l) = if cmp k'' k = .eq then some v else lookup cmp k'' l := by
  ext w
  rw [lookup_eq_some (h.put heq).distinct]
  simp only [mem_put]
  split
  · rename_i hsame
    constructor
    · rintro ⟨j,hj | ⟨-,hne⟩,hjk⟩
      · rw [(Prod.mk.inj hj).2]
      · exact absurd (TransCmp.eq_trans (OrientedCmp.eq_symm hsame) hjk) hne
    · intro hw
      exact ⟨k',.inl (by rw [Option.some.inj hw]),TransCmp.eq_trans hsame heq⟩
  · rename_i hne
    rw [lookup_eq_some h.distinct]
    constructor
    · rintro ⟨j,hj | ⟨hmem,-⟩,hjk⟩
      · rw [(Prod.mk.inj hj).1] at hjk
        exact absurd (TransCmp.eq_trans hjk (OrientedCmp.eq_symm heq)) hne
      · exact ⟨j,hmem,hjk⟩
    · rintro ⟨j,hmem,hjk⟩
      exact ⟨j,.inr ⟨hmem,fun hkj =>
        hne (TransCmp.eq_trans hjk (OrientedCmp.eq_symm hkj))⟩,hjk⟩

theorem lookup_drop (h : Sorted cmp l) (k'' : κ) :
    lookup cmp k'' (drop cmp k l) = if cmp k'' k = .eq then none else lookup cmp k'' l := by
  ext w
  rw [lookup_eq_some h.drop.distinct]
  simp only [mem_drop]
  split
  · rename_i hsame
    simp only [reduceCtorEq,iff_false]
    rintro ⟨j,⟨-,hne⟩,hjk⟩
    exact hne (TransCmp.eq_trans (OrientedCmp.eq_symm hsame) hjk)
  · rename_i hne
    rw [lookup_eq_some h.distinct]
    constructor
    · rintro ⟨j,⟨hmem,-⟩,hjk⟩
      exact ⟨j,hmem,hjk⟩
    · rintro ⟨j,hmem,hjk⟩
      exact ⟨j,⟨hmem,fun hkj => hne (TransCmp.eq_trans hjk (OrientedCmp.eq_symm hkj))⟩,hjk⟩

theorem keyFor_same (cmp : κ → κ → Ordering) [TransCmp cmp] (k : κ) (l : List (κ × ν)) :
    cmp k (keyFor cmp k l) = .eq := by
  rw [keyFor]
  cases hfind : l.find? fun e => cmp k e.1 = .eq with
  | none => exact ReflCmp.compare_self
  | some e => exact (find_some hfind).2

theorem Alike.below (h : Alike cmp l l') (k : κ) :
    Alike cmp (below cmp k l) (below cmp k l') :=
  List.rel_filter (fun _ _ hab => by
    simp only [decide_eq_true_eq,TransCmp.congr_left hab.1]) h

theorem Alike.above (h : Alike cmp l l') (k : κ) :
    Alike cmp (above cmp k l) (above cmp k l') :=
  List.rel_filter (fun _ _ hab => by
    simp only [decide_eq_true_eq,TransCmp.congr_right hab.1]) h

theorem Alike.put (h : Alike cmp l l') (k : κ) {k₁ k₂ : κ} (hk : cmp k₁ k₂ = .eq) (v : ν) :
    Alike cmp (put cmp k k₁ v l) (put cmp k k₂ v l') :=
  List.rel_append (h.below k) (.cons ⟨hk,rfl⟩ (h.above k))

theorem Alike.drop (h : Alike cmp l l') (k : κ) :
    Alike cmp (drop cmp k l) (drop cmp k l') :=
  List.rel_append (h.below k) (h.above k)

theorem Alike.lookup_eq (h : Alike cmp l l') (k : κ) : lookup cmp k l = lookup cmp k l' := by
  induction h with
  | nil => rfl
  | @cons a b l l' hab h ih =>
    simp only [lookup,List.find?_cons,← TransCmp.congr_right hab.1] at ih ⊢
    split
    · simp [hab.2]
    · exact ih

end Maps

end Entries
