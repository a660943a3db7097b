import Mathlib.Data.List.Infix
import Mathlib.Data.List.Dedup
set_option autoImplicit false

/-! A database of leaves, each under its path. A node exists as long as a leaf lies at
or below it. -/

namespace LeafTree

section Paths

variable {κ : Type}

/-- Neither path leads through the other. -/
def Apart (p q : List κ) : Prop := ¬ p <+: q ∧ ¬ q <+: p

instance [DecidableEq κ] (p q : List κ) : Decidable (Apart p q) :=
  inferInstanceAs (Decidable (_ ∧ _))

theorem Apart.symm {p q : List κ} (h : Apart p q) : Apart q p := ⟨h.2,h.1⟩

theorem apart_cons {a b : κ} {p q : List κ} : Apart (a :: p) (b :: q) ↔ a = b → Apart p q := by
  simp only [Apart,List.cons_prefix_cons,not_and]
  constructor
  · rintro ⟨h₁,h₂⟩ rfl
    exact ⟨h₁ rfl,h₂ rfl⟩
  · intro h
    exact ⟨fun hab => (h hab).1,fun hba => (h hba.symm).2⟩

theorem apart_append {r p q : List κ} : Apart (r ++ p) (r ++ q) ↔ Apart p q := by
  simp [Apart,List.prefix_append_right_inj]

theorem apart_of_length {p q : List κ} (hl : p.length = q.length) (h : p ≠ q) : Apart p q :=
  ⟨fun hp => h (hp.eq_of_length hl),fun hq => h (hq.eq_of_length hl.symm).symm⟩

theorem Apart.below {p q r : List κ} (h : Apart p q) (hr : q <+: r) : Apart p r := by
  refine ⟨fun hp => ?_,fun hp => h.2 (hr.trans hp)⟩
  rcases List.prefix_or_prefix_of_prefix hp hr with hpq | hqp
  · exact h.1 hpq
  · exact h.2 hqp

end Paths

variable {κ ν : Type} [DecidableEq κ]

abbrev Leaves (κ ν : Type) := List (List κ × ν)

def get (p : List κ) (db : Leaves κ ν) : Option ν :=
  (db.find? fun e => decide (e.1 = p)).map (·.2)

def below (p : List κ) (db : Leaves κ ν) : Leaves κ ν :=
  db.filter fun e => decide (p <+: e.1)

/-- The keys of the children of a node. -/
def keys (p : List κ) (db : Leaves κ ν) : List κ :=
  ((below p db).filterMap fun e => (e.1.drop p.length).head?).dedup

def remove (p : List κ) (db : Leaves κ ν) : Leaves κ ν :=
  db.filter fun e => !decide (p <+: e.1)

/-- A leaf takes the place of what is below its path, and of a leaf above it. -/
def put (p : List κ) (v : ν) (db : Leaves κ ν) : Leaves κ ν :=
  db.filter (fun e => decide (Apart p e.1)) ++ [(p,v)]

/-- Writing nothing removes. -/
def write (p : List κ) : Option ν → Leaves κ ν → Leaves κ ν
  | some v => put p v
  | none => remove p

section Get

variable (p q : List κ) (db : Leaves κ ν)

theorem get_filter {g : List κ → Bool} (h : g q = true) :
    get q (db.filter fun e => g e.1) = get q db := by
  induction db with
  | nil => rfl
  | cons e db ih =>
    simp only [get] at ih ⊢
    by_cases hq : e.1 = q
    · simp [hq,h]
    · cases hk : g e.1 with
      | true => simpa [hk,hq] using ih
      | false => simpa [hk,hq] using ih

theorem get_filter_none {g : List κ → Bool} (h : g q = false) :
    get q (db.filter fun e => g e.1) = none := by
  simp only [get,Option.map_eq_none_iff,List.find?_eq_none,List.mem_filter]
  rintro e ⟨-,hk⟩ heq
  rw [of_decide_eq_true heq,h] at hk
  cases hk

theorem get_remove : get q (remove p db) = if p <+: q then none else get q db := by
  by_cases h : p <+: q
  · rw [if_pos h]
    exact get_filter_none q db (g := fun r => !decide (p <+: r)) (by simp [h])
  · rw [if_neg h]
    exact get_filter q db (g := fun r => !decide (p <+: r)) (by simp [h])

theorem get_put_self (v : ν) : get p (put p v db) = some v := by
  have hnone : get p (db.filter fun e => decide (Apart p e.1)) = none :=
    get_filter_none p db (g := fun r => decide (Apart p r)) (by simp [Apart])
  simp only [get,Option.map_eq_none_iff] at hnone
  simp [get,put,List.find?_append,hnone]

theorem get_put (v : ν) (hne : p ≠ q) :
    get q (put p v db) = if Apart p q then get q db else none := by
  have hlast : get q (put p v db) = get q (db.filter fun e => decide (Apart p e.1)) := by
    simp [get,put,List.find?_append,hne]
  rw [hlast]
  by_cases h : Apart p q
  · rw [if_pos h]
    exact get_filter q db (g := fun r => decide (Apart p r)) (by simp [h])
  · rw [if_neg h]
    exact get_filter_none q db (g := fun r => decide (Apart p r)) (by simp [h])

@[simp] theorem get_write_self (o : Option ν) : get p (write p o db) = o := by
  cases o with
  | none => simp [write,get_remove]
  | some v => exact get_put_self p db v

theorem get_write_apart (o : Option ν) (h : Apart p q) : get q (write p o db) = get q db := by
  cases o with
  | none => simp [write,get_remove,h.1]
  | some v =>
    have hne : p ≠ q := fun heq => h.1 (heq ▸ List.prefix_refl p)
    simp [write,get_put p q db v hne,h]

end Get

section Below

variable (p q : List κ) (db : Leaves κ ν)

theorem get_below (h : p <+: q) : get q (below p db) = get q db :=
  get_filter q db (g := fun r => decide (p <+: r)) (by simp [h])

theorem below_remove : below p (remove q db) = remove q (below p db) := by
  simp only [below,remove,List.filter_filter]
  congr 1
  funext e
  exact Bool.and_comm _ _

theorem below_write_apart (o : Option ν) (h : Apart p q) :
    below p (write q o db) = below p db := by
  have hkeep : ∀ keep : List κ → Bool, (∀ r, p <+: r → keep r = true) →
      below p (db.filter fun e => keep e.1) = below p db := by
    intro keep hk
    simp only [below,List.filter_filter]
    apply List.filter_congr
    intro e _
    by_cases hp : p <+: e.1
    · simp [hp,hk e.1 hp]
    · simp [hp]
  cases o with
  | none =>
    refine hkeep (fun r => !decide (q <+: r)) fun r hr => ?_
    simp [(h.symm.below hr).1]
  | some v =>
    have hput : below p (write q (some v) db) =
        below p (db.filter fun e => decide (Apart q e.1)) := by
      simp [write,put,below,h.1]
    rw [hput]
    refine hkeep (fun r => decide (Apart q r)) fun r hr => ?_
    simp [h.symm.below hr]

theorem mem_keys {k : κ} : k ∈ keys p db ↔ ∃ q v, (p ++ k :: q,v) ∈ db := by
  simp only [keys,below,List.mem_dedup,List.mem_filterMap,List.mem_filter,decide_eq_true_iff]
  constructor
  · rintro ⟨⟨r,v⟩,⟨hmem,q,rfl⟩,hk⟩
    simp only [List.drop_left] at hk
    obtain ⟨q',rfl⟩ : ∃ q', q = k :: q' := by
      cases q with
      | nil => simp at hk
      | cons a q' => exact ⟨q',by simpa using hk⟩
    exact ⟨q',v,hmem⟩
  · rintro ⟨q,v,hmem⟩
    exact ⟨(p ++ k :: q,v),⟨hmem,List.prefix_append _ _⟩,by simp⟩

theorem keys_nodup : (keys p db).Nodup := List.nodup_dedup _

theorem get_of_mem {v : ν} (h : (p,v) ∈ db) : ∃ w, get p db = some w := by
  cases hf : get p db with
  | some w => exact ⟨w,rfl⟩
  | none =>
    simp only [get,Option.map_eq_none_iff,List.find?_eq_none] at hf
    exact absurd (decide_eq_true rfl) (hf (p,v) h)

theorem mem_of_get {v : ν} (h : get p db = some v) : (p,v) ∈ db := by
  simp only [get,Option.map_eq_some_iff] at h
  obtain ⟨e,he,rfl⟩ := h
  have hp : e.1 = p := by simpa using List.find?_some he
  exact hp ▸ List.mem_of_find?_eq_some he

theorem get_iff_mem {v : ν} (h : (db.map (·.1)).Nodup) : get p db = some v ↔ (p,v) ∈ db := by
  refine ⟨mem_of_get p db,fun hmem => ?_⟩
  obtain ⟨w,hw⟩ := get_of_mem p db hmem
  have heq := List.inj_on_of_nodup_map h (mem_of_get p db hw) hmem rfl
  rw [hw,(Prod.mk.inj heq).2]

theorem keys_of_get {k : κ} {v : ν} (h : get (p ++ [k]) db = some v) : k ∈ keys p db :=
  (mem_keys p db).mpr ⟨[],v,mem_of_get _ db h⟩

end Below

section RemoveAll

def removeAll (ps : List (List κ)) (db : Leaves κ ν) : Leaves κ ν :=
  db.filter fun e => !ps.any fun p => decide (p <+: e.1)

variable (ps : List (List κ)) (p q : List κ) (db : Leaves κ ν)

@[simp] theorem removeAll_nil : removeAll [] db = db := by simp [removeAll]

theorem remove_removeAll : remove p (removeAll ps db) = removeAll (p :: ps) db := by
  simp only [remove,removeAll,List.filter_filter,List.any_cons,Bool.not_or]

theorem get_removeAll : get q (removeAll ps db) =
    if ps.any fun p => decide (p <+: q) then none else get q db := by
  split
  · rename_i h
    exact get_filter_none q db (g := fun r => !ps.any fun p => decide (p <+: r)) (by simp [h])
  · rename_i h
    exact get_filter q db (g := fun r => !ps.any fun p => decide (p <+: r)) (by simp [h])

theorem keys_removeAll {k : κ} (h : k ∈ keys p (removeAll ps db)) :
    k ∈ keys p db ∧ p ++ [k] ∉ ps := by
  obtain ⟨q,v,hmem⟩ := (mem_keys p _).mp h
  obtain ⟨hmem,hkeep⟩ := List.mem_filter.mp hmem
  refine ⟨(mem_keys p db).mpr ⟨q,v,hmem⟩,fun hp => ?_⟩
  simp only [Bool.not_eq_true',List.any_eq_false,decide_eq_true_iff] at hkeep
  exact hkeep _ hp ⟨q,by simp⟩

theorem keys_congr {db db' : Leaves κ ν} (h : below p db = below p db') :
    keys p db = keys p db' := by
  rw [keys,h,keys]

theorem get_congr {db db' : Leaves κ ν} (h : below p db = below p db') (hq : p <+: q) :
    get q db = get q db' := by
  rw [← get_below p q db hq,h,get_below p q db' hq]

end RemoveAll

end LeafTree
