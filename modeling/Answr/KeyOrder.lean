import Answr.DictionaryRuns
set_option autoImplicit false

/-! The order of the children of a node: keys that read as numbers of 32 bits come first, by
their value and then their length, and the others follow by their characters. -/

namespace Answr
open Std Entries

/-- The key of a child: the names before and after all others, else its characters. -/
inductive NodeKey where
  | minName
  | maxName
  | name (chars : List UInt16)
  deriving DecidableEq, Repr

section Parsing

def parseDigits (value : Nat) : List UInt16 → Option Nat
  | [] => some value
  | c :: str => if c < 48 ∨ 57 < c then none else parseDigits (value*10+(c-48).toNat) str

/-- An integer of 32 bits, written with at most 11 characters. -/
def tryParseStringToInt (str : List UInt16) : Option Int :=
  if 11 < str.length ∨ str.length = 0 then none
  else
    let negative := str.head? = some 45
    if negative ∧ str.length = 1 then none
    else
      (parseDigits 0 (if negative then str.tail else str)).bind fun value =>
        let value : Int := if negative then -value else value
        if value < -2147483648 ∨ 2147483647 < value then none else some value

def compareNames (a b : List UInt16) : Ordering :=
  match tryParseStringToInt a,tryParseStringToInt b with
  | some aAsInt,some bAsInt =>
    if aAsInt > bAsInt then .gt
    else if aAsInt < bAsInt then .lt
    else if a.length > b.length then .gt
    else if a.length < b.length then .lt
    else .eq
  | some _,none => .lt
  | none,some _ => .gt
  | none,none => compare a b

def compareKey : NodeKey → NodeKey → Ordering
  | .minName,.minName => .eq
  | .maxName,.maxName => .eq
  | .minName,_ => .lt
  | _,.maxName => .lt
  | _,.minName => .gt
  | .maxName,_ => .gt
  | .name a,.name b => compareNames a b

end Parsing

section Order

theorem compareNames_swap (a b : List UInt16) : compareNames a b = (compareNames b a).swap := by
  rw [compareNames,compareNames]
  cases ha : tryParseStringToInt a with
  | none =>
    cases hb : tryParseStringToInt b with
    | none => exact OrientedCmp.eq_swap
    | some y => rfl
  | some x =>
    cases hb : tryParseStringToInt b with
    | none => rfl
    | some y =>
      simp only
      split_ifs <;> first | rfl | omega

theorem compareNames_isLE {a b : List UInt16} {x y : Int} (ha : tryParseStringToInt a = some x)
    (hb : tryParseStringToInt b = some y) :
    (compareNames a b).isLE = true ↔ x < y ∨ x = y ∧ a.length ≤ b.length := by
  rw [compareNames,ha,hb]
  simp only
  split_ifs <;> simp <;> omega

theorem compareNames_trans {a b c : List UInt16} (hab : (compareNames a b).isLE = true)
    (hbc : (compareNames b c).isLE = true) : (compareNames a c).isLE = true := by
  cases ha : tryParseStringToInt a with
  | none =>
    cases hb : tryParseStringToInt b with
    | some y => simp [compareNames,ha,hb] at hab
    | none =>
      cases hc : tryParseStringToInt c with
      | some z => simp [compareNames,hb,hc] at hbc
      | none =>
        simp only [compareNames,ha,hb,hc] at hab hbc ⊢
        exact TransCmp.isLE_trans hab hbc
  | some x =>
    cases hc : tryParseStringToInt c with
    | none => simp [compareNames,ha,hc]
    | some z =>
      cases hb : tryParseStringToInt b with
      | none => simp [compareNames,hb,hc] at hbc
      | some y =>
        rw [compareNames_isLE ha hb] at hab
        rw [compareNames_isLE hb hc] at hbc
        rw [compareNames_isLE ha hc]
        omega

instance : OrientedCmp compareKey where
  eq_swap {a b} := by
    cases a <;> cases b <;> first | rfl | exact compareNames_swap ..

instance : TransCmp compareKey where
  isLE_trans {a b c} hab hbc := by
    cases a <;> cases b <;> cases c <;>
      first
      | rfl
      | exact compareNames_trans hab hbc
      | exact (Bool.false_ne_true hab).elim
      | exact (Bool.false_ne_true hbc).elim

end Order

section Same

theorem digit_toNat {c : UInt16} (h : ¬ (c < 48 ∨ 57 < c)) :
    48 ≤ c.toNat ∧ c.toNat ≤ 57 ∧ (c-48).toNat = c.toNat-48 := by
  obtain ⟨hlow,hhigh⟩ := not_or.mp h
  have hlow' : (48 : UInt16) ≤ c := UInt16.not_lt.mp hlow
  have hhigh' : c ≤ (57 : UInt16) := UInt16.not_lt.mp hhigh
  exact ⟨UInt16.le_iff_toNat_le.mp hlow',UInt16.le_iff_toNat_le.mp hhigh',
    UInt16.toNat_sub_of_le _ _ hlow'⟩

theorem parseDigits_inj {l l' : List UInt16} {acc acc' value : Nat}
    (hlen : l.length = l'.length) (h : parseDigits acc l = some value)
    (h' : parseDigits acc' l' = some value) : acc = acc' ∧ l = l' := by
  induction l generalizing l' acc acc' with
  | nil =>
    obtain rfl := List.length_eq_zero_iff.mp hlen.symm
    exact ⟨(Option.some.inj h).trans (Option.some.inj h').symm,rfl⟩
  | cons c l ih =>
    match l',hlen with
    | c' :: l',hlen =>
      rw [parseDigits] at h h'
      split at h
      · cases h
      · rename_i hc
        split at h'
        · cases h'
        · rename_i hc'
          obtain ⟨hacc,rfl⟩ := ih (Nat.succ.inj hlen) h h'
          obtain ⟨hlow,hhigh,hsub⟩ := digit_toNat hc
          obtain ⟨hlow',hhigh',hsub'⟩ := digit_toNat hc'
          rw [hsub,hsub'] at hacc
          have hc : c = c' := UInt16.toNat_inj.mp (by omega)
          exact ⟨by omega,by rw [hc]⟩

theorem parseDigits_zeros (n : Nat) : parseDigits 0 (List.replicate n 48) = some 0 := by
  induction n with
  | zero => rfl
  | succ n ih => exact ih

theorem tryParseStringToInt_eq {str : List UInt16} {x : Int}
    (h : tryParseStringToInt str = some x) : 1 ≤ str.length ∧ str.length ≤ 11 ∧
      ((∃ l value, str = 45 :: l ∧ l ≠ [] ∧ parseDigits 0 l = some value ∧ x = -value) ∨
        (∃ value : Nat, str.head? ≠ some 45 ∧ parseDigits 0 str = some value ∧ x = value)) := by
  rw [tryParseStringToInt] at h
  split at h
  · cases h
  · rename_i hlen
    refine ⟨by omega,by omega,?_⟩
    simp only at h
    split at h
    · cases h
    · rename_i hshort
      obtain ⟨value,hvalue,hx⟩ := Option.bind_eq_some_iff.mp h
      by_cases hneg : str.head? = some 45
      · obtain ⟨l,rfl⟩ := List.head?_eq_some_iff.mp hneg
        refine .inl ⟨l,value,rfl,fun hl => hshort ⟨rfl,by rw [hl]; rfl⟩,hvalue,?_⟩
        simp only [List.head?_cons,if_true] at hx
        split at hx
        · cases hx
        · exact (Option.some.inj hx).symm
      · simp only [hneg,if_false] at hvalue hx
        refine .inr ⟨value,hneg,hvalue,?_⟩
        split at hx
        · cases hx
        · exact (Option.some.inj hx).symm

/-- Two zeros of one length, one of them with a minus. -/
def ZeroPair (a b : List UInt16) : Prop :=
  ∃ n, 1 ≤ n ∧ n ≤ 10 ∧ a = 45 :: List.replicate n 48 ∧ b = List.replicate (n+1) 48

theorem zeroPair_of_parse {l b : List UInt16} {value value' : Nat} (hl : l ≠ [])
    (hlen : (45 :: l).length = b.length) (hshort : b.length ≤ 11)
    (h : parseDigits 0 l = some value) (h' : parseDigits 0 b = some value')
    (heq : (-value : Int) = value') : ZeroPair (45 :: l) b := by
  obtain ⟨rfl,rfl⟩ : value = 0 ∧ value' = 0 := by omega
  have hpos : 0 < l.length := List.length_pos_of_ne_nil hl
  rw [List.length_cons] at hlen
  obtain ⟨-,hzeros⟩ := parseDigits_inj (by simp) h (parseDigits_zeros l.length)
  obtain ⟨-,hzeros'⟩ := parseDigits_inj (by simp) h' (parseDigits_zeros b.length)
  exact ⟨l.length,hpos,by omega,by rw [← hzeros],by rw [hlen,← hzeros']⟩

theorem ZeroPair.compare_eq {a b : List UInt16} (h : ZeroPair a b) : compareNames a b = .eq := by
  obtain ⟨n,hpos,hle,rfl,rfl⟩ := h
  have hminus : tryParseStringToInt (45 :: List.replicate n 48) = some 0 := by
    have hlen : ¬ (11 < n+1) := by omega
    have hn : n ≠ 0 := by omega
    simp [tryParseStringToInt,hlen,hn,parseDigits_zeros]
  have hplain : tryParseStringToInt (List.replicate (n+1) 48) = some 0 := by
    have hlen : ¬ (11 < n+1) := by omega
    have hhead : (List.replicate (n+1) (48 : UInt16)).head? ≠ some 45 := by
      simp [List.replicate_succ]
    simp [tryParseStringToInt,hlen,hhead,parseDigits_zeros]
  rw [compareNames,hminus,hplain]
  simp

theorem compareNames_eq {a b : List UInt16} :
    compareNames a b = .eq ↔ a = b ∨ ZeroPair a b ∨ ZeroPair b a := by
  constructor
  · intro h
    rw [compareNames] at h
    cases ha : tryParseStringToInt a with
    | none =>
      cases hb : tryParseStringToInt b with
      | none =>
        simp only [ha,hb] at h
        exact .inl (LawfulEqCmp.eq_of_compare h)
      | some y => simp [ha,hb] at h
    | some x =>
      cases hb : tryParseStringToInt b with
      | none => simp [ha,hb] at h
      | some y =>
        simp only [ha,hb] at h
        have hxy : x = y ∧ a.length = b.length := by
          split_ifs at h
          omega
        obtain ⟨rfl,hlen⟩ := hxy
        obtain ⟨-,hshort,hform⟩ := tryParseStringToInt_eq ha
        obtain ⟨-,hshort',hform'⟩ := tryParseStringToInt_eq hb
        rcases hform with ⟨l,value,rfl,hl,hvalue,hx⟩ | ⟨value,-,hvalue,hx⟩
        · rcases hform' with ⟨l',value',rfl,hl',hvalue',hx'⟩ | ⟨value',-,hvalue',hx'⟩
          · obtain rfl : value = value' := by omega
            obtain ⟨-,rfl⟩ := parseDigits_inj (Nat.succ.inj hlen) hvalue hvalue'
            exact .inl rfl
          · exact .inr (.inl (zeroPair_of_parse hl hlen hshort' hvalue hvalue'
              (hx.symm.trans hx')))
        · rcases hform' with ⟨l',value',rfl,hl',hvalue',hx'⟩ | ⟨value',-,hvalue',hx'⟩
          · exact .inr (.inr (zeroPair_of_parse hl' hlen.symm hshort hvalue' hvalue
              (hx'.symm.trans hx)))
          · obtain rfl : value = value' := by omega
            exact .inl (parseDigits_inj hlen hvalue hvalue').2
  · rintro (rfl | h | h)
    · exact (ReflCmp.compare_self : compareKey (.name a) (.name a) = .eq)
    · exact h.compare_eq
    · rw [compareNames_swap,h.compare_eq]
      rfl

/-- One name for those of the same order: of two such zeros, the one without a minus. -/
def canonicalName (a : List UInt16) : List UInt16 :=
  if a.head? = some 45 ∧ 2 ≤ a.length ∧ a.length ≤ 11 ∧ a.tail.all (· = 48) then 48 :: a.tail
  else a

def NodeKey.canonical : NodeKey → NodeKey
  | .name chars => .name (canonicalName chars)
  | key => key

theorem canonicalName_cases (a : List UInt16) :
    canonicalName a = a ∧ (∀ b, ¬ ZeroPair a b) ∨ ZeroPair a (canonicalName a) := by
  rw [canonicalName]
  split
  · rename_i h
    obtain ⟨hhead,hlow,hhigh,hall⟩ := h
    obtain ⟨l,rfl⟩ := List.head?_eq_some_iff.mp hhead
    have hzeros : l = List.replicate l.length 48 :=
      List.eq_replicate_iff.mpr ⟨rfl,fun b hb => by simpa using List.all_eq_true.mp hall b hb⟩
    simp only [List.length_cons,List.tail_cons] at hlow hhigh ⊢
    exact .inr ⟨l.length,by omega,by omega,by rw [← hzeros],by rw [List.replicate_succ,← hzeros]⟩
  · rename_i h
    refine .inl ⟨rfl,fun b hb => h ?_⟩
    obtain ⟨n,hpos,hle,rfl,-⟩ := hb
    refine ⟨rfl,?_,?_,by simp⟩ <;> simp <;> omega

theorem ZeroPair.right_unique {a b b' : List UInt16} (h : ZeroPair a b) (h' : ZeroPair a b') :
    b = b' := by
  obtain ⟨n,-,-,rfl,rfl⟩ := h
  obtain ⟨n',-,-,heq,rfl⟩ := h'
  have hn : n = n' := by simpa using congrArg List.length heq
  rw [hn]

theorem ZeroPair.left_unique {a a' b : List UInt16} (h : ZeroPair a b) (h' : ZeroPair a' b) :
    a = a' := by
  obtain ⟨n,-,-,rfl,rfl⟩ := h
  obtain ⟨n',-,-,rfl,heq⟩ := h'
  have hn : n = n' := by simpa using congrArg List.length heq
  rw [hn]

theorem ZeroPair.no_chain {a b c : List UInt16} (h : ZeroPair a b) : ¬ ZeroPair b c := by
  obtain ⟨n,-,-,rfl,rfl⟩ := h
  rintro ⟨n',-,-,heq,-⟩
  simp [List.replicate_succ] at heq

theorem compareKey_eq {a b : NodeKey} : compareKey a b = .eq ↔ a.canonical = b.canonical := by
  cases a with
  | minName => cases b <;> simp [compareKey,NodeKey.canonical]
  | maxName => cases b <;> simp [compareKey,NodeKey.canonical]
  | name a =>
    cases b with
    | minName => simp [compareKey,NodeKey.canonical]
    | maxName => simp [compareKey,NodeKey.canonical]
    | name b =>
      show compareNames a b = .eq ↔ _
      rw [compareNames_eq,NodeKey.canonical,NodeKey.canonical,NodeKey.name.injEq]
      rcases canonicalName_cases a with ⟨ha,hna⟩ | ha <;>
        rcases canonicalName_cases b with ⟨hb,hnb⟩ | hb
      · rw [ha,hb]
        exact ⟨fun h => h.resolve_right (not_or.mpr ⟨hna b,hnb a⟩),.inl⟩
      · rw [ha]
        constructor
        · rintro (rfl | h | h)
          · exact absurd hb (hna _)
          · exact absurd h (hna b)
          · exact h.right_unique hb
        · intro h
          rw [← h] at hb
          exact .inr (.inr hb)
      · rw [hb]
        constructor
        · rintro (rfl | h | h)
          · exact absurd ha (hnb _)
          · exact ha.right_unique h
          · exact absurd h (hnb a)
        · intro h
          rw [h] at ha
          exact .inr (.inl ha)
      · constructor
        · rintro (rfl | h | h)
          · rfl
          · exact absurd hb h.no_chain
          · exact absurd ha h.no_chain
        · intro h
          rw [h] at ha
          exact .inl (ha.left_unique hb)

/-- The children of a node can be put in order unless one key is a zero with a minus and
another the zero of the same length without: then the library throws. -/
theorem children_ordered_iff {ν : Type} {children : List (NodeKey × ν)}
    (hkeys : (children.map (·.1)).Nodup) (hsize : children.length+1 < 2^32) :
    (∃ d, SortedDictionary.fromDictionary compareKey children = .ok d) ↔
      ∀ a b, .name a ∈ children.map (·.1) → .name b ∈ children.map (·.1) → ¬ ZeroPair a b := by
  rw [(SortedDictionary.fromDictionary_exact compareKey hsize).1]
  constructor
  · intro hd a b ha hb hpair
    obtain ⟨⟨ka,va⟩,hmema,rfl⟩ := List.mem_map.mp ha
    obtain ⟨⟨kb,vb⟩,hmemb,rfl⟩ := List.mem_map.mp hb
    have hsame := hd.eq_of_mem hmema hmemb hpair.compare_eq
    have hab : a = b := by simpa using congrArg (·.1) hsame
    rw [hab] at hpair
    exact hpair.no_chain hpair
  · intro h
    have hne : children.Pairwise fun a b => a.1 ≠ b.1 := List.pairwise_map.mp hkeys
    refine hne.imp_of_mem fun {a b} ha hb hab heq => ?_
    have hmem : a.1 ∈ children.map (·.1) ∧ b.1 ∈ children.map (·.1) :=
      ⟨List.mem_map_of_mem ha,List.mem_map_of_mem hb⟩
    cases hka : a.1 with
    | minName => cases hkb : b.1 <;> simp_all [compareKey]
    | maxName => cases hkb : b.1 <;> simp_all [compareKey]
    | name x =>
      cases hkb : b.1 with
      | minName => simp_all [compareKey]
      | maxName => simp_all [compareKey]
      | name y =>
        rw [hka,hkb] at hab heq hmem
        have hsame : compareNames x y = .eq := heq
        rcases compareNames_eq.mp hsame with rfl | hpair | hpair
        · exact hab rfl
        · exact h x y hmem.1 hmem.2 hpair
        · exact h y x hmem.2 hmem.1 hpair

theorem children_ordered_iff_zeros : ¬ ∃ d, SortedDictionary.fromDictionary compareKey
    [(.name [45,48],(1 : Nat)),(.name [48,48],2)] = .ok d := by
  rw [children_ordered_iff (by decide) (by decide)]
  intro h
  exact h [45,48] [48,48] (by decide) (by decide) ⟨1,by decide,by decide,rfl,rfl⟩

end Same

end Answr
