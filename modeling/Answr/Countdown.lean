import Mathlib.Data.List.Count
import Mathlib.Data.List.Perm.Subperm
import Mathlib.Algebra.Order.Ring.Int
set_option autoImplicit false

/-! Asynchronous calls that are joined by a countdown. Each sub-call has a completion
handler, which it calls with a result or with nothing; the handler collects the result,
counts down, and at zero calls the handler of the whole. -/

namespace Countdown

section Join

variable {ι ρ α ε : Type}

structure Join (ι ρ : Type) where
  subs : List ι
  counter : Int
  collected : List ρ
  deriving DecidableEq, Repr

def Join.start (subs : List ι) : Join ι ρ := ⟨subs,subs.length,[]⟩

def Join.handle (result : Option ρ) (j : Join ι ρ) : Join ι ρ × Option (List ρ) :=
  let collected := j.collected ++ result.toList
  (⟨j.subs,j.counter-1,collected⟩,if j.counter-1 = 0 then some collected else none)

/-- A message for the sub-call with the given number; an unknown one is ignored. -/
def Join.answer (answer : α → ι → Except ε (ι × Option (Option ρ))) (i : Nat) (a : α)
    (j : Join ι ρ) : Except ε (Join ι ρ × Option (List ρ)) :=
  match j.subs[i]? with
  | none => .ok (j,none)
  | some sub =>
    match answer a sub with
    | .error e => .error e
    | .ok (sub',none) => .ok ({ j with subs := j.subs.set i sub' },none)
    | .ok (sub',some result) => .ok (Join.handle result { j with subs := j.subs.set i sub' })

end Join

section Once

variable {ι ρ α ε σ : Type}

/-- Calls that call their handler once at most, under messages `Msg` and in states `Ok`:
`fired` tells whether they have. -/
structure Once (answer : α → σ → Except ε (σ × Option ρ)) (fired : σ → Bool)
    (Msg : α → Prop) (Ok : σ → Prop) : Prop where
  quiet : ∀ a s s', Msg a → Ok s → answer a s = .ok (s',none) → Ok s' ∧ fired s' = fired s
  calls : ∀ a s s' r, Msg a → Ok s → answer a s = .ok (s',some r) →
    Ok s' ∧ fired s = false ∧ fired s' = true

variable (fired : ι → Bool) (Ok : ι → Prop)

/-- The counter is the number of sub-calls whose handler has not been called. -/
structure Join.Counting (j : Join ι ρ) : Prop where
  subs : ∀ s ∈ j.subs, Ok s
  counter : j.counter = j.subs.countP fun s => !fired s

/-- A join calls once all of its sub-calls have. One without sub-calls never does. -/
def Join.ended (j : Join ι ρ) : Bool := !j.subs.isEmpty && j.subs.all fired

variable {fired Ok} {Msg : α → Prop} {answer : α → ι → Except ε (ι × Option (Option ρ))}
  {j j' : Join ι ρ}
  {i : Nat} {a : α} {called : Option (List ρ)}

theorem Join.counting_start {subs : List ι} (hok : ∀ s ∈ subs, Ok s)
    (hnone : ∀ s ∈ subs, fired s = false) : (Join.start (ρ := ρ) subs).Counting fired Ok where
  subs := hok
  counter := by
    have hall : subs.countP (fun s => !fired s) = subs.length :=
      List.countP_eq_length.mpr fun s hs => by simp [hnone s hs]
    simp [Join.start,hall]

theorem Join.ended_start {subs : List ι} (hnone : ∀ s ∈ subs, fired s = false) :
    (Join.start (ρ := ρ) subs).ended fired = false := by
  cases subs with
  | nil => rfl
  | cons s subs => simp [Join.ended,Join.start,hnone s]

theorem Join.Counting.ended_iff (h : j.Counting fired Ok) :
    j.ended fired = true ↔ j.subs ≠ [] ∧ j.counter = 0 := by
  have hzero : j.counter = 0 ↔ ∀ s ∈ j.subs, fired s = true := by
    rw [h.counter,Int.natCast_eq_zero,List.countP_eq_zero]
    simp
  rw [hzero,Join.ended,Bool.and_eq_true,List.all_eq_true]
  simp

theorem Join.Counting.nonneg (h : j.Counting fired Ok) : 0 ≤ j.counter := by
  rw [h.counter]
  exact Int.natCast_nonneg _

theorem Join.answer_ok (h : j.answer answer i a = .ok (j',called)) :
    (j' = j ∧ called = none) ∨ ∃ s s', j.subs[i]? = some s ∧
      ((answer a s = .ok (s',none) ∧ j' = { j with subs := j.subs.set i s' } ∧ called = none) ∨
      ∃ result, answer a s = .ok (s',some result) ∧
        j' = ⟨j.subs.set i s',j.counter-1,j.collected ++ result.toList⟩ ∧
        called = if j.counter-1 = 0 then some (j.collected ++ result.toList) else none) := by
  rw [Join.answer] at h
  split at h
  · obtain ⟨rfl,rfl⟩ := Prod.mk.inj (Except.ok.inj h)
    exact .inl ⟨rfl,rfl⟩
  · rename_i s hs
    split at h
    · cases h
    · rename_i s' ha
      obtain ⟨rfl,rfl⟩ := Prod.mk.inj (Except.ok.inj h)
      exact .inr ⟨s,s',hs,.inl ⟨ha,rfl,rfl⟩⟩
    · rename_i s' result ha
      obtain ⟨rfl,rfl⟩ := Prod.mk.inj (Except.ok.inj h)
      exact .inr ⟨s,s',hs,.inr ⟨result,ha,rfl,rfl⟩⟩

theorem pending_set {subs : List ι} {s s' : ι} (hs : subs[i]? = some s) :
    (subs.set i s').countP (fun s => !fired s) + (if fired s then 0 else 1) =
      subs.countP (fun s => !fired s) + (if fired s' then 0 else 1) := by
  obtain ⟨hi,rfl⟩ := List.getElem?_eq_some_iff.mp hs
  have hpos : (if fired subs[i] then 0 else 1) ≤ subs.countP fun s => !fired s := by
    split
    · exact Nat.zero_le _
    · rename_i hf
      exact List.countP_pos_iff.mpr ⟨_,List.getElem_mem hi,by simpa using hf⟩
  rw [List.countP_set hi]
  simp only [Bool.not_eq_eq_eq_not,Bool.not_true]
  split at hpos
  · rename_i hf
    cases fired s' <;> simp [hf]
  · rename_i hf
    simp only [hf,if_true,Bool.false_eq_true,if_false]
    cases fired s' <;> simp <;> omega

theorem mem_set_of_ok {subs : List ι} {s' : ι} (h : ∀ s ∈ subs, Ok s) (h' : Ok s') :
    ∀ s ∈ subs.set i s', Ok s := by
  intro s hs
  rcases List.mem_or_eq_of_mem_set hs with hs | rfl
  · exact h s hs
  · exact h'

theorem Join.Counting.quiet (h : j.Counting fired Ok) {s s' : ι} (hs : j.subs[i]? = some s)
    (hok : Ok s') (hf : fired s' = fired s) :
    Join.Counting fired Ok { j with subs := j.subs.set i s' } where
  subs := mem_set_of_ok h.subs hok
  counter := by
    have hcount := @pending_set ι fired i j.subs s s' hs
    rw [hf] at hcount
    rw [h.counter]
    exact congrArg _ (Nat.add_right_cancel hcount).symm

theorem Join.Counting.handle (h : j.Counting fired Ok) {s s' : ι} (hs : j.subs[i]? = some s)
    (hok : Ok s') (hf : fired s = false) (hf' : fired s' = true) (result : Option ρ) :
    Join.Counting fired Ok ⟨j.subs.set i s',j.counter-1,j.collected ++ result.toList⟩ where
  subs := mem_set_of_ok h.subs hok
  counter := by
    have hcount := @pending_set ι fired i j.subs s s' hs
    simp only [hf,hf',Bool.false_eq_true,if_false,if_true] at hcount
    have hcounter := h.counter
    change j.counter-1 = ((j.subs.set i s').countP fun s => !fired s : Nat)
    omega

theorem Join.Counting.ended_quiet (h : j.Counting fired Ok) {s s' : ι}
    (hs : j.subs[i]? = some s) (hf : fired s' = fired s) :
    Join.ended fired { j with subs := j.subs.set i s' } = j.ended fired := by
  have hj : j.Counting fired fun _ => True := ⟨fun _ _ => trivial,h.counter⟩
  have hj' := hj.quiet hs trivial hf
  rw [Bool.eq_iff_iff,hj'.ended_iff,hj.ended_iff]
  simp

theorem Join.Counting.ended_handle (h : j.Counting fired Ok) {s s' : ι}
    (hs : j.subs[i]? = some s) (hf : fired s = false) (hf' : fired s' = true)
    {result : Option ρ} {results : List ρ}
    (hnone : none = if j.counter-1 = 0 then some results else none) :
    Join.ended fired ⟨j.subs.set i s',j.counter-1,j.collected ++ result.toList⟩ =
      j.ended fired := by
  have hj : j.Counting fired fun _ => True := ⟨fun _ _ => trivial,h.counter⟩
  have hj' := hj.handle hs trivial hf hf' result
  have hpos : j.counter-1 ≠ 0 := by
    intro hz
    rw [if_pos hz] at hnone
    cases hnone
  have hleft := hj'.nonneg
  rw [Bool.eq_iff_iff,hj'.ended_iff,hj.ended_iff]
  simp only at hleft ⊢
  constructor
  · exact fun hend => absurd hend.2 hpos
  · intro hend
    omega

theorem Join.Counting.ended_calls (h : j.Counting fired Ok) {s s' : ι}
    (hs : j.subs[i]? = some s) (hf : fired s = false) (hf' : fired s' = true)
    {result : Option ρ} {results results' : List ρ}
    (hsome : some results' = if j.counter-1 = 0 then some results else none) :
    j.ended fired = false ∧
      Join.ended fired ⟨j.subs.set i s',j.counter-1,j.collected ++ result.toList⟩ = true := by
  have hj : j.Counting fired fun _ => True := ⟨fun _ _ => trivial,h.counter⟩
  have hj' := hj.handle hs trivial hf hf' result
  have hzero : j.counter-1 = 0 := by
    by_contra hne
    rw [if_neg hne] at hsome
    cases hsome
  have hset : s' ∈ j.subs.set i s' :=
    List.mem_of_getElem? (List.getElem?_set_self (List.getElem?_eq_some_iff.mp hs).1)
  refine ⟨?_,hj'.ended_iff.mpr ⟨List.ne_nil_of_mem hset,hzero⟩⟩
  cases hended : j.ended fired with
  | false => rfl
  | true =>
    have := (hj.ended_iff.mp hended).2
    omega

/-- A join of sub-calls that call once calls once. -/
theorem once_join (h : Once answer fired Msg Ok) :
    Once (fun (m : Nat × α) (j : Join ι ρ) => j.answer answer m.1 m.2) (Join.ended fired)
      (fun m => Msg m.2) (Join.Counting fired Ok) where
  quiet m j j' hm hj hrun := by
    rcases Join.answer_ok hrun with ⟨rfl,-⟩ | ⟨s,s',hs,⟨ha,rfl,-⟩ | ⟨result,ha,rfl,hnone⟩⟩
    · exact ⟨hj,rfl⟩
    · obtain ⟨hok,hf⟩ := h.quiet _ _ _ hm (hj.subs s (List.mem_of_getElem? hs)) ha
      exact ⟨hj.quiet hs hok hf,hj.ended_quiet hs hf⟩
    · obtain ⟨hok,hf,hf'⟩ := h.calls _ _ _ _ hm (hj.subs s (List.mem_of_getElem? hs)) ha
      exact ⟨hj.handle hs hok hf hf' result,hj.ended_handle hs hf hf' hnone⟩
  calls m j j' r hm hj hrun := by
    rcases Join.answer_ok hrun with ⟨-,hnone⟩ | ⟨s,s',hs,⟨-,-,hnone⟩ | ⟨result,ha,rfl,hsome⟩⟩
    · cases hnone
    · cases hnone
    · obtain ⟨hok,hf,hf'⟩ := h.calls _ _ _ _ hm (hj.subs s (List.mem_of_getElem? hs)) ha
      exact ⟨hj.handle hs hok hf hf' result,hj.ended_calls hs hf hf' hsome⟩

end Once

section Collect

variable {ι ρ α ε τ : Type} (fired : ι → Bool) (tag : ι → τ) (tagOf : ρ → τ) (Good : ρ → Prop)

/-- What a join has collected comes from sub-calls that have called, one result each. -/
structure Join.Collecting (j : Join ι ρ) : Prop where
  tags : (j.collected.map tagOf).Subperm ((j.subs.filter fired).map tag)
  good : ∀ r ∈ j.collected, Good r

/-- Messages keep the tag of a sub-call, and its result has that tag and is good. -/
structure Tagged (answer : α → ι → Except ε (ι × Option (Option ρ))) (Ok : ι → Prop) (a : α) :
    Prop where
  keeps : ∀ s s' called, Ok s → answer a s = .ok (s',called) → tag s' = tag s
  gives : ∀ s s' r, Ok s → answer a s = .ok (s',some (some r)) → tagOf r = tag s ∧ Good r

variable {fired tag tagOf Good} {Ok : ι → Prop}
  {answer : α → ι → Except ε (ι × Option (Option ρ))} {j j' : Join ι ρ} {i : Nat} {a : α}
  {called : Option (List ρ)}

theorem Join.collecting_start (subs : List ι) :
    (Join.start (ρ := ρ) subs).Collecting fired tag tagOf Good :=
  ⟨List.nil_subperm,by simp [Join.start]⟩

theorem filter_set_perm {subs : List ι} {s s' : ι} (hs : subs[i]? = some s)
    (hf : fired s = false) (hf' : fired s' = true) :
    ((subs.set i s').filter fired).Perm (s' :: subs.filter fired) := by
  induction subs generalizing i with
  | nil => simp at hs
  | cons x subs ih =>
    cases i with
    | zero =>
      obtain rfl : x = s := by simpa using hs
      simp [List.set_cons_zero,hf,hf']
    | succ i =>
      have hrest := ih (i := i) (by simpa using hs)
      rw [List.set_cons_succ,List.filter_cons,List.filter_cons]
      split
      · exact (hrest.cons x).trans (List.Perm.swap s' x _)
      · exact hrest

theorem filter_set_tags {subs : List ι} {s s' : ι} (hs : subs[i]? = some s)
    (hf : fired s' = fired s) (ht : tag s' = tag s) :
    ((subs.set i s').filter fired).map tag = (subs.filter fired).map tag := by
  induction subs generalizing i with
  | nil => simp at hs
  | cons x subs ih =>
    cases i with
    | zero =>
      obtain rfl : x = s := by simpa using hs
      simp only [List.set_cons_zero,List.filter_cons,hf]
      split
      · simp [ht]
      · rfl
    | succ i =>
      have hrest := ih (i := i) (by simpa using hs)
      rw [List.set_cons_succ,List.filter_cons,List.filter_cons]
      split
      · simp [hrest]
      · exact hrest

theorem Join.answer_tags
    (h : ∀ s s' called, Ok s → answer a s = .ok (s',called) → tag s' = tag s)
    (hok : ∀ s ∈ j.subs, Ok s) (hrun : j.answer answer i a = .ok (j',called)) :
    j'.subs.map tag = j.subs.map tag := by
  have hset : ∀ {s s' : ι} {c : Option (Option ρ)}, j.subs[i]? = some s →
      answer a s = .ok (s',c) → (j.subs.set i s').map tag = j.subs.map tag := by
    intro s s' c hs ha
    have hkeeps := h s s' c (hok s (List.mem_of_getElem? hs)) ha
    have hall := @filter_set_tags ι τ (fun _ => true) tag i j.subs s s' hs rfl hkeeps
    simpa using hall
  rcases Join.answer_ok hrun with ⟨rfl,-⟩ | ⟨s,s',hs,⟨ha,rfl,-⟩ | ⟨result,ha,rfl,-⟩⟩
  · rfl
  · exact hset hs ha
  · exact hset hs ha

theorem Join.Collecting.next (h : j.Collecting fired tag tagOf Good)
    {Msg : α → Prop} (honce : Once answer fired Msg Ok) (hm : Msg a)
    (htag : Tagged tag tagOf Good answer Ok a)
    (hok : ∀ s ∈ j.subs, Ok s) (hrun : j.answer answer i a = .ok (j',called)) :
    j'.Collecting fired tag tagOf Good := by
  rcases Join.answer_ok hrun with ⟨rfl,-⟩ | ⟨s,s',hs,⟨ha,rfl,-⟩ | ⟨result,ha,rfl,-⟩⟩
  · exact h
  · have hs' := hok s (List.mem_of_getElem? hs)
    refine ⟨?_,h.good⟩
    rw [filter_set_tags hs (honce.quiet _ _ _ hm hs' ha).2 (htag.keeps _ _ _ hs' ha)]
    exact h.tags
  · have hs' := hok s (List.mem_of_getElem? hs)
    obtain ⟨-,hf,hf'⟩ := honce.calls _ _ _ _ hm hs' ha
    have hperm := ((filter_set_perm hs hf hf').map tag).symm
    rw [List.map_cons,htag.keeps _ _ _ hs' ha] at hperm
    cases result with
    | none =>
      refine ⟨?_,by simpa using h.good⟩
      simp only [Option.toList_none,List.append_nil]
      exact (h.tags.trans (List.sublist_cons_self _ _).subperm).trans hperm.subperm
    | some r =>
      obtain ⟨htagOf,hgood⟩ := htag.gives _ _ _ hs' ha
      refine ⟨?_,?_⟩
      · simp only [Option.toList_some,List.map_append,List.map_cons,List.map_nil,htagOf]
        refine List.Subperm.trans ?_ hperm.subperm
        exact (List.perm_append_singleton _ _).subperm.trans ((List.subperm_cons _).mpr h.tags)
      · intro r' hr'
        rcases List.mem_append.mp hr' with hr' | hr'
        · exact h.good r' hr'
        · obtain rfl : r' = r := by simpa using hr'
          exact hgood

theorem nodup_of_subperm {l l' : List τ} (h : l.Subperm l') (hn : l'.Nodup) : l.Nodup := by
  obtain ⟨k,hperm,hsub⟩ := h
  exact hperm.nodup_iff.mp (hn.sublist hsub)

theorem Join.called_eq {results : List ρ} (hrun : j.answer answer i a = .ok (j',some results)) :
    j'.collected = results := by
  rcases Join.answer_ok hrun with ⟨-,hnone⟩ | ⟨s,s',-,⟨-,-,hnone⟩ | ⟨result,-,rfl,hsome⟩⟩
  · cases hnone
  · cases hnone
  · split at hsome
    · exact (Option.some.inj hsome).symm
    · cases hsome

end Collect

end Countdown
