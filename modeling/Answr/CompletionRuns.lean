import Answr.Completion
set_option autoImplicit false

/-! What a run of completions leaves behind, whatever the order in which the server
carries their operations out: the writes path by path, then the index entries, which
are found by a scan and dropped later. -/

namespace Answr
open LeafTree Pool

section Writes

/-- An operation that a run of the issued ones can come to. -/
def Op.Arises (Issued : Op → Prop) (op : Op) : Prop :=
  Issued op ∨ ∃ ref id key, Issued (.findEntry ref id) ∧ op = .dropEntry (ref ++ [key])

variable {Issued : Op → Prop} {succeeds : Op → Bool} {op o : Op} {p : Path} {s s' : Server}
  {more : List Op} {rest start : Multiset Op}

theorem arises_step (hop : op.Arises Issued) (h : perform succeeds op s = .ok (s',more))
    (hrest : ∀ o ∈ rest, o.Arises Issued) : ∀ o ∈ (more : Multiset Op) + rest,
      o.Arises Issued := by
  intro o ho
  rcases Multiset.mem_add.mp ho with ho | ho
  · obtain ⟨ref,id,key,rfl,rfl⟩ := perform_more h (Multiset.mem_coe.mp ho)
    rcases hop with hissued | ⟨_,_,_,_,hop⟩
    · exact .inr ⟨ref,id,key,hissued,rfl⟩
    · cases hop
  · exact hrest o ho

theorem arises_runs {c c' : Config Server Op} (hr : Runs (perform succeeds) c c')
    (hc : ∀ op ∈ c.pending, op.Arises Issued) : ∀ op ∈ c'.pending, op.Arises Issued := by
  induction hr with
  | refl => exact hc
  | @step s s' op rest more c hrun _ ih =>
    exact ih (arises_step (hc op (Multiset.mem_cons_self op rest)) hrun
      fun o ho => hc o (Multiset.mem_cons_of_mem ho))

/-- What the pending copies of one write will still do to a path that it covers and all
others spare is never lost. -/
theorem due_runs {c c' : Config Server Op} (hr : Runs (perform succeeds) c c')
    (hall : ∀ op ∈ c.pending, op.Arises Issued) (hc : o.Covers p)
    (hentry : ∀ ref, o ≠ .dropEntry ref)
    (hspare : ∀ op, op.Arises Issued → op ≠ o → op.Spares p) :
    due o (applied succeeds o) c'.pending (get p c'.state.db) =
      due o (applied succeeds o) c.pending (get p c.state.db) := by
  induction hr with
  | refl => rfl
  | @step s s' op rest more c hrun _ ih =>
    have hop := hall op (Multiset.mem_cons_self op rest)
    rw [ih (arises_step hop hrun fun o ho => hall o (Multiset.mem_cons_of_mem ho))]
    exact due_perform hrun hc hentry (hspare op hop)

theorem get_of_covers (hr : Runs (perform succeeds) ⟨s,start⟩ ⟨s',0⟩)
    (hstart : ∀ op ∈ start, Issued op) (hc : o.Covers p) (hentry : ∀ ref, o ≠ .dropEntry ref)
    (hspare : ∀ op, op.Arises Issued → op ≠ o → op.Spares p) :
    get p s'.db = (applied succeeds o)^[start.count o] (get p s.db) :=
  due_runs hr (fun op hop => .inl (hstart op hop)) hc hentry hspare

theorem get_of_spares {c c' : Config Server Op} (hr : Runs (perform succeeds) c c')
    (hspare : ∀ d, Runs (perform succeeds) c d → ∀ op ∈ d.pending, succeeds op = true →
      op.Spares p) : get p c'.state.db = get p c.state.db := by
  induction hr with
  | refl => rfl
  | @step s s' op rest more c hrun _ ih =>
    rw [ih fun d hd => hspare d (.step hrun hd)]
    exact (perform_get hrun).2 (hspare _ (.refl _) op (Multiset.mem_cons_self op rest))

theorem get_of_apart {c c' : Config Server Op} (hr : Runs (perform succeeds) c c')
    (hc : ∀ op ∈ c.pending, Issued op) (hp : ∀ op, Issued op → Apart op.ref p) :
    get p c'.state.db = get p c.state.db := by
  refine get_of_spares hr fun d hd op hop _ => ?_
  rcases arises_runs hd (fun op hop => .inl (hc op hop)) op hop with
    hissued | ⟨ref,rid,key,hissued,rfl⟩
  · exact Op.spares_of_apart (hp op hissued)
  · -- the entry lies below the node of the read
    exact Op.spares_of_apart (((hp _ hissued).symm.below (List.prefix_append _ _)).symm)

end Writes

section Scan

variable {id : Option String} {ref : Path} {db db' : Database}

theorem entryOf_congr (h : below ref db = below ref db') :
    entryOf id ref db = entryOf id ref db' := by
  have hscan : ∀ ks, scanEntries id ref db ks = scanEntries id ref db' ks := by
    intro ks
    induction ks with
    | nil => rfl
    | cons k ks ih =>
      rw [scanEntries,scanEntries,get_congr ref (ref ++ [k]) h (List.prefix_append _ _),ih]
  rw [entryOf,entryOf,keys_congr ref h,hscan]

def StringEntries (ref : Path) (db : Database) : Prop :=
  ∀ key ∈ keys ref db, ∃ value, get (ref ++ [key]) db = some (.string value)

theorem entryOf_ok (id : Option String) (h : StringEntries ref db) :
    (∃ key value, entryOf id ref db = .ok (some key) ∧ key ∈ keys ref db ∧
      get (ref ++ [key]) db = some (.string value) ∧ some value = id) ∨
    entryOf id ref db = .ok none ∧
      ∀ key value, get (ref ++ [key]) db = some (.string value) → some value ≠ id := by
  have hscan : ∀ ks, (∀ key ∈ ks, key ∈ keys ref db) →
      (∃ key value, scanEntries id ref db ks = .ok (some key) ∧ key ∈ ks ∧
        get (ref ++ [key]) db = some (.string value) ∧ some value = id) ∨
      scanEntries id ref db ks = .ok none ∧
        ∀ key ∈ ks, ∀ value, get (ref ++ [key]) db = some (.string value) →
          some value ≠ id := by
    intro ks hks
    induction ks with
    | nil => exact .inr ⟨rfl,by simp⟩
    | cons k ks ih =>
      obtain ⟨value,hvalue⟩ := h k (hks k (by simp))
      by_cases heq : some value = id
      · exact .inl ⟨k,value,by simp [scanEntries,hvalue,heq],by simp,hvalue,heq⟩
      · have hnext : scanEntries id ref db (k :: ks) = scanEntries id ref db ks := by
          simp [scanEntries,hvalue,heq]
        rw [hnext]
        rcases ih fun key hkey => hks key (by simp [hkey]) with
          ⟨key,v,hok,hmem,hget,hid⟩ | ⟨hok,hnone⟩
        · exact .inl ⟨key,v,hok,by simp [hmem],hget,hid⟩
        · refine .inr ⟨hok,?_⟩
          intro key hkey v hv
          rcases List.mem_cons.mp hkey with rfl | hkey
          · rw [hvalue] at hv
            cases hv
            exact heq
          · exact hnone key hkey v hv
  rcases hscan (keys ref db) fun _ h => h with hfound | ⟨hok,hnone⟩
  · exact .inl hfound
  · exact .inr ⟨hok,fun key value hget => hnone key (keys_of_get ref db hget) value hget⟩

end Scan

section Index

/-- What the removal of index entries is proved for: one index node for each sender
and zone, which only removals of its entries write to, all its entries strings and
only one of them the id that is looked up. -/
structure IndexInput (Issued : Op → Prop) (db : Database) : Prop where
  noDrop : ∀ ref, ¬ Issued (.dropEntry ref)
  apart : ∀ op ref id, Issued op → Issued (.findEntry ref id) →
    (∃ id', op = .findEntry ref id') ∨ Apart op.ref ref
  strings : ∀ ref id, Issued (.findEntry ref id) → StringEntries ref db
  once : ∀ ref id, Issued (.findEntry ref (some id)) → ∀ key key',
    get (ref ++ [key]) db = some (.string id) → get (ref ++ [key']) db = some (.string id) →
      key = key'

def EntryFor (Issued : Op → Prop) (db : Database) (ref : Path) (id key : String) : Prop :=
  Issued (.findEntry ref (some id)) ∧ get (ref ++ [key]) db = some (.string id)

/-- The index nodes are the original ones without the entries `dropped`; every entry
that is looked up is among these or will be found, or dropped. -/
structure IndexInv (Issued : Op → Prop) (db : Database) (c : Config Server Op) : Prop where
  pending : ∀ op ∈ c.pending, Issued op ∨
    ∃ ref id key, EntryFor Issued db ref id key ∧ op = .dropEntry (ref ++ [key])
  nodes : ∃ dropped : List Path,
    (∀ e ∈ dropped, ∃ ref id key, EntryFor Issued db ref id key ∧ e = ref ++ [key]) ∧
    (∀ ref id, Issued (.findEntry ref id) →
      below ref c.state.db = below ref (removeAll dropped db)) ∧
    ∀ ref id key, EntryFor Issued db ref id key → ref ++ [key] ∈ dropped ∨
      .findEntry ref (some id) ∈ c.pending ∨ .dropEntry (ref ++ [key]) ∈ c.pending

def Op.cost : Op → Nat
  | .findEntry _ _ => 2
  | _ => 1

theorem Op.cost_pos (op : Op) : 0 < op.cost := by
  cases op with
  | findEntry ref id => exact Nat.zero_lt_two
  | lower ref qty => exact Nat.zero_lt_one
  | dropEntry ref => exact Nat.zero_lt_one
  | raise ref => exact Nat.zero_lt_one
  | dropRequest ref => exact Nat.zero_lt_one

def always : Op → Bool := fun _ => true

variable {Issued : Op → Prop} {db : Database}

theorem StringEntries.removeAll {ref : Path} (h : StringEntries ref db) (dropped : List Path)
    (hd : ∀ e ∈ dropped, ∀ key, e <+: ref ++ [key] → e = ref ++ [key]) :
    StringEntries ref (removeAll dropped db) := by
  intro key hkey
  obtain ⟨hkey,hnot⟩ := keys_removeAll dropped ref db hkey
  obtain ⟨value,hvalue⟩ := h key hkey
  refine ⟨value,?_⟩
  rw [get_removeAll,if_neg ?_,hvalue]
  simp only [List.any_eq_true,decide_eq_true_iff,not_exists,not_and]
  exact fun e he hp => hnot (hd e he key hp ▸ he)

theorem IndexInput.entry_eq (hin : IndexInput Issued db) {ref ref' : Path} {id id' : Option String}
    (h : Issued (.findEntry ref id)) (h' : Issued (.findEntry ref' id')) {key key' : String}
    (hp : ref' ++ [key'] <+: ref ++ [key]) : ref' ++ [key'] = ref ++ [key] := by
  rcases hin.apart _ _ _ h' h with ⟨_,heq⟩ | hapart
  · simp only [Op.findEntry.injEq] at heq
    rw [heq.1] at hp ⊢
    exact hp.eq_of_length (by simp)
  · exact absurd ((List.prefix_append _ _).trans hp) (hapart.below (List.prefix_append _ _)).1

theorem below_commit_issued (hin : IndexInput Issued db) {op : Op} {ref : Path}
    {id : Option String} (hop : Issued op) (href : Issued (.findEntry ref id))
    (hne : ∀ ref id, op ≠ .findEntry ref id) (db' : Database) :
    below ref (commit always op db') = below ref db' := by
  rcases hin.apart op ref id hop href with ⟨id',heq⟩ | hapart
  · exact absurd heq (hne ref id')
  · exact below_commit_apart hapart.symm db'

theorem index_findEntry (hin : IndexInput Issued db) {s : Server} {ref : Path}
    {id : Option String} {rest : Multiset Op} (hissued : Issued (.findEntry ref id))
    (h : IndexInv Issued db ⟨s,.findEntry ref id ::ₘ rest⟩) :
    ∃ s' more, perform always (.findEntry ref id) s = .ok (s',more) ∧
      (more.map Op.cost).sum < (Op.findEntry ref id).cost ∧
      IndexInv Issued db ⟨s',more + rest⟩ := by
  obtain ⟨hpending,dropped,hdropped,hnodes,hleft⟩ := h
  have hrest : ∀ o ∈ rest, Issued o ∨
      ∃ ref id key, EntryFor Issued db ref id key ∧ o = .dropEntry (ref ++ [key]) :=
    fun o ho => hpending o (Multiset.mem_cons_of_mem ho)
  have hstrings : StringEntries ref (removeAll dropped db) := by
    refine (hin.strings ref id hissued).removeAll dropped fun e he key hp => ?_
    obtain ⟨ref',id',key',hentry,rfl⟩ := hdropped e he
    exact hin.entry_eq hissued hentry.1 hp
  have hscan : entryOf id ref s.db = entryOf id ref (removeAll dropped db) :=
    entryOf_congr (hnodes ref id hissued)
  rcases entryOf_ok id hstrings with ⟨key,value,hok,hkey,hvalue,rfl⟩ | ⟨hok,hnone⟩
  · have hnot := (keys_removeAll dropped ref db hkey).2
    have hentry : EntryFor Issued db ref value key := by
      refine ⟨hissued,?_⟩
      rw [get_removeAll] at hvalue
      split at hvalue
      · cases hvalue
      · exact hvalue
    refine ⟨s,_,perform_findEntry (hscan.trans hok),by simp [Op.cost],?_,dropped,hdropped,
      hnodes,?_⟩
    · intro o ho
      rcases Multiset.mem_add.mp ho with ho | ho
      · simp only [Option.toList_some,List.map_cons,List.map_nil,Multiset.coe_singleton,
          Multiset.mem_singleton] at ho
        exact .inr ⟨ref,value,key,hentry,ho⟩
      · exact hrest o ho
    · intro ref' id' key' hentry'
      rcases hleft ref' id' key' hentry' with h | h | h
      · exact .inl h
      · rcases Multiset.mem_cons.mp h with heq | h
        · -- the read that was just answered: its entry is the one found
          simp only [Op.findEntry.injEq,Option.some.injEq] at heq
          obtain ⟨rfl,rfl⟩ := heq
          rw [hin.once _ _ hentry'.1 key' key hentry'.2 hentry.2]
          exact .inr (.inr (Multiset.mem_add.mpr (.inl (by simp))))
        · exact .inr (.inl (Multiset.mem_add.mpr (.inr h)))
      · rcases Multiset.mem_cons.mp h with heq | h
        · cases heq
        · exact .inr (.inr (Multiset.mem_add.mpr (.inr h)))
  · refine ⟨s,_,perform_findEntry (hscan.trans hok),by simp [Op.cost],?_,dropped,hdropped,
      hnodes,?_⟩
    · simpa using hrest
    · intro ref' id' key' hentry'
      rcases hleft ref' id' key' hentry' with h | h | h
      · exact .inl h
      · rcases Multiset.mem_cons.mp h with heq | h
        · -- nothing was found, so the entry has been dropped already
          simp only [Op.findEntry.injEq] at heq
          obtain ⟨rfl,rfl⟩ := heq
          by_contra hcon
          simp only [not_or] at hcon
          refine hnone key' id' ?_ rfl
          rw [get_removeAll,if_neg ?_,hentry'.2]
          simp only [List.any_eq_true,decide_eq_true_iff,not_exists,not_and]
          intro e he hp
          obtain ⟨ref₁,id₁,key₁,hentry₁,rfl⟩ := hdropped e he
          rw [hin.entry_eq hentry'.1 hentry₁.1 hp] at he
          exact hcon.1 he
        · exact .inr (.inl (by simpa using h))
      · rcases Multiset.mem_cons.mp h with heq | h
        · cases heq
        · exact .inr (.inr (by simpa using h))

theorem index_write (hin : IndexInput Issued db) {s : Server} {op : Op} {rest : Multiset Op}
    (hissued : Issued op) (hne : ∀ ref id, op ≠ .findEntry ref id)
    (h : IndexInv Issued db ⟨s,op ::ₘ rest⟩) :
    ∃ s' more, perform always op s = .ok (s',more) ∧ (more.map Op.cost).sum < op.cost ∧
      IndexInv Issued db ⟨s',more + rest⟩ := by
  obtain ⟨hpending,dropped,hdropped,hnodes,hleft⟩ := h
  have hrest : ∀ o ∈ rest, Issued o ∨
      ∃ ref id key, EntryFor Issued db ref id key ∧ o = .dropEntry (ref ++ [key]) :=
    fun o ho => hpending o (Multiset.mem_cons_of_mem ho)
  obtain ⟨s',hrun,hdb⟩ := perform_write always s hne
  refine ⟨s',[],hrun,op.cost_pos,by simpa using hrest,dropped,hdropped,?_,?_⟩
  · intro ref id href
    simp only [hdb,below_commit_issued hin hissued href hne]
    exact hnodes ref id href
  · intro ref id key hentry
    rcases hleft ref id key hentry with h | h | h
    · exact .inl h
    · rcases Multiset.mem_cons.mp h with heq | h
      · exact absurd heq.symm (hne _ _)
      · exact .inr (.inl (by simpa using h))
    · rcases Multiset.mem_cons.mp h with heq | h
      · exact absurd (heq ▸ hissued) (hin.noDrop _)
      · exact .inr (.inr (by simpa using h))

theorem index_dropEntry {s : Server} {ref : Path} {id key : String} {rest : Multiset Op}
    (hentry : EntryFor Issued db ref id key)
    (h : IndexInv Issued db ⟨s,.dropEntry (ref ++ [key]) ::ₘ rest⟩) :
    ∃ s' more, perform always (.dropEntry (ref ++ [key])) s = .ok (s',more) ∧
      (more.map Op.cost).sum < (Op.dropEntry (ref ++ [key])).cost ∧
      IndexInv Issued db ⟨s',more + rest⟩ := by
  obtain ⟨hpending,dropped,hdropped,hnodes,hleft⟩ := h
  have hrest : ∀ o ∈ rest, Issued o ∨
      ∃ ref id key, EntryFor Issued db ref id key ∧ o = .dropEntry (ref ++ [key]) :=
    fun o ho => hpending o (Multiset.mem_cons_of_mem ho)
  refine ⟨_,[],rfl,by simp [Op.cost],by simpa using hrest,(ref ++ [key]) :: dropped,?_,?_,?_⟩
  · intro e he
    rcases List.mem_cons.mp he with rfl | he
    · exact ⟨ref,id,key,hentry,rfl⟩
    · exact hdropped e he
  · intro ref' id' href
    change below ref' (remove (ref ++ [key]) s.db) = _
    rw [below_remove,hnodes ref' id' href,← below_remove,remove_removeAll]
  · intro ref' id' key' hentry'
    rcases hleft ref' id' key' hentry' with h | h | h
    · exact .inl (by simp [h])
    · rcases Multiset.mem_cons.mp h with heq | h
      · cases heq
      · exact .inr (.inl (by simpa using h))
    · rcases Multiset.mem_cons.mp h with heq | h
      · exact .inl (by simp only [Op.dropEntry.injEq] at heq; simp [heq])
      · exact .inr (.inr (by simpa using h))

/-- The step lemma. -/
theorem index_steady (hin : IndexInput Issued db) :
    Steady (perform always) Op.cost (IndexInv Issued db) := by
  intro s op rest h
  rcases h.pending op (Multiset.mem_cons_self op rest) with hissued | ⟨ref,id,key,hentry,rfl⟩
  · by_cases hop : ∃ ref id, op = .findEntry ref id
    · obtain ⟨ref,id,rfl⟩ := hop
      exact index_findEntry hin hissued h
    · exact index_write hin hissued (fun ref id heq => hop ⟨ref,id,heq⟩) h
  · exact index_dropEntry hentry h

/-- The index once everything is done: the entries that were looked up are gone, all
else is as it was. -/
def IndexCleared (Issued : Op → Prop) (db db' : Database) : Prop :=
  ∀ ref id, Issued (.findEntry ref id) → ∀ p, ref <+: p →
    ((∃ id key, EntryFor Issued db ref id key ∧ ref ++ [key] <+: p) → get p db' = none) ∧
    ((¬ ∃ id key, EntryFor Issued db ref id key ∧ ref ++ [key] <+: p) →
      get p db' = get p db)

theorem IndexInv.cleared (hin : IndexInput Issued db) {s : Server}
    (h : IndexInv Issued db ⟨s,0⟩) : IndexCleared Issued db s.db := by
  obtain ⟨-,dropped,hdropped,hnodes,hleft⟩ := h
  intro ref id href p hp
  have hget : get p s.db = get p (removeAll dropped db) :=
    get_congr ref p (hnodes ref id href) hp
  rw [hget,get_removeAll]
  constructor
  · rintro ⟨id',key,hentry,hkp⟩
    rw [if_pos]
    simp only [List.any_eq_true,decide_eq_true_iff]
    refine ⟨ref ++ [key],?_,hkp⟩
    rcases hleft ref id' key hentry with h | h | h
    · exact h
    · simp at h
    · simp at h
  · intro hnone
    rw [if_neg]
    simp only [List.any_eq_true,decide_eq_true_iff,not_exists,not_and]
    intro e he hep
    obtain ⟨ref',id',key',hentry,rfl⟩ := hdropped e he
    rcases hin.apart _ _ _ hentry.1 href with ⟨_,heq⟩ | hapart
    · simp only [Op.findEntry.injEq] at heq
      rw [heq.1] at hentry hep
      exact hnone ⟨id',key',hentry,hep⟩
    · exact (hapart.below hp).1 ((List.prefix_append _ _).trans hep)

theorem index_start {start : Multiset Op} {n : Nat} (hstart : ∀ op, op ∈ start ↔ Issued op) :
    IndexInv Issued db ⟨⟨db,n⟩,start⟩ := by
  refine ⟨fun op hop => .inl ((hstart op).mp hop),[],by simp,by simp,?_⟩
  exact fun ref id key hentry => .inr (.inl ((hstart _).mpr hentry.1))

theorem index_ends (hin : IndexInput Issued db) {start : Multiset Op} {n : Nat}
    (hstart : ∀ op, op ∈ start ↔ Issued op) :
    Ends (perform always) ⟨⟨db,n⟩,start⟩ fun s => IndexCleared Issued db s.db :=
  ends_of_steady (index_steady hin) (index_start hstart) fun _ h => h.cleared hin

end Index

end Answr
