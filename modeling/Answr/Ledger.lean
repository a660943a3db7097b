import Answr.Confirmations
set_option autoImplicit false

/-! The counters and the index as a ledger of the outstanding requests. A counter in a
run of completions is the demand of the requests that remain and what the pending
transactions will still take off. -/

namespace Answr
open LeafTree Pool

section Records

/-- An outstanding request as the database holds it. -/
structure Record where
  zoneID : String
  id : String
  senderID : String
  content : List (String × Int)
  deriving DecidableEq, Repr

def Record.quantity (r : Record) (itemID : String) : Int :=
  (r.content.map fun p => if p.1 = itemID then p.2 else 0).sum

def demand (out : List Record) (itemID : String) : Int :=
  (out.map fun r => r.quantity itemID).sum

def zoneDemand (out : List Record) (zoneID itemID : String) : Int :=
  (out.map fun r => if r.zoneID = zoneID then r.quantity itemID else 0).sum

/-- How an amount is stored: zero as an absent node. -/
def amount (n : Int) : Option Leaf := if n = 0 then none else some (.number n)

theorem intOrZero_amount (n : Int) : intOrZero (amount n) = n := by
  unfold amount
  split
  · rename_i h
    rw [h]
    rfl
  · rfl

theorem lowered_amount {qty rest : Int} (h : 0 ≤ rest) :
    lowered qty (amount (qty + rest)) = amount rest := by
  have hsub : qty + rest - qty = rest := by omega
  simp only [lowered,intOrZero_amount,hsub]
  by_cases hz : rest = 0
  · simp [amount,hz]
  · have hpos : ¬ rest ≤ 0 := by omega
    simp [amount,hz,hpos]

structure Outstanding (out : List Record) : Prop where
  zoneKeys : ∀ r ∈ out, IsKey r.zoneID
  idKeys : ∀ r ∈ out, IsKey r.id
  senderKeys : ∀ r ∈ out, IsKey r.senderID
  itemKeys : ∀ r ∈ out, ∀ p ∈ r.content, IsKey p.1
  nonneg : ∀ r ∈ out, ∀ p ∈ r.content, 0 ≤ p.2
  once : (out.map fun r => (r.zoneID,r.id)).Nodup

/-- The database holds these requests and no others, with the counters and the index
that belong to them. -/
structure Ledger (db : Database) (out : List Record) : Prop where
  sender : ∀ r ∈ out,
    get (requestRef r.zoneID r.id ++ ["senderID"]) db = some (.string r.senderID)
  content : ∀ r ∈ out, ∀ itemID value,
    get (requestRef r.zoneID r.id ++ ["content",itemID]) db = some value ↔
      ∃ qty : Int, value = .number qty ∧ (itemID,qty) ∈ r.content
  noOther : ∀ zoneID id, IsKey zoneID → IsKey id → ∀ p value, requestRef zoneID id <+: p →
    get p db = some value → ∃ r ∈ out, r.zoneID = zoneID ∧ r.id = id
  requestCounters : ∀ zoneID itemID, IsKey zoneID → IsKey itemID →
    get (requestCounterRef zoneID itemID) db = amount (zoneDemand out zoneID itemID)
  requested : ∀ itemID, IsKey itemID → get (requestedRef itemID) db = amount (demand out itemID)
  entryOnce : ∀ r ∈ out, ∃ key,
    get (userRequestsRef r.senderID r.zoneID ++ [key]) db = some (.string r.id) ∧
    ∀ other, get (userRequestsRef r.senderID r.zoneID ++ [other]) db = some (.string r.id) →
      other = key
  entries : ∀ senderID zoneID, IsKey senderID → IsKey zoneID → ∀ p value,
    userRequestsRef senderID zoneID <+: p → get p db = some value →
    ∃ r ∈ out, r.senderID = senderID ∧ r.zoneID = zoneID ∧ value = .string r.id ∧
      ∃ key, p = userRequestsRef senderID zoneID ++ [key]

end Records

section Counters

def Op.takes (ref : Path) : Op → Int
  | .lower ref' qty => if ref' = ref then qty else 0
  | _ => 0

def pendingOff (ref : Path) (pending : Multiset Op) : Int := (pending.map (Op.takes ref)).sum

@[simp] theorem pendingOff_zero (ref : Path) : pendingOff ref 0 = 0 := rfl

theorem pendingOff_nonneg {ref : Path} {pending : Multiset Op}
    (h : ∀ op ∈ pending, 0 ≤ op.takes ref) : 0 ≤ pendingOff ref pending := by
  apply Multiset.sum_nonneg
  intro n hn
  obtain ⟨op,hop,rfl⟩ := Multiset.mem_map.mp hn
  exact h op hop

theorem pendingOff_more {op : Op} {s s' : Server} {more : List Op}
    (h : perform always op s = .ok (s',more)) (ref : Path) :
    pendingOff ref (more : Multiset Op) = 0 := by
  apply Multiset.sum_eq_zero
  intro n hn
  obtain ⟨o,ho,rfl⟩ := Multiset.mem_map.mp hn
  obtain ⟨_,_,_,-,rfl⟩ := perform_more h (Multiset.mem_coe.mp ho)
  rfl

theorem pendingOff_cons (ref : Path) (op : Op) (rest : Multiset Op) :
    pendingOff ref (op ::ₘ rest) = op.takes ref + pendingOff ref rest := by
  simp [pendingOff]

theorem pendingOff_next {op : Op} {s s' : Server} {more : List Op} {rest : Multiset Op}
    {ref : Path} (h : perform always op s = .ok (s',more)) :
    pendingOff ref (more + rest) = pendingOff ref rest := by
  have hmore := pendingOff_more h ref
  simp only [pendingOff,Multiset.map_add,Multiset.sum_add] at hmore ⊢
  rw [hmore,zero_add]

/-- The operation lowers the counter at the path by no negative amount, or spares it. -/
def Op.CountsAt (ref : Path) (op : Op) : Prop :=
  (∃ qty, 0 ≤ qty ∧ op = .lower ref qty) ∨ op.takes ref = 0 ∧ op.Spares ref

theorem Op.CountsAt.takes_nonneg {ref : Path} {op : Op} (h : op.CountsAt ref) :
    0 ≤ op.takes ref := by
  rcases h with ⟨qty,hq,rfl⟩ | ⟨hz,-⟩
  · simpa [takes] using hq
  · exact hz.ge

variable {Issued : Op → Prop} {ref : Path} {kept : Int}

/-- The run lemma for a counter: what is kept and what is still to be taken off. -/
theorem counter_runs (hkept : 0 ≤ kept)
    (hcounts : ∀ op : Op, op.Arises Issued → op.CountsAt ref) {c c' : Config Server Op}
    (hr : Runs (perform always) c c') (hstart : ∀ op ∈ c.pending, op.Arises Issued)
    (h : get ref c.state.db = amount (pendingOff ref c.pending + kept)) :
    get ref c'.state.db = amount (pendingOff ref c'.pending + kept) := by
  induction hr with
  | refl => exact h
  | @step s s' op rest more c hrun _ ih =>
    have hop := hstart op (Multiset.mem_cons_self op rest)
    have hrest : ∀ o ∈ rest, o.Arises Issued :=
      fun o ho => hstart o (Multiset.mem_cons_of_mem ho)
    refine ih (arises_step hop hrun hrest) ?_
    have hleft : 0 ≤ pendingOff ref rest + kept := by
      have := pendingOff_nonneg fun o ho => (hcounts o (hrest o ho)).takes_nonneg
      omega
    rw [pendingOff_cons] at h
    rw [pendingOff_next hrun]
    rcases hcounts op hop with ⟨qty,-,rfl⟩ | ⟨hz,hspare⟩
    · have htakes : (Op.lower ref qty).takes ref = qty := by simp [Op.takes]
      rw [(perform_get hrun).1 rfl,h,htakes,add_assoc]
      exact lowered_amount hleft
    · rw [(perform_get hrun).2 fun _ => hspare,h,hz,zero_add]

theorem pendingOff_runs (hcounts : ∀ op : Op, op.Arises Issued → op.CountsAt ref)
    {c c' : Config Server Op} (hr : Runs (perform always) c c')
    (hstart : ∀ op ∈ c.pending, op.Arises Issued) :
    pendingOff ref c'.pending ≤ pendingOff ref c.pending := by
  induction hr with
  | refl => exact le_refl _
  | @step s s' op rest more c hrun _ ih =>
    have hop := hstart op (Multiset.mem_cons_self op rest)
    have hle := ih (arises_step hop hrun fun o ho => hstart o (Multiset.mem_cons_of_mem ho))
    have htakes := (hcounts op hop).takes_nonneg
    rw [pendingOff_next hrun] at hle
    rw [pendingOff_cons]
    omega

end Counters

end Answr
