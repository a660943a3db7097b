import Mathlib.Algebra.BigOperators.Group.Finset.Piecewise
import Mathlib.Algebra.Order.BigOperators.Group.Finset
import Answr.ExchangeRuns
import Answr.Ledger
set_option autoImplicit false

/-! The counters of the app as the clients' transactions change them. A transaction of a
counter does to its value what the operation of the completion does, so that a quiet run
amounts to the operations performed one at a time. -/

namespace Answr
open Steps Pool LeafTree

def Op.transaction (op : Op) (value : Option Leaf) : Option (Option Leaf) := some (op.act value)

variable {ι H : Type} {dataHash : Option Leaf → H}
  {op : ι → Nat → Op} {ref : Path} {s s' start : Exchange ι (Option Leaf) H}

section Counters

structure Exchange.Performed (op : ι → Nat → Op) (s : Exchange ι (Option Leaf) H) : Prop where
  started : ∀ i k update, (s.clients i).started[k]? = some update → update = (op i k).transaction
  changes : ∀ change ∈ s.log, ∃ i t, change = .transaction i t

@[simp] theorem Client.tell_started {V : Type} (value : V)
    (c : Client V H) :
    (c.tell value).started = c.started := by
  unfold tell
  split <;> rfl

theorem Exchange.Performed.modify [DecidableEq ι] (h : s.Performed op) {i : ι}
    {c : Client (Option Leaf) H}
    (hc : c.started = (s.clients i).started) : (s.modify i c).Performed op := by
  refine ⟨fun j k update hu => h.started j k update ?_,h.changes⟩
  simp only [Exchange.modify] at hu
  by_cases hj : j = i
  · subst hj
    rw [Function.update_self,hc] at hu
    exact hu
  · rw [Function.update_of_ne hj] at hu
    exact hu

variable [DecidableEq H]

theorem Exchange.Performed.accept (h : s.Performed op) {i : ι} {p : Put (Option Leaf) H}
    {announce : Bool} (hs : s.accept dataHash i p announce = some s') : s'.Performed op := by
  obtain ⟨-,-,hlog,hclients⟩ := Exchange.accept_some hs
  refine ⟨fun j k update hu => h.started j k update ?_,fun change hmem => ?_⟩
  · rw [hclients] at hu
    split at hu
    · rwa [Client.tell_started] at hu
    · exact hu
  · rw [hlog,List.mem_append] at hmem
    rcases hmem with hmem | hmem
    · exact h.changes change hmem
    · obtain ⟨t,-,rfl⟩ := List.mem_map.mp hmem
      exact ⟨i,t,rfl⟩

variable [DecidableEq ι]

end Counters

section Serial

variable [DecidableEq ι] [DecidableEq H]

variable {value : Option Leaf}

end Serial

section Totals

variable {qty : ι → Nat → Int} {value : Option Leaf} {kept : Int}

def Change.takes (qty : ι → Nat → Int) : Change ι (Option Leaf) → Int
  | .transaction i t => qty i t.order
  | .other _ => 0

variable [DecidableEq ι] [Fintype ι]

variable [DecidableEq H]

end Totals

end Answr
