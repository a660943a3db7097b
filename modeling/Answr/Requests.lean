import Mathlib.Data.Rat.Init
import Answr.Loops
set_option autoImplicit false

/-! The values the app passes around: a request, its items and the requests of
one zone, with the equality the reconciliation relies on. -/

namespace Answr

/-- What stops the app: a forced unwrap of nil, an array index or removal out
of range, a failed forced cast, a path that the database refuses, or a loop that
does not end. -/
inductive Fault where
  | nilUnwrap | indexOutOfRange | castFailed | invalidPath | endlessLoop
  deriving DecidableEq, Repr

abbrev Date := Rat

structure RequestItem where
  id : String
  name : String
  icon : String
  qty : Int
  qtyLimit : Option Int := none
  qtyRemaining : Option Int := none
  bgCol : String
  checked : Option Bool := none
  deriving DecidableEq, Repr

/-- `RequestItem.==`. Strings are equal by canonical equivalence, so a string stands for
its canonical composition here and in `Request.equals`. -/
def RequestItem.equals (lhs rhs : RequestItem) : Bool := lhs.id == rhs.id

structure Request where
  id : Option String
  dateCreated : Option Date
  senderID : String
  status : Option String
  delSlotStart : Option Date
  items : List RequestItem
  isNew : Option Bool := none
  elderlyName : Option String := none
  elderlyAddressString : Option String := none
  deriving DecidableEq, Repr

def Request.quantities (req : Request) : List (String × Int) :=
  req.items.map fun item => (item.id,item.qty)

/-- `Request.==`: the loop over the items of the left side stops at the first
one that the right side does not contain. -/
def Request.equals (lhs rhs : Request) : Bool :=
  let idCheck := lhs.id == rhs.id
  let statusCheck := lhs.status == rhs.status
  -- the source reads `status` again where the name says delivery slot
  let delSlotCheck := lhs.status == rhs.status
  let itemsCheck := lhs.items.all fun item => rhs.items.any item.equals
  let nameCheck := lhs.elderlyName == rhs.elderlyName
  let addrCheck := lhs.elderlyAddressString == rhs.elderlyAddressString
  idCheck && statusCheck && delSlotCheck && nameCheck && addrCheck && itemsCheck

theorem Request.equals_iff (lhs rhs : Request) :
    lhs.equals rhs = true ↔ lhs.id = rhs.id ∧ lhs.status = rhs.status ∧
      lhs.elderlyName = rhs.elderlyName ∧
      lhs.elderlyAddressString = rhs.elderlyAddressString ∧
      ∀ item ∈ lhs.items, ∃ other ∈ rhs.items, item.id = other.id := by
  simp only [equals,RequestItem.equals,Bool.and_eq_true,beq_iff_eq,List.all_eq_true,
    List.any_eq_true]
  tauto

structure ZoneRequests where
  zoneid : String
  requests : List Request
  deriving DecidableEq, Repr

section Arrays

variable {α : Type}

def unwrap : Option α → Except Fault α
  | some a => .ok a
  | none => .error .nilUnwrap

/-- `xs.first!` -/
def first (xs : List α) : Except Fault α := unwrap xs.head?

/-- `xs[i]` -/
def element (xs : List α) (i : Nat) : Except Fault α :=
  match xs[i]? with
  | some a => .ok a
  | none => .error .indexOutOfRange

/-- `xs.removeFirst()` -/
def removeFirst : List α → Except Fault (List α)
  | [] => .error .indexOutOfRange
  | _ :: xs => .ok xs

/-- `xs.remove(at: i)` -/
def removeAt (xs : List α) (i : Nat) : Except Fault (List α) :=
  if i < xs.length then .ok (xs.eraseIdx i) else .error .indexOutOfRange

end Arrays

end Answr
