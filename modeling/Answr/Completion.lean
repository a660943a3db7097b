import Mathlib.Algebra.Order.Ring.Rat
import Answr.Tree
import Answr.Pool
import Answr.Requests
set_option autoImplicit false

/-! `markRequestAsComplete` and the database it writes to. The call only issues
operations; the server carries each of them out later, in any order. Arithmetic on
counters is exact. -/

namespace Answr
open LeafTree

section Database

/-- What is stored at a leaf. -/
inductive Leaf where
  | bool (b : Bool)
  | number (q : Rat)
  | string (s : String)
  deriving DecidableEq, Repr

abbrev Path := List String
abbrev Database := Leaves String Leaf

def Leaf.integer : Leaf → Option Int
  | .number q => if q.den = 1 then some q.num else none
  | .bool b => some (if b then 1 else 0)
  | .string _ => none

/-- `value as? Int` -/
def Leaf.asInt (value : Leaf) : Option Int :=
  value.integer.filter fun n => -2^63 ≤ n ∧ n < 2^63

/-- `value as? Int ?? 0` for a counter. A node with children is not a number. -/
def intOrZero (value : Option Leaf) : Int := (value.bind Leaf.integer).getD 0

@[simp] theorem intOrZero_none : intOrZero none = 0 := rfl

@[simp] theorem intOrZero_number (n : Int) : intOrZero (some (.number n)) = n := rfl

/-- The pieces of a path between its slashes, empty ones left out. -/
def segments (path : String) : Path :=
  ((path.toList.splitOn '/').filter fun piece => !piece.isEmpty).map String.ofList

/-- A string that names one child of a node. -/
def IsKey (key : String) : Prop := segments key = [key]

instance (key : String) : Decidable (IsKey key) := inferInstanceAs (Decidable (_ = _))

def childFromString (parts : List String) : Path := parts.flatMap segments

/-- `kInvalidPathCharacters` -/
def invalidPathCharacters : List Char := ['[',']','.','#','$']

/-- A part of a path without refused characters. -/
def ValidPart (part : String) : Prop := ∀ c ∈ part.toList, c ∉ invalidPathCharacters

instance (part : String) : Decidable (ValidPart part) :=
  List.decidableBAll (· ∉ invalidPathCharacters) part.toList

/-- `isValidPathString("a/b/c")` for the parts `a`, `b` and `c`: the string is not empty and
has no refused character. -/
def isValidPathString (parts : List String) : Bool :=
  ['/'].intercalate (parts.map String.toList) ≠ [] ∧ ∀ part ∈ parts, ValidPart part

/-- `child("a/b/c")` for the parts `a`, `b` and `c`. -/
def child (parts : List String) : Except Fault Path :=
  if isValidPathString parts then .ok (childFromString parts) else .error .invalidPath

def requestCounterRef (zoneid itemID : String) : Path :=
  childFromString ["requestCounter",zoneid,itemID]

def requestedRef (itemID : String) : Path := childFromString ["items",itemID,"requested"]

def userRequestsRef (senderID zoneID : String) : Path :=
  childFromString ["userRequests",senderID,zoneID]

def completedRequestsRef (uid : String) : Path :=
  childFromString ["volunteer",uid,"CompletedRequests"]

def requestRef (zoneID id : String) : Path := childFromString ["requests",zoneID,id]

theorem child_ok_iff {name : String} (hname : ValidPart name) (hne : name.toList ≠ [])
    {parts : List String} {path : Path} : child (name :: parts) = .ok path ↔
      (∀ part ∈ parts, ValidPart part) ∧ childFromString (name :: parts) = path := by
  have hstring : ['/'].intercalate ((name :: parts).map String.toList) ≠ [] := by
    cases parts with
    | nil => simpa using hne
    | cons part parts =>
      rw [List.map_cons,List.map_cons,List.intercalate_cons_cons]
      simp [hne]
  have hvalid : isValidPathString (name :: parts) = true ↔ ∀ part ∈ parts, ValidPart part := by
    rw [isValidPathString,decide_eq_true_iff,List.forall_mem_cons]
    exact ⟨fun h => h.2.2,fun h => ⟨hstring,hname,h⟩⟩
  rw [child]
  split
  · rename_i h
    rw [Except.ok.injEq]
    exact ⟨fun hpath => ⟨hvalid.mp h,hpath⟩,fun hpath => hpath.2⟩
  · rename_i h
    exact ⟨fun herr => (nomatch herr),fun hpath => absurd (hvalid.mpr hpath.1) h⟩

theorem child_requestCounter (zoneid itemID : String) : requestCounterRef zoneid itemID =
    "requestCounter" :: (segments zoneid ++ segments itemID) := by
  have h : segments "requestCounter" = ["requestCounter"] := rfl
  simp [requestCounterRef,childFromString,h]

theorem child_requested (itemID : String) :
    requestedRef itemID = "items" :: (segments itemID ++ ["requested"]) := by
  have h : segments "items" = ["items"] := rfl
  have h' : segments "requested" = ["requested"] := rfl
  simp [requestedRef,childFromString,h,h']

theorem child_userRequests (senderID zoneID : String) : userRequestsRef senderID zoneID =
    "userRequests" :: (segments senderID ++ segments zoneID) := by
  have h : segments "userRequests" = ["userRequests"] := rfl
  simp [userRequestsRef,childFromString,h]

theorem child_completedRequests (uid : String) : completedRequestsRef uid =
    "volunteer" :: (segments uid ++ ["CompletedRequests"]) := by
  have h : segments "volunteer" = ["volunteer"] := rfl
  have h' : segments "CompletedRequests" = ["CompletedRequests"] := rfl
  simp [completedRequestsRef,childFromString,h,h']

theorem child_requests (zoneID id : String) :
    requestRef zoneID id = "requests" :: (segments zoneID ++ segments id) := by
  have h : segments "requests" = ["requests"] := rfl
  simp [requestRef,childFromString,h]

end Database

section Operations

/-- What a completion asks of the server. -/
inductive Op where
  /-- the counter transactions of `updateCounters` -/
  | lower (ref : Path) (qty : Int)
  /-- the read of the index, whose answer is scanned for the request -/
  | findEntry (ref : Path) (id : Option String)
  | dropEntry (ref : Path)
  /-- the transaction on `CompletedRequests` -/
  | raise (ref : Path)
  | dropRequest (ref : Path)
  deriving DecidableEq, Repr

/-- The value a counter transaction leaves: nothing at zero or below. -/
def lowered (qty : Int) (value : Option Leaf) : Option Leaf :=
  let itemCounter := intOrZero value - qty
  if itemCounter ≤ 0 then none else some (.number itemCounter)

def raised (value : Option Leaf) : Option Leaf := some (.number (intOrZero value + 1 : Int))

def Op.ref : Op → Path
  | .lower ref _ | .findEntry ref _ | .dropEntry ref | .raise ref | .dropRequest ref => ref

def Op.act : Op → Option Leaf → Option Leaf
  | .lower _ qty => lowered qty
  | .raise _ => raised
  | .dropEntry _ | .dropRequest _ => fun _ => none
  | .findEntry _ _ => id

/-- The database, and how often the completion callback was called. -/
structure Server where
  db : Database
  onComplete : Nat
  deriving DecidableEq, Repr

def commit (succeeds : Op → Bool) (op : Op) (db : Database) : Database :=
  if succeeds op then write op.ref (op.act (get op.ref db)) db else db

/-- The loop over the entries of the index, which stops at the first one that holds
the id. -/
def scanEntries (id : Option String) (ref : Path) (db : Database) :
    List String → Except Fault (Option String)
  | [] => .ok none
  | key :: keys =>
    match get (ref ++ [key]) db with
    | some (.string value) =>
      if some value = id then .ok (some key) else scanEntries id ref db keys
    | _ => .error .castFailed

def entryOf (id : Option String) (ref : Path) (db : Database) : Except Fault (Option String) :=
  scanEntries id ref db (keys ref db)

/-- One operation is carried out. The callback of the removal is called whether it
succeeded or not. -/
def perform (succeeds : Op → Bool) (op : Op) (s : Server) : Except Fault (Server × List Op) :=
  match op with
  | .findEntry ref id => do
    let entry ← entryOf id ref s.db
    pure (s,entry.toList.map fun key => .dropEntry (ref ++ [key]))
  | .dropRequest _ => .ok (⟨commit succeeds op s.db,s.onComplete+1⟩,[])
  | _ => .ok (⟨commit succeeds op s.db,s.onComplete⟩,[])

def updateCounters (items : List RequestItem) (zoneid : String) : List Op :=
  items.flatMap fun item => [.lower (requestCounterRef zoneid item.id) item.qty,
    .lower (requestedRef item.id) item.qty]

/-- The operations a completion by the signed-in user issues. `child` accepts the paths, which
are those of a fetched request (`Delivered.paths`). -/
def markRequestAsComplete (currentUser : Option String) (request : Request) (zoneID : String) :
    Except Fault (List Op) := do
  let uid ← unwrap currentUser
  let counters := updateCounters request.items zoneID
  let id ← unwrap request.id
  pure (counters ++ [.findEntry (userRequestsRef request.senderID zoneID) request.id,
    .raise (completedRequestsRef uid),.dropRequest (requestRef zoneID id)])

end Operations

section Effects

/-- The paths whose value the operation changes. -/
def Op.Covers : Op → Path → Prop
  | .dropEntry ref, p | .dropRequest ref, p => ref <+: p
  | .lower ref _, p | .raise ref, p => p = ref
  | .findEntry _ _, _ => False

/-- The operation leaves the value at the path alone. -/
def Op.Spares : Op → Path → Prop
  | .findEntry _ _, _ => True
  | op, p => Apart op.ref p

theorem Op.Covers.below {op : Op} {p : Path} (h : op.Covers p) : op.ref <+: p := by
  cases op with
  | lower ref qty => exact h ▸ List.prefix_refl p
  | findEntry ref id => exact h.elim
  | dropEntry ref => exact h
  | raise ref => exact h ▸ List.prefix_refl p
  | dropRequest ref => exact h

theorem Op.spares_of_apart {op : Op} {p : Path} (h : Apart op.ref p) : op.Spares p := by
  cases op with
  | findEntry ref id => exact trivial
  | lower ref qty => exact h
  | dropEntry ref => exact h
  | raise ref => exact h
  | dropRequest ref => exact h

theorem Op.Spares.below {op : Op} {p q : Path} (h : op.Spares p) (hq : p <+: q) :
    op.Spares q := by
  cases op with
  | findEntry ref id => exact trivial
  | lower ref qty => exact Apart.below h hq
  | dropEntry ref => exact Apart.below h hq
  | raise ref => exact Apart.below h hq
  | dropRequest ref => exact Apart.below h hq

variable {succeeds : Op → Bool} {op : Op} {p : Path} {s s' : Server} {more : List Op}

def applied (succeeds : Op → Bool) (op : Op) (value : Option Leaf) : Option Leaf :=
  if succeeds op then op.act value else value

theorem get_commit_covers (h : op.Covers p) (db : Database) :
    get p (commit succeeds op db) = applied succeeds op (get p db) := by
  cases hs : succeeds op with
  | false => simp [commit,applied,hs]
  | true =>
    simp only [commit,applied,hs,if_true]
    cases op with
    | findEntry ref id => exact h.elim
    | lower ref qty =>
      obtain rfl : p = ref := h
      exact get_write_self p db _
    | raise ref =>
      obtain rfl : p = ref := h
      exact get_write_self p db _
    | dropEntry ref => exact (get_remove ref p db).trans (if_pos h)
    | dropRequest ref => exact (get_remove ref p db).trans (if_pos h)

theorem get_commit_apart (h : Apart op.ref p) (db : Database) :
    get p (commit succeeds op db) = get p db := by
  rw [commit]
  split
  · exact get_write_apart _ _ _ _ h
  · rfl

theorem below_commit_apart (h : Apart p op.ref) (db : Database) :
    below p (commit succeeds op db) = below p db := by
  rw [commit]
  split
  · exact below_write_apart _ _ _ _ h
  · rfl

theorem perform_write (succeeds : Op → Bool) (s : Server)
    (h : ∀ ref id, op ≠ .findEntry ref id) :
    ∃ s', perform succeeds op s = .ok (s',[]) ∧ s'.db = commit succeeds op s.db := by
  cases op with
  | findEntry ref id => exact absurd rfl (h ref id)
  | lower ref qty => exact ⟨_,rfl,rfl⟩
  | dropEntry ref => exact ⟨_,rfl,rfl⟩
  | raise ref => exact ⟨_,rfl,rfl⟩
  | dropRequest ref => exact ⟨_,rfl,rfl⟩

theorem perform_findEntry {ref : Path} {id entry : Option String}
    (h : entryOf id ref s.db = .ok entry) : perform succeeds (.findEntry ref id) s =
      .ok (s,entry.toList.map fun key => .dropEntry (ref ++ [key])) := by
  simp only [perform,h]
  rfl

theorem perform_more (h : perform succeeds op s = .ok (s',more)) {o : Op} (ho : o ∈ more) :
    ∃ ref id key, op = .findEntry ref id ∧ o = .dropEntry (ref ++ [key]) := by
  by_cases hop : ∃ ref id, op = .findEntry ref id
  · obtain ⟨ref,id,rfl⟩ := hop
    cases he : entryOf id ref s.db with
    | error e => simp [perform,he,bind,Except.bind] at h
    | ok entry =>
      rw [perform_findEntry he,Except.ok.injEq,Prod.mk.injEq] at h
      rw [← h.2] at ho
      obtain ⟨key,-,rfl⟩ := List.mem_map.mp ho
      exact ⟨ref,id,key,rfl,rfl⟩
  · obtain ⟨s₁,hs₁,-⟩ := perform_write succeeds s fun ref id heq => hop ⟨ref,id,heq⟩
    rw [hs₁,Except.ok.injEq,Prod.mk.injEq] at h
    rw [← h.2] at ho
    simp at ho

theorem perform_get (h : perform succeeds op s = .ok (s',more)) :
    (op.Covers p → get p s'.db = applied succeeds op (get p s.db)) ∧
    ((succeeds op = true → op.Spares p) → get p s'.db = get p s.db) := by
  by_cases hop : ∃ ref id, op = .findEntry ref id
  · obtain ⟨ref,id,rfl⟩ := hop
    cases he : entryOf id ref s.db with
    | error e => simp [perform,he,bind,Except.bind] at h
    | ok entry =>
      rw [perform_findEntry he,Except.ok.injEq,Prod.mk.injEq] at h
      rw [← h.1]
      exact ⟨False.elim,fun _ => rfl⟩
  · obtain ⟨s₁,hs₁,hdb⟩ := perform_write succeeds s fun ref id heq => hop ⟨ref,id,heq⟩
    rw [hs₁,Except.ok.injEq,Prod.mk.injEq] at h
    rw [← h.1,hdb]
    refine ⟨fun hc => get_commit_covers hc s.db,fun hs => ?_⟩
    cases hsucc : succeeds op with
    | false => simp [commit,hsucc]
    | true =>
      apply get_commit_apart
      cases op with
      | findEntry ref id => exact absurd ⟨ref,id,rfl⟩ hop
      | lower ref qty => exact hs hsucc
      | dropEntry ref => exact hs hsucc
      | raise ref => exact hs hsucc
      | dropRequest ref => exact hs hsucc

theorem due_perform {o : Op} {rest : Multiset Op}
    (h : perform succeeds op s = .ok (s',more)) (hc : o.Covers p)
    (hentry : ∀ ref, o ≠ .dropEntry ref) (hspare : op ≠ o → op.Spares p) :
    Pool.due o (applied succeeds o) (more + rest) (get p s'.db) =
      Pool.due o (applied succeeds o) (op ::ₘ rest) (get p s.db) := by
  obtain ⟨hcover,hspares⟩ := perform_get (p := p) h
  apply Pool.due_step
  · rintro rfl
    exact hcover hc
  · exact fun hne => hspares fun _ => hspare hne
  · intro hmem
    obtain ⟨ref,-,key,-,rfl⟩ := perform_more h hmem
    exact hentry _ rfl

end Effects

end Answr
