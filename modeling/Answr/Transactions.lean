import Mathlib.Data.List.Nodup
set_option autoImplicit false

/-! The database library's transactions at one location. A transaction runs on the state
the client sees, and what it leaves is sent together with the hash of that state. Until
the server has answered, its write stays on top of what the server sent. -/

namespace Answr

section Records

/-- `FTransactionStatus` of a transaction in the queue. It is `sentNeedsAbort` only after a
plain write to the location, which is not among the calls here. -/
inductive TransactionStatus where
  | run
  | completed
  | sent
  | sentNeedsAbort
  | needsAbort
  deriving DecidableEq, Repr

/-- `FTupleTransaction`. The update has no value when it aborts. -/
structure Transaction (V : Type) where
  order : Nat
  update : V → Option V
  status : TransactionStatus
  retryCount : Nat
  abortStatus : Option String
  currentWriteId : Nat
  currentInput : V
  currentOutput : V

structure Report (V : Type) where
  order : Nat
  error : Option String
  committed : Bool
  snapshot : V
  deriving DecidableEq, Repr

/-- `FOutstandingPut`, with the queue that its block holds. -/
structure Put (V H : Type) where
  index : Nat
  data : V
  hash : H
  queue : List (Transaction V)
  sent : Bool

inductive Outgoing (V H : Type) where
  | listen
  | unlisten
  | put (p : Put V H)

def kFTransactionMaxRetries : Nat := 25
def kFTransactionTooManyRetries : String := "maxretry"
def kFTransactionDisconnect : String := "disconnect"
def kFErrorWriteCanceled : String := "write_canceled"
def kFWPResponseForActionStatusOk : String := "ok"
def kFWPResponseForActionStatusDataStale : String := "datastale"

/-- `FRepo` at the location, with the pending writes, what the server sent, the number of
observers and the puts of the connection. A response that is held back is kept with its put.
The stream to the server and the reports to the app are in the order they were made. -/
structure Repo (V H : Type) where
  queue : List (Transaction V)
  allWrites : List (Nat × V)
  serverCache : Option V
  watchers : Nat
  writeIdCounter : Nat
  luid : Nat
  outstandingPuts : List (Put V H)
  putCounter : Nat
  unackedListensCount : Nat
  putsToAck : List (Put V H × String)
  canSendWrites : Bool
  outgoing : List (Outgoing V H)
  reports : List (Report V)

end Records

section Client

variable {V H : Type}

def Repo.initial : Repo V H := ⟨[],[],none,0,0,0,[],0,0,[],false,[],[]⟩

def Repo.sendAction (m : Outgoing V H) (r : Repo V H) : Repo V H :=
  if r.canSendWrites then { r with outgoing := r.outgoing ++ [m] } else r

def Repo.sendListen (r : Repo V H) : Repo V H :=
  if r.canSendWrites then
    { r.sendAction .listen with unackedListensCount := r.unackedListensCount + 1 }
  else r

def Repo.addEventRegistration (r : Repo V H) : Repo V H :=
  if r.watchers = 0 then { r.sendListen with watchers := 1 }
  else { r with watchers := r.watchers + 1 }

def Repo.removeObserver (r : Repo V H) : Repo V H :=
  if r.watchers = 1 then { r.sendAction .unlisten with watchers := 0, serverCache := none }
  else { r with watchers := r.watchers - 1 }

/-- The last pending write that is not excluded, else what the server sent, else the
empty node. -/
def Repo.latestState [Inhabited V] (exclude : List Nat) (r : Repo V H) : V :=
  (((r.allWrites.filter fun w => w.1 ∉ exclude).getLast?.map Prod.snd).or
    r.serverCache).getD default

def Repo.applyUserOverwrite (newData : V) (r : Repo V H) : Repo V H :=
  { r with
    allWrites := r.allWrites ++ [(r.writeIdCounter,newData)]
    writeIdCounter := r.writeIdCounter + 1 }

def Repo.ackUserWrite (writeId : Nat) (r : Repo V H) : Repo V H :=
  { r with allWrites := r.allWrites.filter fun w => w.1 ≠ writeId }

def Repo.onComplete (report : Report V) (r : Repo V H) : Repo V H :=
  { r with reports := r.reports ++ [report] }

def Repo.pruneCompletedTransactions (r : Repo V H) : Repo V H :=
  { r with queue := r.queue.filter fun t => t.status ≠ .completed }

def Repo.putInternal (data : V) (hash : H) (queue : List (Transaction V)) (r : Repo V H) :
    Repo V H :=
  let p : Put V H := ⟨r.putCounter,data,hash,queue,r.canSendWrites⟩
  { r.sendAction (.put p) with
    outstandingPuts := r.outstandingPuts ++ [p]
    putCounter := r.putCounter + 1 }

section Sending

variable [Inhabited V] (dataHash : V → H)

def Repo.sendTransactionQueue (r : Repo V H) : Repo V H :=
  let latestState := r.latestState (r.queue.map (·.currentWriteId))
  let snapToSend := r.queue.foldl (fun _ t => t.currentOutput) latestState
  let queue := r.queue.map fun t => { t with status := .sent, retryCount := t.retryCount + 1 }
  Repo.putInternal snapToSend (dataHash latestState) queue { r with queue := queue }

/-- The queue is sent when all of it has run, and otherwise waits. -/
def Repo.sendAllReadyTransactions (r : Repo V H) : Repo V H :=
  let r := r.pruneCompletedTransactions
  if r.queue.isEmpty then r
  else if r.queue.all (·.status = .run) then r.sendTransactionQueue dataHash
  else r

def Repo.startTransaction (update : V → Option V) (r : Repo V H) : Repo V H :=
  let r := r.addEventRegistration
  let order := r.luid
  let r := { r with luid := r.luid + 1 }
  let currentState := r.latestState []
  match update currentState with
  | none => r.removeObserver.onComplete ⟨order,none,false,currentState⟩
  | some newVal =>
    let t : Transaction V := ⟨order,update,.run,0,none,r.writeIdCounter,currentState,newVal⟩
    Repo.sendAllReadyTransactions dataHash
      (Repo.applyUserOverwrite newVal { r with queue := r.queue ++ [t] })

/-- The aborted transaction, the writes that are ignored and what the abort leaves. -/
def Repo.abort (t : Transaction V) (exclude : List Nat) (r : Repo V H) :
    Transaction V × List Nat × Repo V H :=
  ({ t with status := .completed },exclude,
    r.removeObserver.onComplete ⟨t.order,t.abortStatus,false,t.currentInput⟩)

def Repo.rerunTransaction (t : Transaction V) (exclude : List Nat) (r : Repo V H) :
    Transaction V × List Nat × Repo V H :=
  match t.status with
  | .needsAbort =>
    if t.abortStatus = some kFErrorWriteCanceled then r.abort t exclude
    else (r.ackUserWrite t.currentWriteId).abort t exclude
  | .run =>
    if kFTransactionMaxRetries ≤ t.retryCount then
      (r.ackUserWrite t.currentWriteId).abort
        { t with abortStatus := some kFTransactionTooManyRetries } exclude
    else
      let currentNode := r.latestState exclude
      match t.update currentNode with
      | some newVal =>
        ({ t with
            currentInput := currentNode
            currentOutput := newVal
            currentWriteId := r.writeIdCounter },
          exclude.erase t.currentWriteId,
          (r.applyUserOverwrite newVal).ackUserWrite t.currentWriteId)
      | none =>
        (r.ackUserWrite t.currentWriteId).abort
          { t with currentInput := currentNode, abortStatus := none } exclude
  | _ => (t,exclude,r)

def Repo.rerunTransactionQueue :
    List (Transaction V) → List Nat → Repo V H → List (Transaction V) × Repo V H
  | [], _, r => ([],r)
  | t :: queue, exclude, r =>
    let next := r.rerunTransaction t exclude
    let rest := rerunTransactionQueue queue next.2.1 next.2.2
    (next.1 :: rest.1,rest.2)

/-- `rerunTransactionsForPath`: every write of the queue is ignored to begin with. -/
def Repo.rerunTransactions (r : Repo V H) : Repo V H :=
  if r.queue.isEmpty then r
  else
    let rerun := r.rerunTransactionQueue r.queue (r.queue.map (·.currentWriteId))
    Repo.sendAllReadyTransactions dataHash
      (Repo.pruneCompletedTransactions { rerun.2 with queue := rerun.1 })

def Repo.modify (p : Put V H) (f : Transaction V → Transaction V) (r : Repo V H) : Repo V H :=
  { r with queue := r.queue.map fun t => if t.order ∈ p.queue.map (·.order) then f t else t }

def Repo.complete (r : Repo V H) (t : Transaction V) : Repo V H :=
  ((r.ackUserWrite t.currentWriteId).onComplete ⟨t.order,none,true,t.currentOutput⟩).removeObserver

/-- The block called with the response to a put. -/
def Repo.putResponse (p : Put V H) (status : String) (r : Repo V H) : Repo V H :=
  if status = kFWPResponseForActionStatusOk then
    let batch := r.queue.filter fun t => t.order ∈ p.queue.map (·.order)
    let r := batch.foldl complete (r.modify p fun t => { t with status := .completed })
    (r.pruneCompletedTransactions.sendAllReadyTransactions dataHash).rerunTransactions dataHash
  else if status = kFWPResponseForActionStatusDataStale then
    Repo.rerunTransactions dataHash (r.modify p fun t =>
      { t with status := if t.status = .sentNeedsAbort then .needsAbort else .run })
  else
    Repo.rerunTransactions dataHash (r.modify p fun t =>
      { t with status := .needsAbort, abortStatus := some status })

def Repo.removePut (index : Nat) (r : Repo V H) : Repo V H :=
  { r with outstandingPuts := r.outstandingPuts.filter fun p => p.index ≠ index }

/-- The callback of `sendPut`. While a listen is not answered the response is held back. -/
def Repo.onPutResponse (index : Nat) (status : String) (r : Repo V H) : Repo V H :=
  match r.outstandingPuts.find? (·.index = index) with
  | none => r
  | some p =>
    let r := r.removePut index
    if r.unackedListensCount = 0 then r.putResponse dataHash p status
    else { r with putsToAck := r.putsToAck ++ [(p,status)] }

def Repo.ackPuts (r : Repo V H) : Repo V H :=
  { r.putsToAck.foldl (fun r put => r.putResponse dataHash put.1 put.2) r with putsToAck := [] }

/-- The callback of `sendListen`, for a listen of any location. -/
def Repo.onListenResponse (r : Repo V H) : Repo V H :=
  let r := { r with unackedListensCount := r.unackedListensCount - 1 }
  if r.unackedListensCount = 0 then r.ackPuts dataHash else r

/-- A transaction is run again when the data raises an event for some observer, of the
location or of a node above it. -/
def Repo.onDataUpdate (data : V) (events : Bool) (r : Repo V H) : Repo V H :=
  if r.watchers = 0 then r
  else if events then Repo.rerunTransactions dataHash { r with serverCache := some data }
  else { r with serverCache := some data }

def Repo.cancelSentTransactions (r : Repo V H) : Repo V H :=
  (r.outstandingPuts.filter (·.sent)).foldl
    (fun r p => (r.putResponse dataHash p kFTransactionDisconnect).removePut p.index) r

/-- The connection is lost, and what was in the stream with it. Responses that are held
back stay. -/
def Repo.onDisconnect (r : Repo V H) : Repo V H :=
  { Repo.cancelSentTransactions dataHash { r with canSendWrites := false, outgoing := [] } with
    unackedListensCount := 0 }

end Sending

/-- A new connection: the listens, with those of other locations, and the puts are sent
again. -/
def Repo.restoreState (elsewhere : Nat) (r : Repo V H) : Repo V H :=
  let puts := r.outstandingPuts.map fun p => { p with sent := true }
  { r with
    canSendWrites := true
    outstandingPuts := puts
    unackedListensCount :=
      r.unackedListensCount + (if r.watchers = 0 then 0 else 1) + elsewhere
    outgoing := (if r.watchers = 0 then [] else [.listen]) ++ puts.map .put }

end Client

end Answr
