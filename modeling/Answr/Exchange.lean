import Answr.Reruns
import Answr.Steps
set_option autoImplicit false

/-! Clients that run transactions at one location, the server that holds its value, and
the connections between them. A connection keeps the order of what is sent and can be
lost at any time; puts that were on the way may then arrive late or never. A client listens
to other locations over the same connection; these listens are only counted. -/

namespace Answr

variable {ι V H : Type}

section System

/-- What the server sends about the location, and its answers to listens of any location. -/
inductive Incoming (V : Type) where
  | data (value : V)
  | listened
  | response (index : Nat) (status : String)

/-- A client, what is on the way to it, whether the server tells it of changes, the listens
of other locations that the server has not answered, and the puts of its lost connections.
The updates are those it was given, by their order. -/
structure Client (V H : Type) where
  repo : Repo V H
  incoming : List (Incoming V)
  listening : Bool
  elsewhere : Nat
  late : List (Put V H)
  started : List (V → Option V)

/-- What changed the value: a transaction of a client, or a write from elsewhere. -/
inductive Change (ι V : Type) where
  | transaction (i : ι) (t : Transaction V)
  | other (value : V)

/-- The value at the server with all of its changes, the first one first. -/
structure Exchange (ι V H : Type) where
  value : V
  clients : ι → Client V H
  log : List (Change ι V)

def Client.initial : Client V H := ⟨.initial,[],false,0,[],[]⟩

def Exchange.initial (value : V) : Exchange ι V H := ⟨value,fun _ => .initial,[]⟩

inductive Exchange.Event (ι V : Type) where
  /-- the app runs a transaction -/
  | runTransactionBlock (i : ι) (update : V → Option V)
  /-- an observer of the location or of a node above it comes -/
  | observe (i : ι)
  | removeObserver (i : ι)
  /-- the next message reaches the client; data may raise events -/
  | receive (i : ι) (events : Bool)
  | disconnect (i : ι)
  /-- a new connection, with listens of other locations -/
  | reconnect (i : ι) (elsewhere : Nat)
  /-- an observer of another location comes -/
  | listenElsewhere (i : ι)
  /-- the server answers a listen of another location -/
  | answerElsewhere (i : ι)
  /-- the next message reaches the server, which answers a put with the status -/
  | serve (i : ι) (status : String) (announce : Bool)
  /-- the value is sent once more, for an observer above the location -/
  | resend (i : ι)
  /-- a put of a lost connection reaches the server, or is dropped -/
  | late (i : ι) (n : Nat) (accepted announce : Bool)
  | others (value : V)

def Client.tell (value : V) (c : Client V H) : Client V H :=
  if c.listening then { c with incoming := c.incoming ++ [.data value] } else c

def Outgoing.put? : Outgoing V H → Option (Put V H)
  | .put p => some p
  | _ => none

def Client.puts (c : Client V H) : List (Put V H) := c.repo.outgoing.filterMap Outgoing.put?

variable [DecidableEq ι] [DecidableEq V] [DecidableEq H] [Inhabited V] (dataHash : V → H)

def Exchange.modify (i : ι) (c : Client V H) (s : Exchange ι V H) : Exchange ι V H :=
  { s with clients := Function.update s.clients i c }

/-- The server carries out a put if the hash is that of its value. A value that stays the
same need not be announced. -/
def Exchange.accept (i : ι) (p : Put V H) (announce : Bool) (s : Exchange ι V H) :
    Option (Exchange ι V H) :=
  if p.hash = dataHash s.value then
    some ⟨p.data,
      if p.data ≠ s.value ∨ announce then fun j => (s.clients j).tell p.data else s.clients,
      s.log ++ p.queue.map (.transaction i)⟩
  else none

def Exchange.respond (i : ι) (index : Nat) (status : String) (s : Exchange ι V H) :
    Exchange ι V H :=
  s.modify i { s.clients i with
    incoming := (s.clients i).incoming ++ [.response index status] }

/-- The server takes the next message of a client. The status of a put that it does not
carry out is up to the server. -/
def Exchange.serve (i : ι) (status : String) (announce : Bool) (s : Exchange ι V H) :
    Option (Exchange ι V H) :=
  let c := s.clients i
  match c.repo.outgoing with
  | [] => none
  | .listen :: outgoing =>
    some (s.modify i { c with
      repo := { c.repo with outgoing := outgoing }
      listening := true
      incoming := c.incoming ++ [.data s.value] ++ [.listened] })
  | .unlisten :: outgoing =>
    some (s.modify i { c with repo := { c.repo with outgoing := outgoing }, listening := false })
  | .put p :: outgoing =>
    let s := s.modify i { c with repo := { c.repo with outgoing := outgoing } }
    if status = kFWPResponseForActionStatusOk then
      (s.accept dataHash i p announce).map (·.respond i p.index status)
    else if status = kFErrorWriteCanceled then none
    else some (s.respond i p.index status)

def Exchange.step (s : Exchange ι V H) : Exchange.Event ι V → Option (Exchange ι V H)
  | .runTransactionBlock i update =>
    let c := s.clients i
    some (s.modify i { c with
      repo := c.repo.startTransaction dataHash update
      started := c.started ++ [update] })
  | .observe i =>
    let c := s.clients i
    some (s.modify i { c with repo := c.repo.addEventRegistration })
  | .removeObserver i =>
    let c := s.clients i
    if c.repo.queue.length < c.repo.watchers then
      some (s.modify i { c with repo := c.repo.removeObserver })
    else none
  | .receive i events =>
    let c := s.clients i
    match c.incoming with
    | [] => none
    | .data value :: incoming =>
      some (s.modify i { c with
        repo := c.repo.onDataUpdate dataHash value events
        incoming := incoming })
    | .listened :: incoming =>
      some (s.modify i { c with
        repo := c.repo.onListenResponse dataHash
        incoming := incoming })
    | .response index status :: incoming =>
      some (s.modify i { c with
        repo := c.repo.onPutResponse dataHash index status
        incoming := incoming })
  | .disconnect i =>
    let c := s.clients i
    if c.repo.canSendWrites then
      some (s.modify i { c with
        repo := c.repo.onDisconnect dataHash
        incoming := []
        listening := false
        elsewhere := 0
        late := c.late ++ c.puts })
    else none
  | .reconnect i elsewhere =>
    let c := s.clients i
    if c.repo.canSendWrites then none
    else some (s.modify i { c with repo := c.repo.restoreState elsewhere, elsewhere := elsewhere })
  | .listenElsewhere i =>
    let c := s.clients i
    if c.repo.canSendWrites then
      some (s.modify i { c with
        repo := { c.repo with unackedListensCount := c.repo.unackedListensCount + 1 }
        elsewhere := c.elsewhere + 1 })
    else none
  | .answerElsewhere i =>
    let c := s.clients i
    if c.repo.canSendWrites ∧ 0 < c.elsewhere then
      some (s.modify i { c with
        incoming := c.incoming ++ [.listened]
        elsewhere := c.elsewhere - 1 })
    else none
  | .serve i status announce => s.serve dataHash i status announce
  | .resend i =>
    let c := s.clients i
    if c.listening then some (s.modify i (c.tell s.value)) else none
  | .late i n accepted announce =>
    let c := s.clients i
    match c.late[n]? with
    | none => none
    | some p =>
      let s := s.modify i { c with late := c.late.eraseIdx n }
      if accepted then s.accept dataHash i p announce else some s
  | .others value =>
    some ⟨value,fun j => (s.clients j).tell value,s.log ++ [.other value]⟩

/-- No data raises an event while a transaction waits behind one that was sent, and none
tells the client anything new while it holds back a response. -/
def Repo.Quiet (events : Bool) (r : Repo V H) : Incoming V → Prop
  | .data value => (events → ∀ t ∈ r.queue, t.status = .sent) ∧
      (r.putsToAck.isEmpty ∨ r.serverCache = some value)
  | .listened | .response _ _ => True

instance (events : Bool) (r : Repo V H) : ∀ m, Decidable (r.Quiet events m)
  | .data _ => inferInstanceAs (Decidable (_ ∧ _))
  | .listened | .response _ _ => .isTrue trivial

def Exchange.Quiet (s : Exchange ι V H) : Exchange.Event ι V → Prop
  | .receive i events => ∀ m ∈ (s.clients i).incoming.head?, (s.clients i).repo.Quiet events m
  | _ => True

instance (s : Exchange ι V H) : ∀ e, Decidable (s.Quiet e)
  | .receive i events => inferInstanceAs
      (Decidable (∀ m ∈ (s.clients i).incoming.head?, (s.clients i).repo.Quiet events m))
  | .runTransactionBlock _ _ | .observe _ | .removeObserver _ | .disconnect _ | .reconnect _ _
  | .listenElsewhere _ | .answerElsewhere _ | .serve _ _ _ | .resend _ | .late _ _ _ _
  | .others _ => .isTrue trivial

end System

section Accepting

variable [DecidableEq V] [DecidableEq H] {dataHash : V → H} {s s' : Exchange ι V H} {i : ι}
  {p : Put V H} {announce : Bool}

theorem Exchange.accept_some (h : s.accept dataHash i p announce = some s') :
    p.hash = dataHash s.value ∧ s'.value = p.data ∧
      s'.log = s.log ++ p.queue.map (.transaction i) ∧
      ∀ j, s'.clients j = if p.data ≠ s.value ∨ announce then (s.clients j).tell p.data
        else s.clients j := by
  rw [accept] at h
  split at h
  · rename_i hhash
    obtain rfl := Option.some.inj h
    refine ⟨hhash,rfl,rfl,fun j => ?_⟩
    dsimp only
    split <;> rfl
  · cases h

end Accepting

end Answr
