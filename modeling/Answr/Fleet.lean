import Answr.Interrupted
import Answr.Refresh
import Answr.ScreenRuns
set_option autoImplicit false

/-! Several volunteers' phones and the server they share. Every phone refreshes, shows
and completes requests on its own; what a completion issues is carried out later, in any
order, and every change of the database can be seen by any read that is still open. -/

namespace Answr
open LeafTree Steps

section Phones

/-- A phone. The store is that of its screen; `uids` has the user that each refresh was
started for, and the finishes are a log, the latest first. -/
structure Phone where
  user : Option String
  uids : List (Option String)
  refreshes : List Refresh
  finished : List Finish
  screen : Screen

def Phone.installed : Phone := ⟨none,[],[],[],.loaded ⟨.empty,[]⟩⟩

def Phone.landing (server : Database) (d : Phone) : Landing :=
  ⟨server,d.screen.ctx,d.refreshes,d.finished⟩

/-- What the persistent store holds: the last commit. -/
def Context.persisted (ctx : Context) : Context := ⟨ctx.commits.headD .empty,ctx.commits⟩

/-- The app is ended and launched again. The reads of the old process are never answered,
and the user stays signed in. -/
def Phone.launched (d : Phone) : Phone :=
  { d with
    refreshes := d.refreshes.map fun r => { r with fetch := .refused }
    screen := .loaded d.screen.ctx.persisted }

def Phone.fetches (server : Database) (fetch : Fetch) (d : Phone) : Phone :=
  { d with uids := d.uids ++ [d.user], refreshes := d.refreshes ++ [⟨fetch,[server]⟩] }

def Phone.refreshData (server : Database) (d : Phone) : Option Phone :=
  match fetchAllZoneRequests d.user with
  | .error _ => none
  | .ok fetch => some (d.fetches server fetch)

/-- A read of a refresh is answered; the last one's answer calls the handler, which merges
what was fetched and leaves a reload due. -/
def Phone.answer (zh : Bool) (server : Database) (ord : FetchOrder) (n : Nat)
    (path : List Nat) (d : Phone) : Option Phone :=
  match d.refreshes[n]? with
  | none => some d
  | some r =>
    match r.fetch.answer zh (path,server) with
    | .error _ => none
    | .ok (fetch,none) => some { d with refreshes := d.refreshes.set n { r with fetch := fetch } }
    | .ok (fetch,some newZoneReqs) =>
      (d.screen.step (.updateSavedRequests ord newZoneReqs)).map fun screen =>
        { d with
          refreshes := d.refreshes.set n { r with fetch := fetch }
          finished := ⟨n,newZoneReqs,r.since⟩ :: d.finished
          screen := screen }

/-- What a Confirm completed, and for whom. -/
structure Confirmation where
  uid : String
  request : Request
  zoneid : String
  deriving DecidableEq, Repr

/-- `completeRequest` of what the screen hands over, by the user who is then signed in. -/
def Phone.confirm (d : Phone) : Option (Phone × Confirmation × List Op) := do
  let screen ← d.screen.step .confirm
  let handed ← screen.handed.head?
  let uid ← d.user
  let ops ← (markRequestAsComplete (some uid) handed.req handed.zoneid).toOption
  return ({ d with screen := screen },⟨uid,handed.req,handed.zoneid⟩,ops)

def Phone.gesture (e : Gesture) (d : Phone) : Option Phone :=
  match e with
  | .updateSavedRequests _ _ | .confirm => none
  | e => (d.screen.step e).map fun screen => { d with screen := screen }

def Phone.serves (db : Database) (d : Phone) : Phone :=
  { d with refreshes := d.refreshes.map fun r => { r with since := db :: r.since } }

end Phones

section System

/-- The server, what it still has to carry out, and the phones. The rest is a log: the
databases there have been, what was confirmed, and the operations that failed or got lost. -/
structure Fleet where
  server : Server
  pending : List Op
  phones : List Phone
  held : List Database
  confirmed : List Confirmation
  failed : List Op

def Fleet.installed (db : Database) (phones : Nat) : Fleet :=
  ⟨⟨db,0⟩,[],List.replicate phones .installed,[db],[],[]⟩

inductive Fleet.Event where
  /-- the user of a phone signs in or out -/
  | signed (i : Nat) (user : Option String)
  | launched (i : Nat)
  | refreshData (i : Nat)
  | answer (i : Nat) (ord : FetchOrder) (n : Nat) (path : List Nat)
  | gesture (i : Nat) (e : Gesture)
  | confirm (i : Nat)
  /-- the server takes up a pending operation -/
  | perform (n : Nat) (succeeds : Bool)
  /-- the app that issued a pending operation is ended before it is sent -/
  | lost (n : Nat)
  /-- others write to the database -/
  | others (db : Database)

def Fleet.serves (db : Database) (sys : Fleet) : Fleet :=
  { sys with
    server := { sys.server with db := db }
    phones := sys.phones.map (Phone.serves db)
    held := db :: sys.held }

def Fleet.update (sys : Fleet) (i : Nat) (f : Phone → Option Phone) : Option Fleet := do
  let d ← sys.phones[i]?
  let d ← f d
  return { sys with phones := sys.phones.set i d }

/-- An event that stops an app has no next state. -/
def Fleet.step (zh : Bool) (sys : Fleet) : Fleet.Event → Option Fleet
  | .signed i user => sys.update i fun d => some { d with user := user }
  | .launched i => sys.update i fun d => some d.launched
  | .refreshData i => sys.update i (Phone.refreshData sys.server.db)
  | .answer i ord n path => sys.update i (Phone.answer zh sys.server.db ord n path)
  | .gesture i e => sys.update i (Phone.gesture e)
  | .confirm i => do
    let d ← sys.phones[i]?
    let (d,confirmed,ops) ← d.confirm
    return { sys with
      phones := sys.phones.set i d
      pending := sys.pending ++ ops
      confirmed := confirmed :: sys.confirmed }
  | .perform n succeeds => do
    let op ← sys.pending[n]?
    let (server,more) ← (perform (fun _ => succeeds) op sys.server).toOption
    return { sys.serves server.db with
      server := server
      pending := more ++ sys.pending.eraseIdx n
      failed := if succeeds then sys.failed else op :: sys.failed }
  | .lost n => do
    let op ← sys.pending[n]?
    return { sys with pending := sys.pending.eraseIdx n, failed := op :: sys.failed }
  | .others db => some (sys.serves db)

variable {zh : Bool} {sys sys' : Fleet} {e : Fleet.Event}

/-- All that a step can do: a phone goes on by itself, or completes a request, or an
operation leaves the pool, or others write. -/
inductive Fleet.Moves (zh : Bool) (sys : Fleet) : Fleet.Event → Fleet → Prop where
  | signed (i : Nat) (user : Option String) (d : Phone) : sys.phones[i]? = some d →
      Moves zh sys (.signed i user)
        { sys with phones := sys.phones.set i { d with user := user } }
  | launched (i : Nat) (d : Phone) : sys.phones[i]? = some d →
      Moves zh sys (.launched i) { sys with phones := sys.phones.set i d.launched }
  | refreshData (i : Nat) (d d' : Phone) :
      sys.phones[i]? = some d → d.refreshData sys.server.db = some d' →
      Moves zh sys (.refreshData i) { sys with phones := sys.phones.set i d' }
  | answer (i : Nat) (ord : FetchOrder) (n : Nat) (path : List Nat) (d d' : Phone) :
      sys.phones[i]? = some d → d.answer zh sys.server.db ord n path = some d' →
      Moves zh sys (.answer i ord n path) { sys with phones := sys.phones.set i d' }
  | gesture (i : Nat) (e : Gesture) (d d' : Phone) :
      sys.phones[i]? = some d → d.gesture e = some d' →
      Moves zh sys (.gesture i e) { sys with phones := sys.phones.set i d' }
  | confirm (i : Nat) (d d' : Phone) (confirmed : Confirmation) (ops : List Op) :
      sys.phones[i]? = some d → d.confirm = some (d',confirmed,ops) →
      Moves zh sys (.confirm i) { sys with
        phones := sys.phones.set i d'
        pending := sys.pending ++ ops
        confirmed := confirmed :: sys.confirmed }
  | perform (n : Nat) (succeeds : Bool) (op : Op) (server : Server) (more : List Op) :
      sys.pending[n]? = some op →
      Answr.perform (fun _ => succeeds) op sys.server = .ok (server,more) →
      Moves zh sys (.perform n succeeds) { sys.serves server.db with
        server := server
        pending := more ++ sys.pending.eraseIdx n
        failed := if succeeds then sys.failed else op :: sys.failed }
  | lost (n : Nat) (op : Op) : sys.pending[n]? = some op →
      Moves zh sys (.lost n)
        { sys with pending := sys.pending.eraseIdx n, failed := op :: sys.failed }
  | others (db : Database) : Moves zh sys (.others db) (sys.serves db)

theorem Fleet.update_some {i : Nat} {f : Phone → Option Phone}
    (h : sys.update i f = some sys') : ∃ d d', sys.phones[i]? = some d ∧ f d = some d' ∧
      sys' = { sys with phones := sys.phones.set i d' } := by
  simp only [Fleet.update,Option.bind_eq_bind,Option.bind_eq_some_iff] at h
  obtain ⟨d,hd,d',hd',hs⟩ := h
  exact ⟨d,d',hd,hd',(Option.some.inj hs).symm⟩

theorem Fleet.moves_of_step (h : sys.step zh e = some sys') : sys.Moves zh e sys' := by
  cases e with
  | signed i user =>
    obtain ⟨d,d',hd,hd',rfl⟩ := Fleet.update_some h
    obtain rfl := Option.some.inj hd'
    exact .signed i user d hd
  | launched i =>
    obtain ⟨d,d',hd,hd',rfl⟩ := Fleet.update_some h
    obtain rfl := Option.some.inj hd'
    exact .launched i d hd
  | refreshData i =>
    obtain ⟨d,d',hd,hd',rfl⟩ := Fleet.update_some h
    exact .refreshData i d d' hd hd'
  | answer i ord n path =>
    obtain ⟨d,d',hd,hd',rfl⟩ := Fleet.update_some h
    exact .answer i ord n path d d' hd hd'
  | gesture i e =>
    obtain ⟨d,d',hd,hd',rfl⟩ := Fleet.update_some h
    exact .gesture i e d d' hd hd'
  | confirm i =>
    simp only [Fleet.step,Option.bind_eq_bind,Option.bind_eq_some_iff] at h
    obtain ⟨d,hd,⟨d',confirmed,ops⟩,hc,hs⟩ := h
    obtain rfl := Option.some.inj hs
    exact .confirm i d d' confirmed ops hd hc
  | perform n succeeds =>
    simp only [Fleet.step,Option.bind_eq_bind,Option.bind_eq_some_iff] at h
    obtain ⟨op,hop,⟨server,more⟩,hrun,hs⟩ := h
    obtain rfl := Option.some.inj hs
    exact .perform n succeeds op server more hop (toOption_some.mp hrun)
  | lost n =>
    simp only [Fleet.step,Option.bind_eq_bind,Option.bind_eq_some_iff] at h
    obtain ⟨op,hop,hs⟩ := h
    obtain rfl := Option.some.inj hs
    exact .lost n op hop
  | others db =>
    obtain rfl := Option.some.inj h
    exact .others db

theorem Phone.confirm_some {d d' : Phone} {c : Confirmation} {ops : List Op}
    (h : d.confirm = some (d',c,ops)) : ∃ screen handed, d.screen.step .confirm = some screen ∧
      screen.handed.head? = some handed ∧ d.user = some c.uid ∧ handed.req = c.request ∧
      handed.zoneid = c.zoneid ∧
      markRequestAsComplete (some c.uid) c.request c.zoneid = .ok ops ∧
      d' = { d with screen := screen } := by
  simp only [Phone.confirm,Option.bind_eq_bind,Option.bind_eq_some_iff] at h
  obtain ⟨screen,hscreen,handed,hhanded,uid,huid,ops',hops,heq⟩ := h
  obtain ⟨rfl,rfl,rfl⟩ : { d with screen := screen } = d' ∧
      ⟨uid,handed.req,handed.zoneid⟩ = c ∧ ops' = ops := by simpa using Option.some.inj heq
  exact ⟨screen,handed,hscreen,hhanded,huid,rfl,rfl,toOption_some.mp hops,rfl⟩

end System

end Answr
