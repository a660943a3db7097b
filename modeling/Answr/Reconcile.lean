import Answr.CoreData
set_option autoImplicit false

/-! `CDHandler.updateSavedRequests`, loop by loop. Every index, removal and forced
unwrap of the source is one that can stop the app. -/

namespace Answr
open Loops

variable (ord : FetchOrder)

structure ZoneLoop where
  oldRequests : List Request
  newRequests : List Request
  ctx : Context
  deriving DecidableEq, Repr

/-- `for i in 0..<nzr.requests.count`, whose range is fixed before the loop. The
match is removed from both lists and ends the loop. -/
def matchRequest (oreq : Request) : (rounds i : Nat) → ZoneLoop → Except Fault (Bool × ZoneLoop)
  | 0, _, s => .ok (false,s)
  | rounds+1, i, s => do
    let nreq ← element s.newRequests i
    if oreq.equals nreq then
      let ctx ←
        if oreq.isNew.getD false then do
          let id ← unwrap oreq.id
          pure (markRequestAsOld ord id s.ctx)
        else pure s.ctx
      let oldRequests ← removeFirst s.oldRequests
      let newRequests ← removeAt s.newRequests i
      pure (true,⟨oldRequests,newRequests,ctx⟩)
    else matchRequest oreq rounds (i+1) s

/-- The body of `while ozr.requests.count > 0`. -/
def handleRequest (s : ZoneLoop) : Except Fault ZoneLoop := do
  let oreq ← first s.oldRequests
  let (hasMatch,s) ← matchRequest ord oreq s.newRequests.length 0 s
  if hasMatch then pure s
  else
    let oldRequests ← removeFirst s.oldRequests
    let id ← unwrap oreq.id
    pure ⟨oldRequests,s.newRequests,deleteRequest ord id s.ctx⟩

def ZoneLoop.more (s : ZoneLoop) : Bool := decide (s.oldRequests.length > 0)

structure SyncLoop where
  oldZoneRequests : List ZoneRequests
  newZoneRequests : List ZoneRequests
  ctx : Context
  deriving DecidableEq, Repr

/-- The body of `while oldZoneRequests.count > 0`. -/
def handleZone (s : SyncLoop) : Except Fault SyncLoop := do
  let ozr ← first s.oldZoneRequests
  match s.newZoneRequests.findIdx? (fun nzr => nzr.zoneid == ozr.zoneid) with
  | some nzrIndex =>
    let nzr ← element s.newZoneRequests nzrIndex
    let done ← whileLoop .endlessLoop ZoneLoop.more (handleRequest ord) ozr.requests.length
      ⟨ozr.requests,nzr.requests,s.ctx⟩
    let ctx := done.newRequests.foldl
      (fun ctx req => addRequestToZoneUsingID ord ozr.zoneid req ctx) done.ctx
    let oldZoneRequests ← removeFirst s.oldZoneRequests
    let newZoneRequests ← removeAt s.newZoneRequests nzrIndex
    pure ⟨oldZoneRequests,newZoneRequests,ctx⟩
  | none =>
    let oldZoneRequests ← removeFirst s.oldZoneRequests
    pure ⟨oldZoneRequests,s.newZoneRequests,deleteZoneRequest ord ozr.zoneid s.ctx⟩

def SyncLoop.more (s : SyncLoop) : Bool := decide (s.oldZoneRequests.length > 0)

/-- Each loop is given as many rounds as its list has elements at the start; that
they suffice is part of what is proved about it. -/
def updateSavedRequests (newZoneRequests : List ZoneRequests) (ctx : Context) :
    Except Fault Context := do
  let oldZoneRequests ← loadAllZoneRequests ord ctx
  let done ← whileLoop .endlessLoop SyncLoop.more (handleZone ord) oldZoneRequests.length
    ⟨oldZoneRequests,newZoneRequests,ctx⟩
  pure (done.newZoneRequests.foldl (fun ctx zonereq => saveZoneRequest zonereq ctx) done.ctx)

end Answr
