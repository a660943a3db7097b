import Mathlib.Data.List.Nodup
import Mathlib.Logic.Function.Basic
import Answr.Steps
import Answr.Staleness
set_option autoImplicit false

/-! The table of requests. Its cells are reused: a reload binds them to the rows of the
list it has just loaded, also while the alert of one of them is open. -/

namespace Answr

section Cells

/-- A cell of the table. A fresh one has not been bound yet. -/
structure RequestDetailCell where
  zoneid : Option String := none
  request : Option Request := none
  completionBtnEnabled : Bool := false
  deriving DecidableEq, Repr

/-- The loop of `updateCompletionBtn`, which stops at the first unchecked item. -/
def allChecked : List RequestItem → Except Fault Bool
  | [] => .ok true
  | item :: items => do
    let checked ← unwrap item.checked
    if checked then allChecked items else pure false

def updateCompletionBtn (cell : RequestDetailCell) : Except Fault RequestDetailCell := do
  let request ← unwrap cell.request
  let enabled ← allChecked request.items
  pure { cell with completionBtnEnabled := enabled }

/-- `RequestDetailCell.buildInstance` on the cell that is dequeued. The rows of its items
unwrap whether each is checked. -/
def buildInstance (request : Request) (cell : RequestDetailCell) :
    Except Fault RequestDetailCell := do
  let _ ← unwrap request.isNew
  let _ ← unwrap request.delSlotStart
  let _ ← unwrap request.elderlyName
  let _ ← request.items.mapM fun item => unwrap item.checked
  updateCompletionBtn { cell with request := some request, completionBtnEnabled := false }

/-- `tableView(_:cellForRowAt:)`, with the cell that is dequeued for the row. -/
def cellForRowAt (zoneRequests : List ZoneRequests) (indexPath : Nat × Nat)
    (cell : RequestDetailCell) : Except Fault RequestDetailCell := do
  let zonereq ← element zoneRequests indexPath.1
  let request ← element zonereq.requests indexPath.2
  let cell ← buildInstance request cell
  pure { cell with zoneid := some zonereq.zoneid }

/-- `tableView(_:heightForRowAt:)`, where the text's own height is left to the label that
measures it. -/
def heightForRowAt (calculatedHeight : String → Rat) (zoneRequests : List ZoneRequests)
    (indexPath : Nat × Nat) : Except Fault Rat := do
  let zonereq ← element zoneRequests indexPath.1
  let request ← element zonereq.requests indexPath.2
  let address ← unwrap request.elderlyAddressString
  let layoutMarginPadding := 22
  pure (223 + calculatedHeight address + request.items.length*30 + layoutMarginPadding)

/-- `toggledItemCheck(itemID:)`, which also saves the check. -/
def toggledItemCheck (ord : FetchOrder) (itemID : String) (cell : RequestDetailCell)
    (ctx : Context) : Except Fault (RequestDetailCell × Context) := do
  let request ← unwrap cell.request
  match request.items.findIdx? (fun item => item.id == itemID) with
  | some i =>
    let item ← element request.items i
    let checked ← unwrap item.checked
    let id ← unwrap request.id
    let items := request.items.set i { item with checked := some (!checked) }
    let cell ← updateCompletionBtn { cell with request := some { request with items := items } }
    pure (cell,markChecked ord id itemID (!checked) ctx)
  | none => do
    let cell ← updateCompletionBtn cell
    pure (cell,ctx)

end Cells

section Screen

/-- The alert of a completion button, with what its cell displayed at the tap. -/
structure Alert where
  cell : Nat
  request : Option Request
  zoneid : Option String
  deriving DecidableEq, Repr

/-- What a Confirm handed to `completeRequest`, and the alert it was pressed in. -/
structure Handed where
  alert : Alert
  req : Request
  zoneid : String
  deriving DecidableEq, Repr

/-- The cells are all that the table may ever create. A reload is due for each finished
merge, and one when the screen loads. -/
structure Screen where
  ctx : Context
  zoneRequests : List ZoneRequests
  cells : Nat → RequestDetailCell
  alert : Option Alert
  reloads : Nat
  handed : List Handed

def Screen.loaded (ctx : Context) : Screen := ⟨ctx,[],fun _ => {},none,1,[]⟩

structure Binding where
  cell : Nat
  indexPath : Nat × Nat
  deriving DecidableEq, Repr

def bindRow (zoneRequests : List ZoneRequests) (cells : Nat → RequestDetailCell) (b : Binding) :
    Except Fault (Nat → RequestDetailCell) := do
  let cell ← cellForRowAt zoneRequests b.indexPath (cells b.cell)
  pure (Function.update cells b.cell cell)

/-- What the completion handler of `refreshData` does when its delay is over. -/
def Screen.reloadData (ord : FetchOrder) (rows : List Binding) (screen : Screen) :
    Except Fault Screen := do
  let zoneRequests ← loadAllZoneRequests ord screen.ctx
  let cells ← rows.foldlM (bindRow zoneRequests) screen.cells
  pure { screen with zoneRequests := zoneRequests, cells := cells, reloads := screen.reloads-1 }

def Screen.completionBtnClicked (cell : Nat) (screen : Screen) : Screen :=
  { screen with
    alert := some ⟨cell,(screen.cells cell).request,(screen.cells cell).zoneid⟩ }

/-- The handler of the alert's Confirm: it reads the cell when it is pressed. -/
def Screen.confirm (alert : Alert) (screen : Screen) : Except Fault Screen := do
  let req ← unwrap (screen.cells alert.cell).request
  let zoneid ← unwrap (screen.cells alert.cell).zoneid
  pure { screen with alert := none, handed := ⟨alert,req,zoneid⟩ :: screen.handed }

inductive Gesture where
  /-- a refresh has fetched its snapshot -/
  | updateSavedRequests (ord : FetchOrder) (snapshot : List ZoneRequests)
  /-- and its delay is over -/
  | reloadData (ord : FetchOrder) (rows : List Binding)
  | toggledItemCheck (ord : FetchOrder) (cell : Nat) (itemID : String)
  | completionBtnClicked (cell : Nat)
  | confirm
  | cancel

/-- One step; none where it is not possible or stops the app. An alert lies over the
table, a disabled button takes no taps, and a reload asks for each row once and uses a
cell for one row. -/
def Screen.step (screen : Screen) : Gesture → Option Screen
  | .updateSavedRequests ord snapshot =>
    match updateSavedRequests ord snapshot screen.ctx with
    | .ok ctx => some { screen with ctx := ctx, reloads := screen.reloads+1 }
    | .error _ => none
  | .reloadData ord rows =>
    if 0 < screen.reloads ∧ (rows.map (·.cell)).Nodup ∧ (rows.map (·.indexPath)).Nodup then
      (screen.reloadData ord rows).toOption
    else none
  | .toggledItemCheck ord cell itemID =>
    if screen.alert = none then
      match toggledItemCheck ord itemID (screen.cells cell) screen.ctx with
      | .ok (toggled,ctx) =>
        some { screen with ctx := ctx, cells := Function.update screen.cells cell toggled }
      | .error _ => none
    else none
  | .completionBtnClicked cell =>
    if screen.alert = none ∧ (screen.cells cell).completionBtnEnabled = true then
      some (screen.completionBtnClicked cell)
    else none
  | .confirm =>
    match screen.alert with
    | some alert => (screen.confirm alert).toOption
    | none => none
  | .cancel => if screen.alert = none then none else some { screen with alert := none }

end Screen

section Condition

def rowAt (zoneRequests : List ZoneRequests) (indexPath : Nat × Nat) : Option (String × Request) :=
  zoneRequests[indexPath.1]?.bind fun zonereq =>
    zonereq.requests[indexPath.2]?.map fun request => (zonereq.zoneid,request)

variable {κ : Type} (view : Request → κ)

/-- The reload leaves the cell of an open alert alone or binds it to a row with the same
request and zone. The `view` is what is compared of a request: the value, its id, or its
data without the new marker. -/
def KeepsAlert (screen : Screen) : Gesture → Prop
  | .reloadData ord rows =>
    ∀ b ∈ rows, ∀ alert ∈ screen.alert, b.cell = alert.cell →
      ∀ row ∈ (loadAllZoneRequests ord screen.ctx).toOption.bind (rowAt · b.indexPath),
        alert.zoneid = some row.1 ∧ alert.request.map view = some (view row.2)
  | _ => True

instance [DecidableEq κ] (screen : Screen) (e : Gesture) :
    Decidable (KeepsAlert view screen e) := by
  cases e <;> unfold KeepsAlert <;> infer_instance

end Condition

end Answr
