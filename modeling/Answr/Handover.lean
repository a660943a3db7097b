import Answr.Holdings
import Answr.SignInRuns
set_option autoImplicit false

/-! A device that changes hands. The main screen is loaded once for a run of the app, and
the store once for the device: signing out and in clears neither. -/

namespace Answr
open Steps

section Device

/-- The app with its main screen and the store behind it. -/
structure Device where
  app : App
  sheet : Tasksheet

def Device.installed : Device := ⟨.initial,.launched ⟨.empty,[]⟩ []⟩

inductive DeviceEvent where
  | auth (e : Event)
  | sheet (e : SheetEvent)

/-- One step. Only a launch and a termination, which drops what is in memory, concern
both the sign-in and the main screen. -/
def Device.step (d : Device) : DeviceEvent → Option Device
  | .auth e =>
    match d.app.step e with
    | none => none
    | some app =>
      match e with
      | .launch _ => some ⟨app,.launched d.sheet.ctx d.sheet.past⟩
      | .terminate => some ⟨app,.launched d.sheet.ctx d.sheet.past⟩
      | _ => some ⟨app,d.sheet⟩
  -- the main screen is loaded by the launch
  | .sheet .launched => none
  | .sheet e =>
    if d.app.running then
      match d.sheet.step e with
      | some sheet => some { d with sheet := sheet }
      | none => none
    else none

def Device.signedIn (uid : String) (d : Device) : Prop :=
  ∃ user, d.app.currentUser = some user ∧ user.uid = uid

/-- The requests of a snapshot are as a fetch makes them. -/
def DeviceEvent.Fetched (_ : Device) : DeviceEvent → Prop
  | .sheet (.updateSavedRequests _ snapshot) => ∀ z ∈ snapshot, ∀ req ∈ z.requests, req.Fetched
  | _ => True

/-- Zones and the requests of a zone occur once in the store and the snapshot of a sync,
and it does not meet the id of a request in another zone. -/
def DeviceEvent.Clear (d : Device) : DeviceEvent → Prop
  | .sheet (.updateSavedRequests _ snapshot) =>
    SyncInput d.sheet.ctx.store snapshot ∧ Separated d.sheet.ctx.store snapshot
  | _ => True

/-- The user has just been signed in, after any history of the device. -/
def SignsIn (uid : String) (d : Device) : Prop :=
  ∃ before n, Reaches Device.step DeviceEvent.Fetched .installed before ∧
    before.step (.auth (.authenticated n uid)) = some d

end Device

section Pairs

/-- The same done and served, but for the numbers of the attempts and a sign-out that is
refused. -/
def Event.Alike : Event → Event → Prop
  | .launch _, .launch _ => True
  | .terminate, .terminate => True
  | .clickedSignIn, .clickedSignIn => True
  | .authError _ code, .authError _ code' => code = code'
  | .authenticated _ uid, .authenticated _ uid' => uid = uid'
  | .authCallback _, .authCallback _ => True
  | .roleReply _ role _, .roleReply _ role' _ => role = role'
  | .handleSignOut _ _, .handleSignOut _ _ => True
  | _, _ => False

/-- The same, but for the order of the rows and the cells that display them. -/
def SheetEvent.Alike : SheetEvent → SheetEvent → Prop
  | .updateSavedRequests _ snapshot, .updateSavedRequests _ snapshot' => snapshot = snapshot'
  | .reloadData _ _, .reloadData _ _ => True
  | .willDisplay _, .willDisplay _ => True
  | .didEndDisplaying _, .didEndDisplaying _ => True
  | .toggledItemCheck _ _ itemID, .toggledItemCheck _ _ itemID' => itemID = itemID'
  | _, _ => False

def DeviceEvent.Alike : DeviceEvent → DeviceEvent → Prop
  | .auth e, .auth e' => e.Alike e'
  | .sheet e, .sheet e' => e.Alike e'
  | _, _ => False

/-- Two devices that go on alike from where they are. Where no reload is due on the one,
the other may still take one that was due before. -/
inductive Paired (d₀ d₀' : Device) : Device → Device → Prop where
  | start : Paired d₀ d₀' d₀ d₀'
  | both {d d' d₁ d₁' : Device} {e e' : DeviceEvent} : Paired d₀ d₀' d d' → e.Alike e' →
      e.Clear d → e'.Clear d' → d.step e = some d₁ → d'.step e' = some d₁' → Paired d₀ d₀' d₁ d₁'
  | left {d d' d₁ : Device} {ord : FetchOrder} {rows : List Binding} : Paired d₀ d₀' d d' →
      d'.sheet.reloads = 0 → d.step (.sheet (.reloadData ord rows)) = some d₁ →
      Paired d₀ d₀' d₁ d'
  | right {d d' d₁' : Device} {ord : FetchOrder} {rows : List Binding} : Paired d₀ d₀' d d' →
      d.sheet.reloads = 0 → d'.step (.sheet (.reloadData ord rows)) = some d₁' →
      Paired d₀ d₀' d d₁'

end Pairs

section View

/-- The requests that the store holds and the main screen shows. -/
structure View where
  held : Multiset HeldRequest
  shown : Multiset ShownRequest
  deriving DecidableEq

def Device.view (d : Device) : View :=
  ⟨d.sheet.ctx.store.held,Answr.shown d.sheet.zoneRequests⟩

def DeviceEvent.effect : DeviceEvent → View → View
  | .auth (.launch _), v => ⟨v.held,0⟩
  | .auth .terminate, v => ⟨v.held,0⟩
  | .auth _, v => v
  | .sheet (.updateSavedRequests _ snapshot), v => ⟨syncHeld snapshot v.held,v.shown⟩
  | .sheet (.reloadData _ _), v => ⟨v.held,v.held.map HeldRequest.load⟩
  | .sheet _, v => v

theorem DeviceEvent.Alike.effect_eq {e e' : DeviceEvent} (h : e.Alike e') :
    e.effect = e'.effect := by
  cases e with
  | auth e =>
    cases e' with
    | auth e' => cases e <;> cases e' <;> first | rfl | exact h.elim
    | sheet e' => exact h.elim
  | sheet e =>
    cases e' with
    | auth e' => exact h.elim
    | sheet e' =>
      cases e <;> cases e' <;> first | exact h.elim | rfl | skip
      obtain rfl : _ = _ := h
      rfl

end View

section Toggle

variable {cell cell' : RequestDetailCell} {ord : FetchOrder} {itemID : String}
  {ctx ctx' : Context} {request request' : Request} {objects : Objects} {ref : ObjectRef}

theorem updateCompletionBtn_request (h : updateCompletionBtn cell = .ok cell') :
    cell'.request = cell.request := by
  obtain ⟨request,hreq,hreq',-⟩ := updateCompletionBtn_iff h
  exact hreq'.trans hreq.symm

theorem map_modify {α β : Type} {f : α → β} {g : α → α} {n : Nat} {xs : List α}
    (h : ∀ x, xs[n]? = some x → f (g x) = f x) : (xs.modify n g).map f = xs.map f := by
  refine List.ext_getElem? fun i => ?_
  rw [List.getElem?_map,List.getElem?_map,List.getElem?_modify]
  by_cases hi : n = i
  · subst hi
    cases hx : xs[n]? with
    | none => rfl
    | some x => simp [h x hx]
  · simp [hi]

theorem shownRequest_set {i : Nat} {item : RequestItem} (hitem : request.items[i]? = some item)
    (checked : Option Bool) (zoneid : String) : shownRequest zoneid
      { request with items := request.items.set i { item with checked := checked } } =
        shownRequest zoneid request := by
  simp only [shownRequest,ShownRequest.mk.injEq,true_and]
  rw [List.set_eq_modify,map_modify]
  intro other hother
  obtain rfl := Option.some.inj (hitem.symm.trans hother)
  rfl

theorem toggledItemCheck_shown (h : toggledItemCheck ord itemID cell ctx = .ok (cell',ctx'))
    (hreq : cell.request = some request) (hreq' : cell'.request = some request')
    (zoneid : String) : shownRequest zoneid request' = shownRequest zoneid request := by
  rw [toggledItemCheck,hreq,bind_ok] at h
  obtain ⟨request₁,hsame,h⟩ := h
  obtain rfl := Option.some.inj (unwrap_ok.mp hsame)
  split at h
  · obtain ⟨item,hitem,h⟩ := bind_ok.mp h
    obtain ⟨checked,-,h⟩ := bind_ok.mp h
    obtain ⟨id,-,h⟩ := bind_ok.mp h
    obtain ⟨updated,hup,h⟩ := bind_ok.mp h
    obtain rfl := (Prod.mk.inj (Except.ok.inj h)).1
    rw [updateCompletionBtn_request hup,Option.some.injEq] at hreq'
    rw [← hreq']
    exact shownRequest_set (element_ok.mp hitem) _ zoneid
  · obtain ⟨updated,hup,h⟩ := bind_ok.mp h
    obtain rfl := (Prod.mk.inj (Except.ok.inj h)).1
    rw [updateCompletionBtn_request hup,hreq,Option.some.injEq] at hreq'
    rw [hreq']

theorem shown_modify {zoneRequests : List ZoneRequests} {path : Nat × Nat}
    (h : ∀ row, rowAt zoneRequests path = some row →
      ∀ zoneid, shownRequest zoneid request = shownRequest zoneid row.2) :
    shown (zoneRequests.modify path.1 fun zonereq =>
      { zonereq with requests := zonereq.requests.set path.2 request }) = shown zoneRequests := by
  rw [shown,shown,List.flatMap_def,List.flatMap_def,map_modify]
  intro z hz
  dsimp only
  rw [List.set_eq_modify]
  refine map_modify fun req hreq => ?_
  exact h (z.zoneid,req) (by simp [rowAt,hz,hreq]) z.zoneid

theorem shown_update (h : objects.requestAt ref = some request)
    (hsame : ∀ zoneid, shownRequest zoneid request' = shownRequest zoneid request) :
    shown ((objects.update ref request').getLast?.getD []) =
      shown (objects.getLast?.getD []) := by
  have hall : (objects.update ref request').map shown = objects.map shown := by
    refine map_modify fun zoneRequests hload => shown_modify fun row hrow zoneid => ?_
    rw [Objects.requestAt,hload,Option.bind_some,hrow,Option.map_some,Option.some.injEq] at h
    rw [hsame,← h]
  have hlast := congrArg List.getLast? hall
  rw [List.getLast?_map,List.getLast?_map] at hlast
  have hget : ∀ o : Option (List ZoneRequests),
      shown (o.getD []) = (o.map shown).getD (shown []) := by
    intro o
    cases o with
    | none => rfl
    | some zoneRequests => rfl
  rw [hget,hget,hlast]

end Toggle

section Step

variable {d d' : Device} {e : DeviceEvent} {sheet sheet' : Tasksheet}

theorem toggled_same {ord : FetchOrder} {cell : Nat} {itemID : String}
    (h : sheet.toggledItemCheck ord cell itemID = .ok sheet') (hs : sheet.ctx.store.Saved) :
    sheet'.ctx.store.Saved ∧ sheet'.ctx.store.held = sheet.ctx.store.held ∧
      shown sheet'.zoneRequests = shown sheet.zoneRequests ∧ sheet'.reloads = sheet.reloads := by
  obtain ⟨ref,before,toggled,ctx,request,-,hbefore,hview,hrun,hrequest,rfl⟩ :=
    Tasksheet.toggledItemCheck_ok h
  have hshown := shown_update hbefore (toggledItemCheck_shown hrun hview hrequest)
  obtain ⟨_,-,-,-,⟨-,rfl⟩ | ⟨id,checked,-,rfl⟩⟩ := toggledItemCheck_effect hrun hview
  · exact ⟨hs,rfl,hshown,rfl⟩
  · refine ⟨?_,held_markChecked ord id itemID checked sheet.ctx,hshown,rfl⟩
    exact markChecked_keeps hs fun item => Store.saved_setChecked hs item checked

theorem reloaded_view {ord : FetchOrder} {rows : List Binding}
    (h : sheet.reloadData ord rows = .ok sheet') (hs : sheet.ctx.store.Saved) :
    sheet'.ctx = sheet.ctx ∧
      shown sheet'.zoneRequests = sheet.ctx.store.held.map HeldRequest.load := by
  obtain ⟨hctx,hlist⟩ := Tasksheet.reloadData_list h hs
  refine ⟨hctx,?_⟩
  rw [hlist]
  exact shown_loaded ord sheet.ctx

/-- The list that is shown is that of the store. -/
def View.Fresh (v : View) : Prop := v.shown = v.held.map HeldRequest.load

theorem Device.step_sheet {e : SheetEvent} (h : d.step (.sheet e) = some d') :
    d.app.running = true ∧ ∃ sheet, d.sheet.step e = some sheet ∧ d' = ⟨d.app,sheet⟩ := by
  have hrun : ∀ e, (if d.app.running then
        match d.sheet.step e with
        | some sheet => some { d with sheet := sheet }
        | none => none
      else none) = some d' →
      d.app.running = true ∧ ∃ sheet, d.sheet.step e = some sheet ∧ d' = ⟨d.app,sheet⟩ := by
    intro e h
    split at h
    · rename_i hrunning
      split at h
      · rename_i sheet hsheet
        exact ⟨hrunning,sheet,hsheet,(Option.some.inj h).symm⟩
      · cases h
    · cases h
  cases e with
  | launched => cases h
  | updateSavedRequests ord snapshot => exact hrun _ h
  | reloadData ord rows => exact hrun _ h
  | willDisplay b => exact hrun _ h
  | didEndDisplaying cell => exact hrun _ h
  | toggledItemCheck ord cell itemID => exact hrun _ h

/-- What a step does that merges no snapshot: it has its effect on the view, and if no
reload is due then the list is up to date, or nothing has changed. -/
structure Device.Shows (d : Device) (e : DeviceEvent) (d' : Device) : Prop where
  saved : d'.sheet.ctx.store.Saved
  view : d'.view = e.effect d.view
  fresh : d'.sheet.reloads ≠ 0 ∨ d'.view.Fresh ∨
    d'.sheet.reloads = d.sheet.reloads ∧ d'.view = d.view

theorem Device.step_auth {e : Event} (hs : d.sheet.ctx.store.Saved)
    (h : d.step (.auth e) = some d') : d.Shows (.auth e) d' := by
  simp only [Device.step] at h
  split at h
  · cases h
  · rename_i app _
    cases e with
    | launch fails =>
      obtain rfl := Option.some.inj h
      exact ⟨hs,rfl,.inl (by simp [Tasksheet.launched])⟩
    | terminate =>
      obtain rfl := Option.some.inj h
      exact ⟨hs,rfl,.inl (by simp [Tasksheet.launched])⟩
    | clickedSignIn =>
      obtain rfl := Option.some.inj h
      exact ⟨hs,rfl,.inr (.inr ⟨rfl,rfl⟩)⟩
    | authError n code =>
      obtain rfl := Option.some.inj h
      exact ⟨hs,rfl,.inr (.inr ⟨rfl,rfl⟩)⟩
    | authenticated n uid =>
      obtain rfl := Option.some.inj h
      exact ⟨hs,rfl,.inr (.inr ⟨rfl,rfl⟩)⟩
    | authCallback n =>
      obtain rfl := Option.some.inj h
      exact ⟨hs,rfl,.inr (.inr ⟨rfl,rfl⟩)⟩
    | roleReply n role fails =>
      obtain rfl := Option.some.inj h
      exact ⟨hs,rfl,.inr (.inr ⟨rfl,rfl⟩)⟩
    | handleSignOut fails fails' =>
      obtain rfl := Option.some.inj h
      exact ⟨hs,rfl,.inr (.inr ⟨rfl,rfl⟩)⟩

theorem Device.step_cases (hs : d.sheet.ctx.store.Saved) (hstep : d.step e = some d') :
    (∃ ord snapshot ctx', e = .sheet (.updateSavedRequests ord snapshot) ∧
      updateSavedRequests ord snapshot d.sheet.ctx = .ok ctx' ∧ d'.sheet.ctx = ctx' ∧
      d'.sheet.objects = d.sheet.objects ∧ d'.sheet.reloads = d.sheet.reloads+1) ∨
    d.Shows e d' := by
  cases e with
  | auth e => exact .inr (Device.step_auth hs hstep)
  | sheet e =>
    obtain ⟨-,sheet,hsheet,rfl⟩ := Device.step_sheet hstep
    cases e with
    | launched => cases hstep
    | updateSavedRequests ord snapshot =>
      have hsync := toOption_some.mp hsheet
      rw [Tasksheet.updateSavedRequests,bind_ok] at hsync
      obtain ⟨ctx',hrun,hsync⟩ := hsync
      obtain rfl := Except.ok.inj hsync
      exact .inl ⟨ord,snapshot,ctx',rfl,hrun,rfl,rfl,rfl⟩
    | reloadData ord rows =>
      simp only [Tasksheet.step] at hsheet
      split at hsheet
      · obtain ⟨hctx,hshown⟩ := reloaded_view (toOption_some.mp hsheet) hs
        have hview : (⟨d.app,sheet⟩ : Device).view =
            ⟨d.view.held,d.view.held.map HeldRequest.load⟩ := by
          rw [Device.view,hctx,hshown]
          rfl
        exact .inr ⟨hctx ▸ hs,hview,.inr (.inl (by rw [View.Fresh,hview]))⟩
      · cases hsheet
    | willDisplay b =>
      simp only [Tasksheet.step] at hsheet
      split at hsheet
      · split at hsheet
        · obtain rfl := Option.some.inj hsheet
          exact .inr ⟨hs,rfl,.inr (.inr ⟨rfl,rfl⟩)⟩
        · cases hsheet
      · cases hsheet
    | didEndDisplaying cell =>
      obtain rfl := Option.some.inj hsheet
      exact .inr ⟨hs,rfl,.inr (.inr ⟨rfl,rfl⟩)⟩
    | toggledItemCheck ord cell itemID =>
      simp only [Tasksheet.step] at hsheet
      split at hsheet
      · obtain ⟨hsaved,hheld,hshown,hreloads⟩ := toggled_same (toOption_some.mp hsheet) hs
        have hview : (⟨d.app,sheet⟩ : Device).view = d.view := by
          rw [Device.view,Device.view,hheld,hshown]
        exact .inr ⟨hsaved,hview,.inr (.inr ⟨hreloads,hview⟩)⟩
      · cases hsheet

/-- The store is well formed, and the list up to date where no reload is due. -/
structure Device.Ok (d : Device) : Prop where
  saved : d.sheet.ctx.store.Saved
  fresh : d.sheet.reloads = 0 → d.view.Fresh

theorem device_ok_installed : Device.installed.Ok where
  saved := Store.saved_empty
  fresh h := by simp [Device.installed,Tasksheet.launched] at h

theorem Device.Shows.ok (h : d.Shows e d') (hd : d.Ok) : d'.Ok where
  saved := h.saved
  fresh hdue := by
    rcases h.fresh with hne | hfresh | ⟨heq,hview⟩
    · exact absurd hdue hne
    · exact hfresh
    · rw [hview]
      exact hd.fresh (heq ▸ hdue)

theorem Device.Ok.step (h : d.Ok) (hf : e.Fetched d) (hstep : d.step e = some d') : d'.Ok := by
  rcases Device.step_cases h.saved hstep with
    ⟨ord,snapshot,ctx',rfl,hrun,hctx,-,hreloads⟩ | hshows
  · refine ⟨?_,fun hdue => by omega⟩
    rw [hctx]
    exact (closed_saved hf).sync h.saved h.saved hrun
  · exact hshows.ok h

theorem Device.Ok.step_view (h : d.Ok) (hc : e.Clear d) (hstep : d.step e = some d') :
    d'.view = e.effect d.view := by
  rcases Device.step_cases h.saved hstep with
    ⟨ord,snapshot,ctx',rfl,hrun,hctx,hobjects,-⟩ | hshows
  · obtain ⟨ctx₁,hrun₁,hr⟩ := updateSavedRequests_of_separated ord hc.1 hc.2
    obtain rfl : ctx₁ = ctx' := Except.ok.inj (hrun₁.symm.trans hrun)
    rw [Device.view,hctx,hr.held hc.1,Tasksheet.zoneRequests,hobjects]
    rfl
  · exact hshows.view

theorem DeviceEvent.Clear.fetched (h : e.Clear d) : e.Fetched d := by
  cases e with
  | auth e => trivial
  | sheet e =>
    cases e with
    | updateSavedRequests ord snapshot => exact h.1.fetched
    | launched => trivial
    | reloadData ord rows => trivial
    | willDisplay b => trivial
    | didEndDisplaying cell => trivial
    | toggledItemCheck ord cell itemID => trivial

end Step

section Runs

variable {uid : String} {d d' e e' : Device}

theorem SignsIn.signedIn (h : SignsIn uid d) : d.signedIn uid := by
  obtain ⟨before,n,-,hstep⟩ := h
  simp only [Device.step] at hstep
  split at hstep
  · cases hstep
  · rename_i app happ
    obtain rfl := Option.some.inj hstep
    obtain ⟨screen,-,rfl⟩ := step_authenticated happ
    exact ⟨⟨uid,n,false⟩,rfl,rfl⟩

theorem SignsIn.ok (h : SignsIn uid d) : d.Ok := by
  obtain ⟨before,n,hr,hstep⟩ := h
  have hbefore : before.Ok :=
    hr.inv (fun _ _ _ h hf hstep => h.step hf hstep) device_ok_installed
  exact hbefore.step (by trivial) hstep

/-- Devices that go on alike from the same view keep the same view. -/
theorem Paired.same (h : Paired d d' e e') (hd : d.Ok) (hd' : d'.Ok) (hview : d.view = d'.view) :
    e.Ok ∧ e'.Ok ∧ e.view = e'.view := by
  induction h with
  | start => exact ⟨hd,hd',hview⟩
  | both _ halike hc hc' hstep hstep' ih =>
    obtain ⟨he,he',heq⟩ := ih
    refine ⟨he.step hc.fetched hstep,he'.step hc'.fetched hstep',?_⟩
    rw [he.step_view hc hstep,he'.step_view hc' hstep',halike.effect_eq,heq]
  | left _ hdue hstep ih =>
    obtain ⟨he,he',heq⟩ := ih
    refine ⟨he.step (by trivial) hstep,he',?_⟩
    have hfresh : _ = _ := he'.fresh hdue
    rw [he.step_view (by trivial) hstep,heq]
    exact congrArg (View.mk _) hfresh.symm
  | right _ hdue hstep ih =>
    obtain ⟨he,he',heq⟩ := ih
    refine ⟨he,he'.step (by trivial) hstep,?_⟩
    have hfresh : _ = _ := he.fresh hdue
    rw [he'.step_view (by trivial) hstep,← heq]
    exact congrArg (View.mk _) hfresh

/-- Two devices hold and show the same while the user is signed in, however they go on
alike, exactly when they do at the sign-in. -/
theorem view_same_iff (uid : String) (d d' : Device) (h : SignsIn uid d) (h' : SignsIn uid d') :
    (∀ e e', Paired d d' e e' → e.signedIn uid → e'.signedIn uid → e.view = e'.view) ↔
      d.view = d'.view := by
  constructor
  · intro hall
    exact hall d d' .start h.signedIn h'.signedIn
  · intro hview e e' hpaired _ _
    exact (hpaired.same h.ok h'.ok hview).2.2

instance (req : Request) : Decidable req.Fetched :=
  decidable_of_iff (req.id.isSome ∧ req.dateCreated.isSome ∧ req.status.isSome ∧
    req.delSlotStart.isSome) ⟨fun ⟨a,b,c,d⟩ => ⟨a,b,c,d⟩,fun ⟨a,b,c,d⟩ => ⟨a,b,c,d⟩⟩

instance (d : Device) (e : DeviceEvent) : Decidable (e.Fetched d) := by
  cases e with
  | auth e => exact .isTrue trivial
  | sheet e => cases e <;> unfold DeviceEvent.Fetched <;> infer_instance

/-- A signs in, refreshes and signs out, and B is signed in. -/
def handedOver (refreshes : List SheetEvent) : Option Device :=
  let before := play Device.step DeviceEvent.Fetched .installed <|
    [.auth (.launch false),.sheet (.reloadData .table []),.auth .clickedSignIn,
      .auth (.authenticated 0 "a"),.auth (.authCallback 0),
      .auth (.roleReply 0 (some "volunteer") false)] ++ refreshes.map .sheet ++
    [.auth (.handleSignOut false false),.auth .clickedSignIn]
  before.bind fun d => d.step (.auth (.authenticated 1 "b"))

def riceRefresh : List SheetEvent :=
  [.updateSavedRequests .table (riceSnapshot "r1"),.reloadData .table [⟨0,(0,0)⟩]]

theorem signsIn_of_handedOver {refreshes : List SheetEvent}
    (h : handedOver refreshes = some d) : SignsIn "b" d := by
  obtain ⟨before,hplay,hstep⟩ := Option.bind_eq_some_iff.mp h
  exact ⟨before,1,reaches_of_play hplay,hstep⟩

/-- A checked the item off in the one run and not in the other. -/
theorem view_same_iff_checked : ∃ d d', SignsIn "b" d ∧ SignsIn "b" d' ∧
    d.sheet.past = [.inserted [1]] ∧
    d'.sheet.past = [.written "r1" "rice" true,.inserted [1]] ∧
    ∀ e e', Paired d d' e e' → e.signedIn "b" → e'.signedIn "b" → e.view = e'.view := by
  have hpast : (handedOver riceRefresh).map (fun d => d.sheet.past) =
      some [.inserted [1]] := by decide +kernel
  have hpast' : (handedOver (riceRefresh ++ [.toggledItemCheck .table 0 "rice"])).map
      (fun d => d.sheet.past) = some [.written "r1" "rice" true,.inserted [1]] := by
    decide +kernel
  have hview : (handedOver riceRefresh).map Device.view =
      (handedOver (riceRefresh ++ [.toggledItemCheck .table 0 "rice"])).map Device.view := by
    decide +kernel
  obtain ⟨d,hd,hpast⟩ := Option.map_eq_some_iff.mp hpast
  obtain ⟨d',hd',hpast'⟩ := Option.map_eq_some_iff.mp hpast'
  rw [hd,hd',Option.map_some,Option.map_some,Option.some.injEq] at hview
  have h := signsIn_of_handedOver hd
  have h' := signsIn_of_handedOver hd'
  exact ⟨d,d',h,h',hpast,hpast',(view_same_iff "b" d d' h h').mpr hview⟩

/-- A had saved r1 in the one run and nothing in the other: B is shown where Tan lives. -/
theorem not_view_same : ¬ ∀ (uid : String) (d d' : Device), SignsIn uid d → SignsIn uid d' →
    ∀ e e', Paired d d' e e' → e.signedIn uid → e'.signedIn uid → e.view = e'.view := by
  intro hall
  have hshown : (handedOver riceRefresh).map (fun d => d.view.shown.map fun s =>
      (s.request.elderlyName,s.request.elderlyAddressString)) =
        some {(some "Tan",some "Block 1")} := by decide +kernel
  have hnone : (handedOver [.updateSavedRequests .table [],.reloadData .table []]).map
      (fun d => d.view.shown) = some 0 := by decide +kernel
  obtain ⟨d,hd,hshown⟩ := Option.map_eq_some_iff.mp hshown
  obtain ⟨d',hd',hnone⟩ := Option.map_eq_some_iff.mp hnone
  have h := signsIn_of_handedOver hd
  have h' := signsIn_of_handedOver hd'
  have hview := hall "b" d d' h h' d d' .start h.signedIn h'.signedIn
  rw [hview,hnone,Multiset.map_zero] at hshown
  exact Multiset.singleton_ne_zero _ hshown.symm

end Runs

end Answr
