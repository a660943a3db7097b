import Answr.Screen
set_option autoImplicit false

/-! What a Confirm hands over. The handler reads the cell when it is pressed, so it is
what the tap displayed exactly as long as reloads keep the cell of an open alert. -/

namespace Answr
open Steps

section Inversion

variable {α β : Type}

theorem bind_ok {x : Except Fault α} {f : α → Except Fault β} {b : β} :
    (x >>= f) = .ok b ↔ ∃ a, x = .ok a ∧ f a = .ok b := by
  cases x with
  | ok a => exact ⟨fun h => ⟨a,rfl,h⟩,fun ⟨_,ha,h⟩ => Except.ok.inj ha ▸ h⟩
  | error e => exact ⟨(nomatch ·),fun ⟨_,ha,_⟩ => (nomatch ha)⟩

theorem unwrap_ok {o : Option α} {a : α} : unwrap o = .ok a ↔ o = some a := by
  cases o <;> simp [unwrap]

theorem element_ok {xs : List α} {i : Nat} {a : α} : element xs i = .ok a ↔ xs[i]? = some a := by
  cases h : xs[i]? <;> simp [element,h]

theorem toOption_some {x : Except Fault α} {a : α} : x.toOption = some a ↔ x = .ok a := by
  cases x <;> simp [Except.toOption]

end Inversion

section Cells

variable {cell cell' : RequestDetailCell} {zoneRequests : List ZoneRequests}

def Request.AllChecked (request : Request) : Prop :=
  ∀ item ∈ request.items, item.checked = some true

def RequestDetailCell.Good (cell : RequestDetailCell) : Prop :=
  cell.completionBtnEnabled = true → ∃ request, cell.request = some request ∧ request.AllChecked

theorem good_fresh : RequestDetailCell.Good {} := by simp [RequestDetailCell.Good]

theorem allChecked_ok {items : List RequestItem} (h : allChecked items = .ok true) :
    ∀ item ∈ items, item.checked = some true := by
  induction items with
  | nil => simp
  | cons item items ih =>
    rw [allChecked,bind_ok] at h
    obtain ⟨checked,hitem,hrest⟩ := h
    cases checked with
    | false => cases hrest
    | true =>
      rintro other (_ | ⟨_,hother⟩)
      · exact unwrap_ok.mp hitem
      · exact ih hrest other hother

theorem updateCompletionBtn_ok (h : updateCompletionBtn cell = .ok cell') :
    ∃ request, cell.request = some request ∧ cell'.request = some request ∧
      cell'.zoneid = cell.zoneid ∧ (cell'.completionBtnEnabled = true → request.AllChecked) := by
  rw [updateCompletionBtn,bind_ok] at h
  obtain ⟨request,hreq,h⟩ := h
  obtain ⟨enabled,hall,h⟩ := bind_ok.mp h
  rw [unwrap_ok] at hreq
  rw [← Except.ok.inj h]
  refine ⟨request,hreq,hreq,rfl,fun he => allChecked_ok ?_⟩
  rw [hall]
  exact congrArg _ he

theorem cellForRowAt_ok {indexPath : Nat × Nat}
    (h : cellForRowAt zoneRequests indexPath cell = .ok cell') :
    ∃ row, rowAt zoneRequests indexPath = some row ∧ cell'.zoneid = some row.1 ∧
      cell'.request = some row.2 ∧ cell'.Good := by
  rw [cellForRowAt,bind_ok] at h
  obtain ⟨zonereq,hzone,h⟩ := h
  obtain ⟨request,hrequest,h⟩ := bind_ok.mp h
  obtain ⟨built,hbuilt,h⟩ := bind_ok.mp h
  rw [buildInstance,bind_ok] at hbuilt
  obtain ⟨-,-,hbuilt⟩ := hbuilt
  obtain ⟨-,-,hbuilt⟩ := bind_ok.mp hbuilt
  obtain ⟨-,-,hbuilt⟩ := bind_ok.mp hbuilt
  obtain ⟨-,-,hbuilt⟩ := bind_ok.mp hbuilt
  obtain ⟨request',hsame,hreq,-,hall⟩ := updateCompletionBtn_ok hbuilt
  rw [Option.some.injEq] at hsame
  subst hsame
  rw [element_ok] at hzone hrequest
  rw [← Except.ok.inj h]
  exact ⟨(zonereq.zoneid,request),by simp [rowAt,hzone,hrequest],rfl,hreq,
    fun he => ⟨request,hreq,hall he⟩⟩

theorem toggledItemCheck_ok {ord : FetchOrder} {itemID : String} {ctx ctx' : Context}
    (h : toggledItemCheck ord itemID cell ctx = .ok (cell',ctx')) : cell'.Good := by
  have hgood : ∀ {before : RequestDetailCell}, updateCompletionBtn before = .ok cell' →
      cell'.Good := fun hup he => by
    obtain ⟨request,-,hreq,-,hall⟩ := updateCompletionBtn_ok hup
    exact ⟨request,hreq,hall he⟩
  rw [toggledItemCheck,bind_ok] at h
  obtain ⟨request,-,h⟩ := h
  split at h
  · obtain ⟨item,-,h⟩ := bind_ok.mp h
    obtain ⟨checked,-,h⟩ := bind_ok.mp h
    obtain ⟨id,-,h⟩ := bind_ok.mp h
    obtain ⟨updated,hup,h⟩ := bind_ok.mp h
    obtain rfl := (Prod.mk.inj (Except.ok.inj h)).1
    exact hgood hup
  · obtain ⟨updated,hup,h⟩ := bind_ok.mp h
    obtain rfl := (Prod.mk.inj (Except.ok.inj h)).1
    exact hgood hup

theorem bindRows_ok {rows : List Binding} {cells cells' : Nat → RequestDetailCell}
    (h : rows.foldlM (bindRow zoneRequests) cells = .ok cells')
    (hnodup : (rows.map (·.cell)).Nodup) :
    (∀ c, c ∉ rows.map (·.cell) → cells' c = cells c) ∧
    ∀ b ∈ rows, ∃ row, rowAt zoneRequests b.indexPath = some row ∧
      (cells' b.cell).zoneid = some row.1 ∧ (cells' b.cell).request = some row.2 ∧
      (cells' b.cell).Good := by
  induction rows generalizing cells with
  | nil =>
    rw [← Except.ok.inj h]
    exact ⟨fun _ _ => rfl,by simp⟩
  | cons b rows ih =>
    rw [List.foldlM_cons,bind_ok] at h
    obtain ⟨cells₁,hfirst,hrest⟩ := h
    rw [bindRow,bind_ok] at hfirst
    obtain ⟨cell,hcell,hupdate⟩ := hfirst
    rw [List.map_cons,List.nodup_cons] at hnodup
    obtain ⟨hkept,hbound⟩ := ih hrest hnodup.2
    have hcells₁ := (Except.ok.inj hupdate).symm
    constructor
    · intro c hc
      rw [List.map_cons,List.mem_cons,not_or] at hc
      rw [hkept c hc.2,hcells₁,Function.update_of_ne hc.1]
    · rintro b' (_ | ⟨_,hb'⟩)
      · rw [hkept b.cell hnodup.1,hcells₁,Function.update_self]
        exact cellForRowAt_ok hcell
      · exact hbound b' hb'

end Cells

section Step

variable {κ : Type} {view : Request → κ} {ctx : Context} {screen screen' : Screen}
  {e : Gesture} {ord : FetchOrder} {rows : List Binding}

/-- What is handed over is what the tap displayed, where all items were checked. -/
structure Handed.AsTapped (view : Request → κ) (h : Handed) : Prop where
  req : h.alert.request.map view = some (view h.req)
  zoneid : h.alert.zoneid = some h.zoneid
  checked : ∃ request, h.alert.request = some request ∧ request.AllChecked

/-- The invariant: the cell of an open alert still displays what it did at the tap. -/
structure Kept (view : Request → κ) (screen : Screen) : Prop where
  cells : ∀ c, (screen.cells c).Good
  alert : ∀ alert, screen.alert = some alert →
    (screen.cells alert.cell).request.map view = alert.request.map view ∧
    (screen.cells alert.cell).zoneid = alert.zoneid ∧
    ∃ request, alert.request = some request ∧ request.AllChecked
  handed : ∀ h ∈ screen.handed, h.AsTapped view

theorem kept_loaded (view : Request → κ) (ctx : Context) : Kept view (Screen.loaded ctx) :=
  ⟨fun _ => good_fresh,by simp [Screen.loaded],by simp [Screen.loaded]⟩

theorem reloadData_ok (h : screen.reloadData ord rows = .ok screen') : ∃ zoneRequests cells,
    loadAllZoneRequests ord screen.ctx = .ok zoneRequests ∧
    rows.foldlM (bindRow zoneRequests) screen.cells = .ok cells ∧
    screen' = { screen with
      zoneRequests := zoneRequests, cells := cells, reloads := screen.reloads-1 } := by
  rw [Screen.reloadData,bind_ok] at h
  obtain ⟨zoneRequests,hload,h⟩ := h
  obtain ⟨cells,hbind,h⟩ := bind_ok.mp h
  exact ⟨zoneRequests,cells,hload,hbind,(Except.ok.inj h).symm⟩

theorem confirm_ok {alert : Alert} (h : screen.confirm alert = .ok screen') : ∃ req zoneid,
    (screen.cells alert.cell).request = some req ∧
    (screen.cells alert.cell).zoneid = some zoneid ∧
    screen' = { screen with alert := none, handed := ⟨alert,req,zoneid⟩ :: screen.handed } := by
  rw [Screen.confirm,bind_ok] at h
  obtain ⟨req,hreq,h⟩ := h
  obtain ⟨zoneid,hzone,h⟩ := bind_ok.mp h
  exact ⟨req,zoneid,unwrap_ok.mp hreq,unwrap_ok.mp hzone,(Except.ok.inj h).symm⟩

theorem step_reloadData (h : screen.step (.reloadData ord rows) = some screen') :
    (rows.map (·.cell)).Nodup ∧ screen.reloadData ord rows = .ok screen' := by
  simp only [Screen.step] at h
  split at h
  · rename_i hrows
    exact ⟨hrows.2.1,toOption_some.mp h⟩
  · cases h

theorem Kept.reloadData (h : Kept view screen)
    (hmeets : KeepsAlert view screen (.reloadData ord rows))
    (hstep : screen.step (.reloadData ord rows) = some screen') : Kept view screen' := by
  obtain ⟨hnodup,hreload⟩ := step_reloadData hstep
  obtain ⟨zoneRequests,cells,hload,hbind,rfl⟩ := reloadData_ok hreload
  obtain ⟨hkept,hbound⟩ := bindRows_ok hbind hnodup
  refine ⟨fun c => ?_,fun alert halert => ?_,h.handed⟩
  · by_cases hc : c ∈ rows.map (·.cell)
    · obtain ⟨b,hb,rfl⟩ := List.mem_map.mp hc
      obtain ⟨row,-,-,-,hgood⟩ := hbound b hb
      exact hgood
    · simp only [hkept c hc]
      exact h.cells c
  · obtain ⟨hrequest,hzone,hchecked⟩ := h.alert alert halert
    by_cases hc : alert.cell ∈ rows.map (·.cell)
    · -- the cell is bound again, to a row with the same request and zone
      obtain ⟨b,hb,hcell⟩ := List.mem_map.mp hc
      obtain ⟨row,hrow,hzone',hrequest',-⟩ := hbound b hb
      have hsame := hmeets b hb alert halert hcell row (by
        rw [hload]
        exact hrow)
      rw [hcell] at hzone' hrequest'
      exact ⟨(congrArg _ hrequest').trans hsame.2.symm,hzone'.trans hsame.1.symm,hchecked⟩
    · simp only [hkept _ hc]
      exact ⟨hrequest,hzone,hchecked⟩

theorem Kept.toggledItemCheck (h : Kept view screen) {cell : Nat} {itemID : String}
    (hstep : screen.step (.toggledItemCheck ord cell itemID) = some screen') :
    Kept view screen' := by
  simp only [Screen.step] at hstep
  split at hstep
  · rename_i hnone
    split at hstep
    · rename_i toggled ctx htoggle
      rw [← Option.some.inj hstep]
      refine ⟨fun c => ?_,fun alert halert => ?_,h.handed⟩
      · by_cases hc : c = cell
        · subst hc
          simp only [Function.update_self]
          exact toggledItemCheck_ok htoggle
        · simp only [Function.update_of_ne hc]
          exact h.cells c
      · rw [hnone] at halert
        cases halert
    · cases hstep
  · cases hstep

/-- The step lemma. -/
theorem Kept.step (h : Kept view screen) (hmeets : KeepsAlert view screen e)
    (hstep : screen.step e = some screen') : Kept view screen' := by
  cases e with
  | updateSavedRequests ord snapshot =>
    simp only [Screen.step] at hstep
    split at hstep
    · rw [← Option.some.inj hstep]
      exact ⟨h.cells,h.alert,h.handed⟩
    · cases hstep
  | reloadData ord rows => exact h.reloadData hmeets hstep
  | toggledItemCheck ord cell itemID => exact h.toggledItemCheck hstep
  | completionBtnClicked cell =>
    simp only [Screen.step] at hstep
    split at hstep
    · rename_i htap
      rw [← Option.some.inj hstep]
      refine ⟨h.cells,fun alert halert => ?_,h.handed⟩
      rw [← Option.some.inj halert]
      exact ⟨rfl,rfl,h.cells cell htap.2⟩
    · cases hstep
  | confirm =>
    simp only [Screen.step] at hstep
    split at hstep
    · rename_i alert halert
      obtain ⟨req,zoneid,hreq,hzone,rfl⟩ := confirm_ok (toOption_some.mp hstep)
      obtain ⟨hrequest,hzoneid,hchecked⟩ := h.alert alert halert
      refine ⟨h.cells,fun _ hnone => (nomatch hnone),?_⟩
      rintro handed (_ | ⟨_,hmem⟩)
      · exact ⟨hrequest.symm.trans (congrArg _ hreq),hzoneid.symm.trans hzone,hchecked⟩
      · exact h.handed handed hmem
    · cases hstep
  | cancel =>
    simp only [Screen.step] at hstep
    split at hstep
    · cases hstep
    · rw [← Option.some.inj hstep]
      exact ⟨h.cells,fun _ hnone => (nomatch hnone),h.handed⟩

theorem kept_reached (h : Reaches Screen.step (KeepsAlert view) (Screen.loaded ctx) screen) :
    Kept view screen :=
  h.inv (fun _ _ _ hk hm hs => hk.step hm hs) (kept_loaded view ctx)

theorem handed_of_rebound (hstep : screen.step e = some screen')
    (h : ¬ KeepsAlert view screen e) : ∃ screen'', screen'.step .confirm = some screen'' ∧
      ∃ h ∈ screen''.handed, ¬ h.AsTapped view := by
  cases e with
  | reloadData ord rows =>
    obtain ⟨hnodup,hreload⟩ := step_reloadData hstep
    obtain ⟨zoneRequests,cells,hload,hbind,rfl⟩ := reloadData_ok hreload
    simp only [KeepsAlert,not_forall] at h
    obtain ⟨b,hb,alert,halert,hcell,row,hrow,hother⟩ := h
    obtain ⟨row',hrow',hzone,hrequest,-⟩ := (bindRows_ok hbind hnodup).2 b hb
    rw [hload] at hrow
    obtain rfl : row' = row := Option.some.inj (hrow'.symm.trans hrow)
    rw [hcell] at hzone hrequest
    have hconfirm : Screen.step { screen with
        zoneRequests := zoneRequests, cells := cells, reloads := screen.reloads-1 } .confirm =
          some { screen with
            zoneRequests := zoneRequests, cells := cells, reloads := screen.reloads-1
            alert := none, handed := ⟨alert,row'.2,row'.1⟩ :: screen.handed } := by
      have halert' : screen.alert = some alert := halert
      simp [Screen.step,Screen.confirm,halert',hzone,hrequest,unwrap,bind,Except.bind,pure,
        Except.pure,Except.toOption]
    exact ⟨_,hconfirm,_,List.mem_cons_self,fun hd => hother ⟨hd.zoneid,hd.req⟩⟩
  | updateSavedRequests ord snapshot => exact absurd trivial h
  | toggledItemCheck ord cell itemID => exact absurd trivial h
  | completionBtnClicked cell => exact absurd trivial h
  | confirm => exact absurd trivial h
  | cancel => exact absurd trivial h

/-- In runs whose reloads keep the cell of an open alert, Confirm hands over what the tap
displayed; after any other reload it does not. -/
theorem handed_asTapped (view : Request → κ) (ctx : Context) :
    (∀ screen, Reaches Screen.step (KeepsAlert view) (Screen.loaded ctx) screen →
      ∀ h ∈ screen.handed, h.AsTapped view) ∧
    ∀ screen e screen', screen.step e = some screen' → ¬ KeepsAlert view screen e →
      ∃ screen'', screen'.step .confirm = some screen'' ∧
        ∃ h ∈ screen''.handed, ¬ h.AsTapped view :=
  ⟨fun _ h => (kept_reached h).handed,fun _ _ _ hstep h => handed_of_rebound hstep h⟩

def riceSnapshot (id : String) : List ZoneRequests :=
  [⟨"north",[⟨some id,some 1,"u1",some "Pending",some 5,
    [⟨"rice","Rice","rice",2,none,none,"white",none⟩],none,some "Tan",some "Block 1"⟩]⟩]

def tapped : List Gesture := [.updateSavedRequests .table (riceSnapshot "r1"),
  .reloadData .table [⟨0,(0,0)⟩],.toggledItemCheck .table 0 "rice",.completionBtnClicked 0]

def replaced : List Gesture := tapped ++ [.updateSavedRequests .table (riceSnapshot "r2")]

theorem handed_asTapped_rice :
    (∃ screen, play Screen.step (KeepsAlert id) (Screen.loaded ⟨.empty,[]⟩)
      (replaced ++ [.reloadData .table [⟨1,(0,0)⟩],.confirm]) = some screen ∧
      screen.handed.length = 1 ∧ ∀ h ∈ screen.handed, h.AsTapped id) ∧
    ∃ screen screen', play Screen.step (fun _ _ => True) (Screen.loaded ⟨.empty,[]⟩)
      (replaced ++ [.reloadData .table [⟨0,(0,0)⟩]]) = some screen ∧
      screen.step .confirm = some screen' ∧ ∃ h ∈ screen'.handed, ¬ h.AsTapped id := by
  obtain ⟨screen,hplay,hlen⟩ : ∃ screen, play Screen.step (KeepsAlert id)
      (Screen.loaded ⟨.empty,[]⟩) (replaced ++ [.reloadData .table [⟨1,(0,0)⟩],.confirm]) =
        some screen ∧ screen.handed.length = 1 := ⟨_,rfl,rfl⟩
  refine ⟨⟨screen,hplay,hlen,(handed_asTapped id _).1 screen (reaches_of_play hplay)⟩,?_⟩
  obtain ⟨before,after,hplay,hstep,hmeets⟩ : ∃ before after,
      play Screen.step (fun _ _ => True) (Screen.loaded ⟨.empty,[]⟩)
        (replaced ++ [.reloadData .table [⟨0,(0,0)⟩]]) = some after ∧
      before.step (.reloadData .table [⟨0,(0,0)⟩]) = some after ∧
      decide (KeepsAlert id before (.reloadData .table [⟨0,(0,0)⟩])) = false :=
    ⟨((play Screen.step (fun _ _ => True) (Screen.loaded ⟨.empty,[]⟩) replaced).get rfl),_,rfl,
      rfl,rfl⟩
  exact ⟨after,((handed_asTapped id ⟨.empty,[]⟩).2 before _ after hstep
    (of_decide_eq_false hmeets)).imp fun screen' h => ⟨hplay,h⟩⟩

/-- The reload binds the cell of the alert for r1 to r2: Confirm completes r2, of which no
item was checked. -/
theorem not_handed_asTapped : ¬ ∀ (ctx : Context) (screen : Screen),
    Reaches Screen.step (fun _ _ => True) (Screen.loaded ctx) screen →
    ∀ h ∈ screen.handed, h.AsTapped Request.id := by
  intro h
  obtain ⟨screen,hplay,handed,hmem,hid,halert⟩ : ∃ screen,
      play Screen.step (fun _ _ => True) (Screen.loaded ⟨.empty,[]⟩)
        (replaced ++ [.reloadData .table [⟨0,(0,0)⟩],.confirm]) = some screen ∧
      ∃ handed ∈ screen.handed, handed.req.id = some "r2" ∧
        handed.alert.request.map (·.id) = some (some "r1") := ⟨_,rfl,_,.head _,rfl,rfl⟩
  have hreq := (h _ screen (reaches_of_play hplay) handed hmem).req
  rw [hid] at hreq
  exact absurd (halert.symm.trans hreq) (by decide)

end Step

end Answr
