import Answr.SignIn
set_option autoImplicit false

/-! Attempts in flight at once. As long as nothing changes the current user between an
attempt's own sign-in and its role reply, what it delivers is about that user. -/

namespace Answr
open Steps

section Stages

variable {app : App} {n m screen : Nat} {stage stage' : Stage} {a : Attempt}

theorem setStage_get (app : App) (n m : Nat) (stage : Stage) :
    (app.setStage n stage).attempts[m]? =
      app.attempts[m]?.map fun a => if n = m then {a with stage := stage} else a := by
  simp only [App.setStage,List.getElem?_modify]
  rfl

theorem get_setStage (h : (app.setStage n stage).attempts[m]? = some ⟨screen,stage'⟩) :
    (n = m ∧ stage' = stage ∧ ∃ old, app.attempts[m]? = some ⟨screen,old⟩) ∨
      n ≠ m ∧ app.attempts[m]? = some ⟨screen,stage'⟩ := by
  rw [setStage_get,Option.map_eq_some_iff] at h
  obtain ⟨⟨screen₀,old⟩,hget,heq⟩ := h
  by_cases hn : n = m
  · simp only [if_pos hn,Attempt.mk.injEq] at heq
    exact .inl ⟨hn,heq.2.symm,old,heq.1 ▸ hget⟩
  · rw [if_neg hn] at heq
    exact .inr ⟨hn,heq ▸ hget⟩

theorem setStage_self (h : app.attempts[n]? = some ⟨screen,stage'⟩) :
    (app.setStage n stage).attempts[n]? = some ⟨screen,stage⟩ := by
  simp [setStage_get,h]

theorem setStage_other (h : n ≠ m) :
    (app.setStage n stage).attempts[m]? = app.attempts[m]? := by
  simp [setStage_get,h]

theorem get_clicked (h : (app.attempts ++ [⟨screen,.signingIn⟩])[m]? = some a) :
    app.attempts[m]? = some a ∨ m = app.attempts.length ∧ a = ⟨screen,.signingIn⟩ := by
  rw [List.getElem?_append] at h
  split at h
  · exact .inl h
  · rename_i hlen
    rw [List.getElem?_singleton] at h
    split at h
    · exact .inr ⟨by omega,(Option.some.inj h).symm⟩
    · cases h

def Stage.waits : Stage → Bool
  | .signedIn => true
  | .readingRole _ => true
  | _ => false

def Stage.reads : Stage → Bool
  | .readingRole _ => true
  | _ => false

theorem get_of_waits (h : (app.setStage n stage).attempts[m]? = some ⟨screen,stage'⟩)
    (hstage : stage.waits = false) (hwaits : stage'.waits = true) :
    app.attempts[m]? = some ⟨screen,stage'⟩ := by
  rcases get_setStage h with ⟨-,rfl,-⟩ | ⟨-,hold⟩
  · rw [hstage] at hwaits
    cases hwaits
  · exact hold

end Stages

section Handlers

variable {app : App}

@[simp] theorem signout_attempts (fails : Bool) (app : App) :
    (app.signout fails).attempts = app.attempts := by cases fails <;> rfl

@[simp] theorem signout_deliveries (fails : Bool) (app : App) :
    (app.signout fails).deliveries = app.deliveries := by cases fails <;> rfl

@[simp] theorem signout_running (fails : Bool) (app : App) :
    (app.signout fails).running = app.running := by cases fails <;> rfl

@[simp] theorem signout_loginScreen (fails : Bool) (app : App) :
    (app.signout fails).loginScreen = app.loginScreen := by cases fails <;> rfl

theorem scene_user (fails : Bool) (app : App) :
    (app.scene fails).currentUser = app.currentUser := by
  cases h : app.currentUser with
  | some user => simp [App.scene,App.loggedIn,h]
  | none => cases fails <;> simp [App.scene,App.loggedIn,App.presentSignin,App.signout,h]

@[simp] theorem scene_attempts (fails : Bool) (app : App) :
    (app.scene fails).attempts = app.attempts := by
  unfold App.scene
  split
  · rfl
  · rw [App.presentSignin,signout_attempts]

@[simp] theorem scene_running (fails : Bool) (app : App) :
    (app.scene fails).running = true := by
  unfold App.scene
  split
  · rfl
  · rw [App.presentSignin,signout_running]

@[simp] theorem scene_deliveries (fails : Bool) (app : App) :
    (app.scene fails).deliveries = app.deliveries := by
  unfold App.scene
  split
  · rfl
  · rw [App.presentSignin,signout_deliveries]

theorem profile_signout (fails fails' : Bool) (app : App) :
    (fails && fails') = true ∧
      ((app.signout fails).presentSignin fails').currentUser = app.currentUser ∨
    (fails && fails') = false ∧
      ((app.signout fails).presentSignin fails').currentUser = none := by
  cases fails
  · cases fails'
    · exact .inr ⟨rfl,rfl⟩
    · exact .inr ⟨rfl,rfl⟩
  · cases fails'
    · exact .inr ⟨rfl,rfl⟩
    · exact .inl ⟨rfl,rfl⟩

theorem deliver_eq (n screen : Nat) (read : Option (String × Option String))
    (result : FirAuthHandlerResult) (before : Option User) (app : App) : ∃ login,
    app.deliver n screen read result before = {app.setStage n .over with
      loginScreen := login,
      deliveries := ⟨n,read,result,before,app.currentUser⟩ :: app.deliveries} ∧
    (result ≠ .success → login = app.loginScreen) := by
  by_cases h : result = .success
  · subst h
    refine ⟨(app.finishSignIn screen).loginScreen,?_,by simp⟩
    by_cases hs : app.loginScreen = some screen
    · simp [App.deliver,App.handleHandlerResult,App.finishSignIn,App.setStage,hs]
    · simp [App.deliver,App.handleHandlerResult,App.finishSignIn,App.setStage,hs]
  · refine ⟨app.loginScreen,?_,fun _ => rfl⟩
    cases result <;> first | exact absurd rfl h | rfl

theorem handleAuthErrors_ne (code : AuthErrorCode) :
    handleAuthErrors code ≠ .success ∧ handleAuthErrors code ≠ .wrongRole := by
  cases code <;> simp [handleAuthErrors]

theorem noteRole_eq (uid : String) (role : Option String) (app : App) :
    app.noteRole uid role = {app with currentUser := (app.noteRole uid role).currentUser} := by
  unfold App.noteRole
  split <;> rfl

theorem noteRole_user {app : App} {user : User} (h : app.currentUser = some user) :
    (app.noteRole user.uid (some "volunteer")).currentUser =
      some {user with volunteer := true} := by
  simp [App.noteRole,h]

end Handlers

section Condition

def App.waits (app : App) (n : Nat) : Bool := app.attempts[n]?.any fun a => a.stage.waits

def App.reads (app : App) (n : Nat) : Bool := app.attempts[n]?.any fun a => a.stage.reads

/-- No user is signed in while another attempt waits, and none signed out while an
attempt reads a role. -/
def Undisturbed (app : App) : Event → Prop
  | .authenticated n _ => ∀ m < app.attempts.length, m ≠ n → app.waits m = false
  | .handleSignOut fails fails' =>
    (fails && fails') = true ∨ ∀ m < app.attempts.length, app.reads m = false
  | _ => True

instance (app : App) (e : Event) : Decidable (Undisturbed app e) := by
  cases e <;> unfold Undisturbed <;> infer_instance

/-- What a delivery should be: a success about the user that is signed in, and no
rejection that signs out a user of another attempt. -/
structure Delivery.Sound (d : Delivery) : Prop where
  success : d.result = .success →
    ∃ user, d.after = some user ∧ d.read = some (user.uid,some "volunteer")
  rejected : d.result = .wrongRole → ∀ user, d.before = some user → d.after = none →
    user.attempt = d.attempt

variable {app app' : App} {e : Event} {n m screen : Nat} {stage : Stage} {uid : String}

theorem waits_of_get (h : app.attempts[n]? = some ⟨screen,stage⟩) :
    app.waits n = stage.waits := by simp [App.waits,h]

theorem reads_of_get (h : app.attempts[n]? = some ⟨screen,stage⟩) :
    app.reads n = stage.reads := by simp [App.reads,h]

theorem lt_of_get (h : app.attempts[n]? = some ⟨screen,stage⟩) : n < app.attempts.length :=
  (List.getElem?_eq_some_iff.mp h).1

/-- The invariant: the user that is signed in belongs to the attempt that waits. -/
structure Bound (app : App) : Prop where
  signedIn : ∀ n screen, app.attempts[n]? = some ⟨screen,.signedIn⟩ →
    ∀ user, app.currentUser = some user → user.attempt = n
  reading : ∀ n screen uid, app.attempts[n]? = some ⟨screen,.readingRole uid⟩ →
    ∃ user, app.currentUser = some user ∧ user.uid = uid ∧ user.attempt = n
  sound : ∀ d ∈ app.deliveries, d.Sound

theorem bound_initial : Bound App.initial := ⟨by simp [App.initial],by simp [App.initial],
  by simp [App.initial]⟩

theorem Bound.frame (h : Bound app) (huser : app'.currentUser = app.currentUser)
    (hattempts : ∀ (m screen : Nat) (stage : Stage), app'.attempts[m]? = some ⟨screen,stage⟩ →
      stage.waits = true → app.attempts[m]? = some ⟨screen,stage⟩)
    (hsound : ∀ d ∈ app'.deliveries, d ∈ app.deliveries ∨ d.Sound) : Bound app' where
  signedIn n screen hget user hu :=
    h.signedIn n screen (hattempts n screen _ hget rfl) user (huser ▸ hu)
  reading n screen uid hget := by
    rw [huser]
    exact h.reading n screen uid (hattempts n screen _ hget rfl)
  sound d hd := (hsound d hd).elim (h.sound d) id

theorem Bound.alone (h : Bound app) (hread : app.attempts[n]? = some ⟨screen,.readingRole uid⟩)
    {screen' : Nat} (hm : app.attempts[m]? = some ⟨screen',stage⟩) (hne : n ≠ m) :
    stage.waits = false := by
  obtain ⟨user,huser,-,hn⟩ := h.reading n screen uid hread
  cases stage with
  | signedIn => exact absurd (hn.symm.trans (h.signedIn m screen' hm user huser)) hne
  | readingRole uid' =>
    obtain ⟨user',huser',-,hm'⟩ := h.reading m screen' uid' hm
    rw [huser,Option.some.injEq] at huser'
    exact absurd (hn.symm.trans (huser' ▸ hm')) hne
  | signingIn => rfl
  | «over» => rfl

end Condition

section Step

variable {app app' : App} {e : Event} {n m screen : Nat} {stage : Stage} {uid : String}

theorem step_authError {code : Option AuthErrorCode}
    (h : app.step (.authError n code) = some app') :
    ∃ screen, app.attempts[n]? = some ⟨screen,.signingIn⟩ ∧
      (app' = app.setStage n .over ∨ ∃ code,
        app' = app.deliver n screen none (handleAuthErrors code) app.currentUser) := by
  simp only [App.step] at h
  split at h
  · rename_i screen hget
    refine ⟨screen,hget,?_⟩
    split at h
    · rename_i code
      exact .inr ⟨code,(Option.some.inj h).symm⟩
    · exact .inl (Option.some.inj h).symm
  · cases h

theorem step_authenticated (h : app.step (.authenticated n uid) = some app') :
    ∃ screen, app.attempts[n]? = some ⟨screen,.signingIn⟩ ∧
      app' = {app.setStage n .signedIn with currentUser := some ⟨uid,n,false⟩} := by
  simp only [App.step] at h
  split at h
  · rename_i screen hget
    exact ⟨screen,hget,(Option.some.inj h).symm⟩
  · cases h

theorem step_authCallback (h : app.step (.authCallback n) = some app') :
    ∃ screen, app.attempts[n]? = some ⟨screen,.signedIn⟩ ∧
      (app.currentUser = none ∧ app' = app.setStage n .over ∨
        ∃ user, app.currentUser = some user ∧ app' = app.setStage n (.readingRole user.uid)) := by
  simp only [App.step] at h
  split at h
  · rename_i screen hget
    refine ⟨screen,hget,?_⟩
    split at h
    · rename_i user huser
      exact .inr ⟨user,huser,(Option.some.inj h).symm⟩
    · rename_i huser
      exact .inl ⟨huser,(Option.some.inj h).symm⟩
  · cases h

theorem step_roleReply {role : Option String} {fails : Bool}
    (h : app.step (.roleReply n role fails) = some app') :
    ∃ screen uid, app.attempts[n]? = some ⟨screen,.readingRole uid⟩ ∧
      (role = none ∧ app' = app.deliver n screen (some (uid,role)) .other app.currentUser ∨
      role = some "volunteer" ∧ app' = (app.noteRole uid role).deliver n screen
        (some (uid,role)) .success app.currentUser ∨
      app' = (app.signout fails).deliver n screen (some (uid,role)) .wrongRole
        app.currentUser) := by
  simp only [App.step] at h
  split at h
  · rename_i screen uid hget
    refine ⟨screen,uid,hget,?_⟩
    rw [← Option.some.inj h]
    cases role with
    | none => exact .inl ⟨rfl,rfl⟩
    | some role =>
      by_cases hr : role = "volunteer"
      · subst hr
        exact .inr (.inl ⟨rfl,rfl⟩)
      · exact .inr (.inr (by simp [App.roleCallback,App.noteRole,hr]))
  · cases h

theorem step_handleSignOut {fails fails' : Bool}
    (h : app.step (.handleSignOut fails fails') = some app') :
    app.running = true ∧ app.loginScreen = none ∧
      app' = (app.signout fails).presentSignin fails' := by
  simp only [App.step] at h
  split at h
  · rename_i hopen
    exact ⟨hopen.1,hopen.2,(Option.some.inj h).symm⟩
  · cases h

theorem Bound.quiet (h : Bound app) (hget : app.attempts[n]? = some ⟨screen,.readingRole uid⟩)
    {screen' : Nat} (hm : (app.setStage n .over).attempts[m]? = some ⟨screen',stage⟩) :
    stage.waits = false := by
  rcases get_setStage hm with ⟨-,rfl,-⟩ | ⟨hne,hold⟩
  · rfl
  · exact h.alone hget hold hne

theorem bound_of_quiet (hquiet : ∀ (m screen : Nat) (stage : Stage),
      app.attempts[m]? = some ⟨screen,stage⟩ → stage.waits = false)
    (hsound : ∀ d ∈ app.deliveries, d.Sound) : Bound app where
  signedIn n screen hget := Bool.noConfusion (hquiet n screen _ hget)
  reading n screen _ hget := Bool.noConfusion (hquiet n screen _ hget)
  sound := hsound

theorem Bound.roleReply (h : Bound app) {role : Option String} {fails : Bool}
    (hstep : app.step (.roleReply n role fails) = some app') : Bound app' := by
  obtain ⟨screen,uid,hget,hcases⟩ := step_roleReply hstep
  obtain ⟨user,huser,hid,hn⟩ := h.reading n screen uid hget
  rcases hcases with ⟨rfl,rfl⟩ | ⟨rfl,rfl⟩ | rfl
  · obtain ⟨login,heq,-⟩ := deliver_eq n screen (some (uid,none)) .other app.currentUser app
    rw [heq]
    refine bound_of_quiet (fun m screen' stage => h.quiet hget) ?_
    rintro d (_ | ⟨_,hd⟩)
    · exact ⟨by simp,by simp⟩
    · exact h.sound d hd
  · obtain ⟨login,heq,-⟩ := deliver_eq n screen (some (uid,some "volunteer")) .success
      app.currentUser (app.noteRole uid (some "volunteer"))
    rw [heq,noteRole_eq]
    refine bound_of_quiet (fun m screen' stage => h.quiet hget) ?_
    rintro d (_ | ⟨_,hd⟩)
    · subst hid
      exact ⟨fun _ => ⟨_,noteRole_user huser,rfl⟩,by simp⟩
    · exact h.sound d hd
  · obtain ⟨login,heq,-⟩ := deliver_eq n screen (some (uid,role)) .wrongRole app.currentUser
      (app.signout fails)
    rw [heq]
    refine bound_of_quiet (fun m screen' stage hm => ?_) ?_
    · have hover : (app.setStage n .over).attempts[m]? = some ⟨screen',stage⟩ := by
        simpa [App.setStage] using hm
      exact h.quiet hget hover
    · simp only [signout_deliveries]
      rintro d (_ | ⟨_,hd⟩)
      · refine ⟨by simp,fun _ user' hu' _ => ?_⟩
        rw [huser,Option.some.injEq] at hu'
        exact hu' ▸ hn
      · exact h.sound d hd

theorem Bound.over (h : Bound app) : Bound (app.setStage n .over) :=
  h.frame rfl (fun _ _ _ hm hwaits => get_of_waits hm rfl hwaits) fun _ hd => .inl hd

theorem Bound.authError (h : Bound app) {code : Option AuthErrorCode}
    (hstep : app.step (.authError n code) = some app') : Bound app' := by
  obtain ⟨screen,hget,rfl | ⟨code,rfl⟩⟩ := step_authError hstep
  · exact h.over
  · obtain ⟨login,heq,-⟩ := deliver_eq n screen none (handleAuthErrors code) app.currentUser app
    rw [heq]
    refine h.frame rfl (fun _ _ _ hm hwaits => get_of_waits hm rfl hwaits) ?_
    rintro d (_ | ⟨_,hd⟩)
    · exact .inr ⟨fun hr => absurd hr (handleAuthErrors_ne code).1,
        fun hr => absurd hr (handleAuthErrors_ne code).2⟩
    · exact .inl hd

theorem Bound.authenticated (h : Bound app) (hmeets : Undisturbed app (.authenticated n uid))
    (hstep : app.step (.authenticated n uid) = some app') : Bound app' := by
  obtain ⟨screen,hget,rfl⟩ := step_authenticated hstep
  have hothers : ∀ (m screen : Nat) (stage : Stage), n ≠ m →
      app.attempts[m]? = some ⟨screen,stage⟩ → stage.waits = false := fun m screen stage hne hm =>
    (waits_of_get hm).symm.trans (hmeets m (lt_of_get hm) hne.symm)
  refine ⟨fun m screen' hm user hu => ?_,fun m screen' uid' hm => ?_,h.sound⟩
  · rcases get_setStage hm with ⟨rfl,-⟩ | ⟨hne,hold⟩
    · rw [← Option.some.inj hu]
    · exact Bool.noConfusion (hothers m screen' _ hne hold)
  · rcases get_setStage hm with ⟨-,heq,-⟩ | ⟨hne,hold⟩
    · cases heq
    · exact Bool.noConfusion (hothers m screen' _ hne hold)

theorem Bound.authCallback (h : Bound app) (hstep : app.step (.authCallback n) = some app') :
    Bound app' := by
  obtain ⟨screen,hget,⟨hnone,rfl⟩ | ⟨user,huser,rfl⟩⟩ := step_authCallback hstep
  · exact h.over
  · refine ⟨fun m screen' hm => ?_,fun m screen' uid' hm => ?_,h.sound⟩
    · rcases get_setStage hm with ⟨-,heq,-⟩ | ⟨-,hold⟩
      · cases heq
      · exact h.signedIn m screen' hold
    · rcases get_setStage hm with ⟨rfl,heq,-⟩ | ⟨-,hold⟩
      · rw [Stage.readingRole.injEq] at heq
        exact ⟨user,huser,heq.symm,h.signedIn n screen hget user huser⟩
      · exact h.reading m screen' uid' hold

theorem Bound.handleSignOut (h : Bound app) {fails fails' : Bool}
    (hmeets : Undisturbed app (.handleSignOut fails fails'))
    (hstep : app.step (.handleSignOut fails fails') = some app') : Bound app' := by
  obtain ⟨hrun,hlogin,rfl⟩ := step_handleSignOut hstep
  have hattempts : ((app.signout fails).presentSignin fails').attempts = app.attempts := by
    simp [App.presentSignin]
  have hdeliveries : ((app.signout fails).presentSignin fails').deliveries =
      app.deliveries := by simp [App.presentSignin]
  have hsound : ∀ d ∈ ((app.signout fails).presentSignin fails').deliveries, d.Sound := by
    rw [hdeliveries]
    exact h.sound
  rcases profile_signout fails fails' app with ⟨hfail,huser⟩ | ⟨hdone,hnone⟩
  · exact h.frame huser (fun m screen stage hm _ => hattempts ▸ hm) fun d hd => .inr (hsound d hd)
  · refine ⟨fun m screen hm user hu => ?_,fun m screen uid hm => ?_,hsound⟩
    · rw [hnone] at hu
      cases hu
    · rw [hattempts] at hm
      have hread := hmeets.resolve_left (by simp [hdone]) m (lt_of_get hm)
      rw [reads_of_get hm] at hread
      cases hread

/-- The step lemma. -/
theorem Bound.step (h : Bound app) (hmeets : Undisturbed app e) (hstep : app.step e = some app') :
    Bound app' := by
  cases e with
  | launch fails =>
    simp only [App.step] at hstep
    split at hstep
    · cases hstep
    · rw [← Option.some.inj hstep]
      exact h.frame (scene_user fails app) (fun m screen stage hm _ => by simpa using hm)
        (fun d hd => .inl (by simpa using hd))
  | terminate =>
    simp only [App.step] at hstep
    split at hstep
    · rw [← Option.some.inj hstep]
      refine bound_of_quiet (fun m screen stage hm => ?_) h.sound
      simp only [List.getElem?_map,Option.map_eq_some_iff,Attempt.mk.injEq] at hm
      obtain ⟨a,-,-,rfl⟩ := hm
      rfl
    · cases hstep
  | clickedSignIn =>
    simp only [App.step] at hstep
    split at hstep
    · rename_i screen hscreen
      rw [← Option.some.inj hstep]
      refine h.frame rfl (fun m screen' stage hm hwaits => ?_) fun _ hd => .inl hd
      rcases get_clicked hm with hold | ⟨-,heq⟩
      · exact hold
      · cases heq
        cases hwaits
    · cases hstep
  | authError n code => exact h.authError hstep
  | authenticated n uid => exact h.authenticated hmeets hstep
  | authCallback n => exact h.authCallback hstep
  | roleReply n role fails => exact h.roleReply hstep
  | handleSignOut fails fails' => exact h.handleSignOut hmeets hstep

end Step

section Concurrent

variable {app app' : App} {e : Event} {n m screen : Nat} {stage : Stage} {uid : String}

theorem bound_reached (h : Reaches App.step Undisturbed App.initial app) : Bound app :=
  h.inv (fun _ _ _ hb hm hs => hb.step hm hs) bound_initial

/-- The attempt has just delivered something unsound. -/
def Unsound (m : Nat) (app : App) : Prop :=
  ∃ d, app.deliveries.head? = some d ∧ d.attempt = m ∧ ¬ d.Sound

theorem reply_of_get (hget : app.attempts[n]? = some ⟨screen,.readingRole uid⟩)
    (role : Option String) (fails : Bool) : app.step (.roleReply n role fails) =
      some ((((app.noteRole uid role).roleCallback role fails).1).deliver n screen
        (some (uid,role)) ((app.noteRole uid role).roleCallback role fails).2
        app.currentUser) := by
  simp only [App.step,hget]

theorem rejects_other (hget : app.attempts[m]? = some ⟨screen,.readingRole uid⟩) {user : User}
    (huser : app.currentUser = some user) (hne : user.attempt ≠ m) :
    ∃ app', app.step (.roleReply m (some "elderly") false) = some app' ∧ Unsound m app' := by
  refine ⟨_,reply_of_get hget _ _,
    ⟨m,some (uid,some "elderly"),.wrongRole,some user,none⟩,?_,rfl,fun hd => ?_⟩
  · rw [← huser]
    exact List.head?_cons
  · exact hne (hd.rejected rfl user rfl rfl)

theorem succeeds_signedOut (hget : app.attempts[m]? = some ⟨screen,.readingRole uid⟩)
    (huser : app.currentUser = none) :
    ∃ app', app.step (.roleReply m (some "volunteer") false) = some app' ∧ Unsound m app' := by
  refine ⟨_,reply_of_get hget _ _,⟨m,some (uid,some "volunteer"),.success,none,none⟩,?_,rfl,
    fun hd => ?_⟩
  · have hnote : (app.noteRole uid (some "volunteer")).currentUser = none := by
      simp [App.noteRole,huser]
    have hhead : ((app.noteRole uid (some "volunteer")).deliver m screen
        (some (uid,some "volunteer")) .success app.currentUser).deliveries.head? =
          some ⟨m,some (uid,some "volunteer"),.success,app.currentUser,
            (app.noteRole uid (some "volunteer")).currentUser⟩ := List.head?_cons
    rw [hnote,huser] at hhead
    rw [huser]
    exact hhead
  · obtain ⟨user,huser',-⟩ := hd.success rfl
    cases huser'

/-- After a step that disturbs an attempt which waits, the next replies to that attempt can
make its delivery unsound. -/
theorem unsound_of_disturbed (hstep : app.step e = some app') (h : ¬ Undisturbed app e) :
    ∃ m role, ∃ replies ∈ [[.roleReply m role false],[.authCallback m,.roleReply m role false]],
      ∃ app'', play App.step (fun _ _ => True) app' replies = some app'' ∧ Unsound m app'' := by
  cases e with
  | authenticated n uid =>
    obtain ⟨screen,hget,rfl⟩ := step_authenticated hstep
    simp only [Undisturbed,not_forall,Bool.not_eq_false] at h
    obtain ⟨m,hm,hne,hwaits⟩ := h
    obtain ⟨⟨screen',stage⟩,hother⟩ : ∃ a, app.attempts[m]? = some a :=
      ⟨_,List.getElem?_eq_getElem hm⟩
    rw [waits_of_get hother] at hwaits
    have hkept : (app.setStage n .signedIn).attempts[m]? = some ⟨screen',stage⟩ :=
      (setStage_other hne.symm).trans hother
    cases stage with
    | signedIn =>
      -- its callback takes the new user for its own
      have hcallback : App.step {app.setStage n .signedIn with
          currentUser := some ⟨uid,n,false⟩} (.authCallback m) =
            some (App.setStage m (.readingRole uid) {app.setStage n .signedIn with
              currentUser := some ⟨uid,n,false⟩}) := by
        simp only [App.step,hkept]
      have hread : (App.setStage m (.readingRole uid) {app.setStage n .signedIn with
          currentUser := some ⟨uid,n,false⟩}).attempts[m]? =
            some ⟨screen',.readingRole uid⟩ := setStage_self hkept
      obtain ⟨app'',hs,hunsound⟩ := rejects_other hread rfl hne.symm
      refine ⟨m,some "elderly",_,.tail _ (.head _),app'',?_,hunsound⟩
      simp only [play,hcallback,hs,if_true,Option.bind_some]
    | readingRole uid' =>
      have hread : ({app.setStage n .signedIn with
          currentUser := some ⟨uid,n,false⟩} : App).attempts[m]? =
            some ⟨screen',.readingRole uid'⟩ := hkept
      obtain ⟨app'',hs,hunsound⟩ := rejects_other hread rfl hne.symm
      refine ⟨m,some "elderly",_,.head _,app'',?_,hunsound⟩
      simp only [play,hs,if_true,Option.bind_some]
    | signingIn => cases hwaits
    | «over» => cases hwaits
  | handleSignOut fails fails' =>
    obtain ⟨-,-,rfl⟩ := step_handleSignOut hstep
    simp only [Undisturbed,not_or,not_forall,Bool.not_eq_false] at h
    obtain ⟨hdone,m,hm,hreads⟩ := h
    obtain ⟨⟨screen,stage⟩,hget⟩ : ∃ a, app.attempts[m]? = some a :=
      ⟨_,List.getElem?_eq_getElem hm⟩
    rw [reads_of_get hget] at hreads
    have hnone : ((app.signout fails).presentSignin fails').currentUser = none := by
      rcases profile_signout fails fails' app with ⟨hfail,-⟩ | ⟨-,hnone⟩
      · exact absurd hfail hdone
      · exact hnone
    cases stage with
    | readingRole uid =>
      have hkept : ((app.signout fails).presentSignin fails').attempts[m]? =
          some ⟨screen,.readingRole uid⟩ := by
        simpa [App.presentSignin] using hget
      obtain ⟨app'',hs,hunsound⟩ := succeeds_signedOut hkept hnone
      refine ⟨m,some "volunteer",_,.head _,app'',?_,hunsound⟩
      simp only [play,hs,if_true,Option.bind_some]
    | signingIn => cases hreads
    | signedIn => cases hreads
    | «over» => cases hreads
  | launch fails => exact absurd trivial h
  | terminate => exact absurd trivial h
  | clickedSignIn => exact absurd trivial h
  | authError n code => exact absurd trivial h
  | authCallback n => exact absurd trivial h
  | roleReply n role fails => exact absurd trivial h

/-- In runs whose steps meet the condition every delivery is sound. After a step that does
not meet it, the next replies to some attempt can make its delivery unsound. -/
theorem deliveries_sound (app : App) :
    (Reaches App.step Undisturbed App.initial app → ∀ d ∈ app.deliveries, d.Sound) ∧
    ∀ e app', app.step e = some app' → ¬ Undisturbed app e →
      ∃ m role, ∃ replies ∈ [[.roleReply m role false],[.authCallback m,.roleReply m role false]],
        ∃ app'', play App.step (fun _ _ => True) app' replies = some app'' ∧ Unsound m app'' :=
  ⟨fun h => (bound_reached h).sound,fun _ _ hstep h => unsound_of_disturbed hstep h⟩

def overlapping : List Event := [.launch false,.clickedSignIn,.clickedSignIn,
  .authenticated 0 "u1",.authCallback 0,.roleReply 0 (some "elderly") false,
  .authenticated 1 "u2",.authCallback 1,.roleReply 1 (some "volunteer") false]

def overtakable : App := ⟨some ⟨"u1",0,false⟩,true,1,some 0,
  [⟨0,.readingRole "u1"⟩,⟨0,.signingIn⟩],[]⟩

theorem deliveries_sound_overlapping :
    (∃ app, play App.step Undisturbed App.initial overlapping = some app ∧
      app.deliveries.length = 2 ∧ ∀ d ∈ app.deliveries, d.Sound) ∧
    ∃ m role, ∃ replies ∈ [[.roleReply m role false],[.authCallback m,.roleReply m role false]],
      ∃ app, play App.step (fun _ _ => True)
        {overtakable.setStage 1 .signedIn with currentUser := some ⟨"u2",1,false⟩} replies =
          some app ∧ Unsound m app := by
  refine ⟨?_,(deliveries_sound overtakable).2 (.authenticated 1 "u2") _ rfl (by decide)⟩
  obtain ⟨app,hplay,hlen⟩ : ∃ app, play App.step Undisturbed App.initial overlapping =
      some app ∧ app.deliveries.length = 2 := ⟨_,rfl,rfl⟩
  exact ⟨app,hplay,hlen,(deliveries_sound app).1 (reaches_of_play hplay)⟩

/-- The second attempt signs u2 in while the first reads the role of u1: the first one
reports success for a user whose role nobody has read. -/
theorem not_deliveries_sound : ¬ ∀ app, Reaches App.step (fun _ _ => True) App.initial app →
    ∀ d ∈ app.deliveries, d.Sound := by
  intro h
  obtain ⟨app,hplay,hmem⟩ : ∃ app, play App.step (fun _ _ => True) App.initial
      [.launch false,.clickedSignIn,.clickedSignIn,.authenticated 0 "u1",.authCallback 0,
        .authenticated 1 "u2",.roleReply 0 (some "volunteer") false] = some app ∧
      (⟨0,some ("u1",some "volunteer"),.success,some ⟨"u2",1,false⟩,some ⟨"u2",1,false⟩⟩ :
        Delivery) ∈ app.deliveries := ⟨_,rfl,.head _⟩
  obtain ⟨user,huser,hread⟩ := (h app (reaches_of_play hplay) _ hmem).success rfl
  rw [← Option.some.inj huser] at hread
  exact absurd hread (by decide)

end Concurrent

end Answr
