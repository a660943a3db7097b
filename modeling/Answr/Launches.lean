import Answr.SignInRuns
set_option autoImplicit false

/-! Launching the app. The main screen is shown to whoever is signed in, and only an
attempt that runs to its end has had a look at the role. -/

namespace Answr
open Steps

section Conditions

def App.mainShown (app : App) : Prop := app.running = true ∧ app.loginScreen = none

/-- Behind the main screen there is a user whose role was read as "volunteer" since. -/
def App.guarded (app : App) : Prop :=
  app.mainShown → ∃ user, app.currentUser = some user ∧ user.volunteer = true

/-- A user is signed in whose role has not been read as "volunteer" since: the reply is
outstanding, or there was no role. -/
def App.unread (app : App) : Bool := app.currentUser.any fun user => !user.volunteer

def App.idle (app : App) : Prop := ∀ a ∈ app.attempts, a.stage = .over

/-- Attempts are made one after the other. -/
def OneAtATime (app : App) : Event → Prop
  | .clickedSignIn => app.idle
  | _ => True

/-- The app is not terminated on such a user. -/
def Undivided (app : App) : Event → Prop
  | .terminate => app.unread = false
  | _ => True

instance (app : App) : (e : Event) → Decidable (OneAtATime app e)
  | .clickedSignIn => inferInstanceAs (Decidable (∀ a ∈ app.attempts, a.stage = .over))
  | .launch _ | .terminate | .authError _ _ | .authenticated _ _ | .authCallback _
  | .roleReply _ _ _ | .handleSignOut _ _ => .isTrue trivial

instance (app : App) : (e : Event) → Decidable (Undivided app e)
  | .terminate => inferInstanceAs (Decidable (app.unread = false))
  | .launch _ | .clickedSignIn | .authError _ _ | .authenticated _ _ | .authCallback _
  | .roleReply _ _ _ | .handleSignOut _ _ => .isTrue trivial

end Conditions

section Invariant

variable {app app' : App} {e : Event} {n m screen : Nat} {stage : Stage} {uid : String}

/-- An attempt in flight is the only one, under its login screen; an app that is not
running has no unread user. -/
structure Watched (app : App) : Prop where
  bound : Bound app
  flight : ∀ (n screen : Nat) (stage : Stage), app.attempts[n]? = some ⟨screen,stage⟩ →
    stage ≠ .over → app.loginScreen = some screen
  single : ∀ (n m screen screen' : Nat) (stage stage' : Stage),
    app.attempts[n]? = some ⟨screen,stage⟩ → app.attempts[m]? = some ⟨screen',stage'⟩ →
    stage ≠ .over → stage' ≠ .over → n = m
  closed : app.running = false → app.loginScreen = none ∧ app.unread = false
  guarded : app.guarded

theorem watched_initial : Watched App.initial where
  bound := bound_initial
  flight := by simp [App.initial]
  single := by simp [App.initial]
  closed _ := ⟨rfl,rfl⟩
  guarded h := by cases h.1

theorem Watched.idle (h : Watched app) (hlogin : app.loginScreen = none) : app.idle := by
  intro a ha
  obtain ⟨n,hn,rfl⟩ := List.getElem_of_mem ha
  by_contra hover
  have hscreen := h.flight n _ _ (List.getElem?_eq_getElem hn) hover
  rw [hlogin] at hscreen
  cases hscreen

theorem get_of_idle (h : app.idle) (hget : app.attempts[n]? = some ⟨screen,stage⟩) :
    stage = .over := h _ (List.mem_of_getElem? hget)

theorem Watched.undisturbed (h : Watched app) (hstep : app.step e = some app') :
    Undisturbed app e := by
  cases e with
  | authenticated n uid =>
    obtain ⟨screen,hget,-⟩ := step_authenticated hstep
    intro m hm hne
    cases hwaits : app.waits m with
    | false => rfl
    | true =>
      have hother := List.getElem?_eq_getElem hm
      rw [waits_of_get hother] at hwaits
      have hover : (app.attempts[m]).stage ≠ .over := fun heq => by simp [heq,Stage.waits] at hwaits
      exact absurd (h.single m n _ _ _ _ hother hget hover (by simp)) hne
  | handleSignOut fails fails' =>
    obtain ⟨-,hlogin,-⟩ := step_handleSignOut hstep
    refine .inr fun m hm => ?_
    obtain ⟨⟨screen,stage⟩,hget⟩ : ∃ a, app.attempts[m]? = some a :=
      ⟨_,List.getElem?_eq_getElem hm⟩
    rw [reads_of_get hget,get_of_idle (h.idle hlogin) hget]
    rfl
  | launch fails => trivial
  | terminate => trivial
  | clickedSignIn => trivial
  | authError n code => trivial
  | authCallback n => trivial
  | roleReply n role fails => trivial

theorem Watched.advance (h : Watched app) (stage' : Stage) (hbound : Bound app')
    (hget : app.attempts[n]? = some ⟨screen,stage⟩) (hin : stage ≠ .over)
    (hattempts : app'.attempts = (app.setStage n stage').attempts)
    (hrunning : app'.running = app.running)
    (hlogin : app'.loginScreen = app.loginScreen) : Watched app' where
  bound := hbound
  flight m screen' stage'' hm hover := by
    rw [hattempts] at hm
    rw [hlogin]
    rcases get_setStage hm with ⟨rfl,-,old,hold⟩ | ⟨-,hold⟩
    · rw [hget,Option.some.injEq,Attempt.mk.injEq] at hold
      exact h.flight n screen' stage (hold.1 ▸ hget) hin
    · exact h.flight m screen' stage'' hold hover
  single m k screen₁ screen₂ stage₁ stage₂ hm hk hm' hk' := by
    rw [hattempts] at hm hk
    have halone : ∀ (j screen₃ : Nat) (stage₃ : Stage),
        (app.setStage n stage').attempts[j]? = some ⟨screen₃,stage₃⟩ → stage₃ ≠ .over → j = n := by
      intro j screen₃ stage₃ hj hover
      rcases get_setStage hj with ⟨rfl,-⟩ | ⟨-,hold⟩
      · rfl
      · exact h.single j n screen₃ screen stage₃ stage hold hget hover hin
    rw [halone m screen₁ stage₁ hm hm',halone k screen₂ stage₂ hk hk']
  closed hr := by
    have hscreen := h.flight n screen stage hget hin
    rw [(h.closed (hrunning ▸ hr)).1] at hscreen
    cases hscreen
  guarded hshown := by
    have hscreen := h.flight n screen stage hget hin
    rw [← hlogin,hshown.2] at hscreen
    cases hscreen

theorem watched_of_idle (hbound : Bound app) (hidle : app.idle)
    (hclosed : app.running = false → app.loginScreen = none ∧ app.unread = false)
    (hguarded : app.guarded) : Watched app where
  bound := hbound
  flight _ _ _ hget hover := absurd (get_of_idle hidle hget) hover
  single _ _ _ _ _ _ hget _ hover := absurd (get_of_idle hidle hget) hover
  closed := hclosed
  guarded := hguarded

theorem idle_of_single (h : Watched app) (hget : app.attempts[n]? = some ⟨screen,stage⟩)
    (hin : stage ≠ .over) : (app.setStage n .over).idle := by
  intro a ha
  obtain ⟨m,hm⟩ := List.getElem?_of_mem ha
  rcases get_setStage hm with ⟨-,hover,-⟩ | ⟨hne,hold⟩
  · exact hover
  · by_contra hover
    exact hne (h.single n m _ _ _ _ hget hold hin hover)

theorem Watched.running_of_flight (h : Watched app)
    (hget : app.attempts[n]? = some ⟨screen,stage⟩) (hin : stage ≠ .over) :
    app.running = true := by
  cases hr : app.running with
  | true => rfl
  | false =>
    have hscreen := h.flight n screen stage hget hin
    rw [(h.closed hr).1] at hscreen
    cases hscreen

theorem Watched.roleReply (h : Watched app) (hbound : Bound app') {role : Option String}
    {fails : Bool} (hstep : app.step (.roleReply n role fails) = some app') : Watched app' := by
  obtain ⟨screen,uid,hget,hcases⟩ := step_roleReply hstep
  have hin : Stage.readingRole uid ≠ .over := by simp
  rcases hcases with ⟨rfl,rfl⟩ | ⟨rfl,rfl⟩ | rfl
  · obtain ⟨login,heq,hlogin⟩ := deliver_eq n screen (some (uid,none)) .other app.currentUser app
    rw [heq] at hbound ⊢
    exact h.advance _ hbound hget hin rfl rfl (hlogin (by simp))
  · obtain ⟨login,heq,-⟩ := deliver_eq n screen (some (uid,some "volunteer")) .success
      app.currentUser (app.noteRole uid (some "volunteer"))
    obtain ⟨user,huser,rfl,-⟩ := h.bound.reading n screen uid hget
    rw [heq,noteRole_eq] at hbound ⊢
    have hidle := idle_of_single h hget hin
    have hrun := h.running_of_flight hget hin
    refine watched_of_idle hbound hidle (fun hr => ?_) fun _ => ⟨_,noteRole_user huser,rfl⟩
    exact absurd (hrun.symm.trans hr) (by simp)
  · obtain ⟨login,heq,hlogin⟩ := deliver_eq n screen (some (uid,role)) .wrongRole
      app.currentUser (app.signout fails)
    rw [heq] at hbound ⊢
    refine h.advance .over hbound hget hin ?_ ?_ ?_
    · simp [App.setStage]
    · simp [App.setStage]
    · simpa using hlogin

theorem Watched.launch (h : Watched app) (hbound : Bound app') {fails : Bool}
    (hstep : app.step (.launch fails) = some app') : Watched app' := by
  simp only [App.step] at hstep
  split at hstep
  · cases hstep
  · rename_i hr
    obtain ⟨hlogin,hread⟩ := h.closed (by simpa using hr)
    rw [← Option.some.inj hstep] at hbound ⊢
    refine watched_of_idle hbound ?_ ?_ ?_
    · rw [App.idle,scene_attempts]
      exact h.idle hlogin
    · simp
    · -- the login screen stays away only if a user is signed in
      intro hshown
      cases huser : app.currentUser with
      | none =>
        have hscreen : (app.scene fails).loginScreen = some app.screens := by
          simp [App.scene,App.loggedIn,huser,App.presentSignin]
        rw [hshown.2] at hscreen
        cases hscreen
      | some user =>
        rw [scene_user,huser]
        exact ⟨user,rfl,by simpa [App.unread,huser] using hread⟩

theorem Watched.clickedSignIn (h : Watched app) (hidle : app.idle) (hbound : Bound app')
    (hstep : app.step .clickedSignIn = some app') : Watched app' := by
  simp only [App.step] at hstep
  split at hstep
  · rename_i screen hscreen
    rw [← Option.some.inj hstep] at hbound ⊢
    -- the new attempt is the last one, and the only one in flight
    have hnew : ∀ (m screen' : Nat) (stage : Stage),
        (app.attempts ++ [⟨screen,.signingIn⟩])[m]? = some ⟨screen',stage⟩ →
        stage ≠ .over → m = app.attempts.length ∧ screen' = screen := by
      intro m screen' stage hm hover
      rcases get_clicked hm with hold | ⟨hlast,heq⟩
      · exact absurd (get_of_idle hidle hold) hover
      · rw [Attempt.mk.injEq] at heq
        exact ⟨hlast,heq.1⟩
    refine ⟨hbound,fun m screen' stage hm hover => ?_,?_,fun hr => ?_,fun hshown => ?_⟩
    · rw [(hnew m screen' stage hm hover).2]
      exact hscreen
    · intro m k screen₁ screen₂ stage₁ stage₂ hm hk hm' hk'
      rw [(hnew m screen₁ stage₁ hm hm').1,(hnew k screen₂ stage₂ hk hk').1]
    · exact absurd (hscreen.symm.trans (h.closed hr).1) (by simp)
    · exact absurd (hscreen.symm.trans hshown.2) (by simp)
  · cases hstep

theorem Watched.step (h : Watched app) (hone : OneAtATime app e) (hmeets : Undivided app e)
    (hstep : app.step e = some app') : Watched app' := by
  have hbound := h.bound.step (h.undisturbed hstep) hstep
  cases e with
  | launch fails => exact h.launch hbound hstep
  | terminate =>
    simp only [App.step] at hstep
    split at hstep
    · rw [← Option.some.inj hstep] at hbound ⊢
      refine watched_of_idle hbound ?_ (fun _ => ⟨rfl,hmeets⟩)
        fun hshown => Bool.noConfusion hshown.1
      intro a ha
      obtain ⟨old,-,rfl⟩ := List.mem_map.mp ha
      rfl
    · cases hstep
  | clickedSignIn => exact h.clickedSignIn hone hbound hstep
  | authError n code =>
    obtain ⟨screen,hget,rfl | ⟨code,rfl⟩⟩ := step_authError hstep
    · exact h.advance _ hbound hget (by simp) rfl rfl rfl
    · obtain ⟨login,heq,hlogin⟩ := deliver_eq n screen none (handleAuthErrors code)
        app.currentUser app
      rw [heq] at hbound ⊢
      exact h.advance _ hbound hget (by simp) rfl rfl (hlogin (handleAuthErrors_ne code).1)
  | authenticated n uid =>
    obtain ⟨screen,hget,rfl⟩ := step_authenticated hstep
    exact h.advance _ hbound hget (by simp) rfl rfl rfl
  | authCallback n =>
    obtain ⟨screen,hget,⟨-,rfl⟩ | ⟨user,-,rfl⟩⟩ := step_authCallback hstep
    · exact h.advance _ hbound hget (by simp) rfl rfl rfl
    · exact h.advance _ hbound hget (by simp) rfl rfl rfl
  | roleReply n role fails => exact h.roleReply hbound hstep
  | handleSignOut fails fails' =>
    obtain ⟨hrun,hlogin,rfl⟩ := step_handleSignOut hstep
    refine watched_of_idle hbound ?_ ?_ ?_
    · simpa [App.idle,App.presentSignin] using h.idle hlogin
    · simp [App.presentSignin,hrun]
    · intro hshown
      simp [App.mainShown,App.presentSignin] at hshown

end Invariant

section Runs

variable {app app' : App} {e : Event}

def Careful (app : App) (e : Event) : Prop := OneAtATime app e ∧ Undivided app e

instance (app : App) (e : Event) : Decidable (Careful app e) :=
  inferInstanceAs (Decidable (_ ∧ _))

theorem watched_reached (h : Reaches App.step Careful App.initial app) : Watched app :=
  h.inv (fun _ _ _ hw hm hs => hw.step hm.1 hm.2 hs) watched_initial

theorem unguarded_of_divided (hstep : app.step e = some app') (h : ¬ Undivided app e) :
    ∃ app'', app'.step (.launch false) = some app'' ∧ ¬ app''.guarded := by
  cases e with
  | terminate =>
    simp only [App.step] at hstep
    split at hstep
    · rw [← Option.some.inj hstep]
      obtain ⟨user,huser,hread⟩ : ∃ user, app.currentUser = some user ∧ user.volunteer = false := by
        simpa [Undivided,App.unread,Option.any_eq_true] using h
      refine ⟨_,rfl,fun hguarded => ?_⟩
      obtain ⟨user',huser',hread'⟩ := hguarded (by
        simp [App.mainShown,App.scene,App.loggedIn,huser])
      rw [scene_user,huser,Option.some.injEq] at huser'
      rw [← huser',hread] at hread'
      cases hread'
    · cases hstep
  | launch fails => exact absurd trivial h
  | clickedSignIn => exact absurd trivial h
  | authError n code => exact absurd trivial h
  | authenticated n uid => exact absurd trivial h
  | authCallback n => exact absurd trivial h
  | roleReply n role fails => exact absurd trivial h
  | handleSignOut fails fails' => exact absurd trivial h

/-- In runs that terminate the app on no unread user the main screen is guarded. After any
other termination the next launch shows it unguarded. -/
theorem mainShown_guarded (app : App) :
    (Reaches App.step Careful App.initial app → app.guarded) ∧
    ∀ e app', app.step e = some app' → ¬ Undivided app e →
      ∃ app'', app'.step (.launch false) = some app'' ∧ ¬ app''.guarded :=
  ⟨fun h => (watched_reached h).guarded,fun _ _ hstep h => unguarded_of_divided hstep h⟩

def relaunched : List Event := [.launch false,.clickedSignIn,.authenticated 0 "u1",
  .authCallback 0,.roleReply 0 (some "volunteer") false,.terminate,.launch false]

def interrupted : App := ⟨some ⟨"u1",0,false⟩,true,1,some 0,[⟨0,.readingRole "u1"⟩],[]⟩

theorem mainShown_guarded_relaunched :
    (∃ app, play App.step Careful App.initial relaunched = some app ∧ app.mainShown ∧
      app.guarded) ∧
    ∃ app, App.step ⟨some ⟨"u1",0,false⟩,false,1,none,[⟨0,.over⟩],[]⟩ (.launch false) =
      some app ∧ ¬ app.guarded := by
  refine ⟨?_,(mainShown_guarded interrupted).2 .terminate _ rfl (by decide)⟩
  obtain ⟨app,hplay,hshown⟩ : ∃ app, play App.step Careful App.initial relaunched = some app ∧
      app.mainShown := ⟨_,rfl,⟨rfl,rfl⟩⟩
  exact ⟨app,hplay,hshown,(mainShown_guarded app).1 (reaches_of_play hplay)⟩

/-- There is no role for u1, who stays signed in under the login screen: the next launch
shows u1 the main screen. -/
theorem not_mainShown_guarded :
    ¬ ∀ app, Reaches App.step OneAtATime App.initial app → app.guarded := by
  intro h
  obtain ⟨app,hplay,hshown,huser⟩ : ∃ app, play App.step OneAtATime App.initial
      [.launch false,.clickedSignIn,.authenticated 0 "u1",.authCallback 0,
        .roleReply 0 none false,.terminate,.launch false] = some app ∧ app.mainShown ∧
      app.currentUser = some ⟨"u1",0,false⟩ :=
    ⟨_,rfl,⟨rfl,rfl⟩,rfl⟩
  obtain ⟨user,huser',hread⟩ := h app (reaches_of_play hplay) hshown
  rw [huser,Option.some.injEq] at huser'
  rw [← huser'] at hread
  cases hread

end Runs

end Answr
