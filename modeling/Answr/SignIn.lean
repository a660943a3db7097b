import Mathlib.Data.List.Basic
import Answr.Steps
set_option autoImplicit false

/-! Signing in. An attempt authenticates, reads the role of the user that is then
current, and signs out or dismisses the login screen. Firebase keeps the current user
until it is signed out, also while the app is not running. -/

namespace Answr

section State

inductive FirAuthHandlerResult where
  | invalidEmail | missingEmail | wrongDetails | wrongRole | other | success
  deriving DecidableEq, Repr

inductive AuthErrorCode where
  | invalidEmail | missingEmail | wrongPassword | userNotFound | unlisted (rawValue : Int)
  deriving DecidableEq, Repr

def handleAuthErrors : AuthErrorCode → FirAuthHandlerResult
  | .invalidEmail => .invalidEmail
  | .missingEmail => .missingEmail
  | .wrongPassword => .wrongDetails
  | .userNotFound => .wrongDetails
  | .unlisted _ => .other

/-- The user that is signed in, with the attempt that signed it in and whether its role
was read as "volunteer" since. -/
structure User where
  uid : String
  attempt : Nat
  volunteer : Bool
  deriving DecidableEq, Repr

/-- Where an attempt is: the call to Firebase is out; the user is signed in but the
callback has not run; the role is being read; nothing is outstanding. -/
inductive Stage where
  | signingIn | signedIn | readingRole (uid : String) | over
  deriving DecidableEq, Repr

structure Attempt where
  screen : Nat
  stage : Stage
  deriving DecidableEq, Repr

/-- A result as it was delivered: the attempt, the user whose role it read and what it
read, and the current user before and after. -/
structure Delivery where
  attempt : Nat
  read : Option (String × Option String)
  result : FirAuthHandlerResult
  before : Option User
  after : Option User
  deriving DecidableEq, Repr

structure App where
  currentUser : Option User
  running : Bool
  /-- the login screens presented so far, and the one over the main screen -/
  screens : Nat
  loginScreen : Option Nat
  attempts : List Attempt
  deliveries : List Delivery
  deriving DecidableEq, Repr

def App.initial : App := ⟨none,false,0,none,[],[]⟩

end State

section Handlers

def App.loggedIn (app : App) : Bool := app.currentUser.isSome

/-- Firebase may refuse to sign out; the error is printed only. -/
def App.signout (fails : Bool) (app : App) : App :=
  if fails then app else {app with currentUser := none}

/-- The login screen signs out when it loads. -/
def App.presentSignin (fails : Bool) (app : App) : App :=
  {app with loginScreen := some app.screens, screens := app.screens+1}.signout fails

/-- `SceneDelegate.scene(_:willConnectTo:options:)` -/
def App.scene (fails : Bool) (app : App) : App :=
  if app.loggedIn then {app with running := true}
  else {app with running := true}.presentSignin fails

def App.setStage (n : Nat) (stage : Stage) (app : App) : App :=
  {app with attempts := app.attempts.modify n fun a => {a with stage := stage}}

/-- Dismissing a screen that is not presented any more does nothing. -/
def App.finishSignIn (screen : Nat) (app : App) : App :=
  if app.loginScreen = some screen then {app with loginScreen := none} else app

def App.handleHandlerResult (screen : Nat) (result : FirAuthHandlerResult) (app : App) : App :=
  match result with
  | .success => app.finishSignIn screen
  | _ => app

def App.roleCallback (role : Option String) (fails : Bool) (app : App) :
    App × FirAuthHandlerResult :=
  match role with
  | none => (app,.other)
  | some role =>
    if role = "volunteer" then (app,.success) else (app.signout fails,.wrongRole)

/-- The record that the role of the user was read as "volunteer". -/
def App.noteRole (uid : String) (role : Option String) (app : App) : App :=
  if role = some "volunteer" then
    {app with currentUser := app.currentUser.map fun user =>
      if user.uid = uid then {user with volunteer := true} else user}
  else app

def App.deliver (n screen : Nat) (read : Option (String × Option String))
    (result : FirAuthHandlerResult) (before : Option User) (app : App) : App :=
  let done := (app.setStage n .over).handleHandlerResult screen result
  {done with deliveries := ⟨n,read,result,before,app.currentUser⟩ :: done.deliveries}

end Handlers

section Events

/-- What can happen. A `fails` says whether Firebase refuses to sign out. -/
inductive Event where
  | launch (fails : Bool)
  | terminate
  /-- the sign-in button, which is never disabled -/
  | clickedSignIn
  /-- the authentication fails, with a code if the error has one -/
  | authError (n : Nat) (code : Option AuthErrorCode)
  /-- the authentication makes the user the current one -/
  | authenticated (n : Nat) (uid : String)
  /-- the callback of a successful authentication runs -/
  | authCallback (n : Nat)
  /-- the role arrives, `none` when it is missing or not a string -/
  | roleReply (n : Nat) (role : Option String) (fails : Bool)
  /-- the sign-out button of the profile -/
  | handleSignOut (fails fails' : Bool)
  deriving DecidableEq, Repr

def App.step (app : App) : Event → Option App
  | .launch fails => if app.running then none else some (app.scene fails)
  | .terminate =>
    if app.running then some {app with
      running := false, loginScreen := none,
      attempts := app.attempts.map fun a => {a with stage := .over}}
    else none
  | .clickedSignIn =>
    match app.loginScreen with
    | some screen => some {app with attempts := app.attempts ++ [⟨screen,.signingIn⟩]}
    | none => none
  | .authError n code =>
    match app.attempts[n]? with
    | some ⟨screen,.signingIn⟩ =>
      match code with
      | some code =>
        some (app.deliver n screen none (handleAuthErrors code) app.currentUser)
      -- an error without a code ends the attempt without a result
      | none => some (app.setStage n .over)
    | _ => none
  | .authenticated n uid =>
    match app.attempts[n]? with
    | some ⟨_,.signingIn⟩ =>
      some {app.setStage n .signedIn with currentUser := some ⟨uid,n,false⟩}
    | _ => none
  | .authCallback n =>
    match app.attempts[n]? with
    | some ⟨_,.signedIn⟩ =>
      match app.currentUser with
      | some user => some (app.setStage n (.readingRole user.uid))
      | none => some (app.setStage n .over)
    | _ => none
  | .roleReply n role fails =>
    match app.attempts[n]? with
    | some ⟨screen,.readingRole uid⟩ =>
      let (app',result) := (app.noteRole uid role).roleCallback role fails
      some (app'.deliver n screen (some (uid,role)) result app.currentUser)
    | _ => none
  | .handleSignOut fails fails' =>
    if app.running ∧ app.loginScreen = none then
      some ((app.signout fails).presentSignin fails')
    else none

end Events

end Answr
