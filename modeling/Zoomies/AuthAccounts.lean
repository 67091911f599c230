import Zoomies.AtomicCalls
import Zoomies.AuthRbac
import Zoomies.StoreRows

/-! Changing accounts: an administrator's edits and the profile a single sign-on login brings, each
request as its store calls. -/
namespace Zoomies.Auth
open Zoomies.Go Zoomies.Store Zoomies.Prog

structure User where
  id : String
  username : String
  email : String := ""
  displayName : String := ""
  role : Role
  passwordHash : String := ""
  oidcSubject : String := ""
  disabled : Bool := false
  mustChangePassword : Bool := false
  lastLoginAt : Option Int := none
  deriving DecidableEq

structure Accounts where
  users : List User
  adminMu : Option Nat := none

inductive AccountCall
  -- The calls. `updateUser` also carries the row as its request read it, which the statement itself
  -- never sees.
  | lock
  | unlock
  | getUser (id : String)
  | getUserByOIDCSubject (sub : String)
  | getUserByUsername (username : String)
  | countAdmins
  | countPlatform
  | updateUser (u before : User)
  | setPassword (userID hash : String)
  | deleteUser (id : String)
  | deleteUserSessions (userID : String)
  | revokeAPITokensForUser (userID : String)

def AccountCall.Answer : AccountCall → Type
  | lock => Unit
  | unlock => Unit
  | getUser _ => Except StoreError User
  | getUserByOIDCSubject _ => Except StoreError User
  | getUserByUsername _ => Except StoreError User
  | countAdmins => Except StoreError Nat
  | countPlatform => Except StoreError Nat
  | _ => Except StoreError Unit

def User.holds (held : Role → Bool) (u : User) : Bool := held u.role && !u.disabled

namespace Accounts
variable (s : Accounts)

def find (p : User → Bool) (missing : StoreError) : Except StoreError User :=
  match s.users.find? p with
  | some u => .ok u
  | none => .error missing

def missing (id : String) : StoreError := .notFound ("user " ++ id ++ ": not found")

def affecting (id : String) (users : List User) : Accounts × Except StoreError Unit :=
  match rowAt User.id id s.users with
  | some _ => ({ s with users := users }, .ok ())
  | none => (s, .error (missing id))

def updateUser (u : User) : Accounts × Except StoreError Unit :=
  let u := { u with username := toLower (trimSpace u.username) }
  if s.users.any fun r => r.id != u.id && r.username == u.username then
    (s, .error (.conflict "UNIQUE constraint failed: users.username"))
  else s.affecting u.id (setAt User.id u.id (fun _ => u) s.users)

def setPassword (userID hash : String) : Accounts × Except StoreError Unit :=
  s.affecting userID (setAt User.id userID
    (fun r => { r with passwordHash := hash, mustChangePassword := false }) s.users)

def deleteUser (id : String) : Accounts × Except StoreError Unit :=
  s.affecting id (s.users.filter fun r => r.id != id)

def call (err : Option String) (i : Nat) : (o : AccountCall) → Option (Accounts × o.Answer)
  | .lock => if s.adminMu = none then some ({ s with adminMu := some i }, ()) else none
  | .unlock => some ({ s with adminMu := none }, ())
  | .getUser id => some (s, refused err (s.find (·.id == id) (missing id)))
  | .getUserByOIDCSubject sub =>
    some (s, refused err (s.find (fun u => u.oidcSubject == sub && u.oidcSubject != "") .noRows))
  | .getUserByUsername username =>
    some (s, refused err (s.find (·.username == toLower (trimSpace username)) .noRows))
  | .countAdmins => some (s, refused err (.ok (s.users.countP (User.holds (Role.atLeast · .admin)))))
  | .countPlatform => some (s, refused err (.ok (s.users.countP (User.holds (· == .platform)))))
  | .updateUser u _ => some (writing err (s.updateUser u))
  | .setPassword userID hash => some (writing err (s.setPassword userID hash))
  | .deleteUser id => some (writing err (s.deleteUser id))
  | .deleteUserSessions _ => some (s, refused err (.ok ()))
  | .revokeAPITokensForUser _ => some (s, refused err (.ok ()))
where
  refused {α : Type} (err : Option String) (answer : Except StoreError α) : Except StoreError α :=
    match err with
    | some text => .error (.driver text)
    | none => answer
  writing (err : Option String) (done : Accounts × Except StoreError Unit) :
      Accounts × Except StoreError Unit :=
    match err with
    | some text => (s, .error (.driver text))
    | none => done

end Accounts

abbrev AccountProg := Prog AccountCall AccountCall.Answer

namespace AccountCalls

def lock : AccountProg Unit := ask AccountCall.lock

def unlock : AccountProg Unit := ask AccountCall.unlock

def getUser (id : String) : AccountProg (Except StoreError User) := ask (AccountCall.getUser id)

def getUserByOIDCSubject (sub : String) : AccountProg (Except StoreError User) :=
  ask (AccountCall.getUserByOIDCSubject sub)

def getUserByUsername (username : String) : AccountProg (Except StoreError User) :=
  ask (AccountCall.getUserByUsername username)

def countAdmins : AccountProg (Except StoreError Nat) := ask AccountCall.countAdmins

def countPlatform : AccountProg (Except StoreError Nat) := ask AccountCall.countPlatform

def updateUser (u before : User) : AccountProg (Except StoreError Unit) :=
  ask (AccountCall.updateUser u before)

def setPassword (userID hash : String) : AccountProg (Except StoreError Unit) :=
  ask (AccountCall.setPassword userID hash)

def deleteUser (id : String) : AccountProg (Except StoreError Unit) := ask (AccountCall.deleteUser id)

def deleteUserSessions (userID : String) : AccountProg (Except StoreError Unit) :=
  ask (AccountCall.deleteUserSessions userID)

def revokeAPITokensForUser (userID : String) : AccountProg (Except StoreError Unit) :=
  ask (AccountCall.revokeAPITokensForUser userID)

end AccountCalls

inductive AccountError
  | store (err : StoreError)
  | invalid (text : String)
  | conflict (text : String)
  | lastAdmin
  | lastPlatform
  | passwordTooShort
  | accountDisabled
  | refused (text : String)
  deriving DecidableEq

abbrev AccountResult := Except AccountError Unit

def minPasswordLength : Nat := 12

def withAdminMu (body : AccountProg AccountResult) : AccountProg AccountResult := do
  AccountCalls.lock
  let r ← body
  AccountCalls.unlock
  pure r

def ensureRemains (held : Role → Bool) (count : AccountProg (Except StoreError Nat))
    (last : AccountError) (existing : User) (newRole : Role) (newDisabled : Bool) :
    AccountProg AccountResult :=
  let still := held newRole && !newDisabled
  let was := held existing.role && !existing.disabled
  if !was || still then pure (.ok ())
  else do
    match ← count with
    | .error err => pure (.error (.store err))
    | .ok n => pure (if n ≤ 1 then .error last else .ok ())

def ensurePlatformRemains (existing : User) (newRole : Role) (newDisabled : Bool) :
    AccountProg AccountResult :=
  ensureRemains (· == .platform) AccountCalls.countPlatform .lastPlatform existing newRole newDisabled

def ensureAdminRemains (existing : User) (newRole : Role) (newDisabled : Bool) :
    AccountProg AccountResult := do
  match ← ensurePlatformRemains existing newRole newDisabled with
  | .error err => pure (.error err)
  | .ok () =>
    ensureRemains (Role.atLeast · .admin) AccountCalls.countAdmins .lastAdmin existing newRole newDisabled

def endAccess (userID : String) : AccountProg Unit := do
  let _ ← AccountCalls.deleteUserSessions userID
  let _ ← AccountCalls.revokeAPITokensForUser userID
  pure ()

def updateUser (u before : User) : AccountProg AccountResult :=
  -- `Service.UpdateUser`; `before` is the row as its caller read it
  withAdminMu do
    match ← AccountCalls.getUser u.id with
    | .error err => pure (.error (.store err))
    | .ok existing =>
      if u.role.valid = false then
        pure (.error (.invalid (quoted u.role.text ++ " is not a role; use " ++ roleList)))
      else do
        match ← ensureAdminRemains existing u.role u.disabled with
        | .error err => pure (.error err)
        | .ok () =>
          match ← AccountCalls.updateUser { u with passwordHash := existing.passwordHash } before with
          | .error (.conflict _) =>
            pure (.error (.conflict ("an account named " ++ quoted u.username ++ " already exists")))
          | .error err => pure (.error (.store err))
          | .ok () => do
            if !existing.disabled && u.disabled then endAccess u.id
            pure (.ok ())

def setUserDisabled (id : String) (disabled : Bool) : AccountProg AccountResult :=
  withAdminMu do
    match ← AccountCalls.getUser id with
    | .error err => pure (.error (.store err))
    | .ok u =>
      if u.disabled = disabled then pure (.ok ())
      else do
        match ← ensureAdminRemains u u.role disabled with
        | .error err => pure (.error err)
        | .ok () =>
          match ← AccountCalls.updateUser { u with disabled := disabled } u with
          | .error err => pure (.error (.store err))
          | .ok () => do
            if disabled then endAccess u.id
            pure (.ok ())

def deleteUser (id : String) : AccountProg AccountResult :=
  withAdminMu do
    match ← AccountCalls.getUser id with
    | .error err => pure (.error (.store err))
    | .ok u =>
      match ← ensureAdminRemains u .viewer true with
      | .error err => pure (.error err)
      | .ok () =>
        match ← AccountCalls.revokeAPITokensForUser id with
        | .error err => pure (.error (.store err))
        | .ok () =>
          match ← AccountCalls.deleteUser id with
          | .error err => pure (.error (.store err))
          | .ok () => pure (.ok ())

def resetPassword (userID newPassword : String) (hashed : Except String String) :
    AccountProg AccountResult := do
  match ← AccountCalls.getUser userID with
  | .error err => pure (.error (.store err))
  | .ok u =>
    if newPassword.length < minPasswordLength then pure (.error .passwordTooShort)
    else
      match hashed with
      | .error text => pure (.error (.refused text))
      | .ok hash => do
        match ← AccountCalls.setPassword u.id hash with
        | .error err => pure (.error (.store err))
        | .ok () =>
          match ← AccountCalls.updateUser { u with passwordHash := hash, mustChangePassword := true } u with
          | .error err => pure (.error (.store err))
          | .ok () => do
            let _ ← AccountCalls.deleteUserSessions u.id
            pure (.ok ())

def roleNamed (text : String) : Role :=
  ([Role.viewer, .operator, .admin, .platform].find? fun r => r.text == text).getD (.unknown text)

structure AccountEdit where
  email : Option String := none
  displayName : Option String := none
  role : Option String := none
  disabled : Option Bool := none

def manageWithin (caller : Option Identity) (role : Role) : Except AccountError Unit :=
  match caller with
  | none => .error (.invalid "an account can only be changed by an authenticated caller")
  | some caller =>
    if caller.role.atLeast role = false then
      .error (.invalid ("the " ++ caller.role.text ++ " role cannot grant or change a " ++
        role.text ++ " account; ask somebody with the " ++ role.text ++ " role"))
    else .ok ()

def AccountEdit.apply (edit : AccountEdit) (u : User) : User :=
  { u with
    email := (edit.email.map trimSpace).getD u.email
    displayName := (edit.displayName.map trimSpace).getD u.displayName
    role := (edit.role.map fun text => roleNamed (toLower (trimSpace text))).getD u.role
    disabled := edit.disabled.getD u.disabled }

def handleUpdateUser (caller : Option Identity) (id : String) (edit : AccountEdit) :
    AccountProg AccountResult := do
  match ← AccountCalls.getUser id with
  | .error err => pure (.error (.store err))
  | .ok u =>
    match manageWithin caller u.role with
    | .error err => pure (.error err)
    | .ok () =>
      match edit.role with
      | none => updateUser (edit.apply u) u
      | some text =>
        let role := roleNamed (toLower (trimSpace text))
        if role.valid = false then
          pure (.error (.invalid (quoted text ++ " is not a role; use " ++ roleList)))
        else
          match manageWithin caller role with
          | .error err => pure (.error err)
          | .ok () => updateUser (edit.apply u) u

structure OIDCConfig where
  linkByUsername : Bool
  mapsRoles : Bool

structure Claims where
  subject : String
  username : Except String String
  email : String
  name : String
  role : Role

variable (cfg : OIDCConfig) (claims : Claims)

def Claims.apply (cfg : OIDCConfig) (username : String) (u : User) : User :=
  { u with
    oidcSubject := claims.subject
    username := username
    email := if claims.email ≠ "" then claims.email else u.email
    displayName := if claims.name ≠ "" then claims.name else u.displayName
    role := if cfg.mapsRoles && claims.role.valid then claims.role else u.role }

def sync (username : String) (u : User) : AccountProg AccountResult :=
  if u.disabled then pure (.error .accountDisabled)
  else if claims.apply cfg username u = u then pure (.ok ())
  else do
    match ← AccountCalls.updateUser (claims.apply cfg username u) u with
    | .error err => pure (.error (.store err))
    | .ok () => pure (.ok ())

def ensureUser : AccountProg AccountResult :=
  if claims.subject = "" then pure (.error (.refused "no verified claims to sign in with"))
  else
    match claims.username with
    | .error text => pure (.error (.refused text))
    | .ok username => do
      match ← AccountCalls.getUserByOIDCSubject claims.subject with
      | .ok u => sync cfg claims username u
      | .error .noRows =>
        match ← AccountCalls.getUserByUsername username with
        | .error .noRows =>
          pure (.error (.refused ("no Zoomies account exists for " ++ quoted username ++
            "; an administrator must create it first, or turn on oidc.allow_signup to create " ++
            "accounts on first sign-in")))
        | .error err => pure (.error (.store err))
        | .ok u =>
          if u.oidcSubject ≠ "" ∧ u.oidcSubject ≠ claims.subject then
            pure (.error (.refused ("the account " ++ quoted username ++
              " is already linked to a different single sign-on identity; " ++
              "an administrator must unlink or rename it")))
          else if u.passwordHash ≠ "" ∧ cfg.linkByUsername = false then
            pure (.error (.refused ("an account named " ++ quoted username ++
              " already exists and signs in with a password, so this single sign-on identity " ++
              "was not linked to it; an administrator can set oidc.link_by_username for the " ++
              "migration, or create an SSO account under another name")))
          else sync cfg claims username { u with oidcSubject := claims.subject }
      | .error err => pure (.error (.store err))

inductive AccountRequest
  | edit (caller : Option Identity) (id : String) (edit : AccountEdit)
  | setDisabled (id : String) (disabled : Bool)
  | delete (id : String)
  | resetPassword (userID newPassword : String) (hashed : Except String String)
  | login (claims : Claims)

def AccountRequest.prog : AccountRequest → AccountProg AccountResult
  | edit caller id e => handleUpdateUser caller id e
  | setDisabled id disabled => setUserDisabled id disabled
  | delete id => deleteUser id
  | resetPassword userID newPassword hashed => Auth.resetPassword userID newPassword hashed
  | login claims => ensureUser cfg claims

end Zoomies.Auth
