import Zoomies.AuthTwoStepStore

/-! Two-step verification: each request is a program of store calls. The random values a request
draws are part of the request. -/
namespace Zoomies.Auth
open Zoomies.Go

inductive AuthError
  | signInExpired
  | accountDisabled
  | rateLimited
  | invalidTwoStepCode
  | twoStepUnavailable
  | twoStepAlreadyOn
  | twoStepNotOn
  | twoStepNotStarted
  | noEncryptionKey
  | wrongPassword
  | store (err : CallError)
  | failed (doing : String) (err : CallError)
  | unopened (text : String)
  | undrawn (text : String)
  deriving DecidableEq

structure TwoStepSetup where
  secret : String
  uri : String
  qrSVG : String
  deriving DecidableEq

structure SignIn where
  user : Account
  session : String
  recoveryCodeUsed : Bool := false
  recoveryCodesLeft : Nat := 0
  recoveryCodes : List String := []
  deriving DecidableEq

abbrev Checked (α : Type) : Type := Except AuthError α

def maxChallengeFailures : Nat := 5

def twoStepIssuer : String := "Zoomies"

structure AuthConfig where
  ins : Instruments
  sessionTTL : Duration := 0

def truncateBytes (s : List UInt8) (n : Nat) : List UInt8 := if s.length ≤ n then s else s.take n

variable (ins : Instruments) (cfg : AuthConfig) (token : String)

def sealSecret (nonce : List UInt8) (secret : String) : Checked (List UInt8) :=
  match ins.key with
  | none => .error .noEncryptionKey
  | some k => .ok (k.sealString nonce secret)

def openSecret (sealed : List UInt8) : Checked String :=
  match ins.key with
  | none => .error .noEncryptionKey
  | some k =>
    match k.openString sealed with
    | .ok secret => .ok secret
    | .error text => .error (.unopened text)

def hashCodes (codes : List String) : List String :=
  codes.map fun c => ins.hashToken (normaliseCode c)

def challenge (purpose : Purpose) (ua : List UInt8) :
    TwoStepProg (Checked (SignInChallenge × Account × Around)) :=
  if token = "" then pure (.error .signInExpired)
  else do
    let (around, c) ← Calls.getSignInChallenge (ins.hashToken token)
    match c with
    | .error .notFound => pure (.error .signInExpired)
    | .error err => pure (.error (.failed "reading the pending sign-in" err))
    | .ok c =>
      if c.expiresAt ≤ around.now then do
        let _ ← Calls.deleteSignInChallenge c.tokenHash
        pure (.error .signInExpired)
      else if c.purpose ≠ purpose ∨ c.userAgent ≠ truncateBytes ua 512 then
        pure (.error .signInExpired)
      else do
        let (around, u) ← Calls.getUser
        match u with
        | .error .notFound => pure (.error .signInExpired)
        | .error err => pure (.error (.failed "reading the account" err))
        | .ok u =>
          if u.disabled then pure (.error .accountDisabled) else pure (.ok (c, u, around))

def failChallenge {α : Type} (c : SignInChallenge) : TwoStepProg (Checked α) := do
  let (_, n, err) ← Calls.failSignInChallenge c.tokenHash
  if maxChallengeFailures ≤ n ∨ err = some .notFound then do
    let _ ← Calls.deleteSignInChallenge c.tokenHash
    pure (.error .signInExpired)
  else pure (.error .invalidTwoStepCode)

def finish (c : SignInChallenge) (u : Account) (ip : String) (ua : List UInt8)
    (token : String) : TwoStepProg (Checked (String × Account)) := do
  let (around, closed) ← Calls.deleteSignInChallenge c.tokenHash
  match closed with
  | .error err => pure (.error (.failed "closing the pending sign-in" err))
  | .ok () => do
    let session : AuthSession :=
      ⟨cfg.ins.hashToken token, truncateBytes ua 512, ip, around.now + cfg.sessionTTL⟩
    let (around, created) ← Calls.createSession session
    match created with
    | .error err => pure (.error (.failed "creating session" err))
    | .ok () => do
      let _ ← Calls.touchLogin around.now
      pure (.ok (token, { u with lastLoginAt := some around.now }))

def checkSecondFactor (code : String) : TwoStepProg (Checked Bool) := do
  let (around, ts) ← Calls.getTwoStep
  match ts with
  | .error .notFound => pure (.error .twoStepNotOn)
  | .error err => pure (.error (.failed "reading two-step state" err))
  | .ok ts =>
    if ts.enabled = false then pure (.error .twoStepNotOn)
    else if looksLikeRecoveryCode code then do
      let (_, spent) ← Calls.useRecoveryCode (ins.hashToken (normaliseCode code))
      match spent with
      | .error err => pure (.error (.failed "checking a recovery code" err))
      | .ok false => pure (.error .invalidTwoStepCode)
      | .ok true => pure (.ok true)
    else
      match openSecret ins ts.secretEnc with
      | .error err => pure (.error err)
      | .ok secret =>
        match matchTOTP ins secret code around.now with
        | none => pure (.error .invalidTwoStepCode)
        | some step => do
          let (_, fresh) ← Calls.acceptTwoStepStep step
          match fresh with
          | .error err => pure (.error (.failed "recording the code" err))
          | .ok false => pure (.error .invalidTwoStepCode)
          | .ok true => pure (.ok false)

def verified (c : SignInChallenge) (u : Account) (ip : String)
    (ua : List UInt8) (token : String) : Checked Bool → TwoStepProg (Checked SignIn)
  | .error .invalidTwoStepCode => failChallenge c
  | .error err => pure (.error err)
  | .ok usedRecovery => do
    match ← finish cfg c u ip ua token with
    | .error err => pure (.error err)
    | .ok (session, u) =>
      if usedRecovery then do
        let (_, left) ← Calls.remainingRecoveryCodes
        pure (.ok ⟨u, session, true, (left.toOption).getD 0, []⟩)
      else pure (.ok ⟨u, session, false, 0, []⟩)

def verifySignIn (code ip : String) (ua : List UInt8)
    (session : String) : TwoStepProg (Checked SignIn) := do
  match ← challenge cfg.ins token .verify ua with
  | .error err => pure (.error err)
  | .ok (c, u, around) =>
    if around.allowed = false then pure (.error .rateLimited)
    else do
      let checked ← checkSecondFactor cfg.ins code
      verified cfg c u ip ua session checked

def beginTwoStep (ins : Instruments) (host secret : String) (nonce : List UInt8) :
    TwoStepProg (Checked TwoStepSetup) := do
  let (_, u) ← Calls.getUser
  match u with
  | .error err => pure (.error (.store err))
  | .ok u =>
    if u.passwordHash = "" then pure (.error .twoStepUnavailable)
    else
      match sealSecret ins nonce secret with
      | .error err => pure (.error err)
      | .ok sealed => do
        let (_, begun) ← Calls.beginTwoStep sealed
        match begun with
        | .error .conflict => pure (.error .twoStepAlreadyOn)
        | .error err => pure (.error (.failed "storing the new secret" err))
        | .ok () =>
          let label := if host = "" then u.username else u.username ++ " (" ++ host ++ ")"
          let uri := ins.totpURI secret twoStepIssuer label
          match ins.drawQR uri with
          | .error text => pure (.error (.undrawn text))
          | .ok svg => pure (.ok ⟨secret, uri, svg⟩)

def confirmCharged (code keepSession : String) (codes : List String) :
    TwoStepProg (Checked (List String)) := do
  let (around, ts) ← Calls.getTwoStep
  match ts with
  | .error .notFound => pure (.error .twoStepNotStarted)
  | .error err => pure (.error (.store err))
  | .ok ts =>
    if ts.enabled then pure (.error .twoStepAlreadyOn)
    else
      match openSecret ins ts.secretEnc with
      | .error err => pure (.error err)
      | .ok secret =>
        match matchTOTP ins secret code around.now with
        | none => pure (.error .invalidTwoStepCode)
        | some step => do
          let (_, confirmed) ← Calls.confirmTwoStep step (hashCodes ins codes) ts.secretEnc
          match confirmed with
          | .error .conflict => pure (.error .twoStepAlreadyOn)
          | .error err => pure (.error (.failed "turning two-step on" err))
          | .ok () => do
            let keep := if keepSession = "" then "" else ins.hashToken keepSession
            let _ ← Calls.deleteUserSessionsExcept keep
            pure (.ok codes)

def confirmTwoStep (code keepSession : String) (codes : List String) :
    TwoStepProg (Checked (List String)) := do
  let (around, u) ← Calls.getUser
  match u with
  | .error err => pure (.error (.store err))
  | .ok _ =>
    if around.allowed = false then pure (.error .rateLimited)
    else confirmCharged ins code keepSession codes

def enrolDuringSignIn (host : String) (ua : List UInt8)
    (secret : String) (nonce : List UInt8) : TwoStepProg (Checked TwoStepSetup) := do
  match ← challenge ins token .enrol ua with
  | .error err => pure (.error err)
  | .ok _ => beginTwoStep ins host secret nonce

def enrolled (c : SignInChallenge) (u : Account) (ip : String)
    (ua : List UInt8) (token : String) : Checked (List String) → TwoStepProg (Checked SignIn)
  | .error .invalidTwoStepCode => failChallenge c
  | .error err => pure (.error err)
  | .ok codes => do
    match ← finish cfg c u ip ua token with
    | .error err => pure (.error err)
    | .ok (session, u) => pure (.ok ⟨u, session, false, codes.length, codes⟩)

def confirmDuringSignIn (code ip : String) (ua : List UInt8)
    (codes : List String) (session : String) : TwoStepProg (Checked SignIn) := do
  match ← challenge cfg.ins token .enrol ua with
  | .error err => pure (.error err)
  | .ok (c, u, around) =>
    if around.allowed = false then pure (.error .rateLimited)
    else do
      let confirmed ← confirmCharged cfg.ins code "" codes
      enrolled cfg c u ip ua session confirmed

def reauthenticate (password code : String) : TwoStepProg (Checked Account) := do
  let (around, u) ← Calls.getUser
  match u with
  | .error err => pure (.error (.store err))
  | .ok u =>
    if u.passwordHash = "" then pure (.error .twoStepUnavailable)
    else if around.allowed = false then pure (.error .rateLimited)
    else if ins.verifyPassword password u.passwordHash = false then pure (.error .wrongPassword)
    else do
      match ← checkSecondFactor ins code with
      | .error err => pure (.error err)
      | .ok _ => pure (.ok u)

def disableTwoStep (password code : String) : TwoStepProg (Checked Unit) := do
  match ← reauthenticate ins password code with
  | .error err => pure (.error err)
  | .ok _ => do
    let (_, deleted) ← Calls.deleteTwoStep
    match deleted with
    | .error err => pure (.error (.failed "turning two-step off" err))
    | .ok _ => pure (.ok ())

inductive TwoStepRequest
  | beginTwoStep (host secret : String) (nonce : List UInt8)
  | confirmTwoStep (code keepSession : String) (codes : List String)
  | enrolDuringSignIn (challenge host : String) (ua : List UInt8) (secret : String)
      (nonce : List UInt8)
  | confirmDuringSignIn (challenge code ip : String) (ua : List UInt8) (codes : List String)
      (session : String)
  | disableTwoStep (password code : String)
  | verifySignIn (challenge code ip : String) (ua : List UInt8) (session : String)

inductive TwoStepOutcome
  | setup (r : Checked TwoStepSetup)
  | codes (r : Checked (List String))
  | signIn (r : Checked SignIn)
  | done (r : Checked Unit)

def TwoStepRequest.prog : TwoStepRequest → TwoStepProg TwoStepOutcome
  | .beginTwoStep host secret nonce =>
    Auth.beginTwoStep cfg.ins host secret nonce >>= fun r => pure (.setup r)
  | .confirmTwoStep code keepSession codes =>
    Auth.confirmTwoStep cfg.ins code keepSession codes >>= fun r => pure (.codes r)
  | .enrolDuringSignIn token host ua secret nonce =>
    Auth.enrolDuringSignIn cfg.ins token host ua secret nonce >>= fun r => pure (.setup r)
  | .confirmDuringSignIn token code ip ua codes session =>
    Auth.confirmDuringSignIn cfg token code ip ua codes session >>= fun r => pure (.signIn r)
  | .disableTwoStep password code =>
    Auth.disableTwoStep cfg.ins password code >>= fun r => pure (.done r)
  | .verifySignIn token code ip ua session =>
    Auth.verifySignIn cfg token code ip ua session >>= fun r => pure (.signIn r)

def TwoStepRequest.code : TwoStepRequest → String
  | .beginTwoStep _ _ _ | .enrolDuringSignIn _ _ _ _ _ => ""
  | .confirmTwoStep code _ _ | .confirmDuringSignIn _ code _ _ _ _ | .disableTwoStep _ code
  | .verifySignIn _ code _ _ _ => code

abbrev TwoStepWorld : Type :=
  World AccountTables TwoStepRequest TwoStepCall TwoStepCall.Reply TwoStepOutcome

abbrev TwoStepMove : Type := Move TwoStepRequest Surroundings

def TwoStepWorld.run (cfg : AuthConfig) (w : TwoStepWorld) (moves : List TwoStepMove) :
    TwoStepWorld :=
  World.run AccountTables.exec (TwoStepRequest.prog cfg) w moves

inductive SignInPhase
  | fresh
  | opened (tokenHash : String)
  | closing (tokenHash : String)
  | minting
  | ending
  deriving DecidableEq

namespace SignInPhase

def may (tokenHash : String) : SignInPhase → TwoStepCall → Prop
  | fresh, .getSignInChallenge h => h = tokenHash
  | opened _, .getUser | opened _, .getTwoStep | opened _, .useRecoveryCode _
  | opened _, .acceptTwoStepStep _ => True
  | opened h, .failSignInChallenge h' | opened h, .deleteSignInChallenge h'
  | closing h, .deleteSignInChallenge h' => h' = h
  | minting, .createSession _ | ending, .touchLogin _ | ending, .remainingRecoveryCodes => True
  | _, _ => False

def after : SignInPhase → (o : TwoStepCall) → o.Reply → SignInPhase
  | fresh, .getSignInChallenge _, ((_, .ok c) : Around × Except CallError SignInChallenge) =>
    opened c.tokenHash
  | opened h, .failSignInChallenge _, ((_, n, err) : Around × Nat × Option CallError) =>
    if maxChallengeFailures ≤ n ∨ err = some .notFound then closing h else ending
  | opened _, .deleteSignInChallenge _, ((_, .ok _) : Around × Except CallError Unit) => minting
  | opened _, .deleteSignInChallenge _, _ => ending
  | opened h, _, _ => opened h
  | _, _, _ => ending

def settled : SignInPhase → Bool
  | closing _ => false
  | _ => true

end SignInPhase

@[reducible] def signInWatch (tokenHash : String) : Watch TwoStepCall TwoStepCall.Reply where
  State := SignInPhase
  may := SignInPhase.may tokenHash
  after := SignInPhase.after

section
variable (tokenHash : String) {h : String}

abbrev SignsIn {α : Type} (phase : SignInPhase) (p : TwoStepProg α) : Prop :=
  (signInWatch tokenHash).Keeps (fun phase _ => phase.settled = true) phase p

variable {token ip : String} {ua : List UInt8} {c : SignInChallenge} {cfg : AuthConfig}

theorem challenge_signsIn {ins : Instruments} {purpose : Purpose} :
    (signInWatch (ins.hashToken token)).Keeps (fun phase r => phase.settled = true ∧
      ∀ c u around, r = .ok (c, u, around) → phase = .opened c.tokenHash)
      .fresh (challenge ins token purpose ua) := by
  unfold challenge
  have hstop (phase : SignInPhase) (hphase : phase.settled = true) (err : AuthError) :
      (signInWatch (ins.hashToken token)).Keeps (fun phase r => phase.settled = true ∧
        ∀ c u around, r = .ok (c, u, around) → phase = .opened c.tokenHash) phase
        (pure (.error err) : TwoStepProg (Checked (SignInChallenge × Account × Around))) :=
    .pure ⟨hphase, fun _ _ _ hr => by cases hr⟩
  split
  · exact hstop _ rfl _
  refine .ask rfl fun a => ?_
  obtain ⟨around, (_ | _ | err) | c⟩ := a
  · exact hstop _ rfl _
  · exact hstop _ rfl _
  · exact hstop _ rfl _
  dsimp only
  split
  · refine .ask rfl fun a => hstop _ ?_ _
    obtain ⟨around, err | _⟩ := a <;> rfl
  split
  · exact hstop _ rfl _
  refine .ask trivial fun a => ?_
  obtain ⟨around, (_ | _ | err) | u⟩ := a
  · exact hstop _ rfl _
  · exact hstop _ rfl _
  · exact hstop _ rfl _
  dsimp only
  split
  · exact hstop _ rfl _
  refine .pure ⟨rfl, fun c' u' around' hr => ?_⟩
  cases hr
  rfl

theorem checkSecondFactor_signsIn {ins : Instruments} {code : String} :
    (signInWatch tokenHash).Keeps (fun phase _ => phase = .opened h) (.opened h)
      (checkSecondFactor ins code) := by
  refine .ask trivial fun a => ?_
  obtain ⟨around, (_ | _ | err) | ts⟩ := a
  · exact .pure rfl
  · exact .pure rfl
  · exact .pure rfl
  dsimp only
  split
  · exact .pure rfl
  generalize looksLikeRecoveryCode code = likeRecovery
  cases likeRecovery with
  | true =>
    refine .ask trivial fun a => ?_
    obtain ⟨around, err | _ | _⟩ := a <;> exact .pure rfl
  | false =>
    cases openSecret ins ts.secretEnc with
    | error err => exact .pure rfl
    | ok secret =>
      dsimp only
      cases matchTOTP ins secret code around.now with
      | none => exact .pure rfl
      | some step =>
        refine .ask trivial fun a => ?_
        obtain ⟨around, err | _ | _⟩ := a <;> exact .pure rfl

theorem failChallenge_signsIn {α : Type} :
    SignsIn tokenHash (.opened c.tokenHash) (failChallenge c : TwoStepProg (Checked α)) := by
  refine .ask rfl fun a => ?_
  obtain ⟨around, n, err⟩ := a
  dsimp only [SignInPhase.after]
  split
  · exact .ask rfl fun _ => .pure rfl
  · exact .pure rfl

theorem finish_signsIn {u : Account} :
    (signInWatch tokenHash).Keeps (fun phase _ => phase = .ending) (.opened c.tokenHash)
      (finish cfg c u ip ua token) := by
  refine .ask rfl fun a => ?_
  obtain ⟨around, err | _⟩ := a
  · exact .pure rfl
  refine .ask trivial fun a => ?_
  obtain ⟨around, err | _⟩ := a
  · exact .pure rfl
  · exact .ask trivial fun _ => .pure rfl

theorem verified_signsIn {u : Account} {checked : Checked Bool} :
    SignsIn tokenHash (.opened c.tokenHash) (verified cfg c u ip ua token checked) := by
  unfold verified
  split
  · exact failChallenge_signsIn tokenHash
  · exact .pure rfl
  refine (finish_signsIn tokenHash).bind fun phase r hphase => ?_
  subst hphase
  rcases r with err | ⟨session, u⟩
  · exact .pure rfl
  dsimp only
  split
  · exact .ask trivial fun _ => .pure rfl
  · exact .pure rfl

/-- `VerifySignIn` compares one code, and then counts it as wrong or ends the challenge before it
mints a session. -/
theorem verifySignIn_signsIn {code : String}
    {session : String} : SignsIn (cfg.ins.hashToken token) .fresh
      (verifySignIn cfg token code ip ua session) := by
  refine (challenge_signsIn).bind fun phase r hr => ?_
  obtain ⟨hsettled, hopened⟩ := hr
  rcases r with err | ⟨c, u, around⟩
  · exact .pure hsettled
  obtain rfl := hopened c u around rfl
  dsimp only
  split
  · exact .pure rfl
  refine (checkSecondFactor_signsIn _).bind fun phase r hphase => ?_
  subst hphase
  exact verified_signsIn _

end

def Proves (ins : Instruments) (code : String) (sealed : List UInt8) (now : Time) (step : Int) :
    Prop :=
  ∃ secret, openSecret ins sealed = .ok secret ∧ matchTOTP ins secret code now = some step

@[reducible] def confirmWatch (ins : Instruments) (code : String) :
    Watch TwoStepCall TwoStepCall.Reply where
  State := Option (List UInt8 × Time)
  may
    | seen, .confirmTwoStep step _ proved =>
      ∃ now, seen = some (proved, now) ∧ Proves ins code proved now step
    | _, _ => True
  after
    | _, .getTwoStep, ((around, .ok ts) : Around × Except CallError TwoStep) =>
      some (ts.secretEnc, around.now)
    | _, _, _ => none

abbrev Confirms {α : Type} (ins : Instruments) (code : String)
    (seen : Option (List UInt8 × Time)) (p : TwoStepProg α) : Prop :=
  (confirmWatch ins code).Keeps (fun _ _ => True) seen p

section
variable {ins : Instruments} {code : String} {seen : Option (List UInt8 × Time)}

variable {token factor ip : String} {ua : List UInt8} {c : SignInChallenge} {cfg : AuthConfig}
  {u : Account} {codes : List String}

theorem may_confirm {tokenHash : String} (phase : SignInPhase) (seen : Option (List UInt8 × Time))
    (o : TwoStepCall) (h : phase.may tokenHash o) : (confirmWatch ins code).may seen o := by
  cases o with
  | confirmTwoStep step codes proved => cases phase <;> cases h
  | _ => trivial

theorem challenge_confirms {purpose : Purpose} :
    Confirms ins code seen (challenge ins token purpose ua) :=
  challenge_signsIn.allowed may_confirm

theorem checkSecondFactor_confirms : Confirms ins code seen (checkSecondFactor ins factor) :=
  (checkSecondFactor_signsIn "" (h := "")).allowed may_confirm

theorem failChallenge_confirms {α : Type} :
    Confirms ins code seen (failChallenge c : TwoStepProg (Checked α)) :=
  (failChallenge_signsIn "").allowed may_confirm

theorem finish_confirms : Confirms ins code seen (finish cfg c u ip ua token) :=
  (finish_signsIn "").allowed may_confirm

theorem verifySignIn_confirms {session : String} :
    Confirms cfg.ins code seen (verifySignIn cfg token factor ip ua session) :=
  verifySignIn_signsIn.allowed may_confirm

theorem beginTwoStep_confirms {host secret : String} {nonce : List UInt8} :
    Confirms ins code seen (beginTwoStep ins host secret nonce) := by
  refine .ask trivial fun a => ?_
  obtain ⟨around, err | u⟩ := a
  · exact .pure trivial
  dsimp only
  split
  · exact .pure trivial
  cases sealSecret ins nonce secret with
  | error err => exact .pure trivial
  | ok sealed =>
    refine .ask trivial fun a => ?_
    obtain ⟨around, (_ | _ | err) | _⟩ := a
    · exact .pure trivial
    · exact .pure trivial
    · exact .pure trivial
    · generalize ins.drawQR _ = drawn
      cases drawn <;> exact .pure trivial

theorem confirmCharged_confirms {keepSession : String} :
    Confirms ins code seen (confirmCharged ins code keepSession codes) := by
  refine .ask trivial fun a => ?_
  obtain ⟨around, (_ | _ | err) | ts⟩ := a
  · exact .pure trivial
  · exact .pure trivial
  · exact .pure trivial
  dsimp only
  split
  · exact .pure trivial
  cases hsecret : openSecret ins ts.secretEnc with
  | error err => exact .pure trivial
  | ok secret =>
    dsimp only
    cases hstep : matchTOTP ins secret code around.now with
    | none => exact .pure trivial
    | some step =>
      refine .ask ⟨around.now, rfl, secret, hsecret, hstep⟩ fun a => ?_
      obtain ⟨around, (_ | _ | err) | _⟩ := a
      · exact .pure trivial
      · exact .pure trivial
      · exact .pure trivial
      · exact .ask trivial fun _ => .pure trivial

theorem confirmTwoStep_confirms {keepSession : String} :
    Confirms ins code seen (confirmTwoStep ins code keepSession codes) := by
  refine .ask trivial fun a => ?_
  obtain ⟨around, err | u⟩ := a
  · exact .pure trivial
  dsimp only
  split
  · exact .pure trivial
  · exact confirmCharged_confirms

theorem enrolDuringSignIn_confirms {host : String} {secret : String}
    {nonce : List UInt8} :
    Confirms ins code seen (enrolDuringSignIn ins token host ua secret nonce) := by
  refine (challenge_confirms).bind fun s r _ => ?_
  rcases r with err | _
  · exact .pure trivial
  · exact beginTwoStep_confirms

theorem enrolled_confirms {confirmed : Checked (List String)} :
    Confirms ins code seen (enrolled cfg c u ip ua token confirmed) := by
  unfold enrolled
  split
  · exact failChallenge_confirms
  · exact .pure trivial
  · refine (finish_confirms).bind fun s r _ => ?_
    rcases r with err | ⟨session, u⟩ <;> exact .pure trivial

theorem confirmDuringSignIn_confirms {session : String} :
    Confirms cfg.ins code seen (confirmDuringSignIn cfg token code ip ua codes session) := by
  refine (challenge_confirms).bind fun s r _ => ?_
  rcases r with err | ⟨c, u, around⟩
  · exact .pure trivial
  dsimp only
  split
  · exact .pure trivial
  · exact (confirmCharged_confirms).bind fun s r _ => enrolled_confirms

theorem reauthenticate_confirms {password : String} :
    Confirms ins code seen (reauthenticate ins password factor) := by
  refine .ask trivial fun a => ?_
  obtain ⟨around, err | u⟩ := a
  · exact .pure trivial
  dsimp only
  split_ifs
  · exact .pure trivial
  · exact .pure trivial
  · exact .pure trivial
  · refine (checkSecondFactor_confirms).bind fun s r _ => ?_
    rcases r with err | _ <;> exact .pure trivial

theorem disableTwoStep_confirms {password : String} :
    Confirms ins code seen (disableTwoStep ins password factor) := by
  refine (reauthenticate_confirms).bind fun s r _ => ?_
  rcases r with err | u
  · exact .pure trivial
  · refine .ask trivial fun a => ?_
    obtain ⟨around, err | _⟩ := a <;> exact .pure trivial

end

theorem TwoStepRequest.prog_confirms (cfg : AuthConfig) (q : TwoStepRequest)
    (seen : Option (List UInt8 × Time)) : Confirms cfg.ins q.code seen (q.prog cfg) := by
  cases q with
  | beginTwoStep host secret nonce =>
    exact (beginTwoStep_confirms).bind fun _ _ _ => .pure trivial
  | confirmTwoStep code keepSession codes =>
    exact (confirmTwoStep_confirms).bind fun _ _ _ => .pure trivial
  | enrolDuringSignIn token host ua secret nonce =>
    exact (enrolDuringSignIn_confirms).bind fun _ _ _ => .pure trivial
  | confirmDuringSignIn token code ip ua codes session =>
    exact (confirmDuringSignIn_confirms).bind fun _ _ _ => .pure trivial
  | disableTwoStep password code =>
    exact (disableTwoStep_confirms).bind fun _ _ _ => .pure trivial
  | verifySignIn token code ip ua session =>
    exact (verifySignIn_confirms).bind fun _ _ _ => .pure trivial

end Zoomies.Auth
