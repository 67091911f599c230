import Zoomies.StoreRows
import Zoomies.AtomicCalls

/-! Authenticator codes and recovery codes as the sign-in compares them. Hashing, sealing and
the code of one time step are given functions. -/
namespace Zoomies.Auth
open Zoomies.Go Zoomies.Store

structure SecretKey where
  sealString : List UInt8 → String → List UInt8
  openString : List UInt8 → Except String String

structure Instruments where
  hashToken : String → String
  verifyPassword : String → String → Bool
  totpCode : String → Int → Except String String
  key : Option SecretKey := none
  totpURI : String → String → String → String
  drawQR : String → Except String String

def totpPeriod : Duration := 30 * second

def totpDigits : Nat := 6

def recoveryCodeChars : Nat := 10

def unixSeconds (t : Time) : Int := (t - unixEpoch) / second

def totpStep (t : Time) : Int := (unixSeconds t).tdiv (totpPeriod / second)

def normaliseCode (code : String) : String :=
  String.ofList (((trimSpace code).toList.filter fun r => !(r == ' ' || r == '-' || r == '\t')).map
    fun r => if 'A' ≤ r ∧ r ≤ 'Z' then r.toLower else r)

def looksLikeRecoveryCode (code : String) : Bool :=
  (normaliseCode code).utf8ByteSize == recoveryCodeChars

def firstMatch (totpCode : Int → Except String String) (code : String) :
    List Int → Option Int → Option Int
  | [], found => found
  | step :: rest, found =>
    match totpCode step with
    | .error _ => none
    | .ok want => firstMatch totpCode code rest (found <|> if want = code then some step else none)

def matchTOTP (ins : Instruments) (secret code : String) (now : Time) : Option Int :=
  let code := normaliseCode code
  if code.utf8ByteSize ≠ totpDigits then none
  else
    let current := totpStep now
    firstMatch (ins.totpCode secret) code [current - 1, current, current + 1] none

theorem firstMatch_eq_some {totpCode : Int → Except String String} {code : String}
    {steps : List Int} (found : Option Int) {step : Int}
    (h : firstMatch totpCode code steps found = some step) :
    found = some step ∨ step ∈ steps ∧ totpCode step = .ok code := by
  induction steps generalizing found with
  | nil => exact .inl h
  | cons s rest ih =>
    rw [firstMatch] at h
    cases hw : totpCode s with
    | error e =>
      rw [hw] at h
      cases h
    | ok want =>
      rw [hw] at h
      rcases ih _ h with hf | ⟨hmem, hcode⟩
      · cases found with
        | some f => exact .inl hf
        | none =>
          right
          by_cases hc : want = code
          · rw [if_pos hc] at hf
            cases hf
            exact ⟨List.mem_cons_self, hw.trans (congrArg _ hc)⟩
          · rw [if_neg hc] at hf
            cases hf
      · exact .inr ⟨List.mem_cons_of_mem s hmem, hcode⟩

theorem matchTOTP_eq_some {ins : Instruments} {secret code : String} {now : Time} {step : Int}
    (h : matchTOTP ins secret code now = some step) :
    (step - totpStep now).natAbs ≤ 1 ∧ ins.totpCode secret step = .ok (normaliseCode code) := by
  rw [matchTOTP] at h
  by_cases hlen : (normaliseCode code).utf8ByteSize ≠ totpDigits
  · rw [if_pos hlen] at h
    cases h
  rw [if_neg hlen] at h
  rcases firstMatch_eq_some _ h with hf | ⟨hmem, hcode⟩
  · cases hf
  refine ⟨?_, hcode⟩
  simp only [List.mem_cons, List.not_mem_nil, or_false] at hmem
  omega

open Zoomies.Prog

structure Account where
  username : String := ""
  passwordHash : String := ""
  disabled : Bool := false
  lastLoginAt : Option Time := none
  deriving DecidableEq

structure TwoStepRow where
  secretEnc : List UInt8 := []
  enabledAt : Option Int := none
  lastStep : Int := 0
  createdAt : Int := 0
  deriving DecidableEq

structure TwoStep where
  secretEnc : List UInt8
  enabledAt : Option Time
  lastStep : Int
  createdAt : Time

def TwoStep.enabled (t : TwoStep) : Bool := t.enabledAt.isSome

def TwoStepRow.scan (r : TwoStepRow) : TwoStep :=
  ⟨r.secretEnc, atp r.enabledAt, r.lastStep, atMillis r.createdAt⟩

structure RecoveryCodeRow where
  codeHash : String
  usedAt : Option Int := none
  createdAt : Int := 0
  deriving DecidableEq

inductive Purpose
  | verify
  | enrol
  deriving DecidableEq

structure ChallengeRow where
  tokenHash : String
  purpose : Purpose := .verify
  ip : String := ""
  userAgent : List UInt8 := []
  failures : Nat := 0
  createdAt : Int := 0
  expiresAt : Int := 0
  deriving DecidableEq

structure SignInChallenge where
  tokenHash : String
  purpose : Purpose
  userAgent : List UInt8
  failures : Nat
  expiresAt : Time

def ChallengeRow.scan (r : ChallengeRow) : SignInChallenge :=
  ⟨r.tokenHash, r.purpose, r.userAgent, r.failures, atMillis r.expiresAt⟩

structure AuthSession where
  tokenHash : String
  userAgent : List UInt8 := []
  ip : String := ""
  expiresAt : Time := 0
  deriving DecidableEq

structure AccountTables where
  user : Option Account := none
  twoStep : Option TwoStepRow := none
  recoveryCodes : List RecoveryCodeRow := []
  challenges : List ChallengeRow := []
  sessions : List AuthSession := []

inductive CallError
  | notFound
  | conflict
  | driver (text : String)
  deriving DecidableEq

inductive TwoStepCall
  | getUser
  | getTwoStep
  | beginTwoStep (secretEnc : List UInt8)
  | confirmTwoStep (step : Int) (codeHashes : List String) (proved : List UInt8)
  | acceptTwoStepStep (step : Int)
  | deleteTwoStep
  | useRecoveryCode (codeHash : String)
  | remainingRecoveryCodes
  | getSignInChallenge (tokenHash : String)
  | failSignInChallenge (tokenHash : String)
  | deleteSignInChallenge (tokenHash : String)
  | createSession (session : AuthSession)
  | touchLogin (now : Time)
  | deleteUserSessionsExcept (keep : String)
  deriving DecidableEq

def TwoStepCall.Answer : TwoStepCall → Type
  -- What the store answers. A count that failed to commit is answered with its error.
  | .getUser => Except CallError Account
  | .getTwoStep => Except CallError TwoStep
  | .acceptTwoStepStep _ | .deleteTwoStep | .useRecoveryCode _ => Except CallError Bool
  | .remainingRecoveryCodes => Except CallError Nat
  | .getSignInChallenge _ => Except CallError SignInChallenge
  | .failSignInChallenge _ => Nat × Option CallError
  | .beginTwoStep _ | .confirmTwoStep _ _ _ | .deleteSignInChallenge _ | .createSession _
  | .touchLogin _ | .deleteUserSessionsExcept _ => Except CallError Unit

structure Around where
  now : Time := 0
  allowed : Bool := true

abbrev TwoStepCall.Reply (o : TwoStepCall) : Type := Around × o.Answer

structure Surroundings where
  storeNow : Time := 0
  around : Around := {}
  error : Option String := none
  atCommit : Bool := false

def Surroundings.attempt {α : Type} (e : Surroundings) (s : AccountTables)
    (done : AccountTables × Except CallError α) : AccountTables × Except CallError α :=
  match e.error with
  | some text => (s, .error (.driver text))
  | none => done

namespace AccountTables
variable (s : AccountTables) (now : Time)

def getUser : Except CallError Account :=
  match s.user with
  | some u => .ok u
  | none => .error .notFound

def getTwoStep : Except CallError TwoStep :=
  match s.twoStep with
  | some r => .ok r.scan
  | none => .error .notFound

def beginTwoStep (secretEnc : List UInt8) : AccountTables × Except CallError Unit :=
  match s.twoStep with
  | none => ({ s with twoStep := some ⟨secretEnc, none, 0, ms now⟩ }, .ok ())
  | some r =>
    if r.enabledAt = none then
      ({ s with twoStep := some { r with
          secretEnc := secretEnc, lastStep := 0, createdAt := ms now } }, .ok ())
    else (s, .error .conflict)

def replaceRecoveryCodes (codeHashes : List String) : Except CallError AccountTables :=
  if codeHashes.Nodup then
    .ok { s with recoveryCodes := codeHashes.map fun h => ⟨h, none, ms now⟩ }
  else .error .conflict

def confirmTwoStep (step : Int) (codeHashes : List String) :
    AccountTables × Except CallError Unit :=
  match s.twoStep with
  | none => (s, .error .conflict)
  | some r =>
    if r.enabledAt = none then
      match replaceRecoveryCodes
          { s with twoStep := some { r with enabledAt := some (ms now), lastStep := step } }
          now codeHashes with
      | .ok s' => (s', .ok ())
      | .error err => (s, .error err)
    else (s, .error .conflict)

def acceptTwoStepStep (step : Int) : AccountTables × Except CallError Bool :=
  match s.twoStep with
  | none => (s, .ok false)
  | some r =>
    if r.enabledAt ≠ none ∧ r.lastStep < step then
      ({ s with twoStep := some { r with lastStep := step } }, .ok true)
    else (s, .ok false)

def deleteTwoStep : AccountTables × Except CallError Bool :=
  ({ s with twoStep := none, recoveryCodes := [], challenges := [] }, .ok s.twoStep.isSome)

def useRecoveryCode (codeHash : String) : AccountTables × Except CallError Bool :=
  let unspent := fun r : RecoveryCodeRow => decide (r.codeHash = codeHash ∧ r.usedAt = none)
  ({ s with recoveryCodes := s.recoveryCodes.map fun r =>
      if unspent r then { r with usedAt := some (ms now) } else r },
    .ok (s.recoveryCodes.countP unspent == 1))

def remainingRecoveryCodes : Nat := s.recoveryCodes.countP fun r => r.usedAt.isNone

def getSignInChallenge (tokenHash : String) : Except CallError SignInChallenge :=
  match s.challenges.find? fun c => c.tokenHash == tokenHash with
  | some c => .ok c.scan
  | none => .error .notFound

def counted (tokenHash : String) : List ChallengeRow :=
  s.challenges.map fun c =>
    if c.tokenHash = tokenHash then { c with failures := c.failures + 1 } else c

def failSignInChallenge (e : Surroundings) (tokenHash : String) :
    AccountTables × (Nat × Option CallError) :=
  let counted := s.counted tokenHash
  match e.error, counted.find? fun c => c.tokenHash == tokenHash with
  | some text, some c => (s, if e.atCommit then c.failures else 0, some (.driver text))
  | some text, none => (s, 0, some (.driver text))
  | none, none => (s, 0, some .notFound)
  | none, some c => ({ s with challenges := counted }, c.failures, none)

def deleteSignInChallenge (tokenHash : String) : AccountTables :=
  { s with challenges := s.challenges.filter fun c => c.tokenHash != tokenHash }

def createSession (session : AuthSession) : AccountTables × Except CallError Unit :=
  if s.sessions.any fun old => old.tokenHash == session.tokenHash then (s, .error .conflict)
  else ({ s with sessions := s.sessions ++ [session] }, .ok ())

def touchLogin (at_ : Time) : AccountTables :=
  { s with user := s.user.map fun u => { u with lastLoginAt := kept (some at_) } }

def deleteUserSessionsExcept (keep : String) : AccountTables :=
  { s with sessions := s.sessions.filter fun session => session.tokenHash == keep }

def exec (e : Surroundings) (_ : Nat) : (o : TwoStepCall) → Option (AccountTables × o.Reply)
  | .getUser => reply (e.attempt s (s, s.getUser))
  | .getTwoStep => reply (e.attempt s (s, s.getTwoStep))
  | .beginTwoStep secretEnc => reply (e.attempt s (s.beginTwoStep e.storeNow secretEnc))
  | .confirmTwoStep step hashes _ => reply (e.attempt s (s.confirmTwoStep e.storeNow step hashes))
  | .acceptTwoStepStep step => reply (e.attempt s (s.acceptTwoStepStep step))
  | .deleteTwoStep => reply (e.attempt s s.deleteTwoStep)
  | .useRecoveryCode h => reply (e.attempt s (s.useRecoveryCode e.storeNow h))
  | .remainingRecoveryCodes => reply (e.attempt s (s, .ok s.remainingRecoveryCodes))
  | .getSignInChallenge h => reply (e.attempt s (s, s.getSignInChallenge h))
  | .failSignInChallenge h => reply (s.failSignInChallenge e h)
  | .deleteSignInChallenge h => reply (e.attempt s (s.deleteSignInChallenge h, .ok ()))
  | .createSession session => reply (e.attempt s (s.createSession session))
  | .touchLogin at_ => reply (e.attempt s (s.touchLogin at_, .ok ()))
  | .deleteUserSessionsExcept keep =>
    reply (e.attempt s (s.deleteUserSessionsExcept keep, .ok ()))
where
  reply {α : Type} (r : AccountTables × α) : Option (AccountTables × (Around × α)) :=
    some (r.1, e.around, r.2)

end AccountTables

abbrev TwoStepProg (α : Type) : Type := Prog TwoStepCall TwoStepCall.Reply α

namespace Calls

abbrev Answered (α : Type) : Type := TwoStepProg (Around × Except CallError α)

abbrev getUser : Answered Account :=
  ask (TwoStepCall.getUser)

abbrev getTwoStep : Answered TwoStep :=
  ask (TwoStepCall.getTwoStep)

abbrev beginTwoStep (secretEnc : List UInt8) : Answered Unit :=
  ask (TwoStepCall.beginTwoStep secretEnc)

abbrev confirmTwoStep (step : Int) (codeHashes : List String) (proved : List UInt8) : Answered Unit :=
  ask (TwoStepCall.confirmTwoStep step codeHashes proved)

abbrev acceptTwoStepStep (step : Int) : Answered Bool :=
  ask (TwoStepCall.acceptTwoStepStep step)

abbrev deleteTwoStep : Answered Bool :=
  ask (TwoStepCall.deleteTwoStep)

abbrev useRecoveryCode (codeHash : String) : Answered Bool :=
  ask (TwoStepCall.useRecoveryCode codeHash)

abbrev remainingRecoveryCodes : Answered Nat :=
  ask (TwoStepCall.remainingRecoveryCodes)

abbrev getSignInChallenge (tokenHash : String) : Answered SignInChallenge :=
  ask (TwoStepCall.getSignInChallenge tokenHash)

abbrev deleteSignInChallenge (tokenHash : String) : Answered Unit :=
  ask (TwoStepCall.deleteSignInChallenge tokenHash)

abbrev createSession (session : AuthSession) : Answered Unit :=
  ask (TwoStepCall.createSession session)

abbrev touchLogin (now : Time) : Answered Unit :=
  ask (TwoStepCall.touchLogin now)

abbrev deleteUserSessionsExcept (keep : String) : Answered Unit :=
  ask (TwoStepCall.deleteUserSessionsExcept keep)

abbrev failSignInChallenge (tokenHash : String) : TwoStepProg (Around × Nat × Option CallError) :=
  ask (TwoStepCall.failSignInChallenge tokenHash)

end Calls

end Zoomies.Auth
