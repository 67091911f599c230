import Zoomies.StoreModels
import Zoomies.RowTable

/-! Rows as the store reads them back: a time is in Unix milliseconds, and the epoch's own reads as
none. -/
namespace Zoomies.Store
open Zoomies.Go

def unixEpoch : Time := 62135596800 * second

def ms (t : Time) : Int := (t - unixEpoch) / 1000000

def msp (t : Option Time) : Option Int := t.map ms

def atMillis (v : Int) : Time := v * 1000000 + unixEpoch

def atp : Option Int → Option Time
  | none => none
  | some v => if v = 0 then none else some (atMillis v)

def kept (t : Option Time) : Option Time := atp (msp t)

theorem ms_atMillis {v : Int} : ms (atMillis v) = v := by
  rw [ms, atMillis]
  omega

theorem ms_le_ms {a b : Time} (h : a ≤ b) : ms a ≤ ms b :=
  Int.ediv_le_ediv (by decide) (Int.sub_le_sub_right h unixEpoch)

@[simp] theorem kept_none : kept none = none := rfl

variable {t : Time}

theorem kept_some (h : ms t ≠ 0) : kept (some t) = some (atMillis (ms t)) :=
  if_neg h

theorem kept_of_ms_eq_zero (h : ms t = 0) : kept (some t) = none :=
  if_pos h

@[simp] theorem kept_kept (t : Option Time) : kept (kept t) = kept t := by
  cases t with
  | none => rfl
  | some t =>
    by_cases h : ms t = 0
    · rw [kept_of_ms_eq_zero h, kept_none]
    have hms : ms (atMillis (ms t)) ≠ 0 := by
      rw [ms_atMillis]
      exact h
    rw [kept_some h, kept_some hms, ms_atMillis]

theorem isSome_kept_some (h : ms t ≠ 0) : (kept (some t)).isSome = true := by
  rw [kept_some h]
  rfl

def RunnerState.text : RunnerState → String
  | .provisioning => "provisioning"
  | .registering => "registering"
  | .idle => "idle"
  | .busy => "busy"
  | .draining => "draining"
  | .removed => "removed"
  | .failed => "failed"

def runnerStates : List RunnerState :=
  [.provisioning, .registering, .idle, .busy, .draining, .removed, .failed]

def RunnerState.ofText (s : String) : Option RunnerState :=
  runnerStates.find? fun state => state.text == s

def FaultKind.text : FaultKind → String
  | .unset => ""
  | .hostLost => "host_lost"
  | .outOfMemory => "out_of_memory"
  | .outOfDisk => "out_of_disk"
  | .removed => "removed"
  | .image => "image"
  | .registration => "registration"
  | .backend => "backend"
  | .backendBusy => "backend_busy"
  | .containerConflict => "container_conflict"
  | .config => "config"
  | .runnerExited => "runner_exited"

def allFaultKinds : List FaultKind :=
  [.hostLost, .outOfMemory, .outOfDisk, .removed, .image, .registration, .backend, .backendBusy,
    .containerConflict, .config, .runnerExited]

def FaultKind.normalise (s : String) : FaultKind :=
  if s = "" then .unset
  else (allFaultKinds.find? fun k => k.text == s).getD .runnerExited

inductive StoreError
  | readOnly
  | noRows
  | notFound (text : String)
  | conflict (text : String)
  | invalidTransition (text : String)
  | machineBusy (text : String)
  | refused (text : String)
  | driver (text : String)
  deriving DecidableEq

structure Driver where
  readOnly : Bool := false
  beginError : Option String := none
  queryError : Option String := none
  existsError : Option String := none
  execError : Option String := none
  commitError : Option String := none

def refusing {α : Type} (err : Option String) (a : α) : Except StoreError α :=
  match err with
  | some e => .error (.driver e)
  | none => .ok a

def tx {σ β : Type} (d : Driver) (s : σ) (fn : Except StoreError (σ × β)) :
    σ × Except StoreError β :=
  if d.readOnly then (s, .error .readOnly)
  else
    match d.beginError with
    | some e => (s, .error (.driver e))
    | none => transact (d.commitError.map .driver) s fn

def exec {σ : Type} (d : Driver) (s s' : σ) : σ × Except StoreError Unit :=
  if d.readOnly then (s, .error .readOnly)
  else
    match d.execError with
    | some e => (s, .error (.driver e))
    | none => (s', .ok ())

theorem tx_cases {σ β : Type} {d : Driver} {s : σ} {fn : Except StoreError (σ × β)} :
    (∃ e, tx d s fn = (s, .error e)) ∨ ∃ s' b, fn = .ok (s', b) ∧ tx d s fn = (s', .ok b) := by
  unfold tx
  cases d.readOnly with
  | true => exact .inl ⟨_, rfl⟩
  | false =>
    cases d.beginError with
    | some e => exact .inl ⟨_, rfl⟩
    | none => exact transact_cases

theorem exec_cases {σ : Type} {d : Driver} {s s' : σ} :
    (∃ e, exec d s s' = (s, .error e)) ∨ exec d s s' = (s', .ok ()) := by
  unfold exec
  cases d.readOnly with
  | true => exact .inl ⟨_, rfl⟩
  | false =>
    cases d.execError with
    | some e => exact .inl ⟨_, rfl⟩
    | none => exact .inr rfl

theorem refusing_eq_ok {α : Type} {err : Option String} {a b : α} (h : refusing err a = .ok b) :
    b = a := by
  cases err with
  | some e => cases h
  | none =>
    cases h
    rfl

structure CleanupColumns where
  cleanupError : String := ""
  cleanupFailedAt : Option Int := none
  cleanupAttempts : Int := 0
  registrationDeletedAt : Option Int := none
  cleanedUpAt : Option Int := none
  hostRemovedAt : Option Int := none
  hostCleanupError : String := ""
  registrationCleanupError : String := ""
  deriving DecidableEq

structure RunnerRow extends Runner where
  name : String := ""
  ephemeral : Bool := false
  startedAt : Option Time := none
  jobsHandled : Int := 0
  cleanup : CleanupColumns := {}

structure JobStep where
  number : Int := 0
  name : String := ""
  status : String := ""
  conclusion : String := ""
  startedAt : Option Time := none
  completedAt : Option Time := none
  deriving DecidableEq

structure JobRow extends Job where
  githubJobID : Int := 0
  githubRunID : Int := 0
  conclusion : String := ""
  poolID : String := ""
  runnerName : String := ""
  htmlURL : String := ""
  startedAt : Option Time := none
  completedAt : Option Time := none
  matched : Bool := false
  eligibleAt : Option Time := none
  headBranch : String := ""
  headSHA : String := ""
  runAttempt : Int := 0
  runNumber : Int := 0
  steps : List JobStep := []
  runnerFault : String := ""
  faultKind : String := ""
  cancelRequestedAt : Option Time := none
  controllerVersion : String := ""
  controllerChannel : String := ""
  agentVersion : String := ""
  hostID : String := ""

end Zoomies.Store
