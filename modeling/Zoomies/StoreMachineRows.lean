import Zoomies.StoreModels
import Zoomies.StoreRows

/-! A machine's row and the statements that write it, each guarded by the row's own columns. -/
namespace Zoomies.Store
open Zoomies.Go

inductive ProviderKind | proxmox | fake
  deriving DecidableEq

def ProviderKind.text : ProviderKind → String
  | .proxmox => "proxmox"
  | .fake => "fake"

inductive SeenFrom | unset | template | machine
  deriving DecidableEq

structure Provider where
  id : String := ""
  kind : ProviderKind := .proxmox
  name : String := ""
  machineLabels : List (String × String) := []
  machineCapacity : Int := 0
  machineBackend : BackendKind := .docker
  machinePlatform : Platform := {}
  machineCPUs : ℚ := 0
  machineMemoryMB : Int := 0
  machineDiskMB : Int := 0
  poolSelector : List (String × String) := []
  maxMachines : Int := 0
  minMachines : Int := 0
  maxCreatesInFlight : Int := 0
  idleTimeout : Duration := 0
  enabled : Bool := false
  paused : Bool := false
  pausedUntil : Option Time := none
  seenCPUs : Int := 0
  seenMemoryMB : Int := 0
  seenDiskMB : Int := 0
  seenFrom : SeenFrom := .unset

inductive MachineState
  | planned | creating | starting | bootstrapping | enrolling | ready | draining
  | deleting | deleted | failed | quarantined
  deriving DecidableEq

def MachineState.pending : MachineState → Bool
  | .planned | .creating | .starting | .bootstrapping | .enrolling => true
  | _ => false

def MachineState.offers (s : MachineState) : Bool := s.pending || s == .ready

inductive MachineOpKind | none | create | start | stop | bootstrap | delete
  deriving DecidableEq

structure Machine where
  id : String := ""
  providerID : String := ""
  name : String := ""
  state : MachineState := .planned
  message : String := ""
  ownerControllerID : String := ""
  ownerFingerprint : String := ""
  resourceZone : String := ""
  resourceID : String := ""
  address : String := ""
  ownershipVerifiedAt : Option Time := none
  ownershipError : String := ""
  hostID : String := ""
  joinTokenID : String := ""
  capacity : Int := 0
  test : Bool := false
  opID : String := ""
  opKind : MachineOpKind := .none
  opHandle : String := ""
  opHolder : String := ""
  opStartedAt : Option Time := none
  opDeadlineAt : Option Time := none
  opOutcomeUnknown : Bool := false
  attempts : Int := 0
  nextAttemptAt : Option Time := none
  providerError : String := ""
  bootstrapError : String := ""
  createdAt : Time := 0
  updatedAt : Time := 0
  createStartedAt : Option Time := none
  createdOKAt : Option Time := none
  startedAt : Option Time := none
  bootstrappedAt : Option Time := none
  enrolledAt : Option Time := none
  readyAt : Option Time := none
  idleSince : Option Time := none
  drainingAt : Option Time := none
  deleteStartedAt : Option Time := none
  deletedAt : Option Time := none

def Machine.owns (m : Machine) : Bool := m.resourceID != "" && m.deletedAt.isNone

def validMachineTransitions : MachineState → List MachineState
  | .planned => [.creating, .failed, .deleted, .quarantined]
  | .creating => [.starting, .bootstrapping, .deleting, .failed, .quarantined]
  | .starting => [.bootstrapping, .deleting, .failed, .quarantined]
  | .bootstrapping => [.enrolling, .deleting, .failed, .quarantined]
  | .enrolling => [.ready, .deleting, .failed, .quarantined]
  | .ready => [.draining, .deleting, .failed, .quarantined]
  | .draining => [.ready, .deleting, .failed, .quarantined]
  | .deleting => [.deleted, .quarantined]
  | .deleted => []
  | .failed => [.deleting, .deleted, .quarantined]
  | .quarantined => [.deleting, .deleted]

def canTransitionMachine (source target : MachineState) : Bool :=
  source == target || (validMachineTransitions source).contains target

theorem pending_of_canTransition {source target : MachineState}
    (h : canTransitionMachine source target = true) (ht : target.pending = true) :
    source.pending = true := by
  revert h ht
  cases source <;> cases target <;> decide

def MachineState.text : MachineState → String
  | .planned => "planned"
  | .creating => "creating"
  | .starting => "starting"
  | .bootstrapping => "bootstrapping"
  | .enrolling => "enrolling"
  | .ready => "ready"
  | .draining => "draining"
  | .deleting => "deleting"
  | .deleted => "deleted"
  | .failed => "failed"
  | .quarantined => "quarantined"

def machineStates : List MachineState :=
  [.planned, .creating, .starting, .bootstrapping, .enrolling, .ready, .draining, .deleting,
    .deleted, .failed, .quarantined]

variable (s : String) (d : Driver) (now : Time)

def MachineState.ofText : Option MachineState :=
  machineStates.find? fun state => state.text == s

theorem MachineState.ofText_text (state : MachineState) : ofText state.text = some state := by
  cases state <;> rfl

def MachineOpKind.text : MachineOpKind → String
  | .none => ""
  | .create => "create"
  | .start => "start"
  | .stop => "stop"
  | .bootstrap => "bootstrap"
  | .delete => "delete"

def MachineOpKind.ofText : Option MachineOpKind :=
  [MachineOpKind.none, .create, .start, .stop, .bootstrap, .delete].find? fun k => k.text == s

inductive MachineOpOutcome | succeeded | failed | released
  deriving DecidableEq

def MachineOpOutcome.text : MachineOpOutcome → String
  | .succeeded => "succeeded"
  | .failed => "failed"
  | .released => "released"

def MachineOpOutcome.ofText : Option MachineOpOutcome :=
  [MachineOpOutcome.succeeded, .failed, .released].find? fun o => o.text == s

inductive MachineErrorSource | provider | bootstrap
  deriving DecidableEq

def MachineErrorSource.text : MachineErrorSource → String
  | .provider => "provider"
  | .bootstrap => "bootstrap"

def MachineErrorSource.ofText : Option MachineErrorSource :=
  [MachineErrorSource.provider, .bootstrap].find? fun src => src.text == s

structure MachineOperation where
  id : String := ""
  kind : String := ""
  holder : String := ""
  timeout : Duration := 0

structure MachineRow where
  id : String := ""
  providerID : String := ""
  name : String := ""
  state : MachineState := .planned
  message : String := ""
  ownerControllerID : String := ""
  ownerFingerprint : String := ""
  resourceZone : String := ""
  resourceID : String := ""
  address : String := ""
  ownershipVerifiedAt : Option Int := none
  ownershipError : String := ""
  hostID : Option String := none
  joinTokenID : String := ""
  capacity : Int := 0
  test : Bool := false
  opID : String := ""
  opKind : MachineOpKind := .none
  opHandle : String := ""
  opHolder : String := ""
  opStartedAt : Option Int := none
  opDeadlineAt : Option Int := none
  opOutcomeUnknown : Bool := false
  attempts : Int := 0
  nextAttemptAt : Option Int := none
  providerError : String := ""
  bootstrapError : String := ""
  createdAt : Int := 0
  updatedAt : Int := 0
  createStartedAt : Option Int := none
  createdOKAt : Option Int := none
  startedAt : Option Int := none
  bootstrappedAt : Option Int := none
  enrolledAt : Option Int := none
  readyAt : Option Int := none
  idleSince : Option Int := none
  drainingAt : Option Int := none
  deleteStartedAt : Option Int := none
  deletedAt : Option Int := none
  deriving DecidableEq

def scanMachine (r : MachineRow) : Machine where
  -- The machine a row is read as. A stamp in the epoch's own millisecond reads as none.
  id := r.id
  providerID := r.providerID
  name := r.name
  state := r.state
  message := r.message
  ownerControllerID := r.ownerControllerID
  ownerFingerprint := r.ownerFingerprint
  resourceZone := r.resourceZone
  resourceID := r.resourceID
  address := r.address
  ownershipVerifiedAt := atp r.ownershipVerifiedAt
  ownershipError := r.ownershipError
  hostID := r.hostID.getD ""
  joinTokenID := r.joinTokenID
  capacity := r.capacity
  test := r.test
  opID := r.opID
  opKind := r.opKind
  opHandle := r.opHandle
  opHolder := r.opHolder
  opStartedAt := atp r.opStartedAt
  opDeadlineAt := atp r.opDeadlineAt
  opOutcomeUnknown := r.opOutcomeUnknown
  attempts := r.attempts
  nextAttemptAt := atp r.nextAttemptAt
  providerError := r.providerError
  bootstrapError := r.bootstrapError
  createdAt := atMillis r.createdAt
  updatedAt := atMillis r.updatedAt
  createStartedAt := atp r.createStartedAt
  createdOKAt := atp r.createdOKAt
  startedAt := atp r.startedAt
  bootstrappedAt := atp r.bootstrappedAt
  enrolledAt := atp r.enrolledAt
  readyAt := atp r.readyAt
  idleSince := atp r.idleSince
  drainingAt := atp r.drainingAt
  deleteStartedAt := atp r.deleteStartedAt
  deletedAt := atp r.deletedAt

variable (taken : Bool) (id : String) (op : MachineOperation) (minted opID : String)

def getMachine (row : Option MachineRow) : Except StoreError Machine :=
  match d.queryError with
  | some e => .error (.driver e)
  | none =>
    match row with
    | none => .error (.notFound ("machine " ++ id ++ ": not found"))
    | some r => .ok (scanMachine r)

def updateReturning (guard : MachineRow → Bool)
    (write : MachineRow → MachineRow) (row : Option MachineRow) :
    Option MachineRow × Except StoreError MachineRow :=
  tx d row <|
    match d.queryError with
    | some e => .error (.driver e)
    | none =>
      match row.filter guard with
      | none => .error .noRows
      | some r =>
        if taken then .error (.conflict "already exists: UNIQUE constraint failed")
        else .ok (some (write r), write r)

def updateWhere (guard : MachineRow → Bool) (write : MachineRow → MachineRow) :
    Option MachineRow → Option MachineRow :=
  Option.map fun r => if guard r then write r else r

def stampOnce (stamp : Option Time) (now : Time) : Option Time := stamp.or (some now)

def Machine.moved (target : MachineState) (message : String) (m : Machine) : Machine :=
  let prev := m.state
  let m := { m with
    state := target
    updatedAt := now
    message := if message ≠ "" then message else m.message }
  match target with
  | .creating => { m with createStartedAt := stampOnce m.createStartedAt now }
  | .starting => { m with createdOKAt := stampOnce m.createdOKAt now }
  | .bootstrapping =>
    { m with
      createdOKAt := stampOnce m.createdOKAt now
      startedAt := stampOnce m.startedAt now }
  | .enrolling => { m with bootstrappedAt := stampOnce m.bootstrappedAt now }
  | .ready =>
    { m with
      enrolledAt := stampOnce m.enrolledAt now
      readyAt := stampOnce m.readyAt now
      idleSince := none }
  | .draining => { m with drainingAt := if prev ≠ .draining then some now else m.drainingAt }
  | .deleting => { m with deleteStartedAt := stampOnce m.deleteStartedAt now }
  | .planned | .deleted | .failed | .quarantined => m

def writeMove (m : Machine) (r : MachineRow) : MachineRow :=
  { r with
    state := m.state
    message := m.message
    updatedAt := ms m.updatedAt
    createStartedAt := msp m.createStartedAt
    createdOKAt := msp m.createdOKAt
    startedAt := msp m.startedAt
    bootstrappedAt := msp m.bootstrappedAt
    enrolledAt := msp m.enrolledAt
    readyAt := msp m.readyAt
    idleSince := msp m.idleSince
    drainingAt := msp m.drainingAt
    deleteStartedAt := msp m.deleteStartedAt }

def transitionMachine (target message : String)
    (row : Option MachineRow) : Option MachineRow × Except StoreError Machine :=
  match MachineState.ofText target with
  | none => (row, .error (.invalidTransition
      ("invalid state transition: " ++ quoted target ++ " is not a machine state")))
  | some target => tx d row <|
      match getMachine d id row with
      | .error e => .error e
      | .ok m =>
        if !canTransitionMachine m.state target then
          .error (.invalidTransition ("invalid state transition: machine " ++ id ++
            " cannot go " ++ m.state.text ++ " -> " ++ target.text))
        else
          let moved := m.moved now target message
          refusing d.execError (row.map (writeMove moved), moved)

def writeResource (zone resourceID fingerprint controllerID : String) (now : Time)
    (r : MachineRow) : MachineRow :=
  { r with
    resourceZone := zone
    resourceID := resourceID
    ownerFingerprint := fingerprint
    ownerControllerID := controllerID
    updatedAt := ms now }

def setMachineResource (zone resourceID fingerprint controllerID : String) (row : Option MachineRow) :
    Option MachineRow × Except StoreError Unit :=
  if resourceID = "" then
    (row, .error (.refused ("machine " ++ id ++ ": a resource identity needs an id from the " ++
      "provider; allocate one before recording it")))
  else
    let written := updateReturning d taken (·.resourceID == "")
      (writeResource zone resourceID fingerprint controllerID now) row
    match written.2 with
    | .ok _ => (written.1, .ok ())
    | .error .noRows =>
      match getMachine d id row with
      | .error e => (written.1, .error e)
      | .ok current => (written.1, .error (.conflict ("already exists: machine " ++ id ++
          " already names " ++ current.resourceID ++ " on " ++ current.resourceZone ++
          ", so it cannot be given " ++ resourceID ++
          "; a machine has one resource for its whole life")))
    | .error e => (written.1, .error e)

def MachineOperation.claimID : String :=
  if op.id = "" then "mop_" ++ minted else op.id

def writeClaim (kind : MachineOpKind) (now : Time)
    (r : MachineRow) : MachineRow :=
  { r with
    opID := op.claimID minted
    opKind := kind
    opHolder := op.holder
    opStartedAt := some (ms now)
    opDeadlineAt := some (ms (now + op.timeout))
    updatedAt := ms now }

def claimMachineOperation
    (now : Time) (row : Option MachineRow) : Option MachineRow × Except StoreError Machine :=
  match MachineOpKind.ofText op.kind with
  | none | some .none => (row, .error (.refused ("machine " ++ id ++ ": " ++ quoted op.kind ++
      " is not an operation this machine can be doing")))
  | some kind =>
    if op.timeout ≤ 0 then
      (row, .error (.refused ("machine " ++ id ++ ": an operation claim needs a timeout; " ++
        "without one a controller that dies mid-call holds this machine for ever")))
    else
      let written := updateReturning d false
        (fun r => r.opID == "" || r.opDeadlineAt.any (· < ms now))
        (writeClaim op minted kind now) row
      match written.2 with
      | .ok r => (written.1, .ok (scanMachine r))
      | .error .noRows =>
        match getMachine d id row with
        | .error e => (written.1, .error e)
        | .ok held => (written.1, .error (.machineBusy
            ("an operation is already in flight for this machine: machine " ++ id ++
              " is doing " ++ held.opKind.text ++ " for " ++ held.opHolder ++ " " ++
              match held.opDeadlineAt with
              | none => "with no deadline"
              | some t => "until " ++ formatRFC3339 t)))
      | .error e => (written.1, .error e)

def setMachineOperationHandle (handle : String) (row : Option MachineRow) :
    Option MachineRow × Except StoreError Unit :=
  exec d row <| updateWhere (fun r => r.opID == opID && r.opHandle == "")
    (fun r => { r with opHandle := handle }) row

def markMachineOutcomeUnknown (detail : String)
    (row : Option MachineRow) : Option MachineRow × Except StoreError Unit :=
  -- `Store.MarkMachineOutcomeUnknown`. The claim stays: nobody knows whether the call happened.
  exec d row <| updateWhere (·.opID == opID)
    (fun r => { r with
      opOutcomeUnknown := true
      providerError := detail
      updatedAt := ms now }) row

def clearOperation (message : String) (r : MachineRow) : MachineRow :=
  { r with
    opID := ""
    opKind := .none
    opHandle := ""
    opHolder := ""
    opStartedAt := none
    opDeadlineAt := none
    opOutcomeUnknown := false
    updatedAt := ms now
    message := if message = "" then r.message else message }

def countOutcome (out : MachineOpOutcome) (message : String) (nextAttempt : Option Time)
    (r : MachineRow) : MachineRow :=
  match out with
  | .succeeded => { r with attempts := 0, nextAttemptAt := none, providerError := "" }
  | .failed =>
    { r with
      attempts := r.attempts + 1
      nextAttemptAt := msp nextAttempt
      providerError := if message = "" then r.providerError else message }
  | .released => { r with nextAttemptAt := msp nextAttempt }

def finishMachineOperation (out message : String)
    (nextAttempt : Option Time) (row : Option MachineRow) :
    Option MachineRow × Except StoreError Unit :=
  match MachineOpOutcome.ofText out with
  | none => (row, .error (.refused ("machine " ++ id ++ ": " ++ quoted out ++
      " is not an operation outcome")))
  | some out =>
    exec d row <| updateWhere (·.opID == opID)
      (fun r => countOutcome out message nextAttempt (clearOperation now message r)) row

def setMachineOwnershipVerified (verified : Time) (row : Option MachineRow) :
    Option MachineRow × Except StoreError Unit :=
  exec d row <| row.map fun r =>
    { r with ownershipVerifiedAt := some (ms verified), ownershipError := "" }

def setMachineOwnershipError (detail : String)
    (row : Option MachineRow) : Option MachineRow × Except StoreError Unit :=
  exec d row <| row.map fun r =>
    { r with
      ownershipError := if detail = "" then
          "ownership could not be verified, and the check did not say why" else detail
      ownershipVerifiedAt := none
      updatedAt := ms now }

def setMachineAddress (address : String) (row : Option MachineRow) :
    Option MachineRow × Except StoreError Unit :=
  exec d row <| row.map fun r => { r with address := address, updatedAt := ms now }

def writeLink (hostID joinTokenID : String) (enrolled now : Time) (r : MachineRow) : MachineRow :=
  { r with
    hostID := some hostID
    joinTokenID := joinTokenID
    enrolledAt := r.enrolledAt.or (some (ms enrolled))
    updatedAt := ms now }

def linkMachineHost (hostID joinTokenID : String)
    (enrolled : Time) (row : Option MachineRow) : Option MachineRow × Except StoreError Unit :=
  let matched := row.any (·.hostID.isNone)
  if !d.readOnly && matched && taken then
    (row, .error (.conflict "already exists: UNIQUE constraint failed"))
  else
    let written := exec d row <| updateWhere (·.hostID.isNone)
      (writeLink hostID joinTokenID enrolled now) row
    match written.2 with
    | .error e => (written.1, .error e)
    | .ok _ =>
      if matched then (written.1, .ok ())
      else
        match getMachine d id row with
        | .error e => (written.1, .error e)
        | .ok current => (written.1, .error (.conflict ("already exists: machine " ++ id ++
            " is already enrolled as host " ++ current.hostID ++
            ", so it cannot also be host " ++ hostID)))

def writeFailure (src : MachineErrorSource) (detail : String) (nextAttempt now : Time)
    (r : MachineRow) : MachineRow :=
  let r := match src with
    | .provider => { r with providerError := detail }
    | .bootstrap => { r with bootstrapError := detail }
  { r with
    attempts := r.attempts + 1
    nextAttemptAt := some (ms nextAttempt)
    updatedAt := ms now }

def recordMachineFailure (src detail : String)
    (nextAttempt : Time) (row : Option MachineRow) : Option MachineRow × Except StoreError Unit :=
  match MachineErrorSource.ofText src with
  | none => (row, .error (.refused ("machine " ++ id ++ ": " ++ quoted src ++
      " is not somewhere a failure can come from")))
  | some src =>
    let detail := if detail = "" then "the attempt failed without saying why" else detail
    exec d row (row.map (writeFailure src detail nextAttempt now))

def confirmMachineDeleted (row : Option MachineRow) : Option MachineRow × Except StoreError Bool :=
  let written := updateReturning d false (·.deletedAt.isNone)
    (fun r => { r with deletedAt := some (ms now), updatedAt := ms now }) row
  match written.2 with
  | .ok r => (written.1, .ok r.deletedAt.isSome)
  | .error .noRows => (written.1, .ok false)
  | .error e => (written.1, .error e)

def prunable (before : Time) (r : MachineRow) : Bool :=
  (r.state == .deleted && r.deletedAt.any (· < ms before)) ||
    (r.state == .failed && r.resourceID == "" && decide (r.updatedAt < ms before))

def pruneMachines (before : Time) (rows : List MachineRow) :
    List MachineRow × Except StoreError (List String) :=
  tx d rows <|
    match d.queryError with
    | some e => .error (.driver e)
    | none => .ok (rows.filter fun r => !prunable before r, (rows.filter (prunable before)).map (·.id))

end Zoomies.Store
