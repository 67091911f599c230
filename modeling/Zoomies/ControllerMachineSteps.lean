import Zoomies.StoreMachineRows

/-! What a provider is asked and what it answers. -/
namespace Zoomies.Controller
open Zoomies.Go Zoomies.Store

inductive FailureKind
  | config | auth | permission | unreachable | quota | conflict | notFound | refused
  | ambiguous | internal
  deriving DecidableEq

def FailureKind.sentinel : FailureKind → String
  | .config => "provider: configuration is wrong"
  | .auth => "provider: credential was rejected"
  | .permission => "provider: credential is not allowed to do that"
  | .unreachable => "provider: could not be reached"
  | .quota => "provider: refused for want of capacity"
  | .conflict => "provider: resource is held by something else"
  | .notFound => "provider: resource not found"
  | .refused => "provider: refused"
  | .ambiguous => "provider: the outcome of that operation is unknown"
  | .internal => "provider: unclassified provider failure"

structure ProviderError where
  kind : FailureKind
  op : String := ""
  ref : String := ""
  message : String := ""
  remedy : String := ""
  retryAfter : Duration := 0
  cause : Option String := none
  deriving DecidableEq

def ProviderError.text (e : ProviderError) : String :=
  (if e.op ≠ "" then e.op ++ (if e.ref ≠ "" then " " ++ e.ref else "") ++ ": "
    else if e.ref ≠ "" then e.ref ++ ": " else "") ++
  e.kind.sentinel ++ (if e.message ≠ "" then ": " ++ e.message
    else match e.cause with | some cause => ": " ++ cause | none => "") ++
  (if e.remedy ≠ "" then " Fix: " ++ e.remedy else "")

inductive CallError
  | provider (e : ProviderError)
  | sentinel (kind : FailureKind)
  | other (text : String)
  deriving DecidableEq

def CallError.kind : CallError → FailureKind
  | .provider e => e.kind
  | .sentinel kind => kind
  | .other _ => .internal

def CallError.text : CallError → String
  | .provider e => e.text
  | .sentinel kind => kind.sentinel
  | .other text => text

def CallError.retryable (e : CallError) : Bool :=
  match e.kind with
  | .unreachable | .quota | .conflict | .notFound | .refused => true
  | _ => false

def CallError.retryAt (e : CallError) (now : Time) : Option Time :=
  match e with
  | .provider e =>
    if e.retryAfter = 0 ∨ now + e.retryAfter ≤ now then none else some (now + e.retryAfter)
  | _ => none

structure MachineRef where
  zone : String := ""
  id : String := ""
  name : String := ""
  deriving DecidableEq

variable (a : StepAnswers) (s : StepState) (ref : MachineRef)

def MachineRef.recorded : String :=
  if ref.id = "" then ref.name else ref.id

def MachineRef.resource : String × String := (ref.zone, ref.recorded)

structure Owner where
  controllerID : String := ""
  providerID : String := ""
  machineID : String := ""
  fingerprint : String := ""
  deriving DecidableEq

def Owner.zero (o : Owner) : Bool :=
  o.controllerID == "" && o.providerID == "" && o.machineID == "" && o.fingerprint == ""

def Owner.matches_ (o want : Owner) : Bool :=
  o.controllerID == want.controllerID && o.machineID == want.machineID &&
    o.fingerprint == want.fingerprint

inductive SeenPhase | unknown | creating | stopped | running | deleting | gone
  deriving DecidableEq

structure SeenMachine where
  ref : MachineRef := {}
  phase : SeenPhase := .unknown
  owner : Owner := {}
  locked : String := ""
  address : String := ""
  deriving DecidableEq

structure OperationStatus where
  done : Bool := false
  ok : Bool := false
  detail : String := ""
  deriving DecidableEq

inductive ProviderCall
  | allocate (answer : Except CallError MachineRef)
  | operation (handle : String) (answer : Except CallError OperationStatus)
  | inspect (ref : MachineRef) (answer : Except CallError SeenMachine)
  | create (ref : MachineRef) (answer : Except CallError String)

def ProviderCall.missing : ProviderCall → Bool
  | .inspect _ (.error e) => e.kind == .notFound
  | _ => false

def ProviderCall.creates : ProviderCall → Bool
  | .create _ _ => true
  | _ => false

def ProviderCall.unheard : ProviderCall → Bool
  | .create _ (.error e) => e.kind == .ambiguous
  | _ => false

variable (m : Machine) (row : Option MachineRow)

def machineRef : MachineRef where
  -- `machineRef`. A name recorded as the identity is not handed back as one.
  zone := m.resourceZone
  id := if m.resourceID = m.name then "" else m.resourceID
  name := m.name

def ownershipComplaint (got : SeenMachine) : String :=
  let names := "machine " ++ m.id ++ " names " ++ m.resourceID ++ " on " ++ m.resourceZone
  let want : Owner := ⟨m.ownerControllerID, m.providerID, m.id, m.ownerFingerprint⟩
  -- the name first: a recycled identifier comes back without any marks
  if got.ref.name ≠ "" ∧ got.ref.name ≠ m.name then
    names ++ ", but that resource is called " ++ quoted got.ref.name ++ " rather than " ++
      quoted m.name ++ ". Nothing has been deleted"
  else if got.owner.zero then ""
  else if got.owner.machineID ≠ "" ∧ got.owner.machineID ≠ m.id then
    names ++ ", but that resource's ownership record says machine " ++ got.owner.machineID ++
      ". Nothing has been deleted. Check the provider's console, then either release this " ++
      "row -- which forgets the resource without touching it -- or delete the resource by hand"
  else if !got.owner.matches_ want then
    names ++ ", but that resource was created by another controller. Nothing has been " ++
      "deleted. Check the provider's console before releasing this row"
  else ""

theorem resource_machineRef {m : Machine} (hid : m.resourceID ≠ "") :
    (machineRef m).resource = (m.resourceZone, m.resourceID) := by
  unfold machineRef MachineRef.resource MachineRef.recorded
  by_cases h : m.resourceID = m.name
  · simp [h]
  · simp [h, hid]

def machineMaxAttempts : Int := 5
def machineRetryBase : Duration := 20 * second
def machineRetryMax : Duration := 15 * 60 * second
def machineClaimMargin : Duration := 30 * second

structure StepAnswers where
  passNow : Time
  now : Time
  mayAct : Bool := true
  held : String := ""
  holder : String := ""
  minted : String := ""
  createTimeout : Duration := 0
  ambiguityTimeout : Duration := 0
  providerName : String := ""
  controllerID : String := ""
  secret : String := ""
  jitter : Duration := 0
  spec : Option CallError := none
  allocate : Except CallError MachineRef := .error (.sentinel .unreachable)
  create : Except CallError String := .error (.sentinel .unreachable)
  operation : Except CallError OperationStatus := .error (.sentinel .unreachable)
  inspect : Except CallError SeenMachine := .error (.sentinel .unreachable)
  taken : Bool := false
  released : Bool := false
  takenAgain : Bool := false
  claimDriver : Driver := {}
  resourceDriver : Driver := {}
  againDriver : Driver := {}
  moveDriver : Driver := {}
  handleDriver : Driver := {}
  unknownDriver : Driver := {}
  ownershipDriver : Driver := {}
  addressDriver : Driver := {}
  finishDriver : Driver := {}
  failDriver : Driver := {}

structure StepState where
  row : Option MachineRow
  m : Machine
  calls : List ProviderCall := []

inductive StepError
  | held (why : String)
  | waiting
  | unknownOutcome (text : String)
  | failed (e : CallError)

def StepState.call (c : ProviderCall) (s : StepState) : StepState :=
  { s with calls := s.calls ++ [c] }

def moveMachine (d : Driver) (now : Time) (target : MachineState) (message : String)
    (s : StepState) : StepState :=
  let written := transitionMachine d now s.m.id target.text message s.row
  match written.2 with
  | .error _ => { s with row := written.1 }
  | .ok out => { s with row := written.1, m := out }

def machineWait (attempts : Int) : Duration :=
  (List.range (attempts - 1).toNat).foldl (fun wait _ => min machineRetryMax (wait * 2))
    machineRetryBase

def recordStepFailure (opID : String) (e : CallError) (s : StepState) : StepState :=
  -- `recordMachineFailure`: a failure only a person can fix, or one try too many, gives the machine
  -- up
  let terminal := !e.retryable || machineMaxAttempts ≤ s.m.attempts + 1
  let next := (e.retryAt a.now).getD (a.now + (machineWait (s.m.attempts + 1) - a.jitter))
  let s := { s with
    row := (finishMachineOperation a.finishDriver a.now s.m.id opID "failed" e.text (some next)
      s.row).1 }
  if terminal then moveMachine a.failDriver a.now .failed e.text s else s

def noteAmbiguity (e : CallError) (s : StepState) : StepState × Option StepError :=
  if e.kind ≠ .ambiguous then (s, some (.failed e))
  else
    ({ s with row := (markMachineOutcomeUnknown a.unknownDriver a.now s.m.opID e.text s.row).1 },
      some (.unknownOutcome e.text))

def issueCreate (s : StepState) : StepState × Option StepError :=
  let s := s.call (.create ref a.create)
  match a.create with
  | .error e => noteAmbiguity a e s
  | .ok handle =>
    if handle = "" then (s, none)
    else
      ({ s with row := (setMachineOperationHandle a.handleDriver s.m.opID handle s.row).1 },
        some .waiting)

def recordResource (m : Machine) : Option MachineRow × Except StoreError Unit :=
  let fingerprint := if m.ownerFingerprint = "" then a.secret else m.ownerFingerprint
  let controller := if m.ownerControllerID = "" then a.controllerID else m.ownerControllerID
  let first := setMachineResource a.resourceDriver a.now a.taken m.id ref.zone ref.recorded
    fingerprint controller row
  match first.2 with
  | .error (.conflict text) =>
    if a.released then
      setMachineResource a.againDriver a.now a.takenAgain m.id ref.zone ref.recorded fingerprint
        controller first.1
    else (first.1, .error (.conflict text))
  | _ => first

def storeErrorText : StoreError → String
  | .readOnly => "store is read-only"
  | .noRows => "sql: no rows in result set"
  | .notFound text | .conflict text | .invalidTransition text | .machineBusy text
  | .refused text | .driver text => text

def stepPlanned : StepState × Option StepError :=
  if a.held ≠ "" then (s, some (.held a.held))
  else
    match a.spec with
    | some e => (s, some (.failed e))
    | none =>
      let s := s.call (.allocate a.allocate)
      match a.allocate with
      | .error e => (s, some (.failed e))
      | .ok ref =>
        if ref.id = "" ∧ ref.name = "" then
          (s, some (.failed (.other (a.providerName ++ " allocated nothing to identify a " ++
            "machine by; a provider must return an id, a name, or both"))))
        else
          let ref := if ref.name = "" then { ref with name := s.m.name } else ref
          let written := recordResource a ref s.row s.m
          let s := { s with row := written.1 }
          match written.2 with
          | .error e => (s, some (.failed (.other (storeErrorText e))))
          | .ok _ =>
            issueCreate a ref (moveMachine a.moveDriver a.now .creating
              ("building " ++ ref.name ++ " at " ++ a.providerName) s)

def quarantineMachine (why : String) (s : StepState) : StepState :=
  moveMachine a.moveDriver a.now .quarantined why
    { s with row := (setMachineOwnershipError a.ownershipDriver a.now why s.row).1 }

def roundDuration (d : Duration) : String :=
  if d ≤ 0 then "no time"
  else
    let seconds := (roundTo second d / second).toNat
    if seconds < 60 then toString seconds ++ "s"
    else if seconds < 3600 then toString (seconds / 60) ++ "m " ++ padded 2 (seconds % 60) ++ "s"
    else toString (seconds / 3600) ++ "h " ++ padded 2 (seconds / 60 % 60) ++ "m"

def resolveMissing : StepState × Option StepError :=
  let since := s.m.createStartedAt.getD s.m.createdAt
  if a.now - since > a.ambiguityTimeout then
    (quarantineMachine a ("this machine's create was issued " ++ roundDuration (a.now - since) ++
      " ago and " ++ a.providerName ++ " still cannot find " ++ s.m.resourceID ++
      ". Nothing has been created or deleted: look in the provider's console, then either " ++
      "release this row or delete the resource by hand") s, none)
  else if s.m.attempts = 0 then
    -- looked for once: one absence is no evidence that nothing was created
    (s, some (.failed (.provider
      { kind := .notFound
        op := "inspect"
        ref := s.m.name
        message := a.providerName ++ " cannot find " ++ s.m.resourceID ++
          " yet; looking again before anything is created"
        remedy := "nothing to do: the machine is looked for once more before its identity " ++
          "is reused" })))
  else if a.held ≠ "" then (s, some (.held a.held))
  else
    match a.spec with
    | some e => (s, some (.failed e))
    | none => issueCreate a (machineRef s.m) s

def recordMachineAddress (got : SeenMachine) (s : StepState) : StepState :=
  if got.address = "" ∨ got.address = s.m.address then s
  else
    let written := setMachineAddress a.addressDriver a.now got.address s.row
    match written.2 with
    | .error _ => { s with row := written.1 }
    | .ok _ => { s with row := written.1, m := { s.m with address := got.address } }

def resolveByInspection : StepState × Option StepError :=
  let s := s.call (.inspect (machineRef s.m) a.inspect)
  match a.inspect with
  | .error e => if e.kind = .notFound then resolveMissing a s else (s, some (.failed e))
  | .ok got =>
    let why := ownershipComplaint s.m got
    if why ≠ "" then (quarantineMachine a why s, none)
    else if got.locked ≠ "" then (s, some .waiting)
    else
      let s := { s with row := (setMachineOwnershipVerified a.ownershipDriver a.now s.row).1 }
      let s := recordMachineAddress a got s
      match got.phase with
      | .running => (moveMachine a.moveDriver a.now .bootstrapping
          "the machine is running; installing the agent" s, none)
      | .stopped => (moveMachine a.moveDriver a.now .starting
          "the machine exists and is being started" s, none)
      | _ => (s, some .waiting)

def stepCreating : StepState × Option StepError :=
  if s.m.opHandle ≠ "" ∧ s.m.opOutcomeUnknown = false then
    let s := s.call (.operation s.m.opHandle a.operation)
    match a.operation with
    | .error e => if e.kind = .notFound then resolveByInspection a s else (s, some (.failed e))
    | .ok status =>
      if !status.done then (s, some .waiting)
      else if !status.ok then
        (s, some (.failed (.provider
          { kind := .refused
            op := "create"
            ref := s.m.name
            message := status.detail
            remedy := "the provider's own task log carries the rest of it" })))
      else resolveByInspection a s
  else resolveByInspection a s

def settleStep (opID : String) : StepState × Option StepError → StepState
  | (s, some (.held _)) =>
    { s with
      row := (finishMachineOperation a.finishDriver a.now s.m.id opID "released" "" none s.row).1 }
  | (s, some .waiting) => s
  | (s, some (.unknownOutcome _)) => s
  | (s, some (.failed e)) => recordStepFailure a opID e s
  | (s, none) =>
    { s with
      row := (finishMachineOperation a.finishDriver a.now s.m.id opID "succeeded" "" none
        s.row).1 }

def runMachineStep : StepState :=
  if !a.mayAct then
    recordStepFailure a s.m.opID (.other "this machine may not be changed right now") s
  else
    settleStep a s.m.opID
      (if s.m.state = .planned then stepPlanned a s else stepCreating a s)

def createBudget : Duration :=
  (if a.createTimeout ≤ 0 then 20 * 60 * second else a.createTimeout) + machineClaimMargin

def claimMachineStep : Option MachineRow × Option Machine :=
  if m.opID ≠ "" ∧ m.opDeadlineAt.any (a.passNow < ·) then
    (row, if m.opKind = .create then some m else none)
  else
    let claimed := claimMachineOperation a.claimDriver m.id
      { kind := "create", holder := a.holder, timeout := createBudget a } a.minted a.passNow row
    (claimed.1, match claimed.2 with | .ok m => some m | .error _ => none)

def machinePass : Option MachineRow × List ProviderCall :=
  match row with
  | none => (none, [])
  | some r =>
    let m := scanMachine r
    if m.state ≠ .planned ∧ m.state ≠ .creating then (row, [])
    else if m.nextAttemptAt.any (a.passNow < ·) then (row, [])
    else
      match claimMachineStep a m row with
      | (row, none) => (row, [])
      | (row, some m) =>
        let s := runMachineStep a { row := row, m := m }
        (s.row, s.calls)

def machinePasses (passes : List StepAnswers) (row : Option MachineRow) :
    Option MachineRow × List ProviderCall :=
  passes.foldl (fun s a => ((machinePass a s.1).1, s.2 ++ (machinePass a s.1).2)) (row, [])

end Zoomies.Controller
