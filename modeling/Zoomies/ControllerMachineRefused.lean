import Zoomies.ControllerMachineSteps

/-!
One step of a machine in any of the states a provider is called for, with the provider's breaker,
and what a guard that refuses it leaves behind.
-/

namespace Zoomies.Controller.Guarded

open Zoomies.Go Zoomies.Store

def breakerThreshold : Int := 3

def breakerBase : Duration := minute

def breakerMax : Duration := 15 * minute

structure StepAnswers extends Controller.StepAnswers where
  -- What a step meets beside the answers to a create. `mutationsHeld` is read where a machine is
  -- started or deleted, and the step of a bootstrapping machine is a parameter.
  mutationsHeld : String := ""
  power : Bool := true
  start : Except CallError String := .error (.sentinel .unreachable)
  delete : Except CallError String := .error (.sentinel .unreachable)
  stepBootstrapping : StepState → StepState × Option StepError := fun s => (s, some .waiting)
  confirmDriver : Driver := {}
  providerError : Option String := none
  breakerDriver : Driver := {}

structure Breaker where
  consecutiveFailures : Int := 0
  pausedUntil : Option Time := none
  deriving DecidableEq

variable (a : StepAnswers) (s : StepState)

def issue (answer : Except CallError String) (s : StepState) : StepState × Option StepError :=
  match answer with
  | .error e => noteAmbiguity a.toStepAnswers e s
  | .ok handle =>
    (if handle = "" then s
      else { s with row := (setMachineOperationHandle a.handleDriver s.m.opID handle s.row).1 },
      some .waiting)

def lookStarting : StepState × Option StepError :=
  let s := s.call (.inspect (machineRef s.m) a.inspect)
  match a.inspect with
  | .error e => (s, some (.failed e))
  | .ok got =>
    let why := ownershipComplaint s.m got
    if why ≠ "" then (quarantineMachine a.toStepAnswers why s, none)
    else
      let s := recordMachineAddress a.toStepAnswers got s
      if got.phase = .running then
        (moveMachine a.moveDriver a.now .bootstrapping
          "the machine is running; installing the agent" s, none)
      else if !a.power ∨ got.phase ≠ .stopped then (s, some .waiting)
      else if a.mutationsHeld ≠ "" then (s, some (.held a.mutationsHeld))
      else issue a a.start s

def afterPoll
    (look : Bool → StepState → StepState × Option StepError) : StepState × Option StepError :=
  if s.m.opHandle = "" then look false s
  else
    let s := s.call (.operation s.m.opHandle a.operation)
    match a.operation with
    | .error e => if e.kind = .notFound then look true s else (s, some (.failed e))
    | .ok status => if !status.done then (s, some .waiting) else look true s

def stepStarting : StepState × Option StepError :=
  afterPoll a s fun _ => lookStarting a

def confirmDeleted : StepState × Option StepError :=
  let written := confirmMachineDeleted a.confirmDriver a.now s.row
  let s := { s with row := written.1 }
  match written.2 with
  | .error e => (s, some (.failed (.other (storeErrorText e))))
  | .ok _ => (moveMachine a.moveDriver a.now .deleted
      "the provider confirms this machine's resource is gone" s, none)

def lookDeleting (issued : Bool) (s : StepState) : StepState × Option StepError :=
  let s := s.call (.inspect (machineRef s.m) a.inspect)
  match a.inspect with
  | .error e => if e.kind = .notFound then confirmDeleted a s else (s, some (.failed e))
  | .ok got =>
    let why := ownershipComplaint s.m got
    if why ≠ "" then (quarantineMachine a.toStepAnswers why s, none)
    else
      let s := { s with row := (setMachineOwnershipVerified a.ownershipDriver a.now s.row).1 }
      if issued then (s, none)
      else if got.phase = .unknown ∨ got.phase = .gone then (s, some .waiting)
      else if a.mutationsHeld ≠ "" then (s, some (.held a.mutationsHeld))
      else if got.locked ≠ "" then (s, some .waiting)
      else issue a a.delete s

def stepDeleting : StepState × Option StepError :=
  if s.m.resourceID = "" then confirmDeleted a s else afterPoll a s (lookDeleting a)

def step : StepState × Option StepError :=
  match s.m.state with
  | .planned => stepPlanned a.toStepAnswers s
  | .creating => stepCreating a.toStepAnswers s
  | .starting => stepStarting a s
  | .bootstrapping => a.stepBootstrapping s
  | .deleting => stepDeleting a s
  | _ => (s, none)

def noteProviderFailure (m : Machine) (b : Breaker) : Breaker :=
  if m.readyAt.isSome ∨ 0 < m.attempts ∨ a.providerError.isSome then b
  else
    let failures := b.consecutiveFailures + 1
    let wait := min breakerMax (breakerBase * 2 ^ (min (failures - breakerThreshold) 4).toNat)
    (exec a.breakerDriver b
      ⟨failures, if breakerThreshold ≤ failures then some (a.now + wait) else none⟩).1

def noteProviderSuccess (b : Breaker) : Breaker :=
  if a.providerError.isSome then b else (exec a.breakerDriver b {}).1

def runMachineStep (b : Breaker) (s : StepState) : StepState × Breaker :=
  if !a.mayAct then
    (recordStepFailure a.toStepAnswers s.m.opID (.other "this machine may not be changed right now") s,
      noteProviderFailure a s.m b)
  else
    let out := step a s
    (settleStep a.toStepAnswers s.m.opID out,
      match out.2 with
      | some (.failed _) => noteProviderFailure a out.1.m b
      | none => noteProviderSuccess a b
      | _ => b)

structure Stands (r r' : MachineRow) : Prop where
  state : r'.state = r.state
  attempts : r'.attempts = r.attempts
  providerError : r'.providerError = r.providerError
  opID : r'.opID = r.opID

def Spares (out : StepState × Option StepError) : Prop :=
  ∀ why r, out.2 = some (.held why) → s.row = some r → ∃ r', out.1.row = some r' ∧ Stands r r'

variable {a : StepAnswers} {s s' : StepState} {out : StepState × Option StepError}

theorem Stands.refl (r : MachineRow) : Stands r r := ⟨rfl, rfl, rfl, rfl⟩

theorem spares_of_not_held (h : ∀ why, out.2 ≠ some (.held why)) : Spares s out :=
  fun why _ hheld => absurd hheld (h why)

/-- A step may record what it has seen of the resource before it is refused. -/
theorem spares_written {d : Driver} (write : MachineRow → MachineRow)
    (hwrite : ∀ r, Stands r (write r)) {e : Option StepError} :
    Spares s ({ s with row := (exec d s.row (s.row.map write)).1 }, e) := by
  intro why r _ hr
  have hexec : (∃ e, exec d s.row (s.row.map write) = (s.row, .error e)) ∨ _ := exec_cases
  obtain ⟨_, hexec⟩ | hexec := hexec
  · exact ⟨r, by rw [hexec, hr], .refl r⟩
  · exact ⟨write r, by rw [hexec, hr]; rfl, hwrite r⟩

theorem noteAmbiguity_not_held (e : CallError) (why : String) :
    (noteAmbiguity a.toStepAnswers e s).2 ≠ some (.held why) := by
  unfold noteAmbiguity
  split_ifs <;> simp

theorem issue_not_held (answer : Except CallError String) (why : String) :
    (issue a answer s).2 ≠ some (.held why) := by
  cases answer with
  | error e => exact noteAmbiguity_not_held e why
  | ok handle => simp [issue]

theorem issueCreate_not_held (ref : MachineRef) (why : String) :
    (issueCreate a.toStepAnswers ref s).2 ≠ some (.held why) := by
  unfold issueCreate
  cases a.create with
  | error e => exact noteAmbiguity_not_held e why
  | ok handle =>
    dsimp only
    split_ifs <;> simp

theorem confirmDeleted_not_held (why : String) : (confirmDeleted a s).2 ≠ some (.held why) := by
  unfold confirmDeleted
  dsimp only
  split <;> simp

theorem spares_stepPlanned : Spares s (stepPlanned a.toStepAnswers s) := by
  unfold stepPlanned
  split_ifs
  · exact fun _ r _ hr => ⟨r, hr, .refl r⟩
  refine spares_of_not_held fun why => ?_
  cases a.spec with
  | some e => simp
  | none =>
    cases a.allocate with
    | error e => simp
    | ok ref =>
      dsimp only
      split
      · simp
      split
      · simp
      · exact issueCreate_not_held _ why

theorem spares_resolveMissing : Spares s (resolveMissing a.toStepAnswers s) := by
  unfold resolveMissing
  dsimp only
  split_ifs
  · exact spares_of_not_held (by simp)
  · exact spares_of_not_held (by simp)
  · exact fun _ r _ hr => ⟨r, hr, .refl r⟩
  refine spares_of_not_held fun why => ?_
  cases a.spec with
  | some e => simp
  | none => exact issueCreate_not_held _ why

theorem spares_resolveByInspection : Spares s (resolveByInspection a.toStepAnswers s) := by
  unfold resolveByInspection
  cases a.inspect with
  | error e =>
    dsimp only
    split_ifs
    · exact spares_resolveMissing (s := s.call _)
    · exact spares_of_not_held (by simp)
  | ok got =>
    refine spares_of_not_held fun why => ?_
    dsimp only
    split_ifs
    · simp
    · simp
    · split <;> simp

theorem spares_stepCreating : Spares s (stepCreating a.toStepAnswers s) := by
  unfold stepCreating
  split_ifs
  · cases a.operation with
    | error e =>
      dsimp only
      split_ifs
      · exact spares_resolveByInspection (s := s.call _)
      · exact spares_of_not_held (by simp)
    | ok status =>
      dsimp only
      split_ifs
      · exact spares_of_not_held (by simp)
      · exact spares_of_not_held (by simp)
      · exact spares_resolveByInspection (s := s.call _)
  · exact spares_resolveByInspection

theorem spares_address (got : SeenMachine) {e : Option StepError} :
    Spares s (recordMachineAddress a.toStepAnswers got s, e) := by
  unfold recordMachineAddress
  split_ifs
  · exact fun _ r _ hr => ⟨r, hr, .refl r⟩
  have hrow := spares_written (s := s) (d := a.addressDriver) (e := e)
    (fun r => { r with address := got.address, updatedAt := ms a.now })
    fun r => ⟨rfl, rfl, rfl, rfl⟩
  dsimp only
  split <;> exact hrow

theorem spares_lookStarting : Spares s (lookStarting a s) := by
  unfold lookStarting
  cases a.inspect with
  | error e => exact spares_of_not_held (by simp)
  | ok got =>
    dsimp only
    split_ifs
    · exact spares_of_not_held (by simp)
    · exact spares_of_not_held (by simp)
    · exact spares_of_not_held (by simp)
    · exact spares_address (s := s.call _) got
    · exact spares_of_not_held (issue_not_held _)

theorem spares_lookDeleting (issued : Bool) : Spares s (lookDeleting a issued s) := by
  unfold lookDeleting
  cases a.inspect with
  | error e =>
    refine spares_of_not_held fun why => ?_
    dsimp only
    split_ifs
    · exact confirmDeleted_not_held why
    · simp
  | ok got =>
    dsimp only
    split_ifs
    · exact spares_of_not_held (by simp)
    · exact spares_of_not_held (by simp)
    · exact spares_of_not_held (by simp)
    · exact spares_written (s := s.call _)
        (fun r => { r with ownershipVerifiedAt := some (ms a.now), ownershipError := "" })
        fun r => ⟨rfl, rfl, rfl, rfl⟩
    · exact spares_of_not_held (by simp)
    · exact spares_of_not_held (issue_not_held _)

theorem spares_afterPoll {look : Bool → StepState → StepState × Option StepError}
    (hlook : ∀ issued s, Spares s (look issued s)) : Spares s (afterPoll a s look) := by
  unfold afterPoll
  split_ifs
  · exact hlook false s
  cases a.operation with
  | error e =>
    dsimp only
    split_ifs
    · exact hlook true (s.call _)
    · exact spares_of_not_held (by simp)
  | ok status =>
    dsimp only
    split_ifs
    · exact spares_of_not_held (by simp)
    · exact hlook true (s.call _)

theorem spares_step (hboot : s.m.state ≠ .bootstrapping) : Spares s (step a s) := by
  unfold step
  split
  · exact spares_stepPlanned
  · exact spares_stepCreating
  · exact spares_afterPoll fun _ _ => spares_lookStarting
  · contradiction
  · unfold stepDeleting
    split_ifs
    · exact spares_of_not_held confirmDeleted_not_held
    · exact spares_afterPoll fun issued _ => spares_lookDeleting issued
  · exact spares_of_not_held (by simp)

section
variable {b : Breaker} {r : MachineRow} (hrow : s.row = some r)
include hrow

/-- A refusal after the dispatch counts against nothing, and gives the claim back where the
database takes the write. -/
theorem held_counts_nothing {why : String} (hact : a.mayAct = true)
    (hboot : s.m.state ≠ .bootstrapping) (hheld : (step a s).2 = some (.held why)) :
    ∃ r', (runMachineStep a b s).1.row = some r' ∧ r'.state = r.state ∧ r'.attempts = r.attempts ∧
      r'.providerError = r.providerError ∧ (runMachineStep a b s).2 = b ∧
      (r.opID = s.m.opID → a.finishDriver.readOnly = false → a.finishDriver.execError = none →
        r'.opID = "" ∧ r'.opKind = .none ∧ r'.opHandle = "" ∧ r'.opDeadlineAt = none) := by
  obtain ⟨r₁, hr₁, hstate, hattempts, herror, hop⟩ := spares_step hboot why r hheld hrow
  let released := countOutcome .released "" none (clearOperation a.now "" r₁)
  have hrun : (runMachineStep a b s).2 = b ∧ (runMachineStep a b s).1.row =
      (exec a.finishDriver (some r₁) (some (if r₁.opID == s.m.opID then released else r₁))).1 := by
    simp only [runMachineStep, hact]
    generalize step a s = out at hheld hr₁ ⊢
    obtain ⟨⟨row, m, calls⟩, e⟩ := out
    obtain rfl : e = some (.held why) := hheld
    obtain rfl : row = some r₁ := hr₁
    exact ⟨rfl, rfl⟩
  rw [hrun.1, hrun.2]
  obtain ⟨e, hexec⟩ | hexec := exec_cases (d := a.finishDriver) (s := some r₁)
  · rw [hexec]
    refine ⟨r₁, rfl, hstate, hattempts, herror, rfl, fun _ hwrites hhealthy => ?_⟩
    simp [exec, hwrites, hhealthy] at hexec
  rw [hexec]
  split_ifs with hours
  · exact ⟨released, rfl, hstate, hattempts, herror, rfl, fun _ _ _ => ⟨rfl, rfl, rfl, rfl⟩⟩
  · exact ⟨r₁, rfl, hstate, hattempts, herror, rfl, fun hown => absurd (hop.trans hown) (by simpa using hours)⟩

/-- Moving a machine leaves the count of its attempts and the provider's last words alone. -/
theorem moveMachine_attempts {d : Driver} {now : Time} {target : MachineState} {message : String} :
    ∃ r', (moveMachine d now target message s).row = some r' ∧ r'.attempts = r.attempts ∧
      r'.providerError = r.providerError := by
  have hkept : ∃ r', (transitionMachine d now s.m.id target.text message s.row).1 = some r' ∧
      r'.attempts = r.attempts ∧ r'.providerError = r.providerError := by
    unfold transitionMachine
    rw [MachineState.ofText_text]
    dsimp only
    rcases tx_cases with ⟨e, he⟩ | ⟨row, m, hbody, he⟩
    · exact ⟨r, by rw [he, hrow], rfl, rfl⟩
    rw [he]
    split at hbody
    · cases hbody
    split at hbody
    · cases hbody
    obtain ⟨rfl, rfl⟩ := Prod.mk.inj (refusing_eq_ok hbody)
    rw [hrow]
    exact ⟨_, rfl, rfl, rfl⟩
  unfold moveMachine
  dsimp only
  split <;> exact hkept

/-- A refusal before the dispatch is recorded as a failure of the machine. -/
theorem not_acting_counts (hact : a.mayAct = false) (hop : r.opID = s.m.opID)
    (hwrites : a.finishDriver.readOnly = false) (hhealthy : a.finishDriver.execError = none) :
    ∃ r', (runMachineStep a b s).1.row = some r' ∧ r'.attempts = r.attempts + 1 ∧
      r'.providerError = "this machine may not be changed right now" := by
  let text := "this machine may not be changed right now"
  let next := some (a.now + (machineWait (s.m.attempts + 1) - a.jitter))
  have hfailed : MachineOpOutcome.ofText "failed" = some .failed := by decide
  have hfinish : (finishMachineOperation a.finishDriver a.now s.m.id s.m.opID "failed" text next
      s.row).1 = some (countOutcome .failed text next (clearOperation a.now text r)) := by
    rw [finishMachineOperation, hfailed, hrow]
    simp [exec, hwrites, hhealthy, updateWhere, hop]
  have hrun : (runMachineStep a b s).1 = moveMachine a.failDriver a.now .failed text
      { s with row := (finishMachineOperation a.finishDriver a.now s.m.id s.m.opID "failed" text
        next s.row).1 } := by
    rw [runMachineStep, hact]
    rfl
  obtain ⟨r', hr', hattempts, herror⟩ := moveMachine_attempts
    (s := { s with row := some (countOutcome .failed text next (clearOperation a.now text r)) }) rfl
  rw [hrun, hfinish]
  exact ⟨r', hr', hattempts, herror⟩

end

/-- A refusal by a guard inside the steps counts against nothing, and gives the claim back where
the database takes the write; one by the guard before them counts as a failure. -/
theorem refusal_counts_nothing {b : Breaker} {r : MachineRow} (hrow : s.row = some r) :
    (a.mayAct = true → s.m.state ≠ .bootstrapping → ∀ why, (step a s).2 = some (.held why) →
      ∃ r', (runMachineStep a b s).1.row = some r' ∧ r'.state = r.state ∧
        r'.attempts = r.attempts ∧ r'.providerError = r.providerError ∧
        (runMachineStep a b s).2 = b ∧
        (r.opID = s.m.opID → a.finishDriver.readOnly = false → a.finishDriver.execError = none →
          r'.opID = "" ∧ r'.opKind = .none ∧ r'.opHandle = "" ∧ r'.opDeadlineAt = none)) ∧
    (a.mayAct = false → r.opID = s.m.opID → a.finishDriver.readOnly = false →
      a.finishDriver.execError = none →
      ∃ r', (runMachineStep a b s).1.row = some r' ∧ r'.attempts = r.attempts + 1 ∧
        r'.providerError = "this machine may not be changed right now") :=
  ⟨fun hact hboot _ hheld => held_counts_nothing hrow hact hboot hheld, not_acting_counts hrow⟩

def plannedRow : MachineRow := { id := "m1", name := "z1", opID := "op1", opKind := .create }

def planned : StepState := { row := some plannedRow, m := scanMachine plannedRow }

def paused : StepAnswers := { passNow := 0, now := 0, held := "p1 is paused: an operator paused it" }

theorem refusal_counts_nothing_paused :
    ∃ r', (runMachineStep paused {} planned).1.row = some r' ∧ r'.state = .planned ∧
      r'.attempts = 0 ∧ r'.providerError = "" ∧ r'.opID = "" := by
  obtain ⟨r', hrow, hstate, hattempts, herror, -, hback⟩ :=
    (refusal_counts_nothing (a := paused) (s := planned) (b := {}) rfl).1 rfl (by decide) _ rfl
  exact ⟨r', hrow, hstate, hattempts, herror, (hback rfl rfl rfl).1⟩

def leaseLost : StepAnswers := { passNow := 0, now := 0, mayAct := false }

/-- It is given up on before anybody has tried, and its provider is charged with it. -/
theorem lost_lease_fails_machine :
    let out := runMachineStep leaseLost {} planned
    out.1.row.map (fun r => (r.state, r.attempts, r.providerError)) =
        some (.failed, 1, "this machine may not be changed right now") ∧
      out.2.consecutiveFailures = 1 := by
  decide +kernel

end Zoomies.Controller.Guarded
