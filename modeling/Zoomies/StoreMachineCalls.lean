import Zoomies.StoreMachineRows

/-! The calls on one machine's row, and what each can do to it. -/
namespace Zoomies.Store
open Zoomies.Go

inductive MachineOp
  | transition (target message : String)
  | setResource (taken : Bool) (zone resourceID fingerprint controllerID : String)
  | claim (op : MachineOperation) (minted : String)
  | setHandle (opID handle : String)
  | markUnknown (opID detail : String)
  | finish (opID out message : String) (nextAttempt : Option Time)
  | recordFailure (src detail : String) (nextAttempt : Time)
  | confirmDeleted
  | linkHost (taken : Bool) (hostID joinTokenID : String) (enrolled : Time)
  | prune (before : Time)

structure MachineCall where
  op : MachineOp
  now : Time
  driver : Driver := {}

inductive MachineAnswer
  | machine (m : Except StoreError Machine)
  | done (e : Except StoreError Unit)
  | confirmed (b : Except StoreError Bool)
  | pruned (ids : Except StoreError (List String))

def MachineCall.apply (id : String) (c : MachineCall) (row : Option MachineRow) :
    Option MachineRow × MachineAnswer :=
  match c.op with
  | .transition target message =>
    let written := transitionMachine c.driver c.now id target message row
    (written.1, .machine written.2)
  | .setResource taken zone resourceID fingerprint controllerID =>
    let written := setMachineResource c.driver c.now taken id zone resourceID fingerprint
      controllerID row
    (written.1, .done written.2)
  | .claim op minted =>
    let written := claimMachineOperation c.driver id op minted c.now row
    (written.1, .machine written.2)
  | .setHandle opID handle =>
    let written := setMachineOperationHandle c.driver opID handle row
    (written.1, .done written.2)
  | .markUnknown opID detail =>
    let written := markMachineOutcomeUnknown c.driver c.now opID detail row
    (written.1, .done written.2)
  | .finish opID out message nextAttempt =>
    let written := finishMachineOperation c.driver c.now id opID out message nextAttempt row
    (written.1, .done written.2)
  | .recordFailure src detail nextAttempt =>
    let written := recordMachineFailure c.driver c.now id src detail nextAttempt row
    (written.1, .done written.2)
  | .confirmDeleted =>
    let written := confirmMachineDeleted c.driver c.now row
    (written.1, .confirmed written.2)
  | .linkHost taken hostID joinTokenID enrolled =>
    let written := linkMachineHost c.driver c.now taken id hostID joinTokenID enrolled row
    (written.1, .done written.2)
  | .prune before =>
    let written := pruneMachines c.driver before row.toList
    (written.1.head?, .pruned written.2)

def Ungranted (r : MachineRow) (op : MachineOp) (answer : MachineAnswer) : Prop :=
  match op, answer with
  | .claim _ _, .machine (.ok _) => False
  | _, .confirmed (.ok true) => False
  | .finish opID _ _ _, .done (.ok _) => r.opID ≠ opID
  | _, _ => True

inductive MachineStep (r : MachineRow) (now : Time) :
    MachineOp → Option MachineRow → MachineAnswer → Prop
  | same (op : MachineOp) (answer : MachineAnswer) (h : Ungranted r op answer) :
      MachineStep r now op (some r) answer
  | moved (target : MachineState) (text message : String) (m : Machine)
      (htext : MachineState.ofText text = some target)
      (h : canTransitionMachine r.state target = true) :
      MachineStep r now (.transition text message)
        (some (writeMove ((scanMachine r).moved now target message) r)) (.machine (.ok m))
  | named (taken : Bool) (zone resourceID fingerprint controllerID : String)
      (hfree : r.resourceID = "") (hid : resourceID ≠ "") :
      MachineStep r now (.setResource taken zone resourceID fingerprint controllerID)
        (some (writeResource zone resourceID fingerprint controllerID now r)) (.done (.ok ()))
  | claimed (op : MachineOperation) (minted : String) (kind : MachineOpKind) (m : Machine)
      (hfree : r.opID = "" ∨ ∃ deadline, r.opDeadlineAt = some deadline ∧ deadline < ms now) :
      MachineStep r now (.claim op minted) (some (writeClaim op minted kind now r)) (.machine (.ok m))
  | handled (opID handle : String) (h : r.opID = opID) :
      MachineStep r now (.setHandle opID handle) (some { r with opHandle := handle })
        (.done (.ok ()))
  | unheard (opID detail : String) (h : r.opID = opID) :
      MachineStep r now (.markUnknown opID detail)
        (some { r with
          opOutcomeUnknown := true
          providerError := detail
          updatedAt := ms now }) (.done (.ok ()))
  | finished (opID text message : String) (nextAttempt : Option Time) (out : MachineOpOutcome)
      (h : r.opID = opID) : MachineStep r now (.finish opID text message nextAttempt)
        (some (countOutcome out message nextAttempt (clearOperation now message r)))
        (.done (.ok ()))
  | failed (text given detail : String) (nextAttempt : Time) (src : MachineErrorSource) :
      MachineStep r now (.recordFailure text given nextAttempt)
        (some (writeFailure src detail nextAttempt now r)) (.done (.ok ()))
  | gone (h : r.deletedAt = none) : MachineStep r now .confirmDeleted
        (some { r with deletedAt := some (ms now), updatedAt := ms now })
        (.confirmed (.ok true))
  | linked (taken : Bool) (hostID joinTokenID : String) (enrolled : Time)
      (h : r.hostID = none) : MachineStep r now (.linkHost taken hostID joinTokenID enrolled)
        (some (writeLink hostID joinTokenID enrolled now r)) (.done (.ok ()))
  | pruned (before : Time) (ids : Except StoreError (List String))
      (h : prunable before r = true) : MachineStep r now (.prune before) none (.pruned ids)

section
variable (d : Driver) {now : Time} {r : MachineRow}

variable {taken : Bool} {id : String}

theorem updateReturning_cases {guard : MachineRow → Bool}
    {write : MachineRow → MachineRow} :
    (∃ e, updateReturning d taken guard write (some r) = (some r, .error e)) ∨ guard r = true ∧
        updateReturning d taken guard write (some r) = (some (write r), .ok (write r)) := by
  rcases tx_cases with h | ⟨row, written, hbody, h⟩
  · exact .inl h
  right
  have hfilter : Option.filter guard (some r) = if guard r then some r else none := rfl
  rw [hfilter] at hbody
  cases hq : d.queryError with
  | some e => simp [hq] at hbody
  | none =>
    cases hg : guard r <;> cases taken <;> simp [hq, hg] at hbody
    refine ⟨rfl, ?_⟩
    rw [hbody.1, hbody.2]
    exact h

theorem ungranted_of_error {op : MachineOp} {e : StoreError} :
    Ungranted r op (.done (.error e)) := by
  cases op <;> exact trivial

theorem machineStep_exec {op : MachineOp} {guard : MachineRow → Bool}
    {write : MachineRow → MachineRow}
    (hwrite : guard r = true → MachineStep r now op (some (write r)) (.done (.ok ())))
    (hother : guard r = false → Ungranted r op (.done (.ok ()))) :
    MachineStep r now op (exec d (some r) (updateWhere guard write (some r))).1
      (.done (exec d (some r) (updateWhere guard write (some r))).2) := by
  rcases exec_cases with ⟨e, h⟩ | h
  · rw [h]
    exact MachineStep.same op _ ungranted_of_error
  rw [h]
  change MachineStep r now op (some (if guard r then write r else r)) (.done (.ok ()))
  cases hg : guard r with
  | false => exact MachineStep.same op _ (hother hg)
  | true => exact hwrite hg

theorem machineStep_transition (id : String) {target message : String} :
    MachineStep r now (.transition target message)
      (transitionMachine d now id target message (some r)).1
      (.machine (transitionMachine d now id target message (some r)).2) := by
  unfold transitionMachine
  cases htext : MachineState.ofText target with
  | none => exact MachineStep.same _ _ trivial
  | some to_ =>
    rcases tx_cases with ⟨e, h⟩ | ⟨row, m, hbody, h⟩
    · dsimp only
      rw [h]
      exact MachineStep.same _ _ trivial
    dsimp only
    rw [h]
    unfold getMachine refusing at hbody
    cases hq : d.queryError with
    | some e => simp [hq] at hbody
    | none =>
      cases hcan : canTransitionMachine r.state to_ with
      | false =>
        have hstate : (scanMachine r).state = r.state := rfl
        simp [hq, hstate, hcan] at hbody
      | true =>
        have hstate : (scanMachine r).state = r.state := rfl
        cases hx : d.execError with
        | some e => simp [hq, hstate, hcan, hx] at hbody
        | none =>
          simp [hq, hstate, hcan, hx] at hbody
          rw [← hbody.1]
          exact MachineStep.moved to_ target message _ htext hcan

variable {d}

theorem setMachineResource_cases
    {zone resourceID fingerprint controllerID : String} :
    (∃ e, setMachineResource d now taken id zone resourceID fingerprint controllerID (some r) =
      (some r, .error e)) ∨
    r.resourceID = "" ∧ resourceID ≠ "" ∧
      setMachineResource d now taken id zone resourceID fingerprint controllerID (some r) =
        (some (writeResource zone resourceID fingerprint controllerID now r), .ok ()) := by
  unfold setMachineResource
  split
  · exact .inl ⟨_, rfl⟩
  rename_i hid
  rcases updateReturning_cases d with ⟨e, h⟩ | ⟨hg, h⟩
  · left
    dsimp only
    rw [h]
    split
    · rename_i hok
      exact absurd hok (by simp)
    · split
      · exact ⟨_, rfl⟩
      · exact ⟨_, rfl⟩
    · exact ⟨_, rfl⟩
  · right
    rw [h]
    exact ⟨by simpa using hg, hid, rfl⟩

theorem machineStep_setResource
    {zone resourceID fingerprint controllerID : String} :
    MachineStep r now (.setResource taken zone resourceID fingerprint controllerID)
      (setMachineResource d now taken id zone resourceID fingerprint controllerID (some r)).1
      (.done (setMachineResource d now taken id zone resourceID fingerprint controllerID
        (some r)).2) := by
  rcases setMachineResource_cases
    with ⟨e, h⟩ | ⟨hfree, hid, h⟩
  · rw [h]
    exact MachineStep.same _ _ trivial
  · rw [h]
    exact MachineStep.named taken zone resourceID fingerprint controllerID hfree hid

theorem claimMachineOperation_cases {op : MachineOperation} {minted : String} :
    (∃ e, claimMachineOperation d id op minted now (some r) = (some r, .error e)) ∨
      (r.opID = "" ∨ ∃ deadline, r.opDeadlineAt = some deadline ∧ deadline < ms now) ∧
        ∃ kind, claimMachineOperation d id op minted now (some r) =
          (some (writeClaim op minted kind now r),
            .ok (scanMachine (writeClaim op minted kind now r))) := by
  unfold claimMachineOperation
  split
  · exact .inl ⟨_, rfl⟩
  · exact .inl ⟨_, rfl⟩
  rename_i kind _ _
  split
  · exact .inl ⟨_, rfl⟩
  rcases updateReturning_cases d with ⟨e, h⟩ | ⟨hg, h⟩
  · left
    dsimp only
    rw [h]
    split
    · rename_i hok
      exact absurd hok (by simp)
    · split
      · exact ⟨_, rfl⟩
      · exact ⟨_, rfl⟩
    · exact ⟨_, rfl⟩
  · right
    rw [h]
    refine ⟨?_, kind, rfl⟩
    rcases Bool.or_eq_true_iff.mp hg with hfree | hpast
    · exact .inl (by simpa using hfree)
    · obtain ⟨deadline, hd, hlt⟩ := (Option.any_eq_true _ _).mp hpast
      exact .inr ⟨deadline, hd, by simpa using hlt⟩

theorem machineStep_claim {op : MachineOperation} {minted : String} :
    MachineStep r now (.claim op minted)
      (claimMachineOperation d id op minted now (some r)).1
      (.machine (claimMachineOperation d id op minted now (some r)).2) := by
  rcases claimMachineOperation_cases with ⟨e, h⟩ | ⟨hfree, kind, h⟩
  · rw [h]
    exact MachineStep.same _ _ trivial
  · rw [h]
    exact MachineStep.claimed op minted kind _ hfree

theorem machineStep_finish {opID out message : String} {nextAttempt : Option Time} :
    MachineStep r now (.finish opID out message nextAttempt)
      (finishMachineOperation d now id opID out message nextAttempt (some r)).1
      (.done (finishMachineOperation d now id opID out message nextAttempt (some r)).2) := by
  unfold finishMachineOperation
  cases MachineOpOutcome.ofText out with
  | none => exact MachineStep.same _ _ trivial
  | some outcome =>
    refine machineStep_exec d (fun hg => ?_) (fun hg => ?_)
    · exact MachineStep.finished opID out message nextAttempt outcome (by simpa using hg)
    · exact fun h => by simp [h] at hg

theorem machineStep_recordFailure {src detail : String} {nextAttempt : Time} :
    MachineStep r now (.recordFailure src detail nextAttempt)
      (recordMachineFailure d now id src detail nextAttempt (some r)).1
      (.done (recordMachineFailure d now id src detail nextAttempt (some r)).2) := by
  unfold recordMachineFailure
  cases MachineErrorSource.ofText src with
  | none => exact MachineStep.same _ _ trivial
  | some half =>
    dsimp only
    rcases exec_cases
      with ⟨e, h⟩ | h
    · rw [h]
      exact MachineStep.same _ _ trivial
    · rw [h]
      exact MachineStep.failed src detail _ nextAttempt half

theorem machineStep_confirm :
    MachineStep r now .confirmDeleted (confirmMachineDeleted d now (some r)).1
      (.confirmed (confirmMachineDeleted d now (some r)).2) := by
  unfold confirmMachineDeleted
  rcases updateReturning_cases d with ⟨e, h⟩ | ⟨hg, h⟩
  · dsimp only
    rw [h]
    split
    · rename_i hok
      exact absurd hok (by simp)
    · exact MachineStep.same _ _ trivial
    · exact MachineStep.same _ _ trivial
  · rw [h]
    exact MachineStep.gone (by simpa using hg)

theorem machineStep_linkHost {hostID joinTokenID : String} {enrolled : Time} :
    MachineStep r now (.linkHost taken hostID joinTokenID enrolled)
      (linkMachineHost d now taken id hostID joinTokenID enrolled (some r)).1
      (.done (linkMachineHost d now taken id hostID joinTokenID enrolled (some r)).2) := by
  have hmatched : (some r).any (fun r => r.hostID.isNone) = r.hostID.isNone := rfl
  unfold linkMachineHost
  dsimp only
  split
  · exact MachineStep.same _ _ trivial
  rcases exec_cases with ⟨e, h⟩ | h
  · rw [h]
    exact MachineStep.same _ _ trivial
  rw [h, hmatched]
  have hrow : updateWhere (·.hostID.isNone) (writeLink hostID joinTokenID enrolled now)
      (some r) = some (if r.hostID.isNone then writeLink hostID joinTokenID enrolled now r
        else r) := rfl
  rw [hrow]
  cases hlink : r.hostID with
  | none => exact MachineStep.linked taken hostID joinTokenID enrolled hlink
  | some host =>
    simp only [Option.isNone_some, Bool.false_eq_true, if_false]
    split
    · exact MachineStep.same _ _ trivial
    · exact MachineStep.same _ _ trivial

theorem machineStep_prune {before : Time} :
    MachineStep r now (.prune before) (pruneMachines d before (some r).toList).1.head?
      (.pruned (pruneMachines d before (some r).toList).2) := by
  unfold pruneMachines
  rcases tx_cases with ⟨e, h⟩ | ⟨rows, ids, hbody, h⟩
  · rw [h]
    exact MachineStep.same _ _ trivial
  rw [h]
  cases hq : d.queryError with
  | some e => simp [hq] at hbody
  | none =>
    cases hp : prunable before r with
    | true =>
      simp [hq, hp] at hbody
      rw [hbody.1]
      exact MachineStep.pruned before _ hp
    | false =>
      simp [hq, hp] at hbody
      rw [← hbody.1]
      exact MachineStep.same _ _ trivial

end

theorem machineStep_apply (id : String) (c : MachineCall) (r : MachineRow) :
    MachineStep r c.now c.op (c.apply id (some r)).1 (c.apply id (some r)).2 := by
  unfold MachineCall.apply
  cases hop : c.op with
  | transition target message => exact machineStep_transition c.driver id
  | setResource taken zone resourceID fingerprint controllerID =>
    exact machineStep_setResource
  | claim op minted => exact machineStep_claim
  | setHandle opID handle =>
    refine machineStep_exec c.driver (fun hg => ?_) (fun _ => trivial)
    have hguard := (Bool.and_eq_true_iff.mp hg).1
    exact MachineStep.handled opID handle (by simpa using hguard)
  | markUnknown opID detail =>
    refine machineStep_exec c.driver (fun hg => ?_) (fun _ => trivial)
    exact MachineStep.unheard opID detail (by simpa using hg)
  | finish opID out message nextAttempt =>
    exact machineStep_finish
  | recordFailure src detail nextAttempt =>
    exact machineStep_recordFailure
  | confirmDeleted => exact machineStep_confirm
  | linkHost taken hostID joinTokenID enrolled =>
    exact machineStep_linkHost
  | prune before => exact machineStep_prune

end Zoomies.Store
