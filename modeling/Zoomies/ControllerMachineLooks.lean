import Zoomies.ControllerMachineSteps
import Zoomies.StoreMachineCalls

/-! Which calls one pass makes of the provider, and what it leaves of the identity in the row. -/
namespace Zoomies.Controller
open Zoomies.Go Zoomies.Store

structure Settles (r r' : MachineRow) : Prop where
  name : r'.name = r.name
  zone : r'.resourceZone = r.resourceZone
  id : r'.resourceID = r.resourceID
  state : r'.state = .creating → r.state = .creating

theorem Settles.refl (r : MachineRow) : Settles r r := ⟨rfl, rfl, rfl, fun h => h⟩

variable {r : MachineRow}

theorem Settles.trans {s t : MachineRow} (h : Settles r s) (h' : Settles s t) : Settles r t :=
  ⟨h'.name.trans h.name, h'.zone.trans h.zone, h'.id.trans h.id, fun ht => h.state (h'.state ht)⟩

def settling : MachineOp → Prop
  | .setResource _ _ _ _ _ | .prune _ => False
  | .transition text _ => MachineState.ofText text ≠ some .creating
  | _ => True

theorem settles_of_step {now : Time} {op : MachineOp} {row : Option MachineRow}
    {answer : MachineAnswer} (h : MachineStep r now op row answer) (hop : settling op) :
    ∃ r', row = some r' ∧ Settles r r' := by
  cases h with
  | same => exact ⟨r, rfl, Settles.refl r⟩
  | moved target text message m htext _ =>
    refine ⟨_, rfl, rfl, rfl, rfl, fun hcreating => ?_⟩
    have hstate : ((scanMachine r).moved now target message).state = target := by
      cases target <;> rfl
    have htarget : target = .creating := hstate.symm.trans hcreating
    rw [htarget] at htext
    exact absurd htext hop
  | named | pruned => exact hop.elim
  | claimed | handled | unheard | gone | linked => exact ⟨_, rfl, rfl, rfl, rfl, fun h => h⟩
  | finished _ _ _ _ out _ =>
    refine ⟨_, rfl, ?_⟩
    cases out <;> exact ⟨rfl, rfl, rfl, fun h => h⟩
  | failed _ _ _ _ src =>
    refine ⟨_, rfl, ?_⟩
    cases src <;> exact ⟨rfl, rfl, rfl, fun h => h⟩

theorem settles_exec {d : Driver} {write : MachineRow → MachineRow} (hwrite : Settles r (write r)) :
    ∃ r', (exec d (some r) ((some r).map write)).1 = some r' ∧ Settles r r' := by
  rcases exec_cases with ⟨e, h⟩ | h
  · rw [h]
    exact ⟨r, rfl, Settles.refl r⟩
  · rw [h]
    exact ⟨write r, rfl, hwrite⟩

structure Quiet (s s' : StepState) : Prop where
  row : ∀ r, s.row = some r → ∃ r', s'.row = some r' ∧ Settles r r'
  calls : s'.calls = s.calls

theorem Quiet.refl (s : StepState) : Quiet s s :=
  ⟨fun r h => ⟨r, h, Settles.refl r⟩, rfl⟩

theorem Quiet.trans {s t u : StepState} (h : Quiet s t) (h' : Quiet t u) : Quiet s u := by
  refine ⟨fun r hr => ?_, h'.calls.trans h.calls⟩
  obtain ⟨r₁, hr₁, hs₁⟩ := h.row r hr
  obtain ⟨r₂, hr₂, hs₂⟩ := h'.row r₁ hr₁
  exact ⟨r₂, hr₂, hs₁.trans hs₂⟩

section
variable (a : StepAnswers) (s : StepState)

variable {d : Driver} {now : Time} {message : String}

theorem quiet_move {target : MachineState}
    (htarget : target ≠ .creating) : Quiet s (moveMachine d now target message s) := by
  have hop : settling (.transition target.text message) := by
    intro htext
    rw [MachineState.ofText_text] at htext
    exact htarget (Option.some.inj htext)
  refine ⟨fun r hr => ?_, ?_⟩
  · have hrow : (moveMachine d now target message s).row =
        (transitionMachine d now s.m.id target.text message s.row).1 := by
      unfold moveMachine
      dsimp only
      split <;> rfl
    rw [hrow, hr]
    exact settles_of_step (machineStep_transition d s.m.id) hop
  · unfold moveMachine
    dsimp only
    split <;> rfl

theorem quiet_finish {id opID out : String}
    {next : Option Time} :
    Quiet s { s with row := (finishMachineOperation d now id opID out message next s.row).1 } := by
  refine ⟨fun r hr => ?_, rfl⟩
  dsimp only
  rw [hr]
  exact settles_of_step machineStep_finish trivial

theorem quiet_recordStepFailure (opID : String) (e : CallError) :
    Quiet s (recordStepFailure a opID e s) := by
  unfold recordStepFailure
  dsimp only
  split
  · exact (quiet_finish s).trans (quiet_move _ (by decide))
  · exact quiet_finish s

theorem quiet_quarantine {why : String} : Quiet s (quarantineMachine a why s) := by
  have herror : Quiet s { s with
      row := (setMachineOwnershipError a.ownershipDriver a.now why s.row).1 } := by
    refine ⟨fun r hr => ?_, rfl⟩
    dsimp only
    rw [hr]
    exact settles_exec ⟨rfl, rfl, rfl, fun h => h⟩
  exact herror.trans (quiet_move _ (by decide))

theorem quiet_address (got : SeenMachine) : Quiet s (recordMachineAddress a got s) := by
  unfold recordMachineAddress
  split
  · exact Quiet.refl s
  have hrow : ∀ r, s.row = some r →
      ∃ r', (setMachineAddress a.addressDriver a.now got.address s.row).1 = some r' ∧
        Settles r r' := by
    intro r hr
    rw [hr]
    exact settles_exec ⟨rfl, rfl, rfl, fun h => h⟩
  dsimp only
  split
  · exact ⟨hrow, rfl⟩
  · exact ⟨hrow, rfl⟩

theorem quiet_settleStep (opID : String) (result : StepState × Option StepError) :
    Quiet result.1 (settleStep a opID result) := by
  obtain ⟨s, end_⟩ := result
  cases end_ with
  | none => exact quiet_finish s
  | some end_ =>
    cases end_ with
    | held why => exact quiet_finish s
    | waiting | unknownOutcome text => exact Quiet.refl s
    | failed e => exact quiet_recordStepFailure a s opID e

theorem quiet_issueCreate (ref : MachineRef) :
    Quiet (s.call (.create ref a.create)) (issueCreate a ref s).1 := by
  unfold issueCreate
  dsimp only
  split
  · rename_i e _
    unfold noteAmbiguity
    split
    · exact Quiet.refl _
    refine ⟨fun r hr => ?_, rfl⟩
    have hstep : MachineStep r a.now (.markUnknown s.m.opID e.text) _ _ :=
      machineStep_apply "" ⟨.markUnknown s.m.opID e.text, a.now, a.unknownDriver⟩ r
    dsimp only
    rw [hr]
    exact settles_of_step hstep trivial
  · rename_i handle _
    split
    · exact Quiet.refl _
    refine ⟨fun r hr => ?_, rfl⟩
    have hstep : MachineStep r a.now (.setHandle s.m.opID handle) _ _ :=
      machineStep_apply "" ⟨.setHandle s.m.opID handle, a.now, a.handleDriver⟩ r
    dsimp only
    rw [hr]
    exact settles_of_step hstep trivial

theorem missing_cases : Quiet s (resolveMissing a s).1 ∨ s.m.attempts ≠ 0 ∧
        Quiet (s.call (.create (machineRef s.m) a.create)) (resolveMissing a s).1 := by
  unfold resolveMissing
  dsimp only
  split
  · exact .inl (quiet_quarantine a s)
  split
  · exact .inl (Quiet.refl s)
  rename_i hattempts
  split
  · exact .inl (Quiet.refl s)
  split
  · exact .inl (Quiet.refl s)
  · exact .inr ⟨hattempts, quiet_issueCreate a s (machineRef s.m)⟩

theorem inspection_cases :
    Quiet (s.call (.inspect (machineRef s.m) a.inspect)) (resolveByInspection a s).1 ∨
      (ProviderCall.inspect (machineRef s.m) a.inspect).missing = true ∧ s.m.attempts ≠ 0 ∧
        Quiet ((s.call (.inspect (machineRef s.m) a.inspect)).call
          (.create (machineRef s.m) a.create)) (resolveByInspection a s).1 := by
  unfold resolveByInspection
  dsimp only
  cases hin : a.inspect with
  | error e =>
    dsimp only
    split
    · rename_i hkind
      rcases missing_cases a (s.call (.inspect (machineRef s.m) (.error e))) with h | ⟨hat, h⟩
      · exact .inl h
      · exact .inr ⟨beq_iff_eq.mpr hkind, hat, h⟩
    · exact .inl (Quiet.refl _)
  | ok got =>
    left
    dsimp only
    split
    · exact quiet_quarantine a _
    split
    · exact Quiet.refl _
    have hverified : Quiet (s.call (.inspect (machineRef s.m) (.ok got)))
        { s.call (.inspect (machineRef s.m) (.ok got)) with
          row := (setMachineOwnershipVerified a.ownershipDriver a.now s.row).1 } := by
      refine ⟨fun r hr => ?_, rfl⟩
      have hrow : s.row = some r := hr
      dsimp only
      rw [hrow]
      exact settles_exec ⟨rfl, rfl, rfl, fun h => h⟩
    have hseen := hverified.trans (quiet_address a _ got)
    split
    · exact hseen.trans (quiet_move _ (by decide))
    · exact hseen.trans (quiet_move _ (by decide))
    · exact hseen

inductive LookedCalls (m : Machine) (create : Except CallError String) : List ProviderCall → Prop
  | looking (calls : List ProviderCall) (h : ∀ c ∈ calls, c.creates = false) :
      LookedCalls m create calls
  | again (front : List ProviderCall) (look : ProviderCall)
      (hfront : ∀ c ∈ front, c.creates = false) (hlook : look.missing = true)
      (hattempts : m.attempts ≠ 0) :
      LookedCalls m create (front ++ [look, .create (machineRef m) create])

theorem creates_of_missing {c : ProviderCall} (h : c.missing = true) : c.creates = false := by
  cases c with
  | create => exact absurd h Bool.false_ne_true
  | _ => rfl

theorem looked_inspection (hs : ∀ c ∈ s.calls, c.creates = false) :
    ∃ calls, LookedCalls s.m a.create calls ∧
      Quiet { s with calls := calls } (resolveByInspection a s).1 := by
  rcases inspection_cases a s with h | ⟨hmissing, hattempts, h⟩
  · refine ⟨_, LookedCalls.looking _ fun c hc => ?_, h⟩
    rcases List.mem_append.mp hc with hold | hnew
    · exact hs c hold
    · rw [List.mem_singleton.mp hnew]
      rfl
  refine ⟨_, LookedCalls.again s.calls _ hs hmissing hattempts, ?_⟩
  have hjoin : ((s.call (.inspect (machineRef s.m) a.inspect)).call
      (.create (machineRef s.m) a.create)) =
      { s with calls := s.calls ++ [.inspect (machineRef s.m) a.inspect,
        .create (machineRef s.m) a.create] } := by
    unfold StepState.call
    rw [List.append_assoc]
    rfl
  rw [← hjoin]
  exact h

theorem looked_creating (hs : s.calls = []) : ∃ calls, LookedCalls s.m a.create calls ∧
      Quiet { s with calls := calls } (stepCreating a s).1 := by
  have hnone : ∀ c ∈ s.calls, c.creates = false := by
    rw [hs]
    exact fun c hc => absurd hc List.not_mem_nil
  have hfollowed : ∀ c ∈ (s.call (.operation s.m.opHandle a.operation)).calls,
      c.creates = false := by
    intro c hc
    have hmem : c ∈ s.calls ++ [.operation s.m.opHandle a.operation] := hc
    rw [hs] at hmem
    rw [List.mem_singleton.mp hmem]
    rfl
  have hlook := looked_inspection a (s.call (.operation s.m.opHandle a.operation)) hfollowed
  have hstop : Quiet (s.call (.operation s.m.opHandle a.operation))
      (s.call (.operation s.m.opHandle a.operation)) := Quiet.refl _
  unfold stepCreating
  split
  · dsimp only
    split
    · split
      · exact hlook
      · exact ⟨_, LookedCalls.looking _ hfollowed, hstop⟩
    split
    · exact ⟨_, LookedCalls.looking _ hfollowed, hstop⟩
    split
    · exact ⟨_, LookedCalls.looking _ hfollowed, hstop⟩
    · exact hlook
  · exact looked_inspection a s hnone

theorem recordResource_cases {ref : MachineRef} {m : Machine} :
    (∃ e, recordResource a ref (some r) m = (some r, .error e)) ∨
      r.resourceID = "" ∧ ref.recorded ≠ "" ∧ ∃ fingerprint controllerID,
        recordResource a ref (some r) m =
          (some (writeResource ref.zone ref.recorded fingerprint controllerID a.now r),
            .ok ()) := by
  unfold recordResource
  dsimp only
  rcases setMachineResource_cases
    with ⟨e, h⟩ | ⟨hfree, hid, h⟩
  · rw [h]
    dsimp only
    split
    · split
      · rcases setMachineResource_cases
          with ⟨e, h⟩ | ⟨hfree, hid, h⟩
        · exact .inl ⟨e, h⟩
        · exact .inr ⟨hfree, hid, _, _, h⟩
      · exact .inl ⟨_, rfl⟩
    · exact .inl ⟨e, rfl⟩
  · rw [h]
    exact .inr ⟨hfree, hid, _, _, rfl⟩

theorem move_names {target : MachineState}
    (hr : s.row = some r) : (moveMachine d now target message s).calls = s.calls ∧
    ∃ r', (moveMachine d now target message s).row = some r' ∧ r'.name = r.name ∧
      r'.resourceZone = r.resourceZone ∧ r'.resourceID = r.resourceID := by
  have hnames : ∀ row answer, MachineStep r now (.transition target.text message) row answer →
      ∃ r', row = some r' ∧ r'.name = r.name ∧ r'.resourceZone = r.resourceZone ∧
        r'.resourceID = r.resourceID := by
    intro row answer h
    cases h with
    | same => exact ⟨r, rfl, rfl, rfl, rfl⟩
    | moved => exact ⟨_, rfl, rfl, rfl, rfl⟩
  have hrow := hnames _ _ (machineStep_transition d s.m.id)
  unfold moveMachine
  rw [hr]
  dsimp only
  split
  · exact ⟨rfl, hrow⟩
  · exact ⟨rfl, hrow⟩

theorem planned_cases (hs : s.calls = []) (hr : s.row = some r) :
    (∃ calls, (∀ c ∈ calls, c.creates = false) ∧
      Quiet { s with calls := calls } (stepPlanned a s).1) ∨
    ∃ (allocated ref : MachineRef) (r' : MachineRow), r.resourceID = "" ∧
      a.allocate = .ok allocated ∧
      ref = (if allocated.name = "" then { allocated with name := s.m.name } else allocated) ∧
      r'.name = r.name ∧ r'.resourceID ≠ "" ∧ (r'.resourceZone, r'.resourceID) = ref.resource ∧
      (stepPlanned a s).1.row = some r' ∧
      (stepPlanned a s).1.calls = [.allocate a.allocate, .create ref a.create] := by
  have hnone : ∀ c ∈ s.calls, c.creates = false := by
    rw [hs]
    exact fun c hc => absurd hc List.not_mem_nil
  have hasked : ∀ c ∈ (s.call (.allocate a.allocate)).calls, c.creates = false := by
    intro c hc
    have hmem : c ∈ s.calls ++ [.allocate a.allocate] := hc
    rw [hs] at hmem
    rw [List.mem_singleton.mp hmem]
    rfl
  have hstop : Quiet (s.call (.allocate a.allocate)) (s.call (.allocate a.allocate)) :=
    Quiet.refl _
  unfold stepPlanned
  split
  · exact .inl ⟨s.calls, hnone, Quiet.refl s⟩
  split
  · exact .inl ⟨s.calls, hnone, Quiet.refl s⟩
  dsimp only
  cases halloc : a.allocate with
  | error e =>
    rw [halloc] at hasked hstop
    exact .inl ⟨_, hasked, hstop⟩
  | ok allocated =>
    rw [halloc] at hasked hstop
    dsimp only
    split
    · exact .inl ⟨_, hasked, hstop⟩
    generalize href : (if allocated.name = "" then
      { allocated with name := (s.call (.allocate (.ok allocated))).m.name }
      else allocated) = ref
    have hrow : (s.call (.allocate (.ok allocated))).row = some r := hr
    rw [hrow]
    rcases recordResource_cases a
      with ⟨e, h⟩ | ⟨hfree, hid, fingerprint, controllerID, h⟩
    · left
      rw [h]
      refine ⟨_, hasked, fun r' hr' => ⟨r, rfl, ?_⟩, rfl⟩
      rw [show r' = r from Option.some.inj (hr'.symm.trans hrow)]
      exact Settles.refl r
    right
    rw [h]
    dsimp only
    obtain ⟨hcalls, r₁, hr₁, hname, hzone, hresource⟩ := move_names
      { s.call (.allocate (.ok allocated)) with
        row := some (writeResource ref.zone ref.recorded fingerprint controllerID a.now r) } rfl
    have hcreate := quiet_issueCreate a (moveMachine a.moveDriver a.now .creating
      ("building " ++ ref.name ++ " at " ++ a.providerName)
      { s.call (.allocate (.ok allocated)) with
        row := some (writeResource ref.zone ref.recorded fingerprint controllerID a.now
          r) }) ref
    obtain ⟨r₂, hr₂, hset⟩ := hcreate.row r₁ hr₁
    have hid₂ : r₂.resourceID = ref.recorded := hset.id.trans hresource
    have hzone₂ : r₂.resourceZone = ref.zone := hset.zone.trans hzone
    refine ⟨allocated, ref, r₂, hfree, rfl, href.symm, hset.name.trans hname, ?_, ?_, hr₂, ?_⟩
    · rw [hid₂]
      exact hid
    · rw [hid₂, hzone₂]
      rfl
    rw [hcreate.calls]
    change (moveMachine _ _ _ _ _).calls ++ _ = _
    rw [hcalls]
    change (s.calls ++ _) ++ _ = _
    rw [hs]
    rfl

end
end Zoomies.Controller
