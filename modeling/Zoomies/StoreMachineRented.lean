import Zoomies.StoreMachineCalls

/-! What a machine's row records of what it rented is never lost, and one operation holds it at a
time. -/
namespace Zoomies.Store
open Zoomies.Go

def MachineRow.identity (r : MachineRow) : String × String × String × String :=
  (r.resourceZone, r.resourceID, r.ownerFingerprint, r.ownerControllerID)

section
variable (r r' : MachineRow) {now : Time} {op : MachineOp} {answer : MachineAnswer}

@[simp] theorem Machine.moved_state {target : MachineState} {message : String} {m : Machine} :
    (m.moved now target message).state = target := by
  cases target <;> rfl

structure RecordKept : Prop where
  identity : r'.identity = r.identity
  hostID : r'.hostID = r.hostID
  state : r'.state = r.state
  deletedAt : r'.deletedAt = r.deletedAt

variable {r r'}

theorem recordKept_finish {out : MachineOpOutcome} {message : String} {next : Option Time} :
    RecordKept r (countOutcome out message next (clearOperation now message r)) := by
  cases out <;> exact ⟨rfl, rfl, rfl, rfl⟩

theorem recordKept_failure {src : MachineErrorSource} {detail : String} {next : Time} :
    RecordKept r (writeFailure src detail next now r) := by
  cases src <;> exact ⟨rfl, rfl, rfl, rfl⟩

theorem record_step (h : MachineStep r now op (some r') answer) :
    (r.resourceID ≠ "" → r'.identity = r.identity) ∧ (r.hostID ≠ none → r'.hostID = r.hostID) := by
  cases h with
  | named _ _ _ _ _ hfree _ => exact ⟨absurd hfree, fun _ => rfl⟩
  | linked _ _ _ _ hfree => exact ⟨fun _ => rfl, absurd hfree⟩
  | finished => exact ⟨fun _ => recordKept_finish.identity, fun _ => recordKept_finish.hostID⟩
  | failed => exact ⟨fun _ => recordKept_failure.identity, fun _ => recordKept_failure.hostID⟩
  | _ => exact ⟨fun _ => rfl, fun _ => rfl⟩

theorem state_step (h : MachineStep r now op (some r') answer) :
    canTransitionMachine r.state r'.state = true := by
  have hstay : canTransitionMachine r.state r.state = true := by
    rw [canTransitionMachine, beq_self_eq_true, Bool.true_or]
  cases h with
  | moved target _ message _ _ hcan =>
    have hstate : (writeMove ((scanMachine r).moved now target message) r).state = target :=
      Machine.moved_state
    rw [hstate]
    exact hcan
  | finished _ _ message next out _ =>
    rw [(recordKept_finish).state]
    exact hstay
  | failed _ _ detail next src =>
    rw [(recordKept_failure).state]
    exact hstay
  | _ => exact hstay

theorem deletedAt_step (h : MachineStep r now op (some r') answer) : r'.deletedAt = r.deletedAt ∨
      op = .confirmDeleted ∧ answer = .confirmed (.ok true) ∧ r.deletedAt = none ∧
        r'.deletedAt = some (ms now) := by
  cases h with
  | finished _ _ message next out _ =>
    exact .inl (recordKept_finish).deletedAt
  | failed _ _ detail next src => exact .inl (recordKept_failure).deletedAt
  | gone hnone => exact .inr ⟨rfl, rfl, hnone, rfl⟩
  | _ => exact .inl rfl

end

structure Hold where
  opID : String
  deadline : Option Time

def holdAfter (op : MachineOp) (now : Time) (answer : MachineAnswer) (hold : Option Hold) :
    Option Hold :=
  match op, answer with
  | .claim operation minted, .machine (.ok _) =>
    some ⟨operation.claimID minted, some (now + operation.timeout)⟩
  | .finish opID _ _ _, .done (.ok _) => hold.filter (·.opID != opID)
  | _, _ => hold

def HoldAgrees (r : MachineRow) : Option Hold → Prop
  | none => r.opID = ""
  | some hold => r.opID = hold.opID ∧ hold.opID ≠ "" ∧ r.opDeadlineAt = hold.deadline.map ms

theorem claimID_ne {op : MachineOperation} {minted : String} : op.claimID minted ≠ "" := by
  rw [MachineOperation.claimID]
  split
  · intro h
    have hlen := congrArg String.length h
    exact absurd hlen (by simp)
  · assumption

section
variable {r r' : MachineRow} {now : Time} {op : MachineOp} {answer : MachineAnswer}
  {hold : Option Hold}

theorem holdAfter_of_ungranted (hagrees : HoldAgrees r hold) (h : Ungranted r op answer) :
    holdAfter op now answer hold = hold := by
  cases op with
  | claim operation minted =>
    cases answer with
    | machine m =>
      cases m with
      | error e => rfl
      | ok m => exact h.elim
    | _ => rfl
  | finish opID out message next =>
    cases answer with
    | done e =>
      cases e with
      | error e => rfl
      | ok u =>
        have hother : r.opID ≠ opID := h
        cases hold with
        | none => rfl
        | some held =>
          have hne : (held.opID != opID) = true := by
            rw [bne_iff_ne, ← hagrees.1]
            exact hother
          exact Option.filter_some_pos (p := fun h : Hold => h.opID != opID) hne
    | _ => rfl
  | _ => cases answer <;> rfl

theorem holdAgrees_step (hagrees : HoldAgrees r hold) (h : MachineStep r now op (some r') answer) :
    HoldAgrees r' (holdAfter op now answer hold) := by
  cases h with
  | same _ _ hun =>
    rw [holdAfter_of_ungranted hagrees hun]
    exact hagrees
  | claimed operation minted _ _ _ => exact ⟨rfl, claimID_ne, rfl⟩
  | finished opID text message next out hid =>
    have hfree : holdAfter (.finish opID text message next) now (.done (.ok ())) hold = none := by
      cases hold with
      | none => rfl
      | some held =>
        have hsame : held.opID = opID := hagrees.1.symm.trans hid
        have hdrop : (held.opID != opID) = false := by
          rw [hsame, bne_self_eq_false]
        exact Option.filter_some_neg (p := fun h : Hold => h.opID != opID) hdrop
    rw [hfree]
    cases out <;> rfl
  | failed _ _ detail next src =>
    cases hold <;> cases src <;> exact hagrees
  | _ => exact hagrees

theorem claim_after_deadline {held : Hold} {operation : MachineOperation} {minted : String}
    {m : Machine} (hagrees : HoldAgrees r (some held)) {row : Option MachineRow}
    (h : MachineStep r now (.claim operation minted) row (.machine (.ok m))) :
    ∃ deadline, held.deadline = some deadline ∧ deadline < now := by
  cases h with
  | same _ _ hun => exact hun.elim
  | claimed _ _ _ _ hfree =>
    rcases hfree with hnone | ⟨stored, hstored, hlt⟩
    · exact absurd (hagrees.1.symm.trans hnone) hagrees.2.1
    rw [hagrees.2.2] at hstored
    obtain ⟨deadline, hdeadline, hms⟩ := Option.map_eq_some_iff.mp hstored
    refine ⟨deadline, hdeadline, ?_⟩
    -- the row keeps whole milliseconds, so its deadline is the earlier of the two
    apply lt_of_not_ge
    intro hge
    have hle := ms_le_ms hge
    rw [hms] at hle
    exact absurd hlt (not_lt_of_ge hle)

def MachineOp.carries : MachineOp → Option String
  | .setHandle opID _ | .markUnknown opID _ | .finish opID _ _ _ => some opID
  | _ => none

theorem stale_step {opID : String} (hid : opID ≠ "") (hcarries : op.carries = some opID)
    (hagrees : HoldAgrees r hold) (hstale : ∀ held, hold = some held → held.opID ≠ opID)
    {row : Option MachineRow} (h : MachineStep r now op row answer) : row = some r := by
  have hother : r.opID ≠ opID := by
    cases hold with
    | none =>
      rw [show r.opID = "" from hagrees]
      exact hid.symm
    | some held =>
      rw [hagrees.1]
      exact hstale held rfl
  cases h with
  | same => rfl
  | handled given _ heq | unheard given _ heq
  | finished given _ _ _ _ heq => exact absurd (heq.trans (Option.some.inj hcarries)) hother
  | _ => exact absurd hcarries (by simp [MachineOp.carries])

end

def MachineAnswer.confirms : MachineAnswer → Bool
  | .confirmed (.ok true) => true
  | _ => false

structure MachineLife where
  row : Option MachineRow
  hold : Option Hold
  confirmations : Nat := 0

def MachineLife.created (r : MachineRow) : MachineLife where
  row := some r
  hold := if r.opID = "" then none else some ⟨r.opID, r.opDeadlineAt.map atMillis⟩

def MachineLife.step (id : String) (s : MachineLife) (c : MachineCall) : MachineLife :=
  let written := c.apply id s.row
  { row := written.1
    hold := holdAfter c.op c.now written.2 s.hold
    confirmations := s.confirmations + if written.2.confirms then 1 else 0 }

def MachineLife.through (id : String) (calls : List MachineCall) (s : MachineLife) : MachineLife :=
  calls.foldl (MachineLife.step id) s

theorem through_append (id : String) (first rest : List MachineCall) (s : MachineLife) :
    s.through id (first ++ rest) = (s.through id first).through id rest :=
  List.foldl_append

section
variable (d : Driver)

theorem updateReturning_none {taken : Bool} {guard : MachineRow → Bool}
    {write : MachineRow → MachineRow} :
    ∃ e, updateReturning d taken guard write none = (none, .error e) := by
  rcases tx_cases with h | ⟨row, written, hbody, _⟩
  · exact h
  cases hq : d.queryError with
  | some e | none => simp [hq] at hbody

theorem exec_none (guard : MachineRow → Bool) (write : MachineRow → MachineRow) :
    (exec d none (updateWhere guard write none)).1 = none := by
  rcases exec_cases with ⟨e, h⟩ | h
  · rw [h]
  · rw [h]
    rfl

end

variable {id : String}

theorem apply_none {c : MachineCall} :
    (c.apply id none).1 = none ∧ (c.apply id none).2.confirms = false := by
  unfold MachineCall.apply
  cases c.op with
  | transition target message =>
    refine ⟨?_, rfl⟩
    dsimp only
    unfold transitionMachine
    cases MachineState.ofText target with
    | none => rfl
    | some state =>
      rcases tx_cases with ⟨e, h⟩ | ⟨row, m, hbody, _⟩
      · exact congrArg Prod.fst h
      cases hq : c.driver.queryError with
      | some e | none => simp [getMachine, hq] at hbody
  | setResource taken zone resourceID fingerprint controllerID =>
    refine ⟨?_, rfl⟩
    dsimp only
    unfold setMachineResource
    split
    · rfl
    obtain ⟨e, h⟩ := updateReturning_none c.driver
    dsimp only
    rw [h]
    dsimp only
    split
    · rfl
    · split <;> rfl
    · rfl
  | claim op minted =>
    refine ⟨?_, rfl⟩
    dsimp only
    unfold claimMachineOperation
    split
    · rfl
    · rfl
    rename_i kind _ _
    split
    · rfl
    obtain ⟨e, h⟩ := updateReturning_none c.driver
    rw [h]
    dsimp only
    split
    · rfl
    · split <;> rfl
    · rfl
  | setHandle opID handle | markUnknown opID detail => exact ⟨exec_none c.driver _ _, rfl⟩
  | finish opID out message next =>
    refine ⟨?_, rfl⟩
    dsimp only
    unfold finishMachineOperation
    cases MachineOpOutcome.ofText out with
    | none => rfl
    | some out => exact exec_none c.driver _ _
  | recordFailure src detail next =>
    refine ⟨?_, rfl⟩
    dsimp only
    unfold recordMachineFailure
    cases MachineErrorSource.ofText src with
    | none => rfl
    | some half =>
      rcases exec_cases with ⟨e, h⟩ | h
      · exact congrArg Prod.fst h
      · exact congrArg Prod.fst h
  | confirmDeleted =>
    obtain ⟨e, h⟩ := updateReturning_none c.driver
    dsimp only
    unfold confirmMachineDeleted
    dsimp only
    rw [h]
    cases e <;> exact ⟨rfl, rfl⟩
  | linkHost taken hostID joinTokenID enrolled =>
    refine ⟨?_, rfl⟩
    dsimp only
    unfold linkMachineHost
    dsimp only
    split
    · rfl
    have hrow := exec_none c.driver (·.hostID.isNone) (writeLink hostID joinTokenID enrolled c.now)
    split
    · exact hrow
    split
    · exact hrow
    · split <;> exact hrow
  | prune before =>
    refine ⟨?_, rfl⟩
    dsimp only
    unfold pruneMachines
    rcases tx_cases with ⟨e, h⟩ | ⟨rows, ids, hbody, h⟩
    · rw [h]
      rfl
    rw [h]
    cases hq : c.driver.queryError with
    | some e => simp [hq] at hbody
    | none =>
      simp [hq] at hbody
      rw [hbody.1]
      rfl

structure MachineLife.Sound (s : MachineLife) : Prop where
  hold : ∀ r, s.row = some r → HoldAgrees r s.hold
  once : s.confirmations ≤ 1
  gone : ∀ r, s.row = some r → 0 < s.confirmations → r.deletedAt ≠ none
  stamp : ∀ r, s.row = some r → r.deletedAt ≠ some 0

theorem life_sound_created {r : MachineRow} (h : r.deletedAt ≠ some 0) :
    (MachineLife.created r).Sound := by
  refine ⟨fun r' hr => ?_, Nat.zero_le 1, fun r' _ hpos => absurd hpos (Nat.lt_irrefl 0),
    fun r' hr => ?_⟩
  · rw [← Option.some.inj hr, MachineLife.created]
    split
    · assumption
    rename_i hid
    refine ⟨rfl, hid, ?_⟩
    cases hd : r.opDeadlineAt with
    | none => rfl
    | some v => exact congrArg some ms_atMillis.symm
  · rw [← Option.some.inj hr]
    exact h

theorem not_ungranted_of_confirms {r : MachineRow} {op : MachineOp} {answer : MachineAnswer}
    (hconf : answer.confirms = true) : ¬Ungranted r op answer := by
  intro h
  unfold MachineAnswer.confirms at hconf
  split at hconf
  · cases op <;> exact h
  · exact Bool.false_ne_true hconf

theorem stamped_of_confirms {r : MachineRow} {now : Time} {op : MachineOp}
    {row : Option MachineRow} {answer : MachineAnswer} (h : MachineStep r now op row answer)
    (hconf : answer.confirms = true) :
    r.deletedAt = none ∧ ∃ r', row = some r' ∧ r'.deletedAt = some (ms now) := by
  cases h with
  | same _ _ hun => exact absurd hun (not_ungranted_of_confirms hconf)
  | gone hnone => exact ⟨hnone, _, rfl, rfl⟩
  | _ => exact absurd hconf Bool.false_ne_true

/-- One call keeps a machine's record sound. -/
theorem life_sound_step (id : String) {s : MachineLife} {c : MachineCall} (hs : s.Sound)
    (hepoch : c.op = .confirmDeleted → ms c.now ≠ 0) : (s.step id c).Sound := by
  cases hrow : s.row with
  | none =>
    obtain ⟨hgone, hconf⟩ := apply_none
    have hnone : (s.step id c).row = none := by
      rw [MachineLife.step, hrow]
      exact hgone
    have hcount : (s.step id c).confirmations = s.confirmations := by
      rw [MachineLife.step, hrow]
      rw [hconf]
      rfl
    have hno : ∀ r, (s.step id c).row ≠ some r := by
      intro r hr
      rw [hnone] at hr
      exact Option.some_ne_none r hr.symm
    refine ⟨fun r hr => absurd hr (hno r), ?_, fun r hr => absurd hr (hno r),
      fun r hr => absurd hr (hno r)⟩
    rw [hcount]
    exact hs.once
  | some r =>
    have hstep := machineStep_apply id c r
    have hrow' : (s.step id c).row = (c.apply id (some r)).1 := by rw [MachineLife.step, hrow]
    have hhold : (s.step id c).hold = holdAfter c.op c.now (c.apply id (some r)).2 s.hold := by
      rw [MachineLife.step, hrow]
    have hcount : (s.step id c).confirmations =
        s.confirmations + if (c.apply id (some r)).2.confirms then 1 else 0 := by
      rw [MachineLife.step, hrow]
    refine ⟨fun r' hr => ?_, ?_, fun r' hr hpos => ?_, fun r' hr => ?_⟩
    · rw [hrow'] at hr
      rw [hr] at hstep
      rw [hhold]
      exact holdAgrees_step (hs.hold r hrow) hstep
    · rw [hcount]
      cases hconf : (c.apply id (some r)).2.confirms with
      | false => exact hs.once
      | true =>
        have hnone := (stamped_of_confirms hstep hconf).1
        have hzero : s.confirmations = 0 := by
          apply Nat.eq_zero_of_not_pos
          intro hpos
          exact hs.gone r hrow hpos hnone
        rw [hzero]
        exact le_refl 1
    · rw [hrow'] at hr
      cases hconf : (c.apply id (some r)).2.confirms with
      | false =>
        rw [hcount, hconf] at hpos
        rw [hr] at hstep
        have hset := hs.gone r hrow hpos
        rcases deletedAt_step hstep with hsame | ⟨_, _, hnone, _⟩
        · rw [hsame]
          exact hset
        · exact absurd hnone hset
      | true =>
        obtain ⟨_, written, hw, hd⟩ := stamped_of_confirms hstep hconf
        have hsame : r' = written := Option.some.inj (hr.symm.trans hw)
        rw [hsame, hd]
        exact Option.some_ne_none _
    · rw [hrow'] at hr
      rw [hr] at hstep
      rcases deletedAt_step hstep with hsame | ⟨hop, _, _, hstamp⟩
      · rw [hsame]
        exact hs.stamp r hrow
      rw [hstamp]
      intro hzero
      exact hepoch hop (Option.some.inj hzero)

theorem life_sound_through {calls : List MachineCall} (s : MachineLife) (hs : s.Sound)
    (hepoch : ∀ c ∈ calls, c.op = .confirmDeleted → ms c.now ≠ 0) : (s.through id calls).Sound := by
  induction calls generalizing s with
  | nil => exact hs
  | cons c rest ih =>
    have hc := life_sound_step id hs (hepoch c List.mem_cons_self)
    exact ih (s.step id c) hc fun d hd => hepoch d (List.mem_cons_of_mem c hd)

/-- An identity or a host once recorded stays. -/
theorem recorded_through {calls : List MachineCall} (s : MachineLife)
    (r : MachineRow) {r' : MachineRow} (hr : s.row = some r) (hr' : (s.through id calls).row = some r') :
    (r.resourceID ≠ "" → r'.identity = r.identity) ∧ (r.hostID ≠ none → r'.hostID = r.hostID) := by
  induction calls generalizing s r with
  | nil =>
    have hsame : r' = r := Option.some.inj (hr'.symm.trans hr)
    rw [hsame]
    exact ⟨fun _ => rfl, fun _ => rfl⟩
  | cons c rest ih =>
    have hstep := machineStep_apply id c r
    have hrow : (s.step id c).row = (c.apply id (some r)).1 := by rw [MachineLife.step, hr]
    cases hw : (c.apply id (some r)).1 with
    | none =>
      -- nothing brings a row back
      have hgone : ∀ (later : List MachineCall) (t : MachineLife), t.row = none →
          (t.through id later).row = none := by
        intro later
        induction later with
        | nil => exact fun t ht => ht
        | cons d rest ih =>
          intro t ht
          refine ih (t.step id d) ?_
          rw [MachineLife.step, ht]
          exact apply_none.1
      have hnone := hgone rest (s.step id c) (hrow.trans hw)
      exact absurd (hr'.symm.trans hnone) (Option.some_ne_none r')
    | some w =>
      rw [hw] at hstep
      obtain ⟨hid, hhost⟩ := ih (s.step id c) w (hrow.trans hw) hr'
      refine ⟨fun hset => ?_, fun hset => ?_⟩
      · have hkept := (record_step hstep).1 hset
        have hresource : w.resourceID = r.resourceID := congrArg (fun i => i.2.1) hkept
        exact (hid (by rw [hresource]; exact hset)).trans hkept
      · have hkept := (record_step hstep).2 hset
        exact (hhost (by rw [hkept]; exact hset)).trans hkept

variable {r : MachineRow}

theorem owns_lost {r' : MachineRow} {now : Time} {op : MachineOp} {answer : MachineAnswer}
    (h : MachineStep r now op (some r') answer) (howns : (scanMachine r).owns = true)
    (hlost : (scanMachine r').owns = false) :
    op = .confirmDeleted ∧ answer = .confirmed (.ok true) := by
  obtain ⟨hset, hlive⟩ := Bool.and_eq_true_iff.mp howns
  have hid : r.resourceID ≠ "" := bne_iff_ne.mp hset
  rcases deletedAt_step h with hsame | ⟨hop, hanswer, _, _⟩
  · have hkept : r'.resourceID = r.resourceID :=
      congrArg (fun i => i.2.1) ((record_step h).1 hid)
    have hsame' : (scanMachine r').owns = (scanMachine r).owns := by
      change (r'.resourceID != "" && (atp r'.deletedAt).isNone) =
        (r.resourceID != "" && (atp r.deletedAt).isNone)
      rw [hkept, hsame]
    rw [hsame', howns] at hlost
    exact absurd hlost Bool.true_eq_false.mp
  · exact ⟨hop, hanswer⟩

theorem pruned_of_none {now : Time} {op : MachineOp} {answer : MachineAnswer}
    (h : MachineStep r now op none answer) :
    ∃ before, op = .prune before ∧ prunable before r = true := by
  cases h with
  | pruned before _ hp => exact ⟨before, rfl, hp⟩

theorem not_owns_of_prunable {before : Time} (hstamp : r.deletedAt ≠ some 0)
    (h : prunable before r = true) : (scanMachine r).owns = false := by
  change (r.resourceID != "" && (atp r.deletedAt).isNone) = false
  rcases Bool.or_eq_true_iff.mp h with hdeleted | hfailed
  · obtain ⟨v, hv, _⟩ := (Option.any_eq_true _ _).mp (Bool.and_eq_true_iff.mp hdeleted).2
    have hne : v ≠ 0 := by
      intro hzero
      rw [hv, hzero] at hstamp
      exact hstamp rfl
    have hread : atp r.deletedAt = some (atMillis v) := by
      rw [hv]
      exact if_neg hne
    rw [hread]
    exact Bool.and_false _
  · have hid := (Bool.and_eq_true_iff.mp (Bool.and_eq_true_iff.mp hfailed).1).2
    rw [show r.resourceID = "" from by simpa using hid]
    rfl

theorem state_left {source target : MachineState} (h : canTransitionMachine source target = true) :
    (target = source ∨ target ∈ validMachineTransitions source) ∧
      (source = .deleted → target = .deleted) ∧
      (source = .quarantined → target ∈ [MachineState.quarantined, .deleting, .deleted]) := by
  revert h
  cases source <;> cases target <;> decide

/-- What a machine's row records of what was rented survives every sequence of calls, as long as no
confirmation is stamped in the epoch's own millisecond. -/
theorem rented_record_survives (r₀ : MachineRow) (calls : List MachineCall)
    (hnew : r₀.deletedAt ≠ some 0)
    (hepoch : ∀ c ∈ calls, c.op = .confirmDeleted → ms c.now ≠ 0) :
    (∀ first next rest, calls = first ++ next ++ rest → ∀ r r',
      ((MachineLife.created r₀).through r₀.id first).row = some r →
      ((MachineLife.created r₀).through r₀.id (first ++ next)).row = some r' →
      (r.resourceID ≠ "" → r'.identity = r.identity) ∧ (r.hostID ≠ none → r'.hostID = r.hostID)) ∧
    ((MachineLife.created r₀).through r₀.id calls).confirmations ≤ 1 ∧
    ∀ before c after, calls = before ++ c :: after → ∀ r,
      ((MachineLife.created r₀).through r₀.id before).row = some r →
      (∀ r', (c.apply r₀.id (some r)).1 = some r' →
        (r'.state = r.state ∨ r'.state ∈ validMachineTransitions r.state) ∧
        (r.state = .deleted → r'.state = .deleted) ∧ (r.state = .quarantined →
          r'.state ∈ [MachineState.quarantined, .deleting, .deleted]) ∧
        ((scanMachine r).owns = true → (scanMachine r').owns = false →
          c.op = .confirmDeleted ∧ (c.apply r₀.id (some r)).2 = .confirmed (.ok true))) ∧
      ((c.apply r₀.id (some r)).1 = none →
        (∃ cutoff, c.op = .prune cutoff) ∧ (scanMachine r).owns = false) ∧
      (∀ operation minted m hold, c.op = .claim operation minted →
        (c.apply r₀.id (some r)).2 = .machine (.ok m) →
        ((MachineLife.created r₀).through r₀.id before).hold = some hold →
        ∃ deadline, hold.deadline = some deadline ∧ deadline < c.now) ∧
      (∀ opID, opID ≠ "" → c.op.carries = some opID →
        (∀ hold, ((MachineLife.created r₀).through r₀.id before).hold = some hold →
          hold.opID ≠ opID) →
        (c.apply r₀.id (some r)).1 = some r) := by
  have hsound : ∀ part, (∀ c ∈ part, c ∈ calls) →
      ((MachineLife.created r₀).through r₀.id part).Sound := by
    intro part hpart
    exact life_sound_through _ (life_sound_created hnew) fun c hc => hepoch c (hpart c hc)
  refine ⟨?_, (hsound calls fun c hc => hc).once, ?_⟩
  · intro first next rest _ r r' hr hr'
    rw [through_append] at hr'
    exact recorded_through _ r hr hr'
  intro before c after hcalls r hr
  have hs := hsound before fun d hd => by
    rw [hcalls]
    exact List.mem_append_left _ hd
  have hstep := machineStep_apply r₀.id c r
  refine ⟨?_, ?_, ?_, ?_⟩
  · intro r' hr'
    rw [hr'] at hstep
    obtain ⟨hmove, hdeleted, hquarantined⟩ :=
      state_left (state_step hstep)
    exact ⟨hmove, hdeleted, hquarantined, owns_lost hstep⟩
  · intro hnone
    rw [hnone] at hstep
    obtain ⟨cutoff, hop, hprunable⟩ := pruned_of_none hstep
    exact ⟨⟨cutoff, hop⟩, not_owns_of_prunable (hs.stamp r hr) hprunable⟩
  · intro operation minted m hold hop hanswer hheld
    have hagrees := hs.hold r hr
    rw [hheld] at hagrees
    rw [hop, hanswer] at hstep
    exact claim_after_deadline hagrees hstep
  · intro opID hid hcarries hstale
    exact stale_step hid hcarries (hs.hold r hr) hstale hstep

def givenUp (confirmedAt : Time) : List MachineCall :=
  [⟨.setResource false "pve-1" "143" "mark" "ctl", unixEpoch, {}⟩,
    ⟨.claim ⟨"op1", "create", "ctl", second⟩ "", unixEpoch, {}⟩,
    ⟨.finish "op1" "failed" "refused" none, unixEpoch, {}⟩,
    ⟨.transition "deleted" "gone", unixEpoch, {}⟩, ⟨.confirmDeleted, confirmedAt, {}⟩,
    ⟨.confirmDeleted, confirmedAt, {}⟩]

theorem rented_record_survives_given_up :
    (∀ c ∈ givenUp (unixEpoch + second), c.op = .confirmDeleted → ms c.now ≠ 0) ∧
      ((MachineLife.created { id := "m1" }).through "m1"
        (givenUp (unixEpoch + second))).confirmations ≤ 1 := by
  have hepoch : ∀ c ∈ givenUp (unixEpoch + second), c.op = .confirmDeleted → ms c.now ≠ 0 := by
    intro c hc hop
    simp only [givenUp, List.mem_cons, List.not_mem_nil, or_false] at hc
    rcases hc with rfl | rfl | rfl | rfl | rfl | rfl
    · simp at hop
    · simp at hop
    · simp at hop
    · simp at hop
    · decide
    · decide
  exact ⟨hepoch, (rented_record_survives { id := "m1" } (givenUp (unixEpoch + second))
    (by decide) hepoch).2.1⟩

/-- Confirmed gone in the epoch's own millisecond, the row still owns its resource, and is pruned.
-/
theorem pruned_while_owning :
    ((MachineLife.created { id := "m1" }).through "m1" (givenUp unixEpoch)).confirmations = 1 ∧
      ((MachineLife.created { id := "m1" }).through "m1"
        (givenUp unixEpoch)).row.any (fun r => (scanMachine r).owns) = true ∧
      ((MachineLife.created { id := "m1" }).through "m1"
        (givenUp unixEpoch ++ [⟨.prune (unixEpoch + second), unixEpoch + second, {}⟩])).row =
          none := by
  decide +kernel

end Zoomies.Store
