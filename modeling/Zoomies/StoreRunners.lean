import Zoomies.StoreRows

/-! The store's operations on a runner row: whatever order callers write in, it stays consistent. -/
namespace Zoomies.Store
open Zoomies.Go List

section
def validRunnerTransitions : RunnerState → List RunnerState
  | .provisioning => [.registering, .draining, .failed, .removed]
  | .registering => [.idle, .busy, .draining, .failed, .removed]
  | .idle => [.busy, .draining, .failed, .removed]
  | .busy => [.idle, .draining, .failed, .removed]
  | .draining => [.removed, .failed]
  | .removed => []
  | .failed => [.removed]

def canTransition (source target : RunnerState) : Bool :=
  source == target || (validRunnerTransitions source).contains target

def newRow (now : Time) (newID : String) (state : Option RunnerState) (r : RunnerRow) : RunnerRow :=
  { r with
    id := if r.id = "" then newID else r.id
    state := state.getD .provisioning
    createdAt := atMillis (ms now)
    startedAt := kept r.startedAt
    lastIdleAt := kept r.lastIdleAt
    finishedAt := kept r.finishedAt
    containerStartedAt := kept r.containerStartedAt
    registeredAt := kept r.registeredAt
    drainingSince := kept r.drainingSince }

def createRunner (d : Driver) (now : Time) (newID : String) (state : Option RunnerState)
    (r : RunnerRow) (t : List RunnerRow) : List RunnerRow × Except StoreError Unit :=
  let row := newRow now newID state r
  if d.readOnly then (t, .error .readOnly)
  else if t.any fun o => o.id == row.id || o.name == row.name then
    (t, .error (.conflict "already exists"))
  else exec d t (t ++ [row])

def selectRunner (d : Driver) (id : String) (t : List RunnerRow) : Except StoreError RunnerRow :=
  match d.queryError with
  | some e => .error (.driver e)
  | none =>
    match rowAt (·.id) id t with
    | none => .error (.notFound ("runner " ++ id ++ ": not found"))
    | some r => .ok r

def transitioned (now : Time) (target : RunnerState) (message : String) (kind : FaultKind)
    (r : RunnerRow) : RunnerRow :=
  let prev := r.state
  let r := { r with state := target, message := if message ≠ "" then message else r.message }
  let r := match target with
    | .idle =>
      { r with
        registeredAt := r.registeredAt.or (some now)
        startedAt := r.startedAt.or (some now)
        lastIdleAt := if prev ≠ .idle then some now else r.lastIdleAt
        -- leaving busy means a job just finished on this runner
        jobsHandled := if prev = .busy then r.jobsHandled + 1 else r.jobsHandled
        currentJobID := "" }
    | .busy =>
      { r with
        registeredAt := r.registeredAt.or (some now)
        startedAt := r.startedAt.or (some now)
        lastIdleAt := none }
    | .draining =>
      { r with drainingSince := if prev ≠ .draining then some now else r.drainingSince }
    | .removed | .failed =>
      { r with
        finishedAt := if prev ≠ target then some now else r.finishedAt
        currentJobID := "" }
    | .provisioning | .registering => r
  if kind ≠ .unset ∧ target = .failed then { r with faultKind := kind } else r

section
variable (now : Time) (target : RunnerState) (message : String) (kind : FaultKind) (r : RunnerRow)

@[simp] theorem transitioned_state : (transitioned now target message kind r).state = target := by
  cases target <;> simp [transitioned]
  split <;> rfl

theorem transitioned_currentJobID : (transitioned now target message kind r).currentJobID =
    if target = .idle ∨ target.terminal then "" else r.currentJobID := by
  cases target <;> simp [transitioned, RunnerState.terminal]
  split <;> rfl

theorem transitioned_lastIdleAt : (transitioned now target message kind r).lastIdleAt =
    if target = .busy then none
    else if target = .idle ∧ r.state ≠ .idle then some now else r.lastIdleAt := by
  cases target <;> simp [transitioned]
  split <;> rfl

theorem transitioned_drainingSince : (transitioned now target message kind r).drainingSince =
    if target = .draining ∧ r.state ≠ .draining then some now else r.drainingSince := by
  cases target <;> simp [transitioned]
  split <;> rfl

theorem transitioned_registeredAt : (transitioned now target message kind r).registeredAt =
    if target = .idle ∨ target = .busy then r.registeredAt.or (some now)
    else r.registeredAt := by
  cases target <;> simp [transitioned]
  split <;> rfl

theorem transitioned_startedAt : (transitioned now target message kind r).startedAt =
    if target = .idle ∨ target = .busy then r.startedAt.or (some now) else r.startedAt := by
  cases target <;> simp [transitioned]
  split <;> rfl

end

variable (d : Driver) (now : Time) (r : RunnerRow)

variable (row : RunnerRow) (id target message kind : String)

def writeTransition : RunnerRow :=
  { row with
    state := r.state
    message := r.message
    startedAt := kept r.startedAt
    lastIdleAt := kept r.lastIdleAt
    finishedAt := kept r.finishedAt
    jobsHandled := r.jobsHandled
    currentJobID := r.currentJobID
    registeredAt := kept r.registeredAt
    drainingSince := kept r.drainingSince
    faultKind := r.faultKind }

def transitionRunner (kind : FaultKind)
    (unlessBusy : Bool) (t : List RunnerRow) : List RunnerRow × Except StoreError RunnerRow :=
  match RunnerState.ofText target with
  | none => (t, .error (.invalidTransition
      ("invalid state transition: " ++ quoted target ++ " is not a runner state")))
  | some target => tx d t <|
      match selectRunner d id t with
      | .error e => .error e
      | .ok r =>
        if !canTransition r.state target then
          .error (.invalidTransition ("invalid state transition: runner " ++ id ++
            " cannot go " ++ r.state.text ++ " -> " ++ target.text))
        else if unlessBusy && (r.state == .busy || r.currentJobID != "") then
          .error (.invalidTransition ("invalid state transition: runner " ++ id ++
            " is running a job, so it cannot go " ++ r.state.text ++ " -> " ++ target.text ++
            " now"))
        else
          let r' := transitioned now target message kind r
          refusing d.execError (setAt (·.id) r.id (writeTransition r') t, r')

def started (jobID message : String) (r : RunnerRow) : RunnerRow :=
  let r := { r with currentJobID := jobID }
  if r.state = .provisioning ∨ r.state = .registering ∨ r.state = .idle then
    { r with
      state := .busy
      message := if message ≠ "" then message else r.message
      registeredAt := r.registeredAt.or (some now)
      startedAt := r.startedAt.or (some now)
      lastIdleAt := none }
  else r

def writeStart : RunnerRow :=
  { row with
    state := r.state
    message := r.message
    startedAt := kept r.startedAt
    lastIdleAt := kept r.lastIdleAt
    currentJobID := r.currentJobID
    registeredAt := kept r.registeredAt }

def startRefused : Bool :=
  r.state.terminal || ((r.state == .busy || r.state == .draining) && r.currentJobID != "")

def startRunnerJob (runnerID jobID message : String)
    (t : List RunnerRow) : List RunnerRow × Except StoreError (RunnerRow × Bool) :=
  tx d t <|
    match selectRunner d runnerID t with
    | .error e => .error e
    | .ok r =>
      if startRefused r then .ok (t, (r, false))
      else
        let r' := started now jobID message r
        refusing d.execError (setAt (·.id) r.id (writeStart r') t, (r', true))

def completedOn (jobs : List JobRow) (jobID runnerID : String) : Bool :=
  jobs.any fun j => j.id == jobID && j.runnerID == runnerID && j.state == .completed

def assigned (jobID : String) (r : RunnerRow) : Bool :=
  r.currentJobID == jobID && (r.state == .busy || r.state == .draining)

def unused : Bool :=
  r.ephemeral && r.currentJobID == "" && r.jobsHandled == 0 &&
    (r.state == .provisioning || r.state == .registering || r.state == .idle)

def released (r : RunnerRow) : RunnerRow :=
  let r := { r with currentJobID := "", jobsHandled := r.jobsHandled + 1, message := message }
  if r.ephemeral then { r with state := .removed, finishedAt := some now }
  else if r.state ≠ .draining then { r with state := .idle, lastIdleAt := some now }
  else r

def writeRelease : RunnerRow :=
  { row with
    state := r.state
    message := r.message
    lastIdleAt := kept r.lastIdleAt
    finishedAt := kept r.finishedAt
    jobsHandled := r.jobsHandled
    currentJobID := r.currentJobID }

def missedStart (jobs : List JobRow) (jobID : String) (r : RunnerRow) : Except StoreError Bool :=
  if unused r then refusing d.existsError (completedOn jobs jobID r.id) else .ok false

def completeRunnerJob (jobs : List JobRow)
    (runnerID jobID message : String) (t : List RunnerRow) :
    List RunnerRow × Except StoreError (RunnerRow × Bool) :=
  tx d t <|
    match selectRunner d runnerID t with
    | .error e => .error e
    | .ok r =>
      match missedStart d jobs jobID r with
      | .error e => .error e
      | .ok missed =>
        if !assigned jobID r && !missed then .ok (t, (r, false))
        else
          let r' := released now message r
          refusing d.execError (setAt (·.id) r.id (writeRelease r') t, (r', true))

end

inductive RunnerOp
  | create (newID : String) (state : Option RunnerState) (r : RunnerRow)
  | transition (id target message : String) (kind : FaultKind) (unlessBusy : Bool)
  | start (id jobID message : String)
  | complete (jobs : List JobRow) (id jobID message : String)

structure RunnerCall where
  op : RunnerOp
  now : Time
  driver : Driver := {}

def failure {α : Type} : Except StoreError α → Option StoreError
  | .error e => some e
  | .ok _ => none

def RunnerCall.apply (c : RunnerCall) (t : List RunnerRow) : List RunnerRow × Option StoreError :=
  match c.op with
  | .create newID state r => (createRunner c.driver c.now newID state r t).map id failure
  | .transition i target message kind unlessBusy =>
    (transitionRunner c.driver c.now i target message kind unlessBusy t).map id failure
  | .start i jobID message => (startRunnerJob c.driver c.now i jobID message t).map id failure
  | .complete jobs i jobID message =>
    (completeRunnerJob c.driver c.now jobs i jobID message t).map id failure

def runCalls (calls : List RunnerCall) (t : List RunnerRow) : List RunnerRow :=
  calls.foldl (fun t c => (c.apply t).1) t

inductive RowStep (now : Time) : Bool → RunnerRow → RunnerRow → Prop
  | transition (r : RunnerRow) (target : RunnerState) (message : String) (kind : FaultKind)
      (h : canTransition r.state target = true) :
      RowStep now false r (writeTransition (transitioned now target message kind r) r)
  | start (r : RunnerRow) (jobID message : String) (h : startRefused r = false) :
      RowStep now true r (writeStart (started now jobID message r) r)
  | complete (r : RunnerRow) (jobID message : String)
      (h : assigned jobID r = true ∨ unused r = true) :
      RowStep now false r (writeRelease (released now message r) r)

def RunnerOp.isStart : RunnerOp → Bool
  | .start _ _ _ => true
  | _ => false

inductive CallEffect (c : RunnerCall) (t : List RunnerRow) : Prop
  | failed (e : StoreError) (h : c.apply t = (t, some e))
  | nothing (h : c.apply t = (t, none))
  | added (newID : String) (state : Option RunnerState) (r : RunnerRow)
      (hop : c.op = .create newID state r)
      (h : c.apply t = (t ++ [newRow c.now newID state r], none))
  | rewrote (id : String) (r : RunnerRow) (f : RunnerRow → RunnerRow)
      (hr : rowAt (·.id) id t = some r) (hid : ∀ o, (f o).id = o.id)
      (hstep : RowStep c.now c.op.isStart r (f r))
      (h : c.apply t = (setAt (·.id) id f t, none))

variable {id : String} {t : List RunnerRow}

theorem selectRunner_eq_ok {d : Driver} {r : RunnerRow} (h : selectRunner d id t = .ok r) :
    rowAt (·.id) id t = some r ∧ r.id = id := by
  unfold selectRunner at h
  cases hd : d.queryError with
  | some e =>
    rw [hd] at h
    cases h
  | none =>
    rw [hd] at h
    cases hr : rowAt (fun x : RunnerRow => x.id) id t with
    | none =>
      simp only [hr] at h
      cases h
    | some r' =>
      simp only [hr] at h
      cases h
      exact ⟨rfl, key_of_rowAt r hr⟩

variable {c : RunnerCall}

theorem create_effect {newID : String} {state : Option RunnerState}
    {r : RunnerRow} (hop : c.op = .create newID state r) : CallEffect c t := by
  have happly : c.apply t = (createRunner c.driver c.now newID state r t).map id failure := by
    rw [RunnerCall.apply, hop]
  unfold createRunner at happly
  dsimp only at happly
  split at happly
  · exact .failed _ happly
  split at happly
  · exact .failed _ happly
  rcases exec_cases with ⟨e, he⟩ | he
  · rw [he] at happly
    exact .failed e happly
  · rw [he] at happly
    exact .added newID state r hop happly

variable {i message : String}

theorem transition_effect {target : String} {kind : FaultKind}
    {unlessBusy : Bool} (hop : c.op = .transition i target message kind unlessBusy) :
    CallEffect c t := by
  have happly : c.apply t =
      (transitionRunner c.driver c.now i target message kind unlessBusy t).map id failure := by
    rw [RunnerCall.apply, hop]
  unfold transitionRunner at happly
  split at happly
  · exact .failed _ happly
  rename_i state _
  rcases tx_cases with ⟨e, he⟩ | ⟨t', b, hbody, he⟩
  · rw [he] at happly
    exact .failed e happly
  rw [he] at happly
  -- the body committed, so it found its row and passed both conditions
  split at hbody
  · cases hbody
  rename_i r hr
  obtain ⟨hrow, hid⟩ := selectRunner_eq_ok hr
  split at hbody
  · cases hbody
  rename_i hcan
  split at hbody
  · cases hbody
  have hpair := refusing_eq_ok hbody
  cases hpair
  rw [hid] at happly
  refine .rewrote i r (writeTransition (transitioned c.now state message kind r)) hrow
    (fun _ => rfl) ?_ happly
  rw [hop]
  apply RowStep.transition
  simpa using hcan

variable {jobID : String}

theorem start_effect (hop : c.op = .start i jobID message) : CallEffect c t := by
  have happly : c.apply t = (startRunnerJob c.driver c.now i jobID message t).map id failure := by
    rw [RunnerCall.apply, hop]
  unfold startRunnerJob at happly
  rcases tx_cases with ⟨e, he⟩ | ⟨t', b, hbody, he⟩
  · rw [he] at happly
    exact .failed e happly
  rw [he] at happly
  split at hbody
  · cases hbody
  rename_i r hr
  obtain ⟨hrow, hid⟩ := selectRunner_eq_ok hr
  split at hbody
  · cases hbody
    exact .nothing happly
  rename_i hrefused
  have hpair := refusing_eq_ok hbody
  cases hpair
  rw [hid] at happly
  refine .rewrote i r (writeStart (started c.now jobID message r)) hrow (fun _ => rfl) ?_ happly
  rw [hop]
  apply RowStep.start
  simpa using hrefused

theorem missedStart_eq_ok {d : Driver} {jobs : List JobRow} {r : RunnerRow}
    (h : missedStart d jobs jobID r = .ok true) :
    unused r = true ∧ completedOn jobs jobID r.id = true := by
  unfold missedStart at h
  split at h
  · rename_i hu
    exact ⟨hu, (refusing_eq_ok h).symm⟩
  · cases h

theorem complete_effect {jobs : List JobRow}
    (hop : c.op = .complete jobs i jobID message) : CallEffect c t := by
  have happly : c.apply t =
      (completeRunnerJob c.driver c.now jobs i jobID message t).map id failure := by
    rw [RunnerCall.apply, hop]
  unfold completeRunnerJob at happly
  rcases tx_cases with ⟨e, he⟩ | ⟨t', b, hbody, he⟩
  · rw [he] at happly
    exact .failed e happly
  rw [he] at happly
  split at hbody
  · cases hbody
  rename_i r hr
  obtain ⟨hrow, hid⟩ := selectRunner_eq_ok hr
  split at hbody
  · cases hbody
  rename_i missed hmissed
  split at hbody
  · cases hbody
    exact .nothing happly
  rename_i hdone
  have hpair := refusing_eq_ok hbody
  cases hpair
  rw [hid] at happly
  refine .rewrote i r (writeRelease (released c.now message r)) hrow (fun _ => rfl) ?_ happly
  rw [hop]
  apply RowStep.complete r jobID message
  cases missed with
  | true => exact .inr (missedStart_eq_ok hmissed).1
  | false =>
    left
    simpa using hdone

theorem call_effect : CallEffect c t := by
  cases hop : c.op with
  | create newID state r => exact create_effect hop
  | transition i target message kind unlessBusy =>
    exact transition_effect hop
  | start i jobID message => exact start_effect hop
  | complete jobs i jobID message => exact complete_effect hop

structure Consistent (r : RunnerRow) : Prop where
  job_working : r.currentJobID ≠ "" → r.state = .busy ∨ r.state = .draining
  idle_since : r.state = .idle → r.lastIdleAt.isSome = true
  busy_since : r.state = .busy → r.lastIdleAt = none

structure Sound (r : RunnerRow) : Prop extends Consistent r where
  draining_late : r.drainingSince.isSome = true → r.state = .draining ∨ r.state.terminal = true
  lastIdleAt_kept : kept r.lastIdleAt = r.lastIdleAt
  drainingSince_kept : kept r.drainingSince = r.drainingSince
  registeredAt_kept : kept r.registeredAt = r.registeredAt
  startedAt_kept : kept r.startedAt = r.startedAt

structure LawfulChange (starting : Bool) (r r' : RunnerRow) : Prop where
  removed_final : r.state = .removed → r'.state = .removed
  failed_exit : r.state = .failed → r'.state = .failed ∨ r'.state = .removed
  draining_exit : r.state = .draining →
    r'.state = .draining ∨ r'.state = .removed ∨ r'.state = .failed
  drainingSince_fixed : r.drainingSince.isSome = true → r'.drainingSince = r.drainingSince
  registeredAt_fixed : r.registeredAt.isSome = true → r'.registeredAt = r.registeredAt
  startedAt_fixed : r.startedAt.isSome = true → r'.startedAt = r.startedAt
  allowed : r'.state = r.state ∨ r'.state ∈ validRunnerTransitions r.state ∨
    (starting = true ∧ r.state = .provisioning ∧ r'.state = .busy)

variable {s u : RunnerState}

theorem canTransition_early (h : canTransition s u = true)
    (hu : u = .provisioning ∨ u = .registering) : s = .provisioning ∨ s = .registering := by
  cases s <;> cases u <;> simp_all [canTransition, validRunnerTransitions]

theorem canTransition_late (h : canTransition s u = true) (hs : s = .draining ∨ s.terminal = true) :
    u = .draining ∨ u.terminal = true := by
  cases s <;> cases u <;> simp_all [canTransition, validRunnerTransitions, RunnerState.terminal]

theorem canTransition_cases (h : canTransition s u = true) :
    u = s ∨ u ∈ validRunnerTransitions s := by
  rw [canTransition, Bool.or_eq_true, beq_iff_eq, contains_iff_mem] at h
  rcases h with h | h
  · exact .inl h.symm
  · exact .inr h

variable {starting : Bool}

theorem lawful_exits (h : u = s ∨ u ∈ validRunnerTransitions s ∨
      (starting = true ∧ s = .provisioning ∧ u = .busy)) :
    (s = .removed → u = .removed) ∧ (s = .failed → u = .failed ∨ u = .removed) ∧
      (s = .draining → u = .draining ∨ u = .removed ∨ u = .failed) := by
  cases s <;> simp_all [validRunnerTransitions]

theorem kept_or_fixed {o : Option Time} {now : Time} (ho : kept o = o) (h : o.isSome = true) :
    kept (o.or (some now)) = o := by
  cases o with
  | none => cases h
  | some v => rw [Option.some_or, ho]

variable {r' : RunnerRow}

theorem lawful_of {r : RunnerRow}
    (hallowed : r'.state = r.state ∨ r'.state ∈ validRunnerTransitions r.state ∨
      (starting = true ∧ r.state = .provisioning ∧ r'.state = .busy))
    (hd : r.drainingSince.isSome = true → r'.drainingSince = r.drainingSince)
    (hr : r.registeredAt.isSome = true → r'.registeredAt = r.registeredAt)
    (hs : r.startedAt.isSome = true → r'.startedAt = r.startedAt) : LawfulChange starting r r' := by
  obtain ⟨h1, h2, h3⟩ := lawful_exits hallowed
  exact ⟨h1, h2, h3, hd, hr, hs, hallowed⟩

section
variable {now : Time} (r : RunnerRow) (hr : Sound r)
include hr

theorem sound_transition (hnow : ms now ≠ 0) {target : RunnerState}
    {kind : FaultKind} (h : canTransition r.state target = true) :
    Sound (writeTransition (transitioned now target message kind r) r) := by
  refine ⟨⟨?_, ?_, ?_⟩, ?_, kept_kept _, kept_kept _, kept_kept _, kept_kept _⟩ <;>
    dsimp only [writeTransition] <;> rw [transitioned_state]
  · rw [transitioned_currentJobID]
    intro hjob
    -- a job outlives the move only towards a state that works, or before registration
    by_cases he : target = .provisioning ∨ target = .registering
    · have hs := canTransition_early h he
      split at hjob
      · exact absurd rfl hjob
      · rcases hr.job_working hjob with hb | hb <;> rcases hs with hs | hs <;>
          rw [hb] at hs <;> cases hs
    · cases target <;> simp_all [RunnerState.terminal]
  · intro ht
    rw [transitioned_lastIdleAt, ht, if_neg (by decide)]
    split
    · exact isSome_kept_some hnow
    rename_i hidle
    rw [hr.lastIdleAt_kept]
    apply hr.idle_since
    by_contra hne
    exact hidle ⟨rfl, hne⟩
  · intro ht
    rw [transitioned_lastIdleAt, ht, if_pos rfl, kept_none]
  · rw [transitioned_drainingSince]
    intro hd
    split at hd
    · rename_i hin
      exact .inl hin.1
    · rw [hr.drainingSince_kept] at hd
      exact canTransition_late h (hr.draining_late hd)

theorem lawful_transition {target : RunnerState} {kind : FaultKind}
    (h : canTransition r.state target = true) :
    LawfulChange false r (writeTransition (transitioned now target message kind r) r) := by
  apply lawful_of <;> dsimp only [writeTransition]
  · rw [transitioned_state]
    rcases canTransition_cases h with hs | hs
    · exact .inl hs
    · exact .inr (.inl hs)
  · intro hd
    rw [transitioned_drainingSince]
    split
    · rename_i hin
      -- only a row that is not draining yet is stamped, and such a row has no stamp
      rcases hr.draining_late hd with hs | hs
      · exact absurd hs hin.2
      · rw [hin.1] at h
        cases hstate : r.state <;> rw [hstate] at h hs <;> cases hs <;> cases h
    · exact hr.drainingSince_kept
  · intro hs
    rw [transitioned_registeredAt]
    split
    · exact kept_or_fixed hr.registeredAt_kept hs
    · exact hr.registeredAt_kept
  · intro hs
    rw [transitioned_startedAt]
    split
    · exact kept_or_fixed hr.startedAt_kept hs
    · exact hr.startedAt_kept

omit hr in
theorem working_of_startable (h : startRefused r = false)
    (hb : ¬(r.state = .provisioning ∨ r.state = .registering ∨ r.state = .idle)) :
    r.state = .busy ∨ r.state = .draining := by
  cases hs : r.state <;> simp_all [startRefused, RunnerState.terminal]

theorem sound_start (h : startRefused r = false) :
    Sound (writeStart (started now jobID message r) r) := by
  unfold started
  dsimp only
  split
  · rename_i hb
    refine ⟨⟨?_, ?_, ?_⟩, ?_, kept_kept none, hr.drainingSince_kept, kept_kept _, kept_kept _⟩ <;>
      dsimp only [writeStart]
    · intro _
      exact .inl rfl
    · intro hs
      cases hs
    · intro _
      exact kept_none
    intro hd
    -- a stamped drain is not behind
    rcases hr.draining_late hd with hs | hs <;> rcases hb with hb | hb | hb <;>
      rw [hb] at hs <;> cases hs
  · rename_i hb
    have hw := working_of_startable r h hb
    refine ⟨⟨?_, ?_, ?_⟩, ?_, kept_kept _, hr.drainingSince_kept, kept_kept _, kept_kept _⟩ <;>
      dsimp only [writeStart]
    · intro _
      exact hw
    · rw [hr.lastIdleAt_kept]
      exact hr.idle_since
    · rw [hr.lastIdleAt_kept]
      exact hr.busy_since
    · exact hr.draining_late

theorem lawful_start : LawfulChange true r (writeStart (started now jobID message r) r) := by
  unfold started
  dsimp only
  split
  · rename_i hb
    apply lawful_of <;> dsimp only [writeStart]
    · rcases hb with hb | hb | hb <;> rw [hb]
      · exact .inr (.inr ⟨rfl, rfl, rfl⟩)
      · exact .inr (.inl (by decide))
      · exact .inr (.inl (by decide))
    · intro _
      rfl
    · exact kept_or_fixed hr.registeredAt_kept
    · exact kept_or_fixed hr.startedAt_kept
  · apply lawful_of <;> dsimp only [writeStart]
    · exact .inl rfl
    · intro _
      rfl
    · intro _
      exact hr.registeredAt_kept
    · intro _
      exact hr.startedAt_kept

theorem sound_complete (hnow : ms now ≠ 0)
    (h : assigned jobID r = true ∨ unused r = true) :
    Sound (writeRelease (released now message r) r) := by
  unfold released
  dsimp only
  split
  · refine ⟨⟨?_, ?_, ?_⟩, ?_, kept_kept _, hr.drainingSince_kept, hr.registeredAt_kept,
      hr.startedAt_kept⟩ <;> dsimp only [writeRelease]
    · intro hj
      exact absurd rfl hj
    · intro hs
      cases hs
    · intro hs
      cases hs
    · intro _
      exact .inr rfl
  · split
    · refine ⟨⟨?_, ?_, ?_⟩, ?_, kept_kept (some now), hr.drainingSince_kept, hr.registeredAt_kept,
        hr.startedAt_kept⟩ <;> dsimp only [writeRelease]
      · intro hj
        exact absurd rfl hj
      · intro _
        exact isSome_kept_some hnow
      · intro hs
        cases hs
      intro hd
      -- a persistent runner is released from busy, which carries no drain
      have hbusy : r.state = .busy := by
        cases hs : r.state <;> simp_all [assigned, unused]
      rcases hr.draining_late hd with hs | hs <;> rw [hbusy] at hs <;> cases hs
    · rename_i heph hdrain
      have hdraining : r.state = .draining := by
        by_contra hne
        exact hdrain hne
      refine ⟨⟨?_, ?_, ?_⟩, ?_, kept_kept _, hr.drainingSince_kept, hr.registeredAt_kept,
        hr.startedAt_kept⟩ <;> dsimp only [writeRelease] <;> rw [hdraining]
      · intro hj
        exact absurd rfl hj
      · intro hs
        cases hs
      · intro hs
        cases hs
      · intro _
        exact .inl rfl

omit hr in
theorem lawful_complete (h : assigned jobID r = true ∨ unused r = true) :
    LawfulChange false r (writeRelease (released now message r) r) := by
  have hstate : r.state ≠ .removed ∧ r.state ≠ .failed ∧
      (r.ephemeral = false → r.state = .busy ∨ r.state = .draining) := by
    cases hs : r.state <;> simp_all [assigned, unused]
  apply lawful_of
  · unfold released
    dsimp only
    split
    · cases hs : r.state <;> simp_all [writeRelease, validRunnerTransitions]
    rename_i heph
    have hw := hstate.2.2 (by simpa using heph)
    rcases hw with hw | hw <;> simp [writeRelease, hw, validRunnerTransitions]
  · intro _
    rfl
  · intro _
    rfl
  · intro _
    rfl

theorem sound_step (hnow : ms now ≠ 0) (h : RowStep now starting r r') :
    Sound r' ∧ LawfulChange starting r r' := by
  cases h with
  | transition _ target message kind h =>
    exact ⟨sound_transition r hr hnow h, lawful_transition r hr h⟩
  | start _ jobID message h =>
    exact ⟨sound_start r hr h, lawful_start r hr⟩
  | complete _ jobID message h =>
    exact ⟨sound_complete r hr hnow h, lawful_complete r h⟩

end

theorem lawful_refl {r : RunnerRow} : LawfulChange starting r r := by
  apply lawful_of
  · exact .inl rfl
  · intro _
    rfl
  · intro _
    rfl
  · intro _
    rfl

theorem row_after {r : RunnerRow} (h : rowAt (·.id) id t = some r) :
    ∃ r', rowAt (·.id) id (c.apply t).1 = some r' ∧ (r' = r ∨ RowStep c.now c.op.isStart r r') := by
  rcases call_effect with ⟨e, he⟩ | he | ⟨newID, state, n, -, he⟩ | ⟨i, o, f, ho, hf, hs, he⟩
  · rw [he]
    exact ⟨r, h, .inl rfl⟩
  · rw [he]
    exact ⟨r, h, .inl rfl⟩
  · rw [he]
    refine ⟨r, ?_, .inl rfl⟩
    rw [rowAt_append, h, Option.some_or]
  rw [he]
  rw [rowAt_setAt hf, h, Option.map_some]
  by_cases hi : id = i
  · subst hi
    rw [h] at ho
    cases ho
    exact ⟨f r, by rw [if_pos rfl], .inr hs⟩
  · exact ⟨r, by rw [if_neg hi], .inl rfl⟩

theorem row_before (h : rowAt (·.id) id (c.apply t).1 = some r') :
    (∃ r, rowAt (·.id) id t = some r ∧ (r' = r ∨ RowStep c.now c.op.isStart r r')) ∨
      ∃ newID state n, c.op = .create newID state n ∧ r' = newRow c.now newID state n := by
  cases hr : rowAt (fun x : RunnerRow => x.id) id t with
  | some r =>
    obtain ⟨r'', hr'', hstep⟩ := row_after hr
    rw [h] at hr''
    cases hr''
    exact .inl ⟨r, rfl, hstep⟩
  | none =>
    rcases call_effect with ⟨e, he⟩ | he | ⟨newID, state, n, hop, he⟩ |
      ⟨i, o, f, ho, hf, hs, he⟩ <;> rw [he] at h <;> dsimp only at h
    · rw [hr] at h
      cases h
    · rw [hr] at h
      cases h
    · rw [rowAt_append, hr, Option.none_or] at h
      split at h
      · cases h
        exact .inr ⟨newID, state, n, hop, rfl⟩
      · cases h
    · rw [rowAt_setAt hf, hr, Option.map_none] at h
      cases h

def RunnerOp.fresh : RunnerOp → Prop
  | .create _ state r => state.getD .provisioning = .provisioning ∧ r.currentJobID = "" ∧
      r.drainingSince = none
  | _ => True

theorem sound_newRow {now : Time} {newID : String} {state : Option RunnerState} {r : RunnerRow}
    (hf : (RunnerOp.create newID state r).fresh) : Sound (newRow now newID state r) := by
  obtain ⟨hs, hj, hd⟩ := hf
  refine ⟨⟨?_, ?_, ?_⟩, ?_, kept_kept _, kept_kept _, kept_kept _, kept_kept _⟩ <;>
    dsimp only [newRow]
  · intro hne
    exact absurd hj hne
  · intro hidle
    rw [hs] at hidle
    cases hidle
  · intro hbusy
    rw [hs] at hbusy
    cases hbusy
  rw [hd, kept_none]
  intro hsome
  cases hsome

theorem runCalls_sound {calls : List RunnerCall} (hclock : ∀ c ∈ calls, ms c.now ≠ 0)
    (hfresh : ∀ c ∈ calls, c.op.fresh) (t : List RunnerRow)
    (ht : ∀ id r, rowAt (·.id) id t = some r → Sound r) :
    ∀ id r, rowAt (·.id) id (runCalls calls t) = some r → Sound r := by
  -- by induction on the calls, with the soundness of every row as the invariant
  induction calls generalizing t with
  | nil => exact ht
  | cons c rest ih =>
    apply ih
    · intro c' hc'
      exact hclock c' (mem_cons_of_mem _ hc')
    · intro c' hc'
      exact hfresh c' (mem_cons_of_mem _ hc')
    intro id r' hr'
    have hnow := hclock c mem_cons_self
    rcases row_before hr' with ⟨r, hr, rfl | hstep⟩ | ⟨newID, state, n, hop, rfl⟩
    · exact ht id r' hr
    · exact (sound_step r (ht id r hr) hnow hstep).1
    have hf := hfresh c mem_cons_self
    rw [hop] at hf
    exact sound_newRow hf

theorem call_failed {e : StoreError} (h : (c.apply t).2 = some e) : (c.apply t).1 = t := by
  rcases call_effect with ⟨e', he⟩ | he | ⟨newID, state, n, -, he⟩ | ⟨i, o, f, -, -, -, he⟩
  · rw [he]
  · rw [he]
  · rw [he] at h
    cases h
  · rw [he] at h
    cases h

/-- Every row these calls alone have written is consistent, the next call changes it only lawfully,
and a call that fails changes no row. -/
theorem runner_rows_lawful (calls : List RunnerCall) (c : RunnerCall)
    (hclock : ∀ x ∈ calls ++ [c], ms x.now ≠ 0) (hfresh : ∀ x ∈ calls ++ [c], x.op.fresh) :
    (∀ id r, rowAt (·.id) id (runCalls calls []) = some r → Consistent r) ∧
    (∀ id r, rowAt (·.id) id (runCalls calls []) = some r →
      ∃ r', rowAt (·.id) id (runCalls (calls ++ [c]) []) = some r' ∧ Consistent r' ∧
        LawfulChange c.op.isStart r r') ∧
    (∀ e, (c.apply (runCalls calls [])).2 = some e →
      runCalls (calls ++ [c]) [] = runCalls calls []) := by
  have hsound : ∀ id r, rowAt (·.id) id (runCalls calls []) = some r → Sound r := by
    apply runCalls_sound
    · intro x hx
      exact hclock x (mem_append_left _ hx)
    · intro x hx
      exact hfresh x (mem_append_left _ hx)
    · intro id r hr
      cases hr
  have hnow : ms c.now ≠ 0 := hclock c (mem_append_right _ mem_cons_self)
  have hlast : runCalls (calls ++ [c]) [] = (c.apply (runCalls calls [])).1 := by
    rw [runCalls, foldl_append]
    rfl
  refine ⟨?_, ?_, ?_⟩
  · intro id r hr
    exact (hsound id r hr).toConsistent
  · intro id r hr
    rw [hlast]
    obtain ⟨r', hr', rfl | hstep⟩ := row_after hr
    · exact ⟨r', hr', (hsound id r' hr).toConsistent, lawful_refl⟩
    · obtain ⟨hs, hl⟩ := sound_step r (hsound id r hr) hnow hstep
      exact ⟨r', hr', hs.toConsistent, hl⟩
  intro e he
  rw [hlast]
  exact call_failed he

def upToIdle (now : Time) : List RunnerCall :=
  [⟨.create "run_1" none {}, now, {}⟩, ⟨.transition "run_1" "registering" "" .unset false, now, {}⟩,
    ⟨.transition "run_1" "idle" "" .unset false, now, {}⟩]

def drainedTwice : List RunnerCall :=
  [⟨.create "run_1" none { drainingSince := some (unixEpoch + second) }, unixEpoch + second, {}⟩,
    ⟨.transition "run_1" "draining" "" .unset false, unixEpoch + 2 * second, {}⟩]

theorem runner_rows_lawful_upToIdle :
    (rowAt (·.id) "run_1" (runCalls (upToIdle (unixEpoch + second)) [])).isSome = true ∧
      ∀ r, rowAt (·.id) "run_1" (runCalls (upToIdle (unixEpoch + second)) []) = some r →
        ∃ r', rowAt (·.id) "run_1" (runCalls (upToIdle (unixEpoch + second) ++
          [⟨.start "run_1" "job_1" "running", unixEpoch + 2 * second, {}⟩]) []) = some r' ∧
          Consistent r' ∧ LawfulChange true r r' := by
  refine ⟨by decide +kernel, ?_⟩
  refine (runner_rows_lawful (upToIdle (unixEpoch + second))
    ⟨.start "run_1" "job_1" "running", unixEpoch + 2 * second, {}⟩ ?_ ?_).2.1 "run_1"
  · decide +kernel
  · simp [upToIdle, RunnerOp.fresh]

/-- At the epoch's own millisecond an idle runner has no idle time, and a drain recorded
at creation is stamped again. -/
theorem epoch_and_created_drain : (rowAt (·.id) "run_1" (runCalls (upToIdle unixEpoch) [])).map
        (fun r => (r.state, r.lastIdleAt)) = some (.idle, none) ∧
      (rowAt (·.id) "run_1" (runCalls (drainedTwice.take 1) [])).map
        (fun r => (r.state, r.currentJobID, r.drainingSince)) =
        some (.provisioning, "", some (unixEpoch + second)) ∧
      (rowAt (·.id) "run_1" (runCalls drainedTwice [])).map (fun r => r.drainingSince) =
        some (some (unixEpoch + 2 * second)) := by
  decide +kernel

end Zoomies.Store
