import Zoomies.RowTable
import Zoomies.SortFunc
import Zoomies.StoreModels
import Zoomies.KeyedList

/-! The CPU quotas of an agent's runners (`internal/agent/throttle.go`). -/
namespace Zoomies.Agent
open Zoomies.Go Zoomies.Store List

inductive Phase
  | starting
  | running
  | exited
  | exitUnknown
  | failed
  | gone
  deriving DecidableEq

def Phase.live (p : Phase) : Bool := p == .starting || p == .running

structure TrackedCPU where
  runnerID : String
  kind : BackendKind := .docker
  handle : String
  createdAt : Time := 0
  terminal : Bool := false
  hostRemoved : Bool := false
  phase : Phase := .running
  cpus : ℚ
  appliedCPUFactor : Option ℚ := none
  failedCPUFactor : Option ℚ := none
  pendingCPUFactor : Option ℚ := none
  deriving DecidableEq

structure AgentCPU where
  /-- The runners in the order the map is walked in. -/
  runners : List TrackedCPU
  cpuFactor : ℚ := 1
  elasticCPU : List (String × ℚ) := []
  boostRenewedAt : Time := 0
  bootstrapCPUGrace : Duration := 0
  factorPos : 0 < cpuFactor

structure ThrottleDirective where
  cpuFactor : ℚ

structure ElasticCPUDirective where
  runnerID : String
  cpuFactor : ℚ

def elasticPlan (elastic : List ElasticCPUDirective) : List (String × ℚ) :=
  elastic.foldl (fun next d =>
    if d.runnerID ≠ "" ∧ d.cpuFactor > 1 then
      (d.runnerID, d.cpuFactor) :: next.filter (·.1 ≠ d.runnerID)
    else next) []

def sameMap (x y : List (String × ℚ)) : Bool :=
  x.all (fun e => y.lookup e.1 == some e.2) && y.all (fun e => x.lookup e.1 == some e.2)

def directedFactor (d : Option ThrottleDirective) : ℚ :=
  match d with
  | none => 1
  | some d => if d.cpuFactor > 0 then d.cpuFactor else 1

theorem directedFactor_pos {d : Option ThrottleDirective} : 0 < directedFactor d := by
  cases d with
  | none => exact zero_lt_one
  | some d =>
    rw [directedFactor]
    split
    · assumption
    · exact zero_lt_one

def AgentCPU.directed (a : AgentCPU) (d : Option ThrottleDirective)
    (elastic : List ElasticCPUDirective) (now : Time) : AgentCPU :=
  { a with
    cpuFactor := directedFactor d
    elasticCPU := elasticPlan elastic
    boostRenewedAt := now
    factorPos := directedFactor_pos }

structure Hundredths where
  -- how a figure is brought to hundredths: rounded when a quota is scaled, cut off when the rest of a
  -- pair's loan is worked out
  round : ℚ → ℚ
  floor : ℚ → ℚ

def unrounded : Hundredths := ⟨fun q => q, fun q => q⟩

inductive Answer
  | done
  | notFound
  | refused
  deriving DecidableEq

inductive Write
  -- how the daemon answers an update; a lost one is made, and the caller is told of an error
  | done
  | lost
  | notFound
  | refused
  deriving DecidableEq

structure PairLabels where
  -- the CPUs a runner's container and its docker-in-docker sidecar were created with, as their
  -- labels say; zero where there is no label, `none` where there is no sidecar
  runnerHalf : ℚ
  sidecarHalf : Option ℚ
  deriving DecidableEq

structure Halves where
  -- the quotas the two containers have; zero for one that is not there
  runner : ℚ
  sidecar : ℚ
  deriving DecidableEq

def Halves.held (q : Halves) : ℚ := q.runner + q.sidecar

structure UpdateAnswers where
  inspect : Answer := .done
  listed : Bool := true
  busier : Bool := false
  runner : Write := .done
  inspectSidecar : Answer := .done
  sidecar : Write := .done
  deriving DecidableEq

section
variable (g : Hundredths) (labels : PairLabels) (cpus : ℚ)

def PairLabels.boosted : Bool :=
  match labels.sidecarHalf with
  | none => false
  | some half => decide (labels.runnerHalf > 0 ∧ cpus > labels.runnerHalf ∧ half > 0)

def PairLabels.wants (busier : Bool) : Halves :=
  match labels.sidecarHalf with
  | none => ⟨cpus, 0⟩
  | some half =>
    if labels.boosted cpus then
      -- a boost is the pair's: one half keeps its own quota and the busier one is given the rest
      let factor := cpus / labels.runnerHalf
      let pair := (labels.runnerHalf + half) * factor
      if busier then ⟨g.floor ((pair - half) * 100) / 100, half⟩
      else ⟨labels.runnerHalf, g.floor ((pair - labels.runnerHalf) * 100) / 100⟩
    else ⟨cpus, cpus⟩

def updateCPUQuota (held want : ℚ) (write : Write) : ℚ × Answer :=
  if held = want then (held, .done)
  else match write with
    | .done => (want, .done)
    | .lost => (want, .refused)
    | .notFound => (0, .notFound)
    | .refused => (held, .refused)

variable (q : Halves) (want : ℚ) (e : UpdateAnswers)

def updateRunner : Halves × Answer :=
  let update := updateCPUQuota q.runner want e.runner
  -- `Remove` takes the sidecar away first, so a runner's container that is gone has none left
  (if update.2 = .notFound then ⟨0, 0⟩ else { q with runner := update.1 }, update.2)

def updateSidecar : Halves × Answer :=
  match labels.sidecarHalf, e.inspectSidecar with
  | none, _ => (q, .done)
  | some _, .notFound => ({ q with sidecar := 0 }, .done)
  | some _, .refused => (q, .refused)
  | some _, .done =>
    let update := updateCPUQuota q.sidecar want e.sidecar
    ({ q with sidecar := update.1 }, update.2)

def inTurn (first : Halves × Answer) (next : Halves → Halves × Answer) : List Halves × Answer :=
  if first.2 = .done then ([first.1, (next first.1).1], (next first.1).2) else ([first.1], first.2)

def updateResources : List Halves × Answer :=
  -- what the pair has after each of the updates made, in their order, and what the caller is told
  if cpus ≤ 0 then ([], .done)
  else match e.inspect with
    | .notFound => ([⟨0, 0⟩], .notFound)
    | .refused => ([], .refused)
    | .done =>
      let want := labels.wants g cpus e.busier
      if !e.listed then ([], .refused)
      -- a loan moving to the runner is taken back from the sidecar first
      else if want.runner > q.runner then
        inTurn (updateSidecar labels q want.sidecar e) fun q => updateRunner q want.runner e
      else
        inTurn (updateRunner q want.runner e) fun q => updateSidecar labels q want.sidecar e

end

structure Surroundings (g : Hundredths) where
  now : Time
  updatable : BackendKind → Bool
  labels : String → PairLabels
  answers : String → UpdateAnswers

section
variable {g : Hundredths} (e : Surroundings g)

variable (a : AgentCPU) (r : TrackedCPU)

def AgentCPU.factorFor : ℚ :=
  let elastic := (a.elasticCPU.lookup r.runnerID).getD 0
  let factor := if elastic > 1 then elastic else 1
  let factor := if a.cpuFactor < 1 then a.cpuFactor else factor
  if factor < 1 ∧ r.createdAt ≠ 0 ∧ a.bootstrapCPUGrace > 0 ∧
      sub e.now r.createdAt < a.bootstrapCPUGrace then 1
  else factor

def TrackedCPU.limited : Bool :=
  !r.terminal && !r.hostRemoved && r.phase.live && decide (r.cpus > 0)

def scaledCPUs (g : Hundredths) (cpus factor : ℚ) : ℚ :=
  -- a changed figure is rounded to hundredths; a restore is the base exactly
  if factor ≠ 1 then g.round (cpus * factor * 100) / 100 else cpus

structure Candidate where
  runnerID : String
  handle : String
  cpus : ℚ
  warned : Bool
  factor : ℚ
  reduction : Bool
  deriving DecidableEq

def AgentCPU.candidate : Candidate :=
  let factor := a.factorFor e r
  { runnerID := r.runnerID
    handle := r.handle
    cpus := scaledCPUs g r.cpus factor
    warned := decide (r.failedCPUFactor = some factor)
    factor := factor
    reduction := decide (factor ≤ 1) || match r.appliedCPUFactor with
      | none => true
      | some applied => decide (factor < applied) }

def AgentCPU.consider : Option Candidate :=
  if !r.limited then none
  else if r.pendingCPUFactor.isSome then none
  else if r.appliedCPUFactor = some (a.factorFor e r) then none
  else if !e.updatable r.kind then none
  else some (a.candidate e r)

def AgentCPU.reclaimPending : Bool :=
  a.runners.any fun r => r.limited && r.pendingCPUFactor.isSome

def AgentCPU.claim : TrackedCPU :=
  match a.consider e r with
  | some c => { r with pendingCPUFactor := some c.factor }
  | none => r

def AgentCPU.todo : List Candidate :=
  sortStableFunc (compareFirst Candidate.reduction)
    (a.runners.filterMap (a.consider e))

def Surroundings.call (quota : String → Halves) (c : Candidate) : List Halves × Answer :=
  updateResources g (e.labels c.handle) c.cpus (quota c.handle) (e.answers c.handle)

structure ThrottlePass where
  runners : List TrackedCPU
  quota : String → Halves
  calls : List (String × Answer) := []
  reclaimFailed : Bool

def TrackedCPU.release (factor : ℚ) : TrackedCPU :=
  if r.pendingCPUFactor = some factor then { r with pendingCPUFactor := none } else r

def TrackedCPU.record (factor : ℚ) (answer : Answer) : TrackedCPU :=
  match answer with
  | .done => { r with
      appliedCPUFactor := some factor
      failedCPUFactor := none }
  | .notFound => r
  | .refused => { r with failedCPUFactor := some factor }

def ThrottlePass.holdsBack (p : ThrottlePass) (c : Candidate) : Bool :=
  p.reclaimFailed && !c.reduction

def ThrottlePass.update (p : ThrottlePass) (c : Candidate) : ThrottlePass :=
  -- One candidate's turn. After a reduction that failed nothing else is raised.
  if p.holdsBack c then
    { p with
      runners := setAt TrackedCPU.runnerID c.runnerID
        (fun r => { r with pendingCPUFactor := none }) p.runners }
  else
    let call := e.call p.quota c
    { runners := setAt TrackedCPU.runnerID c.runnerID
        (fun r => (r.release c.factor).record c.factor call.2) p.runners
      quota := Function.update p.quota c.handle (call.1.getLastD (p.quota c.handle))
      calls := p.calls ++ [(c.handle, call.2)]
      reclaimFailed := p.reclaimFailed || (c.reduction && call.2 == .refused) }

def ThrottlePass.moments (p : ThrottlePass) (c : Candidate) : List (String → Halves) :=
  p.quota :: if p.holdsBack c then []
    else (e.call p.quota c).1.map (Function.update p.quota c.handle)

variable (a : AgentCPU) (quota : String → Halves)

def AgentCPU.pass : ThrottlePass :=
  { runners := a.runners.map (a.claim e)
    quota := quota
    reclaimFailed := a.reclaimPending }

def AgentCPU.passAt (k : Nat) : ThrottlePass :=
  ((a.todo e).take k).foldl (ThrottlePass.update e) (a.pass e quota)

def AgentCPU.applyThrottle : AgentCPU × (String → Halves) :=
  let done := (a.todo e).foldl (ThrottlePass.update e) (a.pass e quota)
  ({ a with runners := done.runners }, done.quota)

def AgentCPU.applyResourceDirectives
    (directive : Option ThrottleDirective) (elastic : List ElasticCPUDirective) :
    AgentCPU × (String → Halves) :=
  -- a controller that says nothing about throttling is left alone unless a factor was standing
  let next := a.directed directive elastic e.now
  let changed := a.cpuFactor != next.cpuFactor || !sameMap a.elasticCPU next.elasticCPU
  if directive.isNone && !changed then (next, quota)
  else next.applyThrottle e quota

end

section
variable {labels : PairLabels} {cpus want : ℚ} {q : Halves} {e : UpdateAnswers}

def PairLabels.asks (labels : PairLabels) (cpus : ℚ) : ℚ :=
  match labels.sidecarHalf with
  | none => cpus
  | some half =>
    if labels.boosted cpus then (labels.runnerHalf + half) * (cpus / labels.runnerHalf)
    else cpus + cpus

/-- Whichever half has a loan, the two figures of an update are what it asks of the pair. -/
theorem wants_held {busier : Bool} :
    (labels.wants unrounded cpus busier).held = labels.asks cpus := by
  obtain ⟨runnerHalf, _ | half⟩ := labels
  · exact add_zero cpus
  simp only [PairLabels.wants, PairLabels.asks, unrounded, Halves.held]
  cases busier <;> split <;> simp

theorem wants_nonneg {busier : Bool} (h : 0 < cpus) :
    0 ≤ (labels.wants unrounded cpus busier).sidecar ∧ 0 < labels.asks cpus := by
  obtain ⟨runnerHalf, _ | half⟩ := labels
  · exact ⟨le_rfl, h⟩
  simp only [PairLabels.wants, PairLabels.asks, unrounded]
  split
  · rename_i hb
    obtain ⟨hr, hc, hs⟩ : runnerHalf > 0 ∧ cpus > runnerHalf ∧ half > 0 := of_decide_eq_true hb
    have hf : 1 < cpus / runnerHalf := (one_lt_div hr).mpr hc
    have hpair : runnerHalf + half < (runnerHalf + half) * (cpus / runnerHalf) :=
      lt_mul_of_one_lt_right (add_pos hr hs) hf
    cases busier
    · simp only [Bool.false_eq_true, if_false]
      constructor <;> linarith
    · simp only [if_true]
      constructor <;> linarith
  · exact ⟨h.le, add_pos h h⟩

theorem updateCPUQuota_cases {held : ℚ} {write : Write} :
    updateCPUQuota held want write = (want, .done) ∨
    updateCPUQuota held want write = (0, .notFound) ∨
    updateCPUQuota held want write = (held, .refused) ∨
    updateCPUQuota held want write = (want, .refused) := by
  unfold updateCPUQuota
  split
  · rename_i h
    exact .inl (by rw [h])
  · cases write <;> simp

/-- Every way the update of a runner's own container can end. -/
theorem updateRunner_cases : updateRunner q want e = ({ q with runner := want }, .done) ∨
    updateRunner q want e = (⟨0, 0⟩, .notFound) ∨ updateRunner q want e = (q, .refused) ∨
    updateRunner q want e = ({ q with runner := want }, .refused) := by
  rw [updateRunner]
  rcases @updateCPUQuota_cases want q.runner e.runner with h | h | h | h <;> simp [h]

/-- Every way the update of the sidecar can end. -/
theorem updateSidecar_cases (h : labels.sidecarHalf = none → q.sidecar = want) :
    updateSidecar labels q want e = ({ q with sidecar := want }, .done) ∨
    updateSidecar labels q want e = ({ q with sidecar := 0 }, .done) ∨
    updateSidecar labels q want e = ({ q with sidecar := 0 }, .notFound) ∨
    updateSidecar labels q want e = (q, .refused) ∨
    updateSidecar labels q want e = ({ q with sidecar := want }, .refused) := by
  rw [updateSidecar]
  split
  · rename_i hnone
    rw [← h hnone]
    exact .inl rfl
  · exact .inr (.inl rfl)
  · exact .inr (.inr (.inr (.inl rfl)))
  · rcases @updateCPUQuota_cases want q.sidecar e.sidecar with h | h | h | h <;> simp [h]

structure Paired (labels : PairLabels) (q : Halves) : Prop where
  nonneg : 0 ≤ q.sidecar
  alone : labels.sidecarHalf = none → q.sidecar = 0

theorem wants_alone {busier : Bool} (hq : Paired labels q) (h : labels.sidecarHalf = none) :
    q.sidecar = (labels.wants unrounded cpus busier).sidecar := by
  rw [hq.alone h, PairLabels.wants, h]

structure Settles (q : Halves) (target : ℚ) (out : List Halves × Answer) : Prop where
  -- at no point of the call does the pair have more than before it or than is asked, and no more than
  -- is asked when the call ends without a refusal
  within : ∀ x ∈ out.1, x.held ≤ max q.held target
  settled : out.2 ≠ .refused → (out.1.getLastD q).held ≤ target

theorem inTurn_settles {target : ℚ} {first : Halves × Answer} {next : Halves → Halves × Answer}
    (hfirst : first.1.held ≤ max q.held target ∧ (first.2 = .notFound → first.1.held ≤ target))
    (hnext : first.2 = .done → (next first.1).1.held ≤ max q.held target ∧
      ((next first.1).2 ≠ .refused → (next first.1).1.held ≤ target)) :
    Settles q target (inTurn first next) := by
  rw [inTurn]
  split
  · rename_i hdone
    obtain ⟨hle, hset⟩ := hnext hdone
    refine ⟨fun x hx => ?_, hset⟩
    rcases mem_pair.mp hx with rfl | rfl
    · exact hfirst.1
    · exact hle
  · rename_i hnot
    refine ⟨fun x hx => mem_singleton.mp hx ▸ hfirst.1, fun hans => hfirst.2 ?_⟩
    cases hf : first.2 with
    | notFound => rfl
    | done => exact absurd hf hnot
    | refused => exact absurd hf hans

/-- Whatever the daemon answers, one update keeps its pair within what it had or what is asked. -/
theorem updateResources_settles (h : 0 < cpus) (hq : Paired labels q) :
    Settles q (labels.asks cpus) (updateResources unrounded labels cpus q e) := by
  have hheld := @wants_held labels cpus e.busier
  obtain ⟨hnonneg, hpos⟩ := @wants_nonneg labels cpus e.busier h
  have hs := hq.nonneg
  have halone := @wants_alone labels cpus q e.busier hq
  rw [updateResources, if_neg (not_le.mpr h)]
  generalize labels.wants unrounded cpus e.busier = w at hheld hnonneg halone ⊢
  generalize labels.asks cpus = target at hheld hpos ⊢
  rw [Halves.held] at hheld
  cases e.inspect with
  | notFound => exact ⟨by simp [Halves.held, hpos.le], fun _ => by simpa [Halves.held] using hpos.le⟩
  | refused => exact ⟨by simp, by simp⟩
  | done =>
    dsimp only
    split
    · exact ⟨by simp, by simp⟩
    split
    · -- the sidecar first: the runner still has less than it is to get
      rename_i hgains
      apply inTurn_settles
      · rcases @updateSidecar_cases labels w.sidecar q e halone with hx | hx | hx | hx | hx <;>
          simp only [hx, Halves.held, le_max_iff] <;> grind
      · intro hdone
        rcases @updateSidecar_cases labels w.sidecar q e halone with hx | hx | hx | hx | hx <;>
          rw [hx] at hdone ⊢ <;> cases hdone
        · rcases @updateRunner_cases w.runner { q with sidecar := w.sidecar } e
            with hy | hy | hy | hy <;> simp only [hy, Halves.held, le_max_iff] <;> grind
        · rcases @updateRunner_cases w.runner { q with sidecar := 0 } e
            with hy | hy | hy | hy <;> simp only [hy, Halves.held, le_max_iff] <;> grind
    · -- the runner first: it has no less than it is to keep
      apply inTurn_settles
      · rcases @updateRunner_cases w.runner q e with hx | hx | hx | hx <;>
          simp only [hx, Halves.held, le_max_iff] <;> grind
      · intro hdone
        rcases @updateRunner_cases w.runner q e with hx | hx | hx | hx <;>
          rw [hx] at hdone ⊢ <;> cases hdone
        rcases @updateSidecar_cases labels w.sidecar { q with runner := w.runner } e halone
          with hy | hy | hy | hy | hy <;> simp only [hy, Halves.held, le_max_iff] <;> grind

def UpdateAnswers.allDone (e : UpdateAnswers) : Prop :=
  e.inspect = .done ∧ e.listed = true ∧ e.runner = .done ∧ e.inspectSidecar = .done ∧
    e.sidecar = .done

theorem updateCPUQuota_done {held : ℚ} : updateCPUQuota held want .done = (want, .done) := by
  unfold updateCPUQuota
  split
  · rename_i h
    rw [h]
  · rfl

/-- A daemon that makes every update leaves both containers at the figures of the plan. -/
theorem updateResources_done (h : 0 < cpus) (hq : Paired labels q) (he : e.allDone) :
    ∃ first, updateResources unrounded labels cpus q e =
      ([first, labels.wants unrounded cpus e.busier], .done) := by
  obtain ⟨hi, hl, hr, his, hs⟩ := he
  have halone := @wants_alone labels cpus q e.busier hq
  rw [updateResources, if_neg (not_le.mpr h), hi, hl]
  generalize labels.wants unrounded cpus e.busier = w at halone ⊢
  have hrunner : ∀ q, updateRunner q w.runner e = ({ q with runner := w.runner }, .done) := by
    intro q
    rw [updateRunner, hr, updateCPUQuota_done]
    rfl
  have hsidecar : ∀ q : Halves, (labels.sidecarHalf = none → q.sidecar = w.sidecar) →
      updateSidecar labels q w.sidecar e = ({ q with sidecar := w.sidecar }, .done) := by
    intro q hq
    rw [updateSidecar, his, hs, updateCPUQuota_done]
    cases hl : labels.sidecarHalf with
    | none => rw [← hq hl]
    | some half => rfl
  dsimp only
  rw [if_neg (by simp), hsidecar q halone, hrunner]
  split
  · rw [inTurn, if_pos rfl, hrunner]
    exact ⟨_, rfl⟩
  · rw [inTurn, if_pos rfl, hsidecar { q with runner := w.runner } halone]
    exact ⟨_, rfl⟩

end

section
variable (e : Surroundings unrounded)

theorem scaledCPUs_exact {cpus factor : ℚ} : scaledCPUs unrounded cpus factor = cpus * factor := by
  rw [scaledCPUs]
  split
  · rw [unrounded, mul_div_assoc, div_self (by norm_num), mul_one]
  · rename_i h
    rw [not_not.mp h, mul_one]

theorem AgentCPU.factorFor_pos {g : Hundredths} (e : Surroundings g) (a : AgentCPU) {r : TrackedCPU} : 0 < a.factorFor e r := by
  have ha := a.factorPos
  rw [AgentCPU.factorFor]
  split_ifs <;> linarith

variable (a : AgentCPU) (quota : String → Halves) (r : TrackedCPU)

def AgentCPU.target : ℚ := (e.labels r.handle).asks (r.cpus * a.factorFor e r)

def AgentCPU.due : Bool :=
  r.limited && e.updatable r.kind && r.appliedCPUFactor != some (a.factorFor e r)

def AgentCPU.reduces : Bool :=
  decide (a.factorFor e r ≤ 1) || match r.appliedCPUFactor with
    | none => true
    | some applied => decide (a.factorFor e r < applied)

def AgentCPU.planned : ℚ :=
  if a.due e r then a.target e r else (quota r.handle).held

def AgentCPU.total : ℚ :=
  (a.runners.map fun r => (quota r.handle).held).sum

def AgentCPU.plannedTotal : ℚ :=
  (a.runners.map (a.planned e quota)).sum

structure Idle : Prop where
  handles : (a.runners.map TrackedCPU.handle).Nodup
  free : ∀ r ∈ a.runners, r.pendingCPUFactor = none
  paired : ∀ r ∈ a.runners, Paired (e.labels r.handle) (quota r.handle)

structure Due (c : Candidate) : Prop where
  mem : r ∈ a.runners
  due : a.due e r = true
  handle : c.handle = r.handle
  cpus : c.cpus = r.cpus * a.factorFor e r
  pos : 0 < c.cpus
  reduction : c.reduction = a.reduces e r

variable {e a quota r} {c : Candidate}

theorem Due.target (h : Due e a r c) : (e.labels c.handle).asks c.cpus = a.target e r := by
  rw [h.handle, h.cpus, AgentCPU.target]

theorem candidate_due (hr : r ∈ a.runners) (h : a.due e r = true) :
    Due e a r (a.candidate e r) where
  mem := hr
  due := h
  handle := rfl
  cpus := scaledCPUs_exact
  pos := by
    simp only [AgentCPU.due, TrackedCPU.limited, Bool.and_eq_true, decide_eq_true_eq] at h
    exact (mul_pos h.1.1.2 (a.factorFor_pos e)).trans_eq scaledCPUs_exact.symm
  reduction := rfl

theorem due_of_consider (hr : r ∈ a.runners) (h : a.consider e r = some c) : Due e a r c := by
  rw [AgentCPU.consider] at h
  split_ifs at h with hl hp hf hu
  cases h
  refine candidate_due hr ?_
  rw [AgentCPU.due]
  simp_all

theorem consider_of_due (hfree : r.pendingCPUFactor = none) (h : a.due e r = true) :
    a.consider e r = some (a.candidate e r) := by
  simp only [AgentCPU.due, Bool.and_eq_true, bne_iff_ne] at h
  rw [AgentCPU.consider, h.1.1, h.1.2, hfree, if_neg (by simp), if_neg (by simp), if_neg h.2,
    if_neg (by simp)]

theorem due_of_mem_todo (h : c ∈ a.todo e) : ∃ r, Due e a r c := by
  rw [AgentCPU.todo, mem_sortStableFunc, mem_filterMap] at h
  obtain ⟨r, hr, hc⟩ := h
  exact ⟨r, due_of_consider hr hc⟩

theorem mem_todo (ha : Idle e a quota) (hr : r ∈ a.runners) (h : a.due e r = true) :
    a.candidate e r ∈ a.todo e := by
  rw [AgentCPU.todo, mem_sortStableFunc, mem_filterMap]
  exact ⟨r, hr, consider_of_due (ha.free r hr) h⟩

theorem consider_keys {g : Hundredths} {e : Surroundings g} (h : a.consider e r = some c) :
    c.handle = r.handle := by
  rw [AgentCPU.consider] at h
  split_ifs at h
  cases h
  rfl

theorem todo_handles {g : Hundredths} {e : Surroundings g} (h : (a.runners.map TrackedCPU.handle).Nodup) :
    ((a.todo e).map Candidate.handle).Nodup :=
  (sortStableFunc_perm.map _).nodup_iff.mpr
    (h.sublist (map_filterMap_sublist TrackedCPU.handle fun _ _ hc => consider_keys hc))

end

section
variable {g : Hundredths} {e : Surroundings g} {p : ThrottlePass} {c : Candidate}

theorem update_free (h : p.holdsBack c = false) :
    (p.update e c).quota = Function.update p.quota c.handle
        ((e.call p.quota c).1.getLastD (p.quota c.handle)) ∧
      (p.update e c).calls = p.calls ++ [(c.handle, (e.call p.quota c).2)] ∧
      (p.update e c).reclaimFailed =
        (p.reclaimFailed || (c.reduction && (e.call p.quota c).2 == .refused)) := by
  rw [ThrottlePass.update, h]
  exact ⟨rfl, rfl, rfl⟩

theorem update_held (h : p.holdsBack c = true) :
    (p.update e c).quota = p.quota ∧ (p.update e c).calls = p.calls ∧
      (p.update e c).reclaimFailed = p.reclaimFailed := by
  rw [ThrottlePass.update, h]
  exact ⟨rfl, rfl, rfl⟩

theorem reduction_free (h : c.reduction = true) : p.holdsBack c = false := by
  rw [ThrottlePass.holdsBack, h, Bool.not_true, Bool.and_false]

theorem open_free (h : p.reclaimFailed = false) : p.holdsBack c = false := by
  rw [ThrottlePass.holdsBack, h, Bool.false_and]

theorem update_other {handle : String} (h : handle ≠ c.handle) :
    (p.update e c).quota handle = p.quota handle := by
  cases hb : p.holdsBack c with
  | true => rw [(update_held hb).1]
  | false => rw [(update_free hb).1, Function.update_of_ne h]

theorem moments_other {handle : String} {x : String → Halves} (hx : x ∈ p.moments e c)
    (h : handle ≠ c.handle) : x handle = p.quota handle := by
  rcases mem_cons.mp hx with rfl | hx
  · rfl
  split at hx
  · exact absurd hx not_mem_nil
  · obtain ⟨y, -, rfl⟩ := mem_map.mp hx
    exact Function.update_of_ne h _ _

variable {quota : String → Halves} {l : List Candidate}

theorem turns_other {handle : String} (h : handle ∉ l.map Candidate.handle) :
    (l.foldl (ThrottlePass.update e) p).quota handle = p.quota handle := by
  induction l generalizing p with
  | nil => rfl
  | cons c rest ih =>
    rw [map_cons, mem_cons, not_or] at h
    rw [foldl_cons, ih h.2, update_other h.1]

theorem not_mem_take_of_nodup {k : Nat} (hk : l[k]? = some c)
    (hn : (l.map Candidate.handle).Nodup) : c.handle ∉ (l.take k).map Candidate.handle := by
  obtain ⟨hlt, hget⟩ := List.getElem?_eq_some_iff.mp hk
  rw [← take_append_drop k l, drop_eq_getElem_cons hlt, hget, map_append, map_cons] at hn
  exact fun hm => (nodup_append.mp hn).2.2 _ hm _ mem_cons_self rfl

theorem call_congr (h : p.quota c.handle = quota c.handle) : e.call p.quota c = e.call quota c := by
  rw [Surroundings.call, Surroundings.call, h]

/-- What holds of a pair before its turn and after each update of it holds of it at the turn. -/
theorem moments_within {P : String → Halves → Prop} (hp : ∀ h, P h (p.quota h))
    (hagree : p.quota c.handle = quota c.handle) (hc : ∀ x ∈ (e.call quota c).1, P c.handle x)
    {x : String → Halves} (hx : x ∈ p.moments e c) (h : String) : P h (x h) := by
  by_cases hh : h = c.handle
  · rcases mem_cons.mp hx with rfl | hx
    · exact hp h
    split at hx
    · exact absurd hx not_mem_nil
    rw [call_congr hagree] at hx
    obtain ⟨y, hy, rfl⟩ := mem_map.mp hx
    rw [hh, Function.update_self]
    exact hc y hy
  · rw [moments_other hx hh]
    exact hp h

theorem update_mem_moments : (p.update e c).quota ∈ p.moments e c := by
  cases hb : p.holdsBack c with
  | true =>
    rw [(update_held hb).1]
    exact mem_cons_self
  | false =>
    rw [(update_free hb).1, ThrottlePass.moments, hb]
    cases hl : (e.call p.quota c).1 with
    | nil => exact (Function.update_eq_self c.handle p.quota).symm ▸ mem_cons_self
    | cons y ys =>
      rw [getLastD_cons]
      exact mem_cons_of_mem _ (mem_map_of_mem getLastD_mem_cons)

/-- The run lemma: it holds at the end of the turns of runners that have none before. -/
theorem turns_within {P : String → Halves → Prop} (hn : (l.map Candidate.handle).Nodup)
    (hp : ∀ h, P h (p.quota h)) (hagree : ∀ c ∈ l, p.quota c.handle = quota c.handle)
    (hl : ∀ c ∈ l, ∀ x ∈ (e.call quota c).1, P c.handle x) (h : String) :
    P h ((l.foldl (ThrottlePass.update e) p).quota h) := by
  induction l generalizing p with
  | nil => exact hp h
  | cons c rest ih =>
    obtain ⟨hc, hrest⟩ := nodup_cons.mp hn
    refine ih hrest ?_ ?_ fun b hb => hl b (mem_cons_of_mem _ hb)
    · exact moments_within hp (hagree c mem_cons_self) (hl c mem_cons_self) update_mem_moments
    · intro b hb
      rw [update_other fun he => hc (he ▸ mem_map_of_mem hb)]
      exact hagree b (mem_cons_of_mem _ hb)

/-- The same of every moment of the turn that follows. -/
theorem run_moments {P : String → Halves → Prop} {k : Nat} (hk : l[k]? = some c)
    (hn : (l.map Candidate.handle).Nodup) (hp : ∀ h, P h (p.quota h))
    (hagree : ∀ b ∈ l, p.quota b.handle = quota b.handle)
    (hl : ∀ b ∈ l, ∀ x ∈ (e.call quota b).1, P b.handle x) {x : String → Halves}
    (hx : x ∈ ((l.take k).foldl (ThrottlePass.update e) p).moments e c) (h : String) :
    P h (x h) := by
  have hc := mem_of_getElem? hk
  refine moments_within ?_ ((turns_other ?_).trans (hagree c hc)) (hl c hc) hx h
  · exact turns_within (hn.sublist ((take_sublist k l).map _)) hp
      (fun b hb => hagree b (mem_of_mem_take hb)) fun b hb => hl b (mem_of_mem_take hb)
  · exact not_mem_take_of_nodup hk hn

theorem reductions_sent (hn : (l.map Candidate.handle).Nodup)
    (hagree : ∀ c ∈ l, p.quota c.handle = quota c.handle) (h : ∀ c ∈ l, c.reduction = true) :
    (l.foldl (ThrottlePass.update e) p).calls =
        p.calls ++ l.map (fun c => (c.handle, (e.call quota c).2)) ∧
      (l.foldl (ThrottlePass.update e) p).reclaimFailed =
        (p.reclaimFailed || l.any fun c => (e.call quota c).2 == .refused) := by
  induction l generalizing p with
  | nil => simp
  | cons c rest ih =>
    obtain ⟨hc, hrest⟩ := nodup_cons.mp hn
    have hred := h c mem_cons_self
    obtain ⟨-, hcalls, hfailed⟩ := update_free (e := e) (reduction_free (p := p) hred)
    obtain ⟨ihc, ihf⟩ := ih (p := p.update e c) hrest (fun b hb => by
      rw [update_other fun he => hc (he ▸ mem_map_of_mem hb)]
      exact hagree b (mem_cons_of_mem _ hb)) fun b hb => h b (mem_cons_of_mem _ hb)
    rw [foldl_cons, ihc, ihf, hcalls, hfailed, hred, call_congr (hagree c mem_cons_self)]
    simp [Bool.or_assoc]

theorem raises_sent (h : ∀ c ∈ l, c.reduction = false) :
    p.calls ⊆ (l.foldl (ThrottlePass.update e) p).calls ∧
      (l.foldl (ThrottlePass.update e) p).reclaimFailed = p.reclaimFailed ∧
      (p.reclaimFailed = true → (l.foldl (ThrottlePass.update e) p).quota = p.quota) := by
  induction l generalizing p with
  | nil => exact ⟨fun _ h => h, rfl, fun _ => rfl⟩
  | cons c rest ih =>
    have hc := h c mem_cons_self
    obtain ⟨ihc, ihf, ihq⟩ := ih (p := p.update e c) fun b hb => h b (mem_cons_of_mem _ hb)
    rw [foldl_cons, ihf]
    cases hb : p.holdsBack c with
    | true =>
      obtain ⟨hq, hcalls, hfailed⟩ := update_held (e := e) hb
      exact ⟨fun x hx => ihc (hcalls ▸ hx), hfailed, fun hp => (ihq (hfailed.trans hp)).trans hq⟩
    | false =>
      obtain ⟨-, hcalls, hfailed⟩ := update_free (e := e) hb
      refine ⟨fun x hx => ihc ?_, ?_, fun hp => ?_⟩
      · rw [hcalls]
        exact mem_append_left _ hx
      · rw [hfailed, hc, Bool.false_and, Bool.or_false]
      · rw [ThrottlePass.holdsBack, hp, hc] at hb
        exact absurd hb (by decide)

/-- A runner whose turn is not held back is left as its own call leaves it. -/
theorem turns_at {before after : List Candidate}
    (hn : ((before ++ c :: after).map Candidate.handle).Nodup)
    (hfree : (before.foldl (ThrottlePass.update e) p).holdsBack c = false) :
    ((before ++ c :: after).foldl (ThrottlePass.update e) p).quota c.handle =
      (e.call p.quota c).1.getLastD (p.quota c.handle) := by
  rw [map_append, map_cons] at hn
  obtain ⟨-, hn', hbefore⟩ := nodup_append.mp hn
  have hsame : (before.foldl (ThrottlePass.update e) p).quota c.handle = p.quota c.handle :=
    turns_other fun hm => hbefore _ hm _ mem_cons_self rfl
  rw [foldl_append, foldl_cons, turns_other (nodup_cons.mp hn').1, (update_free hfree).1,
    Function.update_self, call_congr hsame, hsame]

end
end Zoomies.Agent
