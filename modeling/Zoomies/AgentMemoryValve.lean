import Zoomies.RowTable
import Zoomies.SortFunc
import Zoomies.StoreModels

/-! Whether to raise one container's limit, from one look at it (`internal/agent/memoryguard.go`).
-/
namespace Zoomies.Agent
open Zoomies.Go

inductive MemoryValveCode
  | healthy
  | raised
  | spilled
  | atCeiling
  | poolEmpty
  | hostFloor
  | unmeasured
  | unsupported
  | failed
  deriving DecidableEq

def memoryMargin : ℚ := 13 / 10

def memoryHotShare : ℚ := 7 / 10

def memoryStepMB : Int := 64

def memoryMinimumRaiseMB : Int := 128

def memorySpillShare : ℚ := 9 / 10

structure MemoryGuardInput where
  usageMB : Int
  limitMB : Int
  swapMB : Int
  heldMB : Int
  ceilingMB : Int
  poolMB : Int
  availableMB : Int
  floorMB : Int
  availableKnown : Bool
  spillMB : Int
  swapFreeMB : Int
  swapKnown : Bool
  observing : Bool

structure MemoryGuardDecision where
  limitMB : Int
  swapMB : Int
  code : MemoryValveCode
  reason : String := ""
  deriving DecidableEq

def MemoryGuardDecision.changed (d : MemoryGuardDecision) (i : MemoryGuardInput) : Bool :=
  decide (d.limitMB > i.limitMB) || decide (d.swapMB > i.swapMB)

def memoryWanted (usageMB : Int) : Int :=
  if usageMB ≤ 0 then 0
  else (⌈(usageMB : ℚ) * memoryMargin⌉ + memoryStepMB - 1) / memoryStepMB * memoryStepMB

def memoryHot (usageMB limitMB : Int) : Bool :=
  decide (limitMB > 0) && decide ((usageMB : ℚ) ≥ memoryHotShare * limitMB)

def memoryIdleLook : Duration := 5 * second

def memoryClimbHorizon : Duration := 2 * memoryIdleLook

def seconds (d : Duration) : ℚ := (d : ℚ) / second

def memoryClimbing (prevMB usageMB limitMB : Int) (since : Duration) : Bool :=
  let rise := usageMB - prevMB
  if prevMB ≤ 0 ∨ rise ≤ 0 ∨ limitMB ≤ 0 ∨ since ≤ 0 then false
  else
    let perSecond := (rise : ℚ) / seconds since
    decide (((max (limitMB - usageMB) 0 : Int) : ℚ) / perSecond < seconds memoryClimbHorizon)

section
variable (i : MemoryGuardInput)

def MemoryGuardInput.spare : Int := i.availableMB - i.floorMB

def MemoryGuardInput.room : Int := max (i.ceilingMB - i.heldMB) 0

def MemoryGuardInput.blocked : Option (MemoryValveCode × String) :=
  if i.room ≤ 0 then
    some (.atCeiling, "it holds " ++ toString i.heldMB ++ " MB, the most this runner may have")
  else if i.poolMB ≤ 0 then
    some (.poolEmpty, "the host has no spare memory left to lend")
  else if !i.availableKnown then
    some (.unmeasured, "the host's free memory could not be measured, so none is lent")
  else if i.spare ≤ 0 then
    some (.hostFloor, "the host has " ++ toString i.availableMB ++ " MB free and keeps " ++
      toString i.floorMB ++ " MB back")
  else none

def MemoryGuardInput.give (want : Int) : Int :=
  min (min (min (max (want - i.limitMB) memoryMinimumRaiseMB) i.room) i.poolMB) i.spare

def MemoryGuardInput.boundBy (give : Int) : String :=
  if give = i.room then
    "that is the most this runner may have (" ++ toString i.ceilingMB ++ " MB)"
  else if give = i.poolMB then "that was the last of what the host has to lend"
  else "that leaves the host its floor of " ++ toString i.floorMB ++ " MB"

def MemoryGuardInput.spill (out : MemoryGuardDecision) (said : List String) : MemoryGuardDecision :=
  let allowance := min i.spillMB i.swapFreeMB
  let allowed := if i.observing then "would have allowed" else "allowed"
  if (i.usageMB : ℚ) ≥ memorySpillShare * out.limitMB then
    if i.spillMB ≤ 0 then { out with reason := join "; " said }
    else if !i.swapKnown || decide (i.swapFreeMB ≤ 0) then
      { out with reason := join "; " (said ++ ["swap is allowed but the host has none free"]) }
    else if allowance > i.swapMB then
      { out with
        swapMB := allowance
        code := .spilled
        reason := join "; " (said ++ [allowed ++ " " ++ toString allowance ++
          " MB of swap beyond its " ++ toString out.limitMB ++ " MB limit"]) }
    else { out with reason := join "; " said }
  else { out with reason := join "; " said }

def guardMemory : MemoryGuardDecision :=
  let want := memoryWanted i.usageMB
  if i.limitMB ≤ 0 ∨ i.limitMB ≥ want then
    { limitMB := i.limitMB, swapMB := i.swapMB, code := .healthy }
  else
    match i.blocked with
    | none =>
      let raised := if i.observing then "would have raised" else "raised"
      let limit := i.limitMB + i.give want
      let said := raised ++ " the limit from " ++ toString i.limitMB ++ " to " ++ toString limit ++
        " MB: it was using " ++ toString i.usageMB ++ " MB"
      if limit ≥ want then
        { limitMB := limit, swapMB := i.swapMB, code := .raised, reason := said }
      else
        i.spill { limitMB := limit, swapMB := i.swapMB, code := .raised }
          [said, i.boundBy (i.give want)]
    | some (code, because) =>
      i.spill { limitMB := i.limitMB, swapMB := i.swapMB, code := code }
        ["it is using " ++ toString i.usageMB ++ " MB of its " ++ toString i.limitMB ++
          " MB limit and wants more, but " ++ because]

theorem spill_limit (out : MemoryGuardDecision) (said : List String) :
    (i.spill out said).limitMB = out.limitMB := by
  unfold MemoryGuardInput.spill
  dsimp only
  split
  · split
    · rfl
    split
    · rfl
    · split <;> rfl
  · rfl

theorem spill_swap {out : MemoryGuardDecision} {said : List String} (h : i.swapMB = out.swapMB) :
    out.swapMB ≤ (i.spill out said).swapMB := by
  unfold MemoryGuardInput.spill
  dsimp only
  split
  · split
    · exact le_refl _
    split
    · exact le_refl _
    split
    · rename_i hlt
      rw [← h]
      exact le_of_lt hlt
    · exact le_refl _
  · exact le_refl _

structure Affordable (limit : Int) : Prop where
  room : i.heldMB + (limit - i.limitMB) ≤ i.ceilingMB
  pool : limit - i.limitMB ≤ i.poolMB
  known : i.availableKnown = true
  spare : limit - i.limitMB ≤ i.availableMB - i.floorMB

variable {i}

theorem affordable_give (want : Int) (h : i.blocked = none) :
    Affordable i (i.limitMB + i.give want) ∧ 0 < i.give want := by
  unfold MemoryGuardInput.blocked at h
  split at h
  · cases h
  rename_i hroom
  split at h
  · cases h
  split at h
  · cases h
  rename_i hknown
  split at h
  · cases h
  rename_i hspare
  have hroom' : i.room = i.ceilingMB - i.heldMB := by
    unfold MemoryGuardInput.room at hroom ⊢
    omega
  have hmin : 0 < max (want - i.limitMB) memoryMinimumRaiseMB :=
    lt_max_of_lt_right (by decide)
  unfold MemoryGuardInput.spare at hspare
  have hgive : i.give want ≤ i.room ∧ i.give want ≤ i.poolMB ∧
      i.give want ≤ i.availableMB - i.floorMB := by
    unfold MemoryGuardInput.give MemoryGuardInput.spare
    omega
  refine ⟨⟨?_, ?_, ?_, ?_⟩, ?_⟩
  · omega
  · omega
  · simpa using hknown
  · omega
  · unfold MemoryGuardInput.give MemoryGuardInput.spare
    omega

theorem guardMemory_spec : i.limitMB ≤ (guardMemory i).limitMB ∧ i.swapMB ≤ (guardMemory i).swapMB ∧
    (i.limitMB < (guardMemory i).limitMB → Affordable i (guardMemory i).limitMB) := by
  unfold guardMemory
  dsimp only
  split
  · exact ⟨le_refl _, le_refl _, fun h => absurd h (lt_irrefl _)⟩
  cases hb : i.blocked with
  | none =>
    dsimp only
    obtain ⟨hafford, hpos⟩ := affordable_give (memoryWanted i.usageMB) hb
    have hle : i.limitMB ≤ i.limitMB + i.give (memoryWanted i.usageMB) := by omega
    split
    · exact ⟨hle, le_refl _, fun _ => hafford⟩
    · rw [spill_limit]
      exact ⟨hle, spill_swap i rfl, fun _ => hafford⟩
  | some b =>
    rw [spill_limit]
    exact ⟨le_refl _, spill_swap i rfl, fun h => absurd h (lt_irrefl _)⟩

end

open Zoomies.Store

inductive MemoryBurstMode
  | off
  | observe
  | automatic
  deriving DecidableEq

structure ElasticMemoryRunner where
  runnerID : String
  mode : MemoryBurstMode
  guaranteeMB : Int := 0
  ceilingMB : Int
  spillMB : Int := 0
  deriving DecidableEq

structure ElasticMemoryDirective where
  capacityMB : Int
  floorMB : Int
  runners : List ElasticMemoryRunner := []

structure MemoryContainer where
  id : String
  daemon : Bool := false
  guaranteeMB : Int
  limitMB : Int
  swapMB : Int := 0
  deriving DecidableEq

structure ValveContainer extends MemoryContainer where
  usageMB : Int := 0
  prevUsageMB : Int := 0
  virtualLimitMB : Int
  virtualSwapMB : Int
  deriving DecidableEq

structure MemoryValve where
  rule : Option ElasticMemoryRunner := none
  containers : List ValveContainer := []
  discoveredAt : Time := 0
  lastLook : Time := 0
  hot : Bool := false
  code : Option MemoryValveCode := none
  reason : String := ""
  nearLimit : Bool := false
  raises : Nat := 0
  lookFailures : Nat := 0
  lastFailure : String := ""
  warned : List String := []

def unlimitedSwapMB : Int := 2 ^ 40

def lent (limitMB guaranteeMB : Int) : Int := max (limitMB - guaranteeMB) 0

def spilled (swapMB : Int) : Int := if swapMB < unlimitedSwapMB then swapMB else 0

def MemoryValve.lentMB (v : MemoryValve) : Int × Int :=
  ((v.containers.map fun c => lent c.limitMB c.guaranteeMB).sum,
    (v.containers.map fun c => spilled c.swapMB).sum)

def MemoryValve.wouldLendMB (v : MemoryValve) : Int × Int :=
  ((v.containers.map fun c => lent c.virtualLimitMB c.guaranteeMB).sum,
    (v.containers.map fun c => spilled c.virtualSwapMB).sum)

structure MemoryRules where
  capacityMB : Int := 0
  floorMB : Int := 0
  runners : List ElasticMemoryRunner := []

structure Tracked where
  runnerID : String
  kind : BackendKind := .docker
  handle : String := ""
  terminal : Bool := false
  hostRemoved : Bool := false
  valve : Option MemoryValve := none

structure AgentState where
  runners : List Tracked := []
  memory : MemoryRules := {}
  memoryUnsupported : List (BackendKind × String) := []

def ruled (r : ElasticMemoryRunner) : Bool :=
  r.runnerID != "" && (r.mode == .observe || r.mode == .automatic) && decide (r.ceilingMB > 0)

def memoryRules (d : Option ElasticMemoryDirective) : MemoryRules :=
  match d with
  | none => {}
  | some d => { capacityMB := d.capacityMB, floorMB := d.floorMB, runners := d.runners.filter ruled }

def MemoryRules.rule (rules : MemoryRules) (id : String) : Option ElasticMemoryRunner :=
  rowAt (·.runnerID) id rules.runners.reverse

def Tracked.obey (rule : Option ElasticMemoryRunner) (t : Tracked) : Tracked :=
  match rule, t.valve with
  | some r, none => { t with valve := some { rule := some r } }
  | some r, some v => { t with valve := some { v with rule := some r } }
  | none, some v => { t with valve := some { v with rule := none } }
  | none, none => t

def AgentState.applyMemoryDirective (a : AgentState) (d : Option ElasticMemoryDirective) :
    AgentState :=
  let rules := memoryRules d
  { a with
    memory := rules
    runners := a.runners.map fun t => t.obey (rules.rule t.runnerID) }

structure MemoryLook where
  runnerID : String
  kind : BackendKind := .docker
  handle : String := ""
  rule : ElasticMemoryRunner
  rediscov : Bool := false
  lastLook : Time := 0
  containers : List ValveContainer
  usageMB : String → Int
  err : Option String := none

def pressureOf (usageMB limitMB : Int) : ℚ := (usageMB : ℚ) / limitMB

def MemoryLook.pressure (l : MemoryLook) : ℚ :=
  l.containers.foldl (fun worst c =>
    if c.limitMB > 0 then max worst (pressureOf (l.usageMB c.id) c.limitMB) else worst) 0

def comparePressure (x y : MemoryLook) : Ordering :=
  if x.pressure > y.pressure then .lt
  else if x.pressure < y.pressure then .gt
  else compare x.runnerID y.runnerID

def MemoryLook.compareContainers (l : MemoryLook) (x y : ValveContainer) : Ordering :=
  let px := pressureOf (l.usageMB x.id) (max x.limitMB 1)
  let py := pressureOf (l.usageMB y.id) (max y.limitMB 1)
  if px > py then .lt else if px < py then .gt else .eq

structure HostMemory where
  availableMB : Int
  swapFreeMB : Int

inductive RaiseError
  | notFound
  | unsupported (text : String)
  | other (text : String)
  deriving DecidableEq

def RaiseError.text : RaiseError → String
  | .notFound => "backend: not found"
  | .unsupported text => text
  | .other text => text

inductive RaiseOutcome
  -- what a raise comes to; a lost one is made, and the agent is told of an error
  | done
  | refused (e : RaiseError)
  | lost (text : String)
  deriving DecidableEq

abbrev Daemon := String → List MemoryContainer

structure Tick where
  rules : MemoryRules
  measured : Bool
  now : Time
  outcome : String → RaiseOutcome

section
variable (a : AgentState)

def Tracked.onValve (f : MemoryValve → MemoryValve) (t : Tracked) : Tracked :=
  { t with valve := t.valve.map f }

def AgentState.onValve (id : String) (f : MemoryValve → MemoryValve) : AgentState :=
  { a with runners := setAt (·.runnerID) id (Tracked.onValve f) a.runners }

def Tracked.onSameValve (handle : String) (f : MemoryValve → MemoryValve) (t : Tracked) : Tracked :=
  if t.handle = handle then t.onValve f else t

def AgentState.onSameValve (id handle : String) (f : MemoryValve → MemoryValve) : AgentState :=
  { a with runners := setAt (·.runnerID) id (Tracked.onSameValve handle f) a.runners }

def Tracked.counted (t : Tracked) (observing : Bool) : Int :=
  match t.valve with
  | none => 0
  | some v =>
    if t.terminal || t.hostRemoved then 0
    else
      let real := v.lentMB.1
      if observing && v.rule.any fun r => r.mode == .observe then
        real + max (v.wouldLendMB.1 - real) 0
      else real

def AgentState.memoryPoolMB (rules : MemoryRules) (observing : Bool) : Int :=
  max (rules.capacityMB - (a.runners.map fun t => t.counted observing).sum) 0

variable (id : String) (d : MemoryGuardDecision) (look : MemoryLook)

def ValveContainer.setReal (c : ValveContainer) : ValveContainer :=
  { c with
    limitMB := d.limitMB
    swapMB := d.swapMB
    virtualLimitMB := max c.virtualLimitMB d.limitMB
    virtualSwapMB := max c.virtualSwapMB d.swapMB }

def ValveContainer.setVirtual (c : ValveContainer) : ValveContainer :=
  { c with virtualLimitMB := d.limitMB, virtualSwapMB := d.swapMB }

def MemoryValve.setReal (id : String) (d : MemoryGuardDecision) (v : MemoryValve) : MemoryValve :=
  { v with
    raises := v.raises + v.containers.countP fun c => c.id == id && decide (d.limitMB > c.limitMB)
    containers := setAt (fun c => c.id) id (ValveContainer.setReal d) v.containers }

def MemoryValve.setVirtual (id : String) (d : MemoryGuardDecision) (v : MemoryValve) :
    MemoryValve :=
  { v with containers := setAt (fun c => c.id) id (ValveContainer.setVirtual d) v.containers }

def AgentState.adoptMemoryLook (now : Time) : AgentState :=
  a.onSameValve look.runnerID look.handle fun v =>
    { v with
      containers := look.containers
      discoveredAt := if look.rediscov then now else v.discoveredAt }

def MemoryValve.warn (text : String) (v : MemoryValve) : MemoryValve :=
  if v.warned.contains text then v else { v with warned := v.warned ++ [text] }

def AgentState.memoryFailure (e : RaiseError) : AgentState × MemoryValveCode :=
  -- a runtime with no way to raise a limit is not asked again; any other refusal is warned of once
  match e with
  | .unsupported text =>
    ({ a with
        memoryUnsupported :=
          (a.memoryUnsupported.filter fun p => p.1 ≠ look.kind) ++ [(look.kind, text)] },
      .unsupported)
  | e => (a.onValve look.runnerID (MemoryValve.warn e.text), .failed)

def unreadableReason (why : String) : String :=
  "its memory could not be read from the container runtime, so the valve cannot protect it: " ++ why

def memoryFailedLooks : Nat := 3

def MemoryValve.finish (code : MemoryValveCode) (reason : String)
    (hot near : Bool) (now : Time) (v : MemoryValve) : MemoryValve :=
  let v := { v with
    lastLook := now
    hot := hot
    nearLimit := v.nearLimit || near
    code := some code
    reason := if reason ≠ "" then reason else v.reason }
  match look.err with
  | none => { v with lookFailures := 0, lastFailure := "" }
  | some why =>
    let v := { v with lookFailures := v.lookFailures + 1, lastFailure := why }
    if v.lookFailures ≥ memoryFailedLooks ∧ code = .healthy then
      { v with code := some .failed, reason := unreadableReason why }
    else v

end

def memoryNearShare : ℚ := 9 / 10

structure Progress where
  agent : AgentState
  daemon : Daemon
  host : HostMemory
  taken : Int := 0
  code : MemoryValveCode := .healthy
  reason : String := ""
  hot : Bool := false
  near : Bool := false

def MemoryContainer.setReal (d : MemoryGuardDecision) (c : MemoryContainer) : MemoryContainer :=
  { c with limitMB := d.limitMB, swapMB := d.swapMB }

def Daemon.raise (daemon : Daemon) (runnerID id : String) (d : MemoryGuardDecision) : Daemon :=
  fun r => if r = runnerID then setAt (·.id) id (MemoryContainer.setReal d) (daemon r)
    else daemon r

section
variable (tick : Tick) (look : MemoryLook)

def MemoryLook.observing : Bool := look.rule.mode == .observe

variable (c : ValveContainer)

def MemoryLook.limitOf : Int :=
  if look.observing then c.virtualLimitMB else c.limitMB

def MemoryLook.swapOf : Int :=
  if look.observing then c.virtualSwapMB else c.swapMB

def guardInput (order : List ValveContainer) (c : ValveContainer) (p : Progress) :
    MemoryGuardInput :=
  { usageMB := look.usageMB c.id
    limitMB := look.limitOf c
    swapMB := look.swapOf c
    heldMB := (order.map look.limitOf).sum
    ceilingMB := look.rule.ceilingMB
    poolMB := p.agent.memoryPoolMB tick.rules look.observing
    availableMB := p.host.availableMB
    floorMB := tick.rules.floorMB
    availableKnown := tick.measured
    spillMB := look.rule.spillMB
    swapFreeMB := p.host.swapFreeMB
    swapKnown := tick.measured
    observing := look.observing }

def watched (p : Progress) : Progress :=
  let usage := look.usageMB c.id
  { p with
    near := p.near || decide ((usage : ℚ) ≥ memoryNearShare * c.limitMB)
    hot := p.hot || memoryHot usage (look.limitOf c) ||
      memoryClimbing c.prevUsageMB usage (look.limitOf c) (sub tick.now look.lastLook) }

def noted (d : MemoryGuardDecision) (p : Progress) : Progress :=
  if d.code ≠ .healthy then { p with code := d.code, reason := d.reason } else p

def raiseContainer (d : MemoryGuardDecision) (p : Progress) : ValveContainer × Progress :=
  match tick.outcome c.id with
  | .refused .notFound => (c, p)
  | .refused e =>
    let r := p.agent.memoryFailure look e
    (c, { p with agent := r.1, code := r.2, reason := e.text })
  | .lost text =>
    let r := p.agent.memoryFailure look (.other text)
    (c, { p with
      daemon := p.daemon.raise look.runnerID c.id d
      agent := r.1
      code := r.2
      reason := text })
  | .done =>
    let give := d.limitMB - c.limitMB
    ({ c with limitMB := d.limitMB, swapMB := d.swapMB }, { p with
        taken := p.taken + give
        host := if tick.measured then
            { p.host with availableMB := max (p.host.availableMB - give) 0 }
          else p.host
        daemon := p.daemon.raise look.runnerID c.id d
        agent := p.agent.onValve look.runnerID (MemoryValve.setReal c.id d) })

def decideContainer (order : List ValveContainer) (c : ValveContainer) (p : Progress) :
    ValveContainer × Progress :=
  let i := guardInput tick look order c p
  let d := guardMemory i
  let p := noted d (watched tick look c p)
  if !d.changed i then (c, p)
  else if look.observing then
    ({ c with virtualLimitMB := d.limitMB, virtualSwapMB := d.swapMB },
      { p with agent := p.agent.onValve look.runnerID (MemoryValve.setVirtual c.id d) })
  else raiseContainer tick look c d p

def decideContainers : List ValveContainer → List ValveContainer → Progress → Progress
  | _, [], p => p
  | done, c :: rest, p =>
    let r := decideContainer tick look (done ++ c :: rest) c p
    decideContainers (done ++ [r.1]) rest r.2

def decideMemory (agent : AgentState) (daemon : Daemon) (host : HostMemory) : Progress :=
  let order := sortStableFunc look.compareContainers look.containers
  let p := decideContainers tick look [] order { agent := agent, daemon := daemon, host := host }
  let finish := MemoryValve.finish look p.code p.reason p.hot p.near tick.now
  { p with agent := p.agent.onSameValve look.runnerID look.handle finish }

end

structure Round where
  agent : AgentState
  daemon : Daemon
  host : HostMemory

def decideLook (tick : Tick) (r : Round) (look : MemoryLook) : Round :=
  let p := decideMemory tick look (r.agent.adoptMemoryLook look tick.now) r.daemon r.host
  { agent := p.agent
    daemon := p.daemon
    host := if tick.measured then
        { r.host with availableMB := max (r.host.availableMB - p.taken) 0 }
      else r.host }

def Round.guardMemory (r : Round) (tick : Tick) (looks : List MemoryLook) : Round :=
  (sortStableFunc comparePressure looks).foldl (decideLook tick) r

end Zoomies.Agent
