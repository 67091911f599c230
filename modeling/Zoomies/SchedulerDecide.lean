import Zoomies.SchedulerPool
import Zoomies.SchedulerBlockage

/-! One pass: every pool is decided, and the creates are shared out by priority tier, one at a time.
-/
namespace Zoomies.Scheduler
open Zoomies.Go Zoomies.Store

structure Tick where
  hosts : HostSet
  budget : Int
  creates : List Action
  plans : String → PoolPlan

variable (t : Tick) (p : Pool) (pass : Pass)

def Tick.setPlan (id : String) (plan : PoolPlan) : Tick :=
  { t with plans := Function.update t.plans id plan }

def upReason (busy eligible : Int) (delay : Duration) : String :=
  if eligible = 0 ∨ busy + eligible < p.minRunners then
    "pool minimum is " ++ plural p.minRunners "runner"
  else if delay ≤ 0 then plural eligible "job" ++ " queued"
  else plural eligible "job" ++ " queued > " ++ formatDuration delay

def sizeReason (placed : Placement) : String :=
  match placed.size with
  | none => ""
  | some size =>
    if placed.raised then " (sized to " ++ sizePhrase size.cpus size.memoryMB ++ ")"
    else if p.automatic then
      " (reduced to " ++ sizePhrase size.cpus size.memoryMB ++
        ": no host with a free slot had a whole share of it left)"
    else
      " (reduced to " ++ sizePhrase size.cpus size.memoryMB ++
        ": no host had room for the standard " ++
        sizePhrase p.resources.cpus p.resources.memoryMB ++ ")"

def grantReason (p : Pool) (plan : PoolPlan) (runners : List Runner)
    (queued : List Job) (placed : Placement) : String :=
  let expedited := queued.any Job.provisionNow
  let delay := if expedited then 0 else (pass.policy.forPool p).scaleUpDelay
  upReason p (countState .busy runners) plan.eligible delay ++
    (if expedited then " (includes Run now demand)" else "") ++ (if plan.quotaDeferredJobs > 0 then
      " (" ++ plural plan.quotaDeferredJobs "job" ++ " deferred by the repository limit for " ++
        join ", " plan.quotaDeferredRepositories ++ ")"
      else "") ++
    sizeReason p placed

def holdPlan (plan : PoolPlan) (held : String) : PoolPlan :=
  { plan with
    history := held
    reason := cannotScale p.name (plan.current + creates plan.actions) plan.desired held
    blocked := held
    blockedFix := "wait for work on a larger host to finish, or add a host with that much room; the requirement is the jobs' own recent peaks, and scheduler.history_sizing=shadow places them as before"
    blockedAtCapacity := true }

def blockPlan (plan : PoolPlan) (b : Blockage) : PoolPlan :=
  { plan with
    reason := cannotScale p.name (plan.current + creates plan.actions) plan.desired
      (sentence b.what b.fix)
    blocked := b.what
    blockedFix := b.fix
    blockedAtCapacity := b.atCapacity
    blockedAlternatives := b.alternatives
    blockedNoEligibleHost := b.noEligibleHost }

structure Need where
  requirement : Requirement := {}
  unfit : String := ""
  heldOff : List (String × String) := []

def needFor (hs : HostSet) (p : Pool) (plan : PoolPlan) (queued : List Job) : Need :=
  if pass.historySizing = .off then { unfit := plan.historyUnfit }
  else
    let (need, unfit) := hs.poolNeed pass.history p queued
    { requirement := need
      unfit := unfit
      heldOff := if need.known then hs.heldOff p need else [] }

def enforced (need : Need) : Option Requirement :=
  if pass.historySizing = .on ∧ need.requirement.known then some need.requirement else none

def createPlan (hs : HostSet) (p : Pool) (plan : PoolPlan) (runners : List Runner)
    (queued : List Job) (need : Need) (placed : Placement) : PoolPlan × Action :=
  let reason := grantReason pass p plan runners queued placed
  let held := hs.sortedPhrases need.heldOff
  let note := "placed for the jobs waiting, which need " ++ need.requirement.text ++
    if held = "" then "" else "; " ++ held
  let (history, reason) :=
    match enforced pass need with
    | some _ => (note, reason ++ " (" ++ note ++ ")")
    | none =>
      if need.requirement.known then
        ((need.heldOff.lookup placed.hostID).elim plan.history fun s =>
          "shadow: history sizing would have " ++ s, reason)
      else (plan.history, reason)
  let act : Action :=
    { kind := .create
      poolID := p.id
      poolName := p.name
      hostID := placed.hostID
      reason := reason
      size := placed.size
      sizedFromHistory := placed.raised }
  let actions := plan.actions ++ [act]
  ({ plan with
      history := history
      actions := actions
      reason := scaled p.name plan.current (plan.current + creates actions) reason }, act)

def grant (p : Pool) (runners : List Runner) (queued : List Job) (t : Tick) : Bool × Tick :=
  let need := needFor pass t.hosts p (t.plans p.id) queued
  let plan := { t.plans p.id with historyUnfit := need.unfit }
  let hs := { t.hosts with need := enforced pass need }
  match hs.placeAvoiding p 1 (recentBusyHosts runners pass.now) with
  | ([], _) =>
    if (enforced pass need).isSome && !need.heldOff.isEmpty then
      (false, t.setPlan p.id (holdPlan p plan (t.hosts.sortedPhrases need.heldOff)))
    -- the reason is sought without the requirement: what blocks is the fleet as it is
    else (false, t.setPlan p.id (blockPlan p plan (t.hosts.why p)))
  | (placed :: _, hs') =>
    let (plan, act) := createPlan pass t.hosts p plan runners queued need placed
    (true, { t.setPlan p.id plan with
      hosts := { hs' with need := none }
      budget := t.budget - 1
      creates := t.creates ++ [act] })

def short : Bool :=
  p.enabled && decide ((t.plans p.id).desired > (t.plans p.id).current + creates (t.plans p.id).actions)

def firstNonEmpty (a b : String) : String := if a ≠ "" then a else b

def heldBack (plan : PoolPlan) : String := firstNonEmpty plan.failing plan.held

def wants : Bool :=
  short t p && decide ((t.plans p.id).failing = "") && decide ((t.plans p.id).held = "")

def Tick.note (current : Int) (why : String) : Tick :=
  let plan := t.plans p.id
  t.setPlan p.id { plan with reason := cannotScale p.name current plan.desired why }

section
variable (pass : Pass) (runners : RunnerTable) (demand : String → List Job)

def grantTo (p : Pool) (t : Tick) : Bool × Tick :=
  grant pass p (runnersOf runners p.id) (demand p.id) t

def serve : List Pool → Tick → List Pool × Tick
  | [], t => ([], t)
  | p :: rest, t =>
    if !short t p then serve rest t
    -- held back: the pool says why and takes no further part in the tier
    else if heldBack (t.plans p.id) ≠ "" then
      serve rest (t.note p (t.plans p.id).current (heldBack (t.plans p.id)))
    else
      match grantTo pass runners demand p t with
      | (false, t') => serve rest t'
      | (true, t') =>
        let here := if short t' p then [p] else []
        -- with nothing left to hand out the pools behind this one are not looked at
        if t'.budget = 0 then (here, t')
        else
          let (next, t'') := serve rest t'
          (here ++ next, t'')

def rounds : Nat → List Pool → Tick → Tick
  | 0, _, t => t
  | n + 1, active, t =>
    if active.isEmpty ∨ t.budget ≤ 0 then t
    else
      let (next, t') := serve pass runners demand active t
      rounds n next t'

def shortfall (t : Tick) (tier : List Pool) : Nat :=
  (tier.map fun p =>
    ((t.plans p.id).desired - (t.plans p.id).current - creates (t.plans p.id).actions).toNat).sum

def serveTiers : List (List Pool) → Tick → Tick
  | [], t => t
  | tier :: rest, t =>
    -- every round but the last grants something, so the shortfall bounds their number
    let t' := rounds pass runners demand (shortfall t tier + 1) tier t
    if t'.budget = 0 then t' else serveTiers rest t'

def waitedAnInterval (queued : List Job) : Bool :=
  queued.any fun j => j.queuedAt != 0 && decide (sub pass.now j.queuedAt ≥ pass.policy.interval)

def shareLoop (top : Int) : List Pool → Int → Int → Tick → Int × Int × Tick
  | [], granted, floor, t => (granted, floor, t)
  | p :: rest, granted, floor, t =>
    if t.budget = 0 then (granted, floor, t)
    else if p.priority ≥ top ∨ !wants t p ∨ !waitedAnInterval pass (demand p.id) then
      shareLoop top rest granted floor t
    else
      match grantTo pass runners demand p t with
      | (true, t') => shareLoop top rest (granted + 1) p.priority t'
      | (false, t') => shareLoop top rest granted floor t'

def shareAcrossTiers (tiers : List Pool) (t : Tick) : Int × Int × Tick :=
  if pass.policy.interval ≤ 0 ∨ pass.policy.maxCreatesPerTick ≤ 0 then (0, 0, t)
  else
    match tiers.find? (wants t) with
    | none => (0, 0, t)
    | some top => shareLoop pass runners demand top.priority tiers 0 0 t

def latest (id : String) : Time :=
  (runnersOf runners id).foldl (fun last r => max last r.createdAt) (pass.lastProvisioned id)

def compareTiers : Pool → Pool → Ordering :=
  compareLex (compareOn fun p => -p.priority)
    (compareLex (compareOn fun p => !((demand p.id).head?.map Job.provisionNow).getD false)
      (compareLex (compareOn fun p => latest pass runners p.id)
        (compareLex (compareOn fun p => (demand p.id).isEmpty)
          (compareLex (compareOn fun p => ((demand p.id).head?.map Job.queuedAt).getD 0)
            (compareOn Pool.id)))))

def deferredWhy (shared floor : Int) (p : Pool) : String :=
  if pass.atCeiling then
    "the fleet holds the " ++ plural pass.policy.maxRunners "live runner" ++
      " limits.runners allows; a runner ending makes room, or raise limits.runners"
  else if shared > 0 ∧ p.priority > floor then
    "deferred for fairness across priorities: " ++ plural shared "create" ++
      " of this tick's global limit of " ++ plural pass.policy.maxCreatesPerTick "new runner" ++
      " went to lower-priority pools whose jobs had waited a full scheduling interval; the next pass will continue"
  else
    "this tick's global limit of " ++ plural pass.policy.maxCreatesPerTick "new runner" ++
      " is exhausted; the next pass will continue"

def noteDeferred (shared floor : Int) : List Pool → Tick → Tick
  | [], t => t
  | p :: rest, t =>
    if short t p && decide ((t.plans p.id).blocked = "") && decide ((t.plans p.id).failing = "") &&
        decide ((t.plans p.id).held = "") then
      noteDeferred shared floor rest
        (t.note p ((t.plans p.id).current + creates (t.plans p.id).actions)
          (deferredWhy pass shared floor p))
    else noteDeferred shared floor rest t

def allocate (pools : List Pool) (t : Tick) : Tick :=
  let tiers := sortStableFunc (compareTiers pass runners demand) pools
  -- what is shared below the top tier comes out of the budget before the tiers are served
  let (shared, floor, t) := shareAcrossTiers pass runners demand tiers t
  let t := serveTiers pass runners demand (tiers.splitBy fun a b => a.priority == b.priority) t
  noteDeferred pass shared floor pools t

end

def decidedPlans (pass : Pass) (s : Snapshot) (pools : List Pool) (demand : String → List Job) :
    List PoolPlan :=
  pools.map fun p => decidePool pass p (runnersOf s.runners p.id) (demand p.id)

def plansByID (plans : List PoolPlan) (id : String) : PoolPlan :=
  (plans.find? fun plan => plan.poolID == id).getD {}

def budgetFor (policy : Policy) (live : Int) : Int :=
  let budget := if policy.maxCreatesPerTick ≤ 0 then maxInt else policy.maxCreatesPerTick
  if policy.maxRunners > 0 then min budget (max (policy.maxRunners - live) 0) else budget

def ceilingBinds (policy : Policy) (live : Int) : Bool :=
  let budget := if policy.maxCreatesPerTick ≤ 0 then maxInt else policy.maxCreatesPerTick
  decide (policy.maxRunners > 0) && decide (max (policy.maxRunners - live) 0 < budget)

variable (s : Snapshot)

def passFor (atCeiling : Bool) : Pass where
  now := s.now
  policy := s.policy
  atCeiling := atCeiling
  activeByRepository := s.activeByRepository
  jitter := s.jitter
  lastProvisioned := s.lastProvisioned
  held := s.heldInstallations
  stillRunning := runnersWithAJob s
  history := s.jobHistory
  historySizing := s.historySizing

def startingHosts : HostSet :=
  { newHostSet s.hosts (sortedPools s.pools) s.runners s.now with
    readiness := s.readiness
    preferReadiness := s.preferReadiness
    order := s.hostOrder }

def demandOf : Assignment :=
  assign (sortedPools s.pools) s.jobs (targetsOf s.installations)

def decidedOf : List PoolPlan :=
  decidedPlans (passFor s false) s (sortedPools s.pools) (demandOf s).demand

def liveAfterReap : Int := ((decidedOf s).map PoolPlan.current).sum

def startingTick : Tick where
  hosts := startingHosts s
  budget := budgetFor s.policy (liveAfterReap s)
  creates := []
  plans := plansByID (decidedOf s)

def finalTick : Tick :=
  -- the ceiling changes the budget above and, here, only how a shortage is worded
  allocate (passFor s (ceilingBinds s.policy (liveAfterReap s))) s.runners (demandOf s).demand
    (sortedPools s.pools) (startingTick s)

def finishPlan (plan : PoolPlan) : PoolPlan :=
  { plan with unserved := max 0 (plan.eligible - plan.supply - creates plan.actions) }

def Snapshot.decide : Plan :=
  let t := finalTick s
  let pools := (sortedPools s.pools).map fun p => finishPlan (t.plans p.id)
  { pools := pools
    actions := (pools.flatMap fun plan => plan.actions.filter fun a => a.kind != .create) ++ t.creates
    unmatched := (demandOf s).unmatched }

end Zoomies.Scheduler
