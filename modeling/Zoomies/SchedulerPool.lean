import Zoomies.SchedulerPlan

/-! Which of a pool's runners are cleaned up, how many it should have, and which of the surplus go.
-/
namespace Zoomies.Scheduler
open Zoomies.Go Zoomies.Store

structure Pass where
  now : Time
  policy : Policy
  atCeiling : Bool
  activeByRepository : String → String → Int
  jitter : String → ℚ
  lastProvisioned : String → Time
  held : String → Option Time
  /-- The runners with a job in progress, whatever their rows say. -/
  stillRunning : String → Bool
  history : JobUsageKey → List JobPeak
  historySizing : HistorySizing

def failedRetention : Duration := 10 * minute

def startBackoff : Duration := 10 * second

def maxStartBackoff : Duration := 5 * minute

def startBackoffJitter : ℚ := 1 / 5

variable (pass : Pass) (p : Pool) (r : Runner)

variable (runners : List Runner) (now : Time)

def age : Duration := sub now r.createdAt

def idleFor : Duration :=
  if r.state ≠ .idle then 0 else r.lastIdleAt.elim 0 (sub now)

def idleSince : Time := r.lastIdleAt.getD r.createdAt

def failedAt : Time := r.finishedAt.getD r.createdAt

def drainingFor : Duration := r.drainingSince.elim (age r now) (sub now)

def staleImage : Bool :=
  p.image != "" && r.image != "" && r.image != p.image

def stateText : RunnerState → String
  | .provisioning => "provisioning"
  | .registering => "registering"
  | .idle => "idle"
  | .busy => "busy"
  | .draining => "draining"
  | .removed => "removed"
  | .failed => "failed"

def startFailures : List Runner :=
  sortStableFunc (fun a b => compare (failedAt b) (failedAt a)) (runners.filter fun r =>
    r.state == .failed && r.registeredAt.isNone && decide (sub now (failedAt r) < failedRetention))

def recentBusyHosts (hostID : String) : Bool :=
  (startFailures runners now).any fun r =>
    r.faultKind == .backendBusy && r.hostID != "" && r.hostID == hostID

def jittered (d : Duration) (f : ℚ) : Duration :=
  if f ≤ 0 then d else d + truncate (d * startBackoffJitter * min f 1)

def backoff (failures : Nat) : Duration :=
  if failures - 1 < 8 ∧ startBackoff * 2 ^ (failures - 1) < maxStartBackoff then
    startBackoff * 2 ^ (failures - 1)
  else maxStartBackoff

def holdAfterStartFailures : String × FaultKind :=
  let failed := startFailures runners pass.now
  match failed with
  | [] => ("", .unset)
  | last :: _ =>
    -- newest first, so the head is the failure the wait counts from
    let wait := jittered (backoff failed.length) (pass.jitter p.id)
    let since := sub pass.now (failedAt last)
    if since ≥ wait then ("", .unset)
    else
      let which :=
        if failed.length > 1 then "the last " ++ plural failed.length "runner" else "the last runner"
      (which ++ " failed to start, most recently " ++ formatDuration (truncateTo second since) ++
        " ago (" ++ summarise last.message ++ "); trying again in " ++
        formatDuration (roundTo second (wait - since)), last.faultKind)

def holdWhileRateLimited : String :=
  match pass.held p.installationID with
  | none => ""
  | some till =>
    if !decide (pass.now < till) then ""
    else "GitHub is rate-limiting this pool's installation; not asking it to register runners for " ++
      formatDuration (roundTo second (sub till pass.now))

def action (kind : ActionKind) (p : Pool) (r : Runner) (reason : String) : Action where
  kind := kind
  poolID := p.id
  poolName := p.name
  runnerID := r.id
  reason := reason

inductive ReapVerdict
  | gone
  | remove (reason : String)
  | fail (reason : String)
  | retire (reason : String)
  | keep

def retirable : Bool :=
  r.state != .busy && r.state != .draining && !pass.stillRunning r.id

def provisionOverdue (pol : Policy) (now : Time) (r : Runner) : Bool :=
  starting r.state && decide (pol.provisionTimeout > 0) && decide (age r now > pol.provisionTimeout)

def drainOverdue (pol : Policy) (now : Time) (r : Runner) : Bool :=
  r.state == .draining && r.currentJobID == "" && decide (pol.drainTimeout > 0) &&
    decide (drainingFor r now > pol.drainTimeout)

def reapVerdict : ReapVerdict :=
  let pol := pass.policy.forPool p
  if r.state = .removed then .gone
  else if r.state = .failed then
    -- a failure stays on show for a while, and for as long as a job is still running on it
    if sub pass.now (failedAt r) ≥ failedRetention ∧ !pass.stillRunning r.id then
      .remove ("runner failed " ++ formatDuration (truncateTo minute (sub pass.now (failedAt r))) ++
        " ago; its failure has been on the Runners page long enough")
    else .gone
  -- neither of the two timeouts asks whether a job is in progress on the runner
  else if provisionOverdue pol pass.now r then
    .fail ("stuck in " ++ stateText r.state ++ " for " ++ formatDuration (age r pass.now) ++
      ", past the " ++ formatDuration pol.provisionTimeout ++
      " provision timeout; check the host's agent log")
  else if drainOverdue pol pass.now r then
    .fail ("draining with no job for " ++ formatDuration (drainingFor r pass.now) ++ ", past the " ++
      formatDuration pol.drainTimeout ++
      " drain timeout; its stop was never carried out, so the slot is being taken back")
  else if pol.maxRunnerLifetime > 0 ∧ age r pass.now > pol.maxRunnerLifetime ∧ retirable pass r then
    .retire ("runner reached the " ++ formatDuration pol.maxRunnerLifetime ++ " maximum lifetime")
  else if staleImage p r ∧ retirable pass r then
    .retire ("pool image is now " ++ p.image ++ "; this runner was made from " ++ r.image)
  else .keep

def removalOf : Option Action :=
  match reapVerdict pass p r with
  | .remove reason => some (action .remove p r reason)
  | _ => none

def failureOf : Option Action :=
  match reapVerdict pass p r with
  | .fail reason => some (action .fail p r reason)
  | _ => none

def retirementOf : Option Action :=
  match reapVerdict pass p r with
  | .retire reason => some (action .drain p r reason)
  | _ => none

def kept : Bool :=
  match reapVerdict pass p r with
  | .keep => true
  | _ => false

def reap : List Action × List Runner :=
  (runners.filterMap (removalOf pass p) ++ runners.filterMap (failureOf pass p) ++
      runners.filterMap (retirementOf pass p),
    runners.filter (kept pass p))

def disable (plan : PoolPlan) (remaining : List Runner) (live : Int) : PoolPlan :=
  let going := remaining.filter (retirable pass)
  { plan with
    desired := 0
    actions := plan.actions ++ going.map fun r => action .drain p r "pool is disabled"
    reason :=
      if going.isEmpty then plan.reason
      else scaled p.name live (live - going.length) "pool is disabled" }

def compareStarting : Runner → Runner → Ordering :=
  compareLex (compareOn fun r => r.state != .provisioning)
    (compareLex (compareOn fun r => -r.createdAt) (compareOn Runner.id))

def unneededStarting : List Runner :=
  sortStableFunc compareStarting
    (runners.filter fun r => starting r.state && !pass.stillRunning r.id)

def drainable : List Runner :=
  sortStableFunc (compareOn idleSince) (runners.filter fun r =>
    r.state == .idle && decide (idleFor r pass.now ≥ p.idleTimeout) && !pass.stillRunning r.id)

def idleReason : String :=
  if p.idleTimeout > 0 then
    "idle for " ++ formatDuration (idleFor r pass.now) ++ ", over the " ++
      formatDuration p.idleTimeout ++ " idle timeout"
  else "surplus idle runner"

def scaleDown (plan : PoolPlan) (remaining : List Runner) (live : Int) : PoolPlan :=
  -- a warm runner is never surplus, however low the demand
  let surplus := (live - max plan.desired p.minRunners).toNat
  let stopStarting := (unneededStarting pass remaining).take surplus
  -- a runner still starting has done nothing yet, so it goes before an idle one
  let stopIdle := (drainable pass p remaining).take (surplus - stopStarting.length)
  let stopped := stopStarting.length + stopIdle.length
  let why :=
    (if stopStarting.isEmpty then []
      else [plural stopStarting.length "runner" ++ " still starting after demand disappeared"]) ++
    (if stopIdle.isEmpty then []
      else [plural stopIdle.length "runner" ++ " idle" ++
        if p.idleTimeout > 0 then " > " ++ formatDuration p.idleTimeout else ""])
  { plan with
    actions := plan.actions ++ (stopStarting.map fun r =>
        action .drain p r "queued demand disappeared before this runner finished starting") ++
      stopIdle.map fun r => action .drain p r (idleReason pass p r)
    reason :=
      if stopped = 0 then plan.reason else scaled p.name live (live - stopped) (join " and " why) }

structure Admission where
  eligible : Int := 0
  deferred : Int := 0
  repositories : List String := []
  admitted : String → Int := fun _ => 0

def Admission.step (a : Admission) (j : Job) : Admission :=
  if !j.provisionNow && decide (sub pass.now j.queuedAt < (pass.policy.forPool p).scaleUpDelay) then a
  else if p.repositoryScaleUpLimit > 0 ∧
      pass.activeByRepository p.id j.repo + a.admitted j.repo ≥ p.repositoryScaleUpLimit then
    { a with deferred := a.deferred + 1, repositories := a.repositories ++ [j.repo] }
  else
    { a with
      eligible := a.eligible + 1
      admitted := Function.update a.admitted j.repo (a.admitted j.repo + 1) }

def admission (queued : List Job) : Admission :=
  queued.foldl (Admission.step pass p) {}

def countState (s : RunnerState) (runners : List Runner) : Int :=
  (runners.filter fun r => r.state == s).length

def countLive : Int := (runners.filter fun r => r.state.live).length

def decidePool (queued : List Job) : PoolPlan :=
  let (actions, remaining) := reap pass p (sortedRunners runners)
  let live := countLive remaining
  let busy := countState .busy remaining
  let draining := countState .draining remaining
  let plan : PoolPlan :=
    { poolID := p.id
      poolName := p.name
      queuedMatched := queued.length
      actions := actions
      current := live
      supply := live - busy - draining }
  if !p.enabled then disable pass p plan remaining live
  else
    let a := admission pass p queued
    -- the failures are read from every row, those the clean-up just took included
    let (failing, fault) := holdAfterStartFailures pass p runners
    let plan :=
      { plan with
        quotaDeferredJobs := a.deferred
        quotaDeferredRepositories := a.repositories.eraseDups.insertionSort (· ≤ ·)
        -- a busy or draining runner takes no queued job, so it counts beside the demand
        desired := clamp (max p.minRunners (busy + draining + a.eligible)) p.minRunners p.maxRunners
        eligible := a.eligible
        failing := failing
        failingFault := fault
        held := holdWhileRateLimited pass p }
    if plan.desired < live then scaleDown pass p plan remaining live else plan

end Zoomies.Scheduler
