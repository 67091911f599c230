import Zoomies.SchedulerHostSet
import Zoomies.SchedulerLabels

/-! What the jobs waiting on a pool are known to need from their recent runs. -/
namespace Zoomies.Scheduler
open Zoomies.Go Zoomies.Store

inductive HistorySizing | off | shadow | on
  deriving DecidableEq

structure JobUsageKey where
  repo : String
  workflow : String
  jobName : String
  poolID : String

structure JobPeak where
  cpus : ℚ := 0
  memoryMB : Int := 0
  oomKilled : Bool := false
  grantedMemoryMB : Int := 0

def profilePercentile : ℚ := 9 / 10

def profileMemoryMargin : ℚ := 6 / 5

def profileOOMGrowth : ℚ := 3 / 2

def profileMemoryStep : Int := 64

def clamp (v lo hi : Int) : Int := if hi < lo then hi else min (max v lo) hi

def percentileIndex (n : Nat) : Nat := (clamp (⌈profilePercentile * n⌉ - 1) 0 (n - 1)).toNat

def roundedUp (m : Int) : Int := ⌈(m : ℚ) / profileMemoryStep⌉ * profileMemoryStep

def memoryOf (peak : JobPeak) : Int :=
  let m := if peak.oomKilled then max peak.memoryMB peak.grantedMemoryMB else peak.memoryMB
  if peak.oomKilled && decide (m > 0) then ⌈(m : ℚ) * profileOOMGrowth⌉ else m

def profile (peaks : List JobPeak) : Requirement :=
  let cpus := ((peaks.map JobPeak.cpus).filter fun c => decide (c > 0)).insertionSort (· ≤ ·)
  let mem := ((peaks.map memoryOf).filter fun m => decide (m > 0)).insertionSort (· ≤ ·)
  { cpus := (cpus[percentileIndex cpus.length]?).elim 0 fun c => (⌈c * 100⌉ : ℚ) / 100
    memoryMB := (mem[percentileIndex mem.length]?).elim 0 fun m =>
      roundedUp ⌈(m : ℚ) * profileMemoryMargin⌉
    samples := peaks.length
    oomKilled := (peaks.filter fun peak => peak.oomKilled).length }

def killedNeed (peaks : List JobPeak) : Int :=
  peaks.foldl (fun need peak =>
    let limit := max peak.memoryMB peak.grantedMemoryMB
    if !peak.oomKilled || decide (limit ≤ 0) then need
    else max need (roundedUp ⌈(limit : ℚ) * profileOOMGrowth * profileMemoryMargin⌉)) 0

def requirementFor (history : JobUsageKey → List JobPeak) (p : Pool) (j : Job) : Requirement :=
  let peaks := history ⟨j.repo, j.workflow, j.jobName, p.id⟩
  let r := profile peaks
  if !r.known then {}
  else
    let memoryMB := max r.memoryMB (killedNeed peaks)
    { r with
      cpus := if r.cpus > 0 then max r.cpus p.resources.minCPUs else r.cpus
      memoryMB := if memoryMB > 0 then max memoryMB p.resources.minMemoryMB else memoryMB }

def HostSet.anyCouldHold (hs : HostSet) (p : Pool) (r : Requirement) : Bool :=
  hs.hosts.any fun h =>
    hostCouldRun h p &&
    !((hs.alloc h.id).cpusKnown && decide ((hs.alloc h.id).cpus + cpuEpsilon < r.cpus)) &&
    !((hs.alloc h.id).memoryKnown && decide ((hs.alloc h.id).memoryMB < r.memoryMB))

def heavier (unfit r : Requirement) : Requirement :=
  if r.memoryMB > unfit.memoryMB ∨ (r.memoryMB = unfit.memoryMB ∧ r.cpus > unfit.cpus) then r
  else unfit

def compareNeeds : Requirement → Requirement → Ordering :=
  compareLex (compareOn fun r => -r.memoryMB) (compareOn fun r => -r.cpus)

def combinedNeed (fitting : List Requirement) : Requirement :=
  fitting.foldl (fun need r =>
    { cpus := max need.cpus r.cpus
      memoryMB := max need.memoryMB r.memoryMB
      samples := need.samples + r.samples
      oomKilled := need.oomKilled + r.oomKilled }) {}

def HostSet.poolNeed (hs : HostSet) (history : JobUsageKey → List JobPeak) (p : Pool)
    (queued : List Job) : Requirement × String :=
  let known := (queued.map (requirementFor history p)).filter Requirement.known
  let fitting := known.filter (hs.anyCouldHold p)
  let unfit := (known.filter fun r => !hs.anyCouldHold p r).foldl heavier {}
  let note :=
    if unfit.known then
      "jobs waiting on pool " ++ p.name ++ " are known to need " ++ unfit.text ++
        ", and no host that can run the pool has that much to give"
    else ""
  if fitting.isEmpty then ({}, note)
  else if hs.anyCouldHold p (combinedNeed fitting) then (combinedNeed fitting, note)
  else (((sortStableFunc compareNeeds fitting).head?).getD {}, note)

def HostSet.heldOff (hs : HostSet) (p : Pool) (r : Requirement) : List (String × String) :=
  (hs.hosts.filter fun h => hs.eligibleAsSized h p).filterMap fun h =>
    (hs.shortOf h p r).map fun s => (h.id, s)

def HostSet.sortedPhrases (hs : HostSet) (m : List (String × String)) : String :=
  join "; " (hs.hosts.filterMap fun h => m.lookup h.id)

structure Policy where
  scaleUpDelay : Duration := 0
  maxRunnerLifetime : Duration := 0
  provisionTimeout : Duration := 0
  drainTimeout : Duration := 0
  maxCreatesPerTick : Int := 0
  maxRunners : Int := 0
  interval : Duration := 0

def Policy.forPool (p : Policy) (pool : Pool) : Policy :=
  { p with
    scaleUpDelay := pool.runnerSettings.scaleUpDelay.getD p.scaleUpDelay
    maxRunnerLifetime := pool.runnerSettings.maxRunnerLifetime.getD p.maxRunnerLifetime
    provisionTimeout := pool.runnerSettings.provisionTimeout.getD p.provisionTimeout
    drainTimeout := pool.runnerSettings.drainTimeout.getD p.drainTimeout }

structure DistinctIDs (pools : List Pool) (hosts : List Host) (runners : RunnerTable)
    (jobs : List Job) (installations : List Installation) : Prop where
  poolIDs : (pools.map Pool.id).Nodup
  hostIDs : (hosts.map Host.id).Nodup
  tableIDs : (runners.map Prod.fst).Nodup
  runnerIDs : ((runners.flatMap Prod.snd).map Runner.id).Nodup
  runnersNamed : ∀ r ∈ runners.flatMap Prod.snd, r.id ≠ ""
  jobIDs : (jobs.map Job.id).Nodup
  installationIDs : (installations.map Installation.id).Nodup

structure Snapshot where
  readiness : String → String → Duration := fun _ _ => 0
  preferReadiness : Bool := false
  now : Time
  lastProvisioned : String → Time := fun _ => 0
  pools : List Pool := []
  runners : RunnerTable := []
  jobs : List Job := []
  runnersWithAJob : String → Bool := fun _ => false
  activeByRepository : String → String → Int := fun _ _ => 0
  hosts : List Host := []
  installations : List Installation := []
  policy : Policy := {}
  jitter : String → ℚ := fun _ => 0
  heldInstallations : String → Option Time := fun _ => none
  jobHistory : JobUsageKey → List JobPeak := fun _ => []
  historySizing : HistorySizing := .off
  hostOrder : HostOrder := .headroom
  distinct : DistinctIDs pools hosts runners jobs installations

inductive ActionKind | create | drain | remove | fail
  deriving DecidableEq

structure Action where
  kind : ActionKind
  poolID : String
  poolName : String
  runnerID : String := ""
  hostID : String := ""
  reason : String := ""
  /-- Absent for a runner at its pool's standard size. -/
  size : Option Resources := none
  sizedFromHistory : Bool := false
  deriving DecidableEq

def creates (actions : List Action) : Int := (actions.filter fun a => a.kind == .create).length

structure PoolPlan where
  poolID : String := ""
  poolName : String := ""
  /-- The live runners the pass leaves the pool, those it retires not counted. -/
  current : Int := 0
  desired : Int := 0
  queuedMatched : Int := 0
  quotaDeferredJobs : Int := 0
  quotaDeferredRepositories : List String := []
  eligible : Int := 0
  supply : Int := 0
  unserved : Int := 0
  reason : String := ""
  blocked : String := ""
  blockedFix : String := ""
  blockedAtCapacity : Bool := false
  blockedNoEligibleHost : Bool := false
  blockedAlternatives : List String := []
  failing : String := ""
  failingFault : FaultKind := .unset
  held : String := ""
  history : String := ""
  historyUnfit : String := ""
  actions : List Action := []

structure Plan where
  pools : List PoolPlan
  actions : List Action
  unmatched : List UnmatchedJob

def sortedPools (pools : List Pool) : List Pool :=
  sortStableFunc (compareLex (compareOn Pool.name) (compareOn Pool.id)) pools

def sortedRunners (runners : List Runner) : List Runner :=
  sortStableFunc (compareLex (compareOn Runner.createdAt) (compareOn Runner.id)) runners

def runnersWithAJob (s : Snapshot) (id : String) : Bool :=
  s.runnersWithAJob id ||
    s.jobs.any fun j => j.state == .inProgress && j.runnerID != "" && j.runnerID == id

end Zoomies.Scheduler
