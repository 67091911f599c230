import Zoomies.StoreModels
import Zoomies.SchedulerPlan

/-! How the controller turns a create of the plan into a row and a request to an agent, and what the
backend gives each half of a docker-in-docker runner. -/
namespace Zoomies.Backend
open Zoomies.Store

structure Spec where
  resources : Resources
  resourcesSource : AllocationSource
  cpuTyped : Bool
  memoryTyped : Bool
  daemonSharePercent : Int := 0
  daemonCPUSharePercent : Int := 0
  daemonMemorySharePercent : Int := 0
  dockerMode : DockerMode := .none

def Spec.daemonShares (s : Spec) : Int × Int :=
  (daemonShare s.daemonCPUSharePercent s.daemonSharePercent,
    daemonShare s.daemonMemorySharePercent s.daemonSharePercent)

def pairLimits (s : Spec) : Resources × Resources :=
  -- a slot of a host is split between the two; anything else goes whole to both
  if s.resourcesSource ≠ .host then (s.resources, s.resources)
  else
    let (runner, daemon) :=
      s.resources.splitWithDaemonShares s.daemonShares.1 s.daemonShares.2
    ({ runner with
        cpus := if s.cpuTyped then s.resources.cpus else runner.cpus
        memoryMB := if s.memoryTyped then s.resources.memoryMB else runner.memoryMB },
      { daemon with
        cpus := if s.cpuTyped then s.resources.cpus else daemon.cpus
        memoryMB := if s.memoryTyped then s.resources.memoryMB else daemon.memoryMB })

def Spec.containerCPUs (s : Spec) : ℚ :=
  if s.dockerMode = .dind then (pairLimits s).1.cpus + (pairLimits s).2.cpus else s.resources.cpus

def Spec.containerMemoryMB (s : Spec) : Int :=
  if s.dockerMode = .dind then (pairLimits s).1.memoryMB + (pairLimits s).2.memoryMB
  else s.resources.memoryMB

end Zoomies.Backend

namespace Zoomies.Controller
open Zoomies.Store Zoomies.Scheduler Zoomies.Backend

structure Runners where
  minimumCPUs : ℚ := 0
  minimumMemoryMB : Int := 0
  defaultCPUs : ℚ := 0
  defaultMemoryMB : Int := 0
  smallCPUs : ℚ := 0
  smallMemoryMB : Int := 0
  mediumCPUs : ℚ := 0
  mediumMemoryMB : Int := 0
  largeCPUs : ℚ := 0
  largeMemoryMB : Int := 0

def Runners.classRunnerSize (r : Runners) : SizeClass → RunnerSize
  | .small => ⟨r.smallCPUs, r.smallMemoryMB⟩
  | .medium => ⟨r.mediumCPUs, r.mediumMemoryMB⟩
  | .large => ⟨r.largeCPUs, r.largeMemoryMB⟩

def defaultRunnerCPUs : ℚ := 2

def defaultRunnerMemoryMB : Int := 4096

def Runners.defaultRunnerSize (r : Runners) : RunnerSize where
  cpus := if r.defaultCPUs ≤ 0 then defaultRunnerCPUs else r.defaultCPUs
  memoryMB := if r.defaultMemoryMB ≤ 0 then defaultRunnerMemoryMB else r.defaultMemoryMB

def inheritedMinimum {α : Type} [LinearOrder α] [Zero α] (own typed fleet : α) : α :=
  if own ≤ 0 ∧ fleet > 0 ∧ (typed ≤ 0 ∨ fleet < typed) then fleet else own

def effectiveMinimum (r : Resources) (fleet : Runners) : RunnerSize where
  cpus := inheritedMinimum r.minCPUs r.cpus fleet.minimumCPUs
  memoryMB := inheritedMinimum r.minMemoryMB r.memoryMB fleet.minimumMemoryMB

variable (p : Pool) (fleet : Runners) (defaults : Bool)

def fleetStandard : RunnerSize :=
  match parseAutoKey p.autoKey with
  | some (_, c) =>
    let size := fleet.classRunnerSize c
    if size.cpus > 0 ∨ size.memoryMB > 0 then size else fleet.defaultRunnerSize
  | _ => fleet.defaultRunnerSize

def sizingPool : Pool :=
  let minimum := effectiveMinimum p.resources fleet
  { p with
    resources := { p.resources with minCPUs := minimum.cpus, minMemoryMB := minimum.memoryMB }
    fleetStandard := if p.sizeFromProfile then fleetStandard p fleet else {}
    fleetMinimum :=
      { cpus := if p.resources.minCPUs ≤ 0 ∧ minimum.cpus > 0 then minimum.cpus else 0
        memoryMB :=
          if p.resources.minMemoryMB ≤ 0 ∧ minimum.memoryMB > 0 then minimum.memoryMB else 0 } }

variable (pool : Pool) (h : Host) (a : Action)

def createRunnerSize : Resources × AllocationSource :=
  let (res, source) := allocation (sizingPool pool fleet) h defaults
  let (res, source) : Resources × AllocationSource :=
    match a.size with
    | none => (res, source)
    | some size =>
      ({ res with cpus := size.cpus, memoryMB := size.memoryMB },
        if a.sizedFromHistory then .history else .reduced)
  ({ res with minCPUs := 0, minMemoryMB := 0 }, source)

def createRunner : Runner :=
  let (res, source) := createRunnerSize fleet defaults pool h a
  { hostID := a.hostID
    state := .provisioning
    message := a.reason
    allocatedCPUs := res.cpus
    allocatedMemoryMB := res.memoryMB
    allocationSource := source }

def wireSource (source : AllocationSource) (pool : Pool) : AllocationSource :=
  if source = .profile then .host
  else if (source = .reduced ∨ source = .history) ∧ pool.dockerMode = .dind ∧
      pool.resources.cpus ≤ 0 ∧ pool.resources.memoryMB ≤ 0 then .host
  else source

def finishCreateRunner : Spec :=
  let (res, source) := createRunnerSize fleet defaults pool h a
  { resources := res
    resourcesSource := wireSource source pool
    cpuTyped := decide (pool.resources.cpus > 0)
    memoryTyped := decide (pool.resources.memoryMB > 0)
    daemonSharePercent := pool.resources.daemonSharePercent
    daemonCPUSharePercent := pool.resources.daemonCPUSharePercent
    daemonMemorySharePercent := pool.resources.daemonMemorySharePercent
    dockerMode := pool.dockerMode }

def typedAllocation (r : Runner) (fieldTyped : Bool) : Bool :=
  r.allocationSource == .pool ||
    ((r.allocationSource == .reduced || r.allocationSource == .history) && fieldTyped)

def grantedSize (r : Runner) : ℚ × Int :=
  if p.dockerMode ≠ .dind then (r.allocatedCPUs, r.allocatedMemoryMB)
  else
    (if typedAllocation r (decide (p.resources.cpus > 0)) then r.allocatedCPUs * 2
      else r.allocatedCPUs,
      if typedAllocation r (decide (p.resources.memoryMB > 0)) then r.allocatedMemoryMB * 2
      else r.allocatedMemoryMB)

end Zoomies.Controller
