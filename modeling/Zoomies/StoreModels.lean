import Zoomies.GoFormat

/-! The rows of the store as the scheduler reads them, every field with its zero value, and what is
computed from them. -/
namespace Zoomies.Store
open Zoomies.Go

inductive BackendKind | docker | podman | process
  deriving DecidableEq

def BackendKind.text : BackendKind → String
  | .docker => "docker"
  | .podman => "podman"
  | .process => "process"

inductive PullPolicy | ifNotPresent | always | pinnedOnly
  deriving DecidableEq

inductive DockerMode | none | dind | hostSocket
  deriving DecidableEq

inductive RunnerState
  | provisioning | registering | idle | busy | draining | removed | failed
  deriving DecidableEq

def RunnerState.terminal (s : RunnerState) : Bool := s == .removed || s == .failed

def RunnerState.live (s : RunnerState) : Bool := !s.terminal

inductive JobState | waiting | queued | inProgress | completed
  deriving DecidableEq

inductive Provisioning | unset | paused | deleted
  deriving DecidableEq

inductive SizeClass | small | medium | large
  deriving DecidableEq

def SizeClass.rank : SizeClass → Int
  | .small => 0
  | .medium => 1
  | .large => 2

def SizeClass.text : SizeClass → String
  | .small => "small"
  | .medium => "medium"
  | .large => "large"

inductive AllocationSource | unset | pool | host | reduced | history | profile
  deriving DecidableEq

def sizedByHost (s : AllocationSource) : Bool := s == .host || s == .profile

inductive BurstMode | unset | off | observe | automatic
  deriving DecidableEq

inductive FaultKind
  | unset | hostLost | outOfMemory | outOfDisk | removed | image | registration | backend
  | backendBusy | containerConflict | config | runnerExited
  deriving DecidableEq

structure Platform where
  os : String := ""
  osVersion : String := ""
  arch : String := ""
  deriving DecidableEq

structure RunnerSize where
  cpus : ℚ := 0
  memoryMB : Int := 0
  deriving DecidableEq

structure RunnerStandard where
  cpus : ℚ := 0
  memoryMB : Int := 0
  burstMaxCPUs : ℚ := 0
  burstMaxMemoryMB : Int := 0
  deriving DecidableEq

def RunnerStandard.sized (s : RunnerStandard) : Bool :=
  decide (s.cpus > 0) || decide (s.memoryMB > 0)

structure RunnerProfile where
  minimum : RunnerSize := {}
  standard : RunnerStandard := {}
  deriving DecidableEq

structure Resources where
  cpus : ℚ := 0
  memoryMB : Int := 0
  diskGB : Int := 0
  pidsLimit : Int := 0
  minCPUs : ℚ := 0
  minMemoryMB : Int := 0
  daemonSharePercent : Int := 0
  daemonCPUSharePercent : Int := 0
  daemonMemorySharePercent : Int := 0
  deriving DecidableEq

structure RunnerSettings where
  provisionTimeout : Option Duration := none
  drainTimeout : Option Duration := none
  maxRunnerLifetime : Option Duration := none
  scaleUpDelay : Option Duration := none

structure Pool where
  id : String := ""
  name : String := ""
  installationID : String := ""
  labels : List String := []
  noDefaultLabels : Bool := false
  runnerGroup : String := ""
  backend : BackendKind := .docker
  platform : Platform := {}
  image : String := ""
  pullPolicy : PullPolicy := .ifNotPresent
  minRunners : Int := 0
  maxRunners : Int := 0
  repositoryScaleUpLimit : Int := 0
  priority : Int := 0
  idleTimeout : Duration := 0
  ephemeral : Bool := false
  dockerMode : DockerMode := .none
  resources : Resources := {}
  cpuBurst : BurstMode := .unset
  memoryBurst : BurstMode := .unset
  cacheScope : String := ""
  sizeFromProfile : Bool := false
  autoKey : String := ""
  autoMin : Int := 0
  autoCap : Int := 0
  autoPaused : Bool := false
  fleetStandard : RunnerSize := {}
  fleetMinimum : RunnerSize := {}
  runnerSettings : RunnerSettings := {}
  hostSelector : List (String × String) := []
  providerSelector : List (String × String) := []
  enabled : Bool := false

structure LimitSupport where
  known : Bool := false
  cpu : Bool := false
  memory : Bool := false
  pids : Bool := false

structure HostBackend where
  kind : BackendKind
  available : Bool := false
  supportsDinD : Bool := false
  cpus : Int := 0
  memoryMB : Int := 0
  limits : LimitSupport := {}
  detail : String := ""

structure HostUsage where
  cpuPercent : Option ℚ := none
  memoryAvailableMB : Option Int := none
  loadAverage1 : Option ℚ := none
  sampledAt : Time := 0
  cpuHighSince : Option Time := none
  cpuHeld : Bool := false
  lentCPUPercent : ℚ := 0

structure HostThrottle where
  level : Int := 0
  reason : String := ""

structure Host where
  id : String := ""
  name : String := ""
  retired : Bool := false
  embedded : Bool := false
  capacity : Int := 0
  backends : List String := []
  backendInfo : List HostBackend := []
  labels : List (String × String) := []
  os : String := ""
  distro : String := ""
  osVersion : String := ""
  arch : String := ""
  cpus : Int := 0
  memoryMB : Int := 0
  cpuMHz : Int := 0
  memoryMTs : Int := 0
  diskKind : String := ""
  usage : HostUsage := {}
  throttle : HostThrottle := {}
  diskTotalMB : Int := 0
  diskFreeMB : Int := 0
  reserveCPUs : Int := 0
  reserveMemoryMB : Int := 0
  reserveDiskMB : Int := 0
  runnerProfile : RunnerProfile := {}
  priorityOverride : Option Int := none
  sizeClass : Option SizeClass := none
  cordoned : Bool := false
  incompatible : Bool := false
  lastHeartbeat : Time := 0
  activeRunners : Int := 0
  unlimitedRunners : Int := 0

structure Runner where
  id : String := ""
  hostID : String := ""
  state : RunnerState := .provisioning
  image : String := ""
  currentJobID : String := ""
  createdAt : Time := 0
  containerStartedAt : Option Time := none
  registeredAt : Option Time := none
  drainingSince : Option Time := none
  lastIdleAt : Option Time := none
  finishedAt : Option Time := none
  message : String := ""
  allocatedCPUs : ℚ := 0
  allocatedMemoryMB : Int := 0
  allocationSource : AllocationSource := .unset
  lentMemoryMB : Int := 0
  faultKind : FaultKind := .unset

structure Job where
  id : String := ""
  provisioning : Provisioning := .unset
  provisionNow : Bool := false
  repo : String := ""
  workflow : String := ""
  jobName : String := ""
  labels : List String := []
  state : JobState := .queued
  installationID : String := ""
  runnerID : String := ""
  queuedAt : Time := 0
  routedClass : Option SizeClass := none

structure Installation where
  id : String := ""
  target : String := ""

end Zoomies.Store

namespace Zoomies.Naming
open Zoomies.Go

def archAMD64 : String := "amd64"

def archARM64 : String := "arm64"

def osAliases : List (String × String) :=
  [("darwin", "macos"), ("macos", "macos"), ("mac", "macos"), ("osx", "macos"),
    ("ubuntu", "ubuntu"), ("debian", "debian"), ("raspbian", "debian"),
    ("alpine", "alpine"), ("fedora", "fedora"),
    ("rocky", "rocky"), ("rockylinux", "rocky"), ("almalinux", "rocky"),
    ("rhel", "rocky"), ("centos", "rocky"), ("windows", "windows")]

def knownOS : List String :=
  ["ubuntu", "debian", "alpine", "fedora", "rocky", "macos", "windows"]

def prettyOSNames : List (String × String) :=
  [("ubuntu", "Ubuntu"), ("debian", "Debian"), ("alpine", "Alpine"), ("fedora", "Fedora"),
    ("rocky", "Rocky Linux"), ("macos", "macOS"), ("windows", "Windows")]

def normalizeOS (s : String) : String :=
  let v := toLower (trimSpace s)
  match osAliases.lookup v with
  | some word => word
  | none => if v ∈ knownOS then v else ""

def prettyOS (s : String) : String := (prettyOSNames.lookup (normalizeOS s)).getD ""

def normalizeArch (s : String) : String :=
  let v := toLower (trimSpace s)
  if v ∈ [archAMD64, "x64", "x86_64", "amd"] then archAMD64
  else if v ∈ [archARM64, "aarch64", "arm"] then archARM64
  else ""

def versionFields (cs : List Char) : List (List Char) :=
  (cs.splitOnP fun c => c == '.' || c == '_').filter fun part => !part.isEmpty

def compactVersion (v : String) : String :=
  String.ofList (((versionFields (trimSpace v).toList).take 2).flatten.filter fun c =>
    decide ('0' ≤ c) && decide (c ≤ '9'))

def describePlatform (os version arch : String) : String :=
  let named := prettyOS os
  let system :=
    if named = "" then []
    else if trimSpace version = "" then [named] else [named ++ " " ++ trimSpace version]
  let machine := if normalizeArch arch = "" then [] else [normalizeArch arch]
  join ", " (system ++ machine)

def forSentence (s : String) : String :=
  String.ofList (s.toList.map fun c =>
    if c.val = 96 then Char.ofNat 39
    else if c.val < 32 || (127 ≤ c.val && c.val < 160) then ' ' else c)

end Zoomies.Naming

namespace Zoomies.Store
open Zoomies.Go Zoomies.Naming

def defaultDaemonSharePercent : Int := 50

def minDaemonSharePercent : Int := 10

def maxDaemonSharePercent : Int := 90

def daemonShare (specific general : Int) : Int :=
  if specific > 0 then specific
  else if general > 0 then general
  else defaultDaemonSharePercent

variable (h : Host) (r : Resources) (p : Platform)

def Resources.daemonCPUPercent : Int :=
  daemonShare r.daemonCPUSharePercent r.daemonSharePercent

def Resources.daemonMemoryPercent : Int :=
  daemonShare r.daemonMemorySharePercent r.daemonSharePercent

def pairFactor (daemonPercent : Int) : ℚ := 100 / (min daemonPercent (100 - daemonPercent) : Int)

def Resources.cpuPairFactor : ℚ := pairFactor r.daemonCPUPercent

def Resources.memoryPairFactor : ℚ := pairFactor r.daemonMemoryPercent

def Resources.reducible : Bool :=
  (decide (r.minCPUs > 0) && (decide (r.cpus ≤ 0) || decide (r.minCPUs < r.cpus))) ||
    (decide (r.minMemoryMB > 0) && (decide (r.memoryMB ≤ 0) || decide (r.minMemoryMB < r.memoryMB)))

def clampShare (percent : Int) : Int :=
  if percent < minDaemonSharePercent || percent > maxDaemonSharePercent then
    defaultDaemonSharePercent
  else percent

def Resources.splitWithDaemonShares (cpuPercent memoryPercent : Int) : Resources × Resources :=
  let cpuPercent := clampShare cpuPercent
  let memoryPercent := clampShare memoryPercent
  let (runnerCPUs, daemonCPUs) : ℚ × ℚ :=
    if r.cpus > 0 then
      if cpuPercent = defaultDaemonSharePercent then (r.cpus / 2, r.cpus - r.cpus / 2)
      else (r.cpus - r.cpus * cpuPercent / 100, r.cpus * cpuPercent / 100)
    else (r.cpus, r.cpus)
  let (runnerMB, daemonMB) : Int × Int :=
    if r.memoryMB > 0 then
      if memoryPercent = defaultDaemonSharePercent then
        (r.memoryMB.tdiv 2, r.memoryMB - r.memoryMB.tdiv 2)
      else
        (r.memoryMB - (r.memoryMB * memoryPercent).tdiv 100, (r.memoryMB * memoryPercent).tdiv 100)
    else (r.memoryMB, r.memoryMB)
  ({ r with cpus := runnerCPUs, memoryMB := runnerMB },
    { r with cpus := daemonCPUs, memoryMB := daemonMB })

def Platform.normalized : Platform where
  os := normalizeOS p.os
  osVersion := trimSpace p.osVersion
  arch := normalizeArch p.arch

def Platform.matches (h : Platform) : Bool :=
  let p := p.normalized
  let h := h.normalized
  !(p.os != "" && h.os != "" && p.os != h.os) &&
  !(p.arch != "" && h.arch != "" && p.arch != h.arch) && !(p.osVersion != "" && h.osVersion != "" &&
    compactVersion p.osVersion != compactVersion h.osVersion)

def Platform.describe : String := describePlatform p.os p.osVersion p.arch

def Host.platform : Platform :=
  ({ os := if normalizeOS h.distro = "" then h.os else h.distro
     osVersion := h.osVersion
     arch := h.arch } : Platform).normalized

def heartbeatTimeout : Duration := 90 * second

def Host.healthy (now : Time) : Bool :=
  !h.retired && decide (sub now h.lastHeartbeat < heartbeatTimeout)

def hostUsageMaxAge : Duration := 90 * second

def HostUsage.fresh (u : HostUsage) (now : Time) : Bool :=
  u.sampledAt != 0 && !decide (now < u.sampledAt) && decide (sub now u.sampledAt < hostUsageMaxAge)

def HostUsage.unlentCPUPercent (u : HostUsage) : Option ℚ :=
  u.cpuPercent.map fun v => max (v - max u.lentCPUPercent 0) 0

def maxThrottleLevel : Int := 3

def HostThrottle.active (t : HostThrottle) : Bool := decide (t.level > 0)

def HostThrottle.factor (t : HostThrottle) : ℚ :=
  1 - 1 / 4 * (min (max t.level 0) maxThrottleLevel : Int)

def minHostReserveMemoryMB : Int := 512

def maxHostReserveMemoryMB : Int := 8192

def minHostReserveDiskMB : Int := 2048

def minHostReserveCPUs : ℚ := 1 / 2

def controllerReserveCPUs : ℚ := 1

def controllerReserveMemoryMB : Int := 1024

def minRunnerCPUs : ℚ := 1 / 4

def minRunnerMemoryMB : Int := 512

def Host.memoryReserve : Int :=
  if h.memoryMB ≤ 0 then 0
  else
    let floor := min (max minHostReserveMemoryMB (truncate (1 / 20 * h.memoryMB)))
      maxHostReserveMemoryMB
    max h.reserveMemoryMB (if h.embedded then floor + controllerReserveMemoryMB else floor)

def Host.cpuReserve : ℚ :=
  if h.cpus ≤ 0 then 0
  else
    let floor := max minHostReserveCPUs (1 / 20 * h.cpus)
    max (h.reserveCPUs : ℚ) (if h.embedded then floor + controllerReserveCPUs else floor)

structure HostAllocation where
  cpus : ℚ := 0
  memoryMB : Int := 0
  diskMB : Int := 0
  cpusKnown : Bool := false
  memoryKnown : Bool := false
  diskKnown : Bool := false

def Host.allocatable : HostAllocation where
  cpusKnown := decide (h.cpus > 0)
  memoryKnown := decide (h.memoryMB > 0)
  diskKnown := decide (h.diskTotalMB > 0)
  cpus := if h.cpus > 0 then max ((h.cpus : ℚ) - h.cpuReserve) 0 else 0
  memoryMB := if h.memoryMB > 0 then max (h.memoryMB - h.memoryReserve) 0 else 0
  diskMB :=
    if h.diskTotalMB > 0 then max (h.diskFreeMB - max h.reserveDiskMB minHostReserveDiskMB) 0
    else 0

def slotEpsilon : ℚ := 1 / 1000000

def Host.slots (h : Host) : Int :=
  let std := h.runnerProfile.standard
  if h.capacity ≤ 0 || !std.sized then h.capacity
  else
    let alloc := h.allocatable
    let byCPU := decide (std.cpus > 0) && alloc.cpusKnown
    let byMemory := decide (std.memoryMB > 0) && alloc.memoryKnown
    let slots := if byCPU then min h.capacity (truncate ((alloc.cpus + slotEpsilon) / std.cpus))
      else h.capacity
    let slots := if byMemory then min slots (alloc.memoryMB.tdiv std.memoryMB) else slots
    if byCPU || byMemory then max slots 0 else h.capacity

def Host.effectiveCapacity : Int :=
  if h.slots ≤ 0 || !h.throttle.active then h.slots
  else max 1 ⌊(h.slots : ℚ) * h.throttle.factor⌋

def Host.free : Int :=
  if h.retired then 0 else max (h.effectiveCapacity - h.activeRunners) 0

def labelOS : String := "os"

def labelArch : String := "arch"

def labelSize : String := "size"

def classText (c : Option SizeClass) : String := (c.map SizeClass.text).getD ""

def Host.selectorValue (key : String) : String :=
  match h.labels.lookup key with
  | some v => v
  | none =>
    if key = labelOS then h.os
    else if key = labelArch then h.arch
    else if key = labelSize then classText h.sizeClass
    else ""

def Pool.fromHosts (p : Pool) : Bool := p.autoKey != ""

def Pool.automatic (p : Pool) : Bool :=
  decide (p.resources.cpus ≤ 0) && decide (p.resources.memoryMB ≤ 0)

end Zoomies.Store
