import Zoomies.SchedulerResources
import Zoomies.BestChoice
import Zoomies.SortFunc

/-! Which hosts may take a runner of a pool, the room on each while a plan is built, and the choice of
one. -/
namespace Zoomies.Scheduler
open Zoomies.Go Zoomies.Store Zoomies.Naming

section
variable (h : Host) (p : Pool) (now : Time)

def hostAdmissionReason : String :=
  if !h.usage.fresh now then ""
  else if h.usage.cpuHeld then
    "new starts held after sustained CPU pressure; they resume when CPU usage falls below 85%"
  else if (h.usage.memoryAvailableMB.map fun v => decide (v ≤ h.memoryReserve)).getD false then
    "new starts held because available memory is at or below the host reserve"
  else ""

def hostUnderCPUPressure : Bool :=
  h.usage.fresh now && (h.usage.unlentCPUPercent.map fun v => decide (v ≥ 85)).getD false

def hostPresent : Bool :=
  h.healthy now && !h.cordoned && !h.incompatible

def hostAvailable : Bool :=
  hostPresent h now && decide (hostAdmissionReason h now = "")

def hostOffers : Bool := h.backends.contains p.backend.text

def hostIsPlatform : Bool := p.platform.matches h.platform

def hostSelects : Bool :=
  p.hostSelector.all fun kv => h.selectorValue kv.1 == kv.2

def hostCouldRun : Bool :=
  hostOffers h p && hostIsPlatform h p && hostSelects h p && hostFits h p

def hostCanRun : Bool := hostAvailable h now && hostCouldRun h p

structure HostPriorityAxis where
  share : ℚ
  full : ℚ
  value : Host → ℚ
  known : Host → Bool

def specDiskSpeed : ℚ := if h.diskKind = "ssd" then 1 else 0

def hostPriorityAxes : List HostPriorityAxis :=
  [⟨30, 64, fun h => h.cpus, fun h => decide (h.cpus > 0)⟩,
    ⟨20, 4000, fun h => h.cpuMHz, fun h => decide (h.cpuMHz > 0)⟩,
    ⟨25, 256 * 1024, fun h => h.memoryMB, fun h => decide (h.memoryMB > 0)⟩,
    ⟨5, 6400, fun h => h.memoryMTs, fun h => decide (h.memoryMTs > 0)⟩,
    ⟨10, 2 * 1024 * 1024, fun h => h.diskTotalMB, fun h => decide (h.diskTotalMB > 0)⟩,
    ⟨10, 1, specDiskSpeed, fun h => h.diskKind != ""⟩]

def roundHalfAway (q : ℚ) : Int := if 0 ≤ q then ⌊q + 1 / 2⌋ else -⌊-q + 1 / 2⌋

def hostSpecPriority : Int :=
  let axes := hostPriorityAxes.filter fun a => a.known h
  let weight := (axes.map fun a => a.share).sum
  let value := (axes.map fun a => a.share * min (a.value h / a.full) 1).sum
  if weight = 0 then 0 else roundHalfAway (value / weight * 100)

def hostPriority : Int := h.priorityOverride.getD (hostSpecPriority h)

instance : Zero Reservation := ⟨{}⟩

instance : Add Reservation :=
  ⟨fun a b => ⟨a.cpus + b.cpus, a.memoryMB + b.memoryMB, a.diskMB + b.diskMB⟩⟩

instance : Sub Reservation :=
  ⟨fun a b => ⟨a.cpus - b.cpus, a.memoryMB - b.memoryMB, a.diskMB - b.diskMB⟩⟩

def starting (s : RunnerState) : Bool := s == .provisioning || s == .registering

structure HostTotals where
  /-- A live runner of any pool is on the host, also of a pool nobody lists any more. -/
  ours : Bool := false
  warming : Int := 0
  warmingDinD : Int := 0
  reserved : Reservation := {}
  /-- What the host's last sample cannot contain yet. -/
  pending : Reservation := {}

variable (h : Host) (r : Runner) (pools : List Pool) (runners : RunnerTable)

def unsampled : Bool :=
  starting r.state || decide (r.createdAt > h.usage.sampledAt) ||
    (r.containerStartedAt.map fun t => decide (t > h.usage.sampledAt)).getD false

def HostTotals.add (t : HostTotals) (p : Pool) (h : Host) (r : Runner) : HostTotals :=
  let res := runnerCharge p h r
  { t with
    reserved := t.reserved + res
    warming := if starting r.state then t.warming + 1 else t.warming
    warmingDinD :=
      if starting r.state ∧ p.dockerMode = .dind then t.warmingDinD + 1 else t.warmingDinD
    pending := if unsampled h r then t.pending + { res with diskMB := 0 } else t.pending }

abbrev RunnerTable := List (String × List Runner)

def runnersOf (poolID : String) : List Runner :=
  (runners.lookup poolID).getD []

def liveOn : Bool := r.state.live && r.hostID == h.id

def chargedOn : List (Pool × Runner) :=
  pools.flatMap fun p => ((runnersOf runners p.id).filter (liveOn h)).map fun r => (p, r)

def totalsByHost (h : Host) : HostTotals :=
  (chargedOn h pools runners).foldl (fun t pr => t.add pr.1 h pr.2)
    { ours := runners.any fun entry => entry.2.any (liveOn h) }

def reserved (h : Host) (pools : List Pool) (runners : RunnerTable) : Reservation :=
  (totalsByHost pools runners h).reserved

def hostLimits (kind : BackendKind) : LimitSupport :=
  match h.backendInfo.find? fun b => b.kind == kind with
  | some info => if info.limits.known then info.limits else {}
  | none => {}

def hostSource (fromProfile : Bool) (current : AllocationSource) : AllocationSource :=
  if fromProfile || current == .profile then .profile else .host

def defaultCPUs : ℚ :=
  let given := max (slotSize p h).cpus (minimumSlot p).cpus
  let cores : Int := ((h.backendInfo.find? fun b => b.kind == p.backend).map HostBackend.cpus).getD 0
  if cores > 0 ∧ given > cores then cores else given

def defaultMemoryMB : Int :=
  max (slotSize p h).memoryMB (minimumSlot p).memoryMB

def allocation (defaults : Bool) : Resources × AllocationSource :=
  let res := p.resources
  let source : AllocationSource := if res.cpus > 0 ∨ res.memoryMB > 0 then .pool else .unset
  if !defaults ∨ p.backend = .process then (res, source)
  else
    let p := sizedOn p h
    let limits := hostLimits h p.backend
    let alloc := h.allocatable
    let std := standardSize p h
    let byCPU : Bool := decide (res.cpus ≤ 0) && alloc.cpusKnown && limits.cpu &&
      decide (max (slotSize p h).cpus (minimumSlot p).cpus > 0)
    let byMemory : Bool := decide (res.memoryMB ≤ 0) && alloc.memoryKnown && limits.memory &&
      decide (defaultMemoryMB p h > 0)
    let source := if byCPU then hostSource (decide (std.cpus > 0)) source else source
    let source := if byMemory then hostSource (decide (std.memoryMB > 0)) source else source
    ({ res with
        cpus := if byCPU then defaultCPUs p h else res.cpus
        memoryMB := if byMemory then defaultMemoryMB p h else res.memoryMB }, source)

def launchedMemoryMB : Option Int :=
  if r.allocatedMemoryMB ≤ 0 then none
  else if p.dockerMode = .dind ∧ (r.allocationSource = .pool ∨
      ((r.allocationSource = .reduced ∨ r.allocationSource = .history) ∧
        p.resources.memoryMB > 0)) then
    some (r.allocatedMemoryMB * 2)
  else some r.allocatedMemoryMB

end

structure Requirement where
  cpus : ℚ := 0
  memoryMB : Int := 0
  samples : Int := 0
  oomKilled : Int := 0

def Requirement.known (r : Requirement) : Bool := decide (r.cpus > 0) || decide (r.memoryMB > 0)

def Requirement.text (r : Requirement) : String :=
  join " and " ((if r.memoryMB > 0 then ["~" ++ formatMB r.memoryMB] else []) ++
    (if r.cpus > 0 then ["~" ++ formatCPUs r.cpus ++ " CPU"] else []))

inductive HostOrder | headroom | largestStandard | bestFit
  deriving DecidableEq

structure HostSet where
  readiness : String → String → Duration
  preferReadiness : Bool
  hosts : List Host
  free : String → Int
  observedCPU : String → Option ℚ
  warming : String → Int
  warmingDinD : String → Int
  /-- The room still unpromised, the tighter of reservations and measurements. -/
  left : String → Reservation
  alloc : String → HostAllocation
  /-- The memory still unpromised by reservations alone. -/
  promisedMemory : String → Int
  /-- Whether a runner of ours is on the host, or was placed there in this pass. -/
  ours : String → Bool
  now : Time
  order : HostOrder
  need : Option Requirement

def sortedHosts (hosts : List Host) : List Host := sortStableFunc (compareOn Host.id) hosts

def byHost {α : Type} (hosts : List Host) (value : Host → α) (absent : α) (id : String) : α :=
  ((hosts.find? fun h => h.id == id).map value).getD absent

variable (h : Host) (t : HostTotals)

def unreserved : Reservation where
  cpus := h.allocatable.cpus - t.reserved.cpus
  memoryMB := h.allocatable.memoryMB - t.reserved.memoryMB
  diskMB :=
    if h.allocatable.diskKnown then h.allocatable.diskMB - t.reserved.diskMB
    else h.allocatable.diskMB

def initialLeft (now : Time) : Reservation :=
  let l := unreserved h t
  if h.usage.fresh now then
    match h.usage.memoryAvailableMB with
    | some v => { l with memoryMB := min l.memoryMB (max (v - t.pending.memoryMB) 0) }
    | none => l
  else l

def initialObservedCPU (now : Time) : Option ℚ :=
  if h.usage.fresh now then
    h.usage.unlentCPUPercent.map fun v =>
      max ((h.cpus : ℚ) * (1 - v / 100) - h.cpuReserve - t.pending.cpus) 0
  else none

def newHostSet (hosts : List Host) (pools : List Pool) (runners : RunnerTable) (now : Time) :
    HostSet :=
  let hosts := sortedHosts hosts
  let totals := totalsByHost pools runners
  { readiness := fun _ _ => 0
    preferReadiness := false
    hosts := hosts
    free := byHost hosts Host.free 0
    observedCPU := byHost hosts (fun h => initialObservedCPU h (totals h) now) none
    warming := byHost hosts (fun h => (totals h).warming) 0
    warmingDinD := byHost hosts (fun h => (totals h).warmingDinD) 0
    left := byHost hosts (fun h => initialLeft h (totals h) now) {}
    alloc := byHost hosts Host.allocatable {}
    promisedMemory := byHost hosts (fun h => (unreserved h (totals h)).memoryMB) 0
    ours := byHost hosts (fun h => (totals h).ours) false
    now := now
    order := .headroom
    need := none }

namespace HostSet

variable (hs : HostSet) (h : Host) (p : Pool)

def memoryLeft : Int :=
  if p.resources.memoryMB ≤ 0 ∧ !hs.ours h.id then hs.promisedMemory h.id
  else (hs.left h.id).memoryMB

def leftFor : Reservation :=
  { hs.left h.id with memoryMB := hs.memoryLeft h p }

def hasRoom : Bool :=
  fits (hs.leftFor h p) (reserve p h) (hs.alloc h.id)

def admits : Bool :=
  decide (hs.free h.id > 0) && hostCanRun h p hs.now &&
    !(hostUnderCPUPressure h hs.now && decide (hs.warming h.id > 0))

def eligibleAsSized : Bool := hs.admits h p && hs.hasRoom h p

def hostName : String := if h.name = "" then h.id else forSentence h.name

def shortOf (r : Requirement) : Option String :=
  let left := hs.leftFor h p
  let a := hs.alloc h.id
  if a.memoryKnown ∧ r.memoryMB > 0 ∧ left.memoryMB < r.memoryMB then
    some ("held off " ++ hostName h ++ ": jobs waiting need ~" ++ formatMB r.memoryMB ++
      ", it has " ++ formatMB (max left.memoryMB 0))
  else if a.cpusKnown ∧ r.cpus > 0 ∧ left.cpus + cpuEpsilon < r.cpus then
    some ("held off " ++ hostName h ++ ": jobs waiting need ~" ++ formatCPUs r.cpus ++
      " CPU, it has " ++ formatCPUs (max left.cpus 0))
  else none

def meetsNeed : Bool :=
  match hs.need with
  | none => true
  | some r => (hs.shortOf h p r).isNone

def eligible : Bool :=
  hs.eligibleAsSized h p && hs.meetsNeed h p

def score : ℚ :=
  if h.slots ≤ 0 then -1
  else
    let want := reserve p h
    let left := hs.left h.id
    let alloc := hs.alloc h.id
    let byCPU := alloc.cpusKnown && decide (alloc.cpus > 0)
    let byMemory := alloc.memoryKnown && decide (alloc.memoryMB > 0)
    -- a measured load counts where it leaves less than the reservations do
    let cpu := (hs.observedCPU h.id).elim left.cpus (min left.cpus)
    let total : ℚ := (if byCPU then max (cpu - want.cpus) 0 / alloc.cpus else 0) +
      (if byMemory then (max (left.memoryMB - want.memoryMB) 0 : Int) / alloc.memoryMB else 0)
    let dimensions : ℚ := (if byCPU then 1 else 0) + (if byMemory then 1 else 0)
    if dimensions > 0 then total / dimensions
    else ((hs.free h.id - 1 : Int) : ℚ) / h.slots

def readyDelay : Duration :=
  let d := hs.readiness p.id h.id
  -- a host with no history is taken to need a minute
  let d := if d ≤ 0 then minute else d
  let d := min (max d (5 * second)) (10 * minute)
  let warming :=
    if p.dockerMode = .dind then hs.warmingDinD h.id
    else hs.warming h.id - hs.warmingDinD h.id
  (warming + 1) * d

def compareStandard (a b : Reservation) : Ordering :=
  if a.cpus > b.cpus + cpuEpsilon then .gt
  else if b.cpus > a.cpus + cpuEpsilon then .lt
  else if a.memoryMB > b.memoryMB then .gt
  else if b.memoryMB > a.memoryMB then .lt
  else .eq

variable (best : Host) (p : Pool)

def tighter (measured : Bool) : Bool :=
  let score := hs.score h p
  let bestScore := hs.score best p
  if measured && decide (|score - bestScore| > cpuEpsilon) then decide (score < bestScore)
  else decide (hs.free h.id < hs.free best.id)

def roomier : Bool :=
  let a := hs.alloc h.id
  let b := hs.alloc best.id
  if !a.cpusKnown && !a.memoryKnown && !b.cpusKnown && !b.memoryKnown then
    decide (hs.free h.id > hs.free best.id)
  else
    let score := hs.score h p
    let bestScore := hs.score best p
    decide (score > bestScore + cpuEpsilon) ||
      (decide (|score - bestScore| ≤ cpuEpsilon) && decide (hs.free h.id > hs.free best.id))

def preferByOrder : Bool :=
  if hostPriority h ≠ hostPriority best then decide (hostPriority h > hostPriority best)
  else
    let a := hs.alloc h.id
    let b := hs.alloc best.id
    let measured := (a.cpusKnown || a.memoryKnown) && (b.cpusKnown || b.memoryKnown)
    match hs.order with
    | .largestStandard =>
      match compareStandard (reserve p h) (reserve p best) with
      | .gt => true
      | .lt => false
      | .eq => hs.roomier h best p
    | .bestFit => hs.tighter h best p measured
    | .headroom => hs.roomier h best p

def prefer : Bool :=
  let a := hs.readyDelay h p
  let b := hs.readyDelay best p
  -- within five seconds either way readiness does not decide
  if hs.preferReadiness && decide (a + 5 * second < b) then true
  else if hs.preferReadiness && decide (b + 5 * second < a) then false
  else hs.preferByOrder h best p

def pick (avoid : String → Bool) : Option Host :=
  let better := fun h best => hs.prefer h best p
  let able := hs.hosts.filter fun h => hs.eligible h p
  -- a host to be avoided is taken only where no other would do
  (bestChoice better (able.filter fun h => !avoid h.id)).or
    (bestChoice better (able.filter fun h => avoid h.id))

end HostSet

end Zoomies.Scheduler
