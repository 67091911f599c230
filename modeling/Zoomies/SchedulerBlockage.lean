import Zoomies.SchedulerHostSet

/-! Placing one runner after another, and what a placement does to the room on a host. -/
namespace Zoomies.Scheduler
open Zoomies.Go Zoomies.Store

structure ReducedOption where
  host : Host
  charge : Reservation
  grant : Resources
  worth : ℚ

def sizeForNeed (p : Pool) (res : Reservation) (size : Option Resources) (need : Requirement) :
    Reservation × Option Resources × Bool :=
  let cpuRaised := decide (p.resources.cpus ≤ 0) && decide (need.cpus > res.cpus + cpuEpsilon)
  let memoryRaised := decide (p.resources.memoryMB ≤ 0) && decide (need.memoryMB > res.memoryMB)
  let raised : Reservation := { res with
    cpus := if cpuRaised then need.cpus else res.cpus
    memoryMB := if memoryRaised then need.memoryMB else res.memoryMB }
  if cpuRaised || memoryRaised then (raised, some (grantFor p raised), true)
  else (res, size, false)

structure Placement where
  hostID : String
  /-- Absent for a runner at the pool's standard size. -/
  size : Option Resources
  raised : Bool

namespace HostSet

def worthOf (charge standard : Reservation) : ℚ :=
  (if standard.cpus > 0 then charge.cpus / standard.cpus else 0) +
    (if standard.memoryMB > 0 then (charge.memoryMB : ℚ) / standard.memoryMB else 0)

variable (hs : HostSet) (p : Pool) (avoid : String → Bool)

def reducedOption (h : Host) : Option ReducedOption :=
  if hs.admits h p && hs.meetsNeed h p then
    (reducedSize p h (hs.leftFor h p) (hs.alloc h.id)).map fun cg =>
      ⟨h, cg.1, cg.2, worthOf cg.1 (reserve p h)⟩
  else none

def betterOption (o best : ReducedOption) : Bool :=
  decide (o.worth > best.worth) ||
    (decide (o.worth = best.worth) && decide (hostPriority o.host > hostPriority best.host)) ||
    (decide (o.worth = best.worth) && decide (hostPriority o.host = hostPriority best.host) &&
      decide (o.host.id < best.host.id))

def pickReduced : Option ReducedOption :=
  if !p.resources.reducible then none
  else
    let options := hs.hosts.filterMap (hs.reducedOption p)
    (bestChoice betterOption (options.filter fun o => !avoid o.host.id)).or
      (bestChoice betterOption (options.filter fun o => avoid o.host.id))

def choose : Option (Host × Reservation × Option Resources) :=
  match hs.pick p avoid with
  | some h => some (h, reserve p h, none)
  -- a runner is made smaller only once no host takes it whole
  | none => (hs.pickReduced p avoid).map fun o => (o.host, o.charge, some o.grant)

def sized (res : Reservation) (size : Option Resources) : Reservation × Option Resources × Bool :=
  match hs.need with
  | some need => sizeForNeed p res size need
  | none => (res, size, false)

def charge (id : String) (res : Reservation) : HostSet :=
  { hs with
    free := Function.update hs.free id (hs.free id - 1)
    warming := Function.update hs.warming id (hs.warming id + 1)
    warmingDinD :=
      if p.dockerMode = .dind then Function.update hs.warmingDinD id (hs.warmingDinD id + 1)
      else hs.warmingDinD
    left := Function.update hs.left id (hs.left id - res)
    promisedMemory :=
      Function.update hs.promisedMemory id (hs.promisedMemory id - res.memoryMB)
    -- from here on the host has a runner of ours, so measurements of it count
    ours := Function.update hs.ours id true
    observedCPU :=
      Function.update hs.observedCPU id ((hs.observedCPU id).map fun cpu => max (cpu - res.cpus) 0) }

def placeOne : Option (Placement × HostSet) :=
  (hs.choose p avoid).map fun (h, res, size) =>
    let (res, size, raised) := hs.sized p res size
    (⟨h.id, size, raised⟩, hs.charge p h.id res)

def placeAvoiding (hs : HostSet) (p : Pool) : Nat → (String → Bool) → List Placement × HostSet
  | 0, _ => ([], hs)
  | n + 1, avoid =>
    match hs.placeOne p avoid with
    | none => ([], hs)
    | some (placement, hs') =>
      let (rest, hs'') := hs'.placeAvoiding p n avoid
      (placement :: rest, hs'')

end HostSet

open Zoomies.Naming

inductive HostVerdict
  | unhealthy | cordoned | incompatible | backend | platform | selector | profile | held
  | warming | throttled | lowDisk | tooSmall | full | shortMemory | shortCPU
  deriving DecidableEq

inductive Remedy
  | throttle | pressure | full | disk | profile | tooSmall | short | upgrade | agent | platform
  | backend | other
  deriving DecidableEq

structure Blockage where
  what : String := ""
  fix : String := ""
  /-- Every host that could run the pool is waiting on a job of ours. -/
  atCapacity : Bool := false
  /-- No host could take the runner whatever it finished. -/
  noEligibleHost : Bool := false
  alternatives : List String := []

def findBackend (h : Host) (kind : BackendKind) : Option HostBackend :=
  h.backendInfo.find? fun i => i.kind == kind

def hostCanThrottleContainers (h : Host) : Bool :=
  h.backends.any fun kind => kind != BackendKind.process.text

def throttleRecovery : Duration := 5 * minute

def minCPUFactor : ℚ := 1 / 2

def throttleReason (h : Host) : String :=
  if !h.throttle.active then ""
  else
    let slots := "throttled to " ++ toString h.effectiveCapacity ++ " of " ++ toString h.slots ++
      " slots (step " ++ toString h.throttle.level ++ " of " ++ toString maxThrottleLevel ++
      ") after sustained pressure: " ++ h.throttle.reason
    let limited := h.activeRunners - h.unlimitedRunners
    let floor := h.runnerProfile.minimum.cpus
    let jobs :=
      if limited > 0 ∧ hostCanThrottleContainers h then
        "running jobs continue, the " ++ plural limited "runner" ++ " with a CPU limit at " ++
          toString (truncate (max minCPUFactor h.throttle.factor * 100)) ++ "% of it" ++
          (if floor > 0 then ", but never below this host's minimum of " ++ formatCPUs floor ++
            " CPU a runner" else "")
      else "running jobs continue"
    slots ++ "; " ++ jobs ++ ", and the throttle lifts one step after " ++
      formatDuration throttleRecovery ++ " of calm"

namespace HostSet

variable (hs : HostSet) (p : Pool) (h : Host)

def shortage : HostVerdict :=
  let left := hs.leftFor h p
  let alloc := hs.alloc h.id
  let want := minimumReserve p h
  if alloc.diskKnown ∧ (alloc.diskMB ≤ 0 ∨ left.diskMB < want.diskMB) then .lowDisk
  else if alloc.memoryKnown ∧ left.memoryMB < want.memoryMB then .shortMemory
  else if alloc.cpusKnown ∧ left.cpus + cpuEpsilon < want.cpus then .shortCPU
  else .full

def roomVerdict : HostVerdict :=
  if hostUnderCPUPressure h hs.now ∧ hs.warming h.id > 0 then .warming
  else if h.throttle.active ∧ hs.free h.id ≤ 0 ∧ h.activeRunners < h.slots then .throttled
  else if (hs.alloc h.id).diskKnown ∧ (hs.alloc h.id).diskMB < (minimumReserve p h).diskMB then
    .lowDisk
  else if !hostFits h p then .tooSmall
  else if hs.free h.id ≤ 0 then .full
  else hs.shortage p h

def verdict : HostVerdict :=
  if !h.healthy hs.now then .unhealthy
  else if h.cordoned then .cordoned
  else if h.incompatible then .incompatible
  else if !hostOffers h p then .backend
  else if !hostIsPlatform h p then .platform
  else if !hostSelects h p then .selector
  else if (excludedBySize h p).isSome then .profile
  else if hostAdmissionReason h hs.now ≠ "" then .held
  else hs.roomVerdict p h

def isCommitted : Bool :=
  (hs.verdict p h == .shortMemory || hs.verdict p h == .shortCPU) && hs.ours h.id

def outOfSlots : Bool :=
  hs.verdict p h == .throttled || hs.verdict p h == .full

def explain : Option String :=
  match hs.verdict p h with
  | .backend =>
    match findBackend h p.backend with
    | some info =>
      if !info.available && info.detail != "" then
        some (forSentence h.name ++ " reports: " ++ info.detail)
      else none
    | none => none
  | .profile =>
    (excludedBySize h p).map fun ex => forSentence h.name ++ ": " ++ ex.reason
  | .held => some (forSentence h.name ++ ": " ++ hostAdmissionReason h hs.now)
  | .throttled => some (forSentence h.name ++ ": " ++ throttleReason h)
  | _ => none

def openTo : Bool :=
  decide (hs.free h.id > 0) && h.healthy hs.now && !h.cordoned && !h.incompatible && hostSelects h p

def offering (kind : String) : Int :=
  (hs.hosts.filter fun h => hs.openTo p h && h.backends.contains kind).length

def otherBackends : List String :=
  ([BackendKind.docker, .podman, .process].map BackendKind.text).filter fun kind =>
    kind != p.backend.text && decide (hs.offering p kind > 0)

def switchTo : List String → String
  | [] => "; they offer no other backend to switch this pool to"
  | [kind] => ", or point this pool at " ++ kind ++ ", which " ++
      plural (hs.offering p kind) "host" ++ " already offers"
  | kinds => ", or point this pool at a backend they already offer: " ++
      join ", " (kinds.map fun kind => kind ++ " (" ++ plural (hs.offering p kind) "host" ++ ")")

def count (v : HostVerdict) : Int :=
  (hs.hosts.filter fun h => hs.verdict p h == v).length

def counted : List String :=
  [(HostVerdict.unhealthy, "unhealthy"), (.cordoned, "cordoned"),
    (.incompatible, "running an agent this controller cannot talk to"),
    (.backend, "without the " ++ p.backend.text ++ " backend"),
    (.platform, "not " ++ p.platform.describe),
    (.selector, "not matching the pool's host selector"),
    (.profile, "excluded by their runner profile"), (.tooSmall, "too small for this pool's limits"),
    (.shortMemory, "short of memory"), (.shortCPU, "short of CPU"), (.lowDisk, "low on disk"),
    (.held, "holding new starts while host pressure clears"),
    (.warming, "starting one runner at a time while CPU is busy"),
    (.throttled, "throttled after sustained pressure"), (.full, "at capacity")].filterMap fun vt =>
      if hs.count p vt.1 > 0 then some (toString (hs.count p vt.1) ++ " " ++ vt.2) else none

def candidates : List Host :=
  hs.hosts.filter fun h => hostCouldRun h p && !h.cordoned

def onlyFull : Bool :=
  decide (hs.count p .full + hs.count p .throttled = hs.hosts.length) ||
    (!(hs.candidates p).isEmpty && (hs.candidates p).all (hs.outOfSlots p))

def remedy : Remedy :=
  let n := hs.count p
  let all := fun k : Int =>
    decide (k > 0) && decide (k + n .unhealthy + n .cordoned = hs.hosts.length)
  if n .throttled > 0 && decide (n .held + n .warming = 0) then .throttle
  else if n .held + n .warming > 0 then .pressure
  else if hs.onlyFull p then .full
  else if all (n .lowDisk) then .disk
  else if all (n .profile) then .profile
  else if all (n .tooSmall) then .tooSmall
  else if all (n .shortMemory + n .shortCPU) then .short
  else if all (n .incompatible) then .upgrade
  else if n .unhealthy = hs.hosts.length then .agent
  else if all (n .platform) then .platform
  else if all (n .backend) then .backend
  else .other

def remedyText : Remedy → String
  | .throttle => "wait for the throttle to lift, lower those hosts' capacity or the pools' limits so their runners fit the machine, or add a host; running jobs continue"
  | .pressure => "wait for host pressure to clear, reduce other work on those hosts, or add a compatible host; running jobs continue"
  | .full => "wait for a job to finish, raise a host's capacity, or add a host"
  | .disk =>
    if p.resources.diskGB > 0 then
      "free space on those hosts' work directories, lower the pool's resources.disk_gb, or add a host"
    else "free space on those hosts' work directories, set the pool's resources.disk_gb below the " ++
      formatMB runnerDiskMB ++ " of working room a runner is given, or add a host"
  | .profile => "change those hosts' minimum or standard runner size, or this pool's size or minimum, or add a host whose profile suits it"
  | .tooSmall =>
    if p.automatic then
      "lower those hosts' capacity (the reason names the figure), or add a host large enough to run one"
    else "lower this pool's CPU or memory limits, or add a host large enough to run one"
  | .short =>
    if p.automatic && !p.resources.reducible then
      "wait for a runner to finish, give this pool a minimum CPU and memory so a runner can start with less than a whole share of a host, or add a host"
    else if p.resources.reducible then
      "wait for a runner to finish, lower this pool's minimum, or add a host"
    else "wait for a runner to finish, lower this pool's limits, or add a host"
  | .upgrade => "upgrade the agent on those hosts to this controller's release; their existing runners keep working and are drained as normal"
  | .agent => "check that the zoomies agent is running on those hosts and can reach this controller"
  | .platform => "add a " ++ p.platform.describe ++
      " host, or change this pool's platform to one your fleet already has"
  | .backend => "make the " ++ p.backend.text ++ " backend usable on one of those hosts" ++
      hs.switchTo p (hs.otherBackends p)
  | .other => "add a host, raise a host's capacity, uncordon one, or relax the pool's host selector"

def why : Blockage :=
  if hs.hosts.isEmpty then
    { what := "no agent hosts are registered, so there is nowhere to put a runner"
      fix := "run 'zoomies agent' on a machine that can host runners, using a join token from the Hosts page"
      noEligibleHost := true }
  else
    let n := hs.count p
    let committed : Int := (hs.hosts.filter (hs.isCommitted p)).length
    let waits := fun h => hs.outOfSlots p h || hs.isCommitted p h
    { what := "no host can take a new " ++ p.backend.text ++ " runner (" ++
        join ", " (hs.counted p) ++ ")" ++
        ((hs.hosts.findSome? (hs.explain p)).elim "" fun detail => ". " ++ detail)
      fix := hs.remedyText p (hs.remedy p)
      atCapacity := decide (n .full + n .throttled + committed = hs.hosts.length) ||
        (!(hs.candidates p).isEmpty && (hs.candidates p).all waits)
      noEligibleHost :=
        decide (n .full + n .throttled + committed + n .held + n .warming = 0)
      -- only a pool blocked on its backend is unblocked by another one
      alternatives := if hs.remedy p = .backend then hs.otherBackends p else [] }

end HostSet
end Zoomies.Scheduler
