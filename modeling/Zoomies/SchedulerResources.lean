import Zoomies.StoreModels

/-! The phrases the scheduler's sentences are made of. -/
namespace Zoomies.Scheduler
open Zoomies.Go

def formatCPUs (v : ℚ) : String :=
  let s := trimRight '.' (trimRight '0' (formatFixed v 2))
  if s = "" || s = "-" then "0" else s

def formatMB (mb : Int) : String :=
  if mb ≥ 1024 then
    if mb % 1024 = 0 then toString (mb / 1024) ++ " GB"
    else formatFixed ((mb : ℚ) / 1024) 1 ++ " GB"
  else toString mb ++ " MB"

def plural (n : Int) (unit : String) : String :=
  if n = 1 then "1 " ++ unit else toString n ++ " " ++ unit ++ "s"

def formatDuration (d : Duration) : String :=
  let s := durationString d
  let s := if hasSuffix s "m0s" then dropLast 2 s else s
  if hasSuffix s "h0m" then dropLast 2 s else s

def sizePhrase (cpus : ℚ) (memoryMB : Int) : String :=
  join " and " ((if cpus > 0 then [formatCPUs cpus ++ " CPU"] else []) ++
    (if memoryMB > 0 then [formatMB memoryMB] else []))

def summarise (message : String) : String :=
  let message := join " " (fields message)
  if message = "" then "no reason was recorded"
  else if message.utf8ByteSize > 160 then
    String.ofList (takeBytes 159 message.toList) ++ "…"
  else message

def sentence (what fix : String) : String := if fix = "" then what else what ++ "; " ++ fix

def scaled (pool : String) (before after : Int) (why : String) : String :=
  "scaled " ++ pool ++ " " ++ toString before ++ " -> " ++ toString after ++ ": " ++ why

def cannotScale (pool : String) (before after : Int) (why : String) : String :=
  "cannot scale " ++ pool ++ " " ++ toString before ++ " -> " ++ toString after ++ ": " ++ why

open Zoomies.Store

def cpuEpsilon : ℚ := 1 / 1000000

def raisedMinimum {α : Type} [LinearOrder α] [Zero α] (own host typed : α) : α :=
  if host ≤ own || (decide (typed > 0) && decide (host > typed)) then own else host

variable (h : Host) (p : Pool)

def sizedOn (h : Host) : Pool :=
  { p with resources := { p.resources with
      minCPUs := raisedMinimum p.resources.minCPUs h.runnerProfile.minimum.cpus p.resources.cpus
      minMemoryMB := raisedMinimum p.resources.minMemoryMB h.runnerProfile.minimum.memoryMB
        p.resources.memoryMB } }

def standardSize (h : Host) : RunnerSize :=
  if !p.sizeFromProfile then {}
  else
    { cpus := if h.runnerProfile.standard.cpus > 0 then h.runnerProfile.standard.cpus
        else p.fleetStandard.cpus
      memoryMB := if h.runnerProfile.standard.memoryMB > 0 then h.runnerProfile.standard.memoryMB
        else p.fleetStandard.memoryMB }

inductive ExclusionCode | hostMinimum | hostStandard
  deriving DecidableEq

inductive SizeField | cpu | memory
  deriving DecidableEq

structure SizeExclusion where
  code : ExclusionCode
  field : SizeField
  reason : String

def poolsOrFleets (fleet : Bool) : String := if fleet then "the fleet's" else "this pool's"

def standardPhrase (figure : String) (fromHost : Bool) : String :=
  if fromHost then "its standard runner is " ++ figure
  else "its profile names no standard runner size, so the fleet's default of " ++ figure ++ " applies"

def standardCPUReason : String :=
  let floor := h.runnerProfile.minimum.cpus
  let own := decide (floor ≥ p.resources.minCPUs)
  standardPhrase (formatCPUs (standardSize p h).cpus ++ " CPU")
      (decide (h.runnerProfile.standard.cpus > 0)) ++
    ", below " ++
    (if own then "this host's own" else poolsOrFleets (decide (p.fleetMinimum.cpus > 0))) ++
    " minimum of " ++ formatCPUs (if own then floor else p.resources.minCPUs) ++
    " CPU -- give the host a standard runner of at least that, or lower the minimum"

def standardMemoryReason : String :=
  let floor := h.runnerProfile.minimum.memoryMB
  let own := decide (floor ≥ p.resources.minMemoryMB)
  standardPhrase (formatMB (standardSize p h).memoryMB ++ " of memory")
      (decide (h.runnerProfile.standard.memoryMB > 0)) ++
    ", below " ++
    (if own then "this host's own" else poolsOrFleets (decide (p.fleetMinimum.memoryMB > 0))) ++
    " minimum of " ++ formatMB (if own then floor else p.resources.minMemoryMB) ++
    " -- give the host a standard runner of at least that, or lower the minimum"

def minimumCPUReason : String :=
  "its minimum runner size is " ++ formatCPUs h.runnerProfile.minimum.cpus ++ " CPU, above the " ++
    formatCPUs p.resources.cpus ++
    " CPU this pool gives each runner, and a pool that states its size is never given more than it states -- lower the host's minimum, or raise the pool's CPU"

def minimumMemoryReason : String :=
  "its minimum runner size is " ++ formatMB h.runnerProfile.minimum.memoryMB ++
    " of memory, above the " ++ formatMB p.resources.memoryMB ++
    " this pool gives each runner, and a pool that states its size is never given more than it states -- lower the host's minimum, or raise the pool's memory"

def excludedBySize : Option SizeExclusion :=
  let floor := h.runnerProfile.minimum
  if p.sizeFromProfile then
    let std := standardSize p h
    if std.cpus > 0 && decide (max p.resources.minCPUs floor.cpus > std.cpus + cpuEpsilon) then
      some ⟨.hostStandard, .cpu, standardCPUReason h p⟩
    else if std.memoryMB > 0 && decide (max p.resources.minMemoryMB floor.memoryMB > std.memoryMB) then
      some ⟨.hostStandard, .memory, standardMemoryReason h p⟩
    else none
  else if !p.automatic then
    if p.resources.cpus > 0 && decide (floor.cpus > p.resources.cpus + cpuEpsilon) then
      some ⟨.hostMinimum, .cpu, minimumCPUReason h p⟩
    else if p.resources.memoryMB > 0 && decide (floor.memoryMB > p.resources.memoryMB) then
      some ⟨.hostMinimum, .memory, minimumMemoryReason h p⟩
    else none
  else none

def share (total : ℚ) (capacity : Int) : ℚ :=
  if capacity < 1 || total ≤ 0 then 0 else total / capacity

def shareCPUs (total : ℚ) (capacity : Int) : ℚ := ⌊share total capacity * 100⌋ / 100

def hostShare : Resources where
  cpus := if h.allocatable.cpusKnown then shareCPUs h.allocatable.cpus h.slots else 0
  memoryMB :=
    if h.allocatable.memoryKnown then truncate (share h.allocatable.memoryMB h.slots) else 0

def slotSize (h : Host) : Resources :=
  let out := hostShare h
  let std := standardSize p h
  { out with
    cpus := if std.cpus > 0 then std.cpus else out.cpus
    memoryMB := if std.memoryMB > 0 then std.memoryMB else out.memoryMB }


@[ext] structure Reservation where
  cpus : ℚ := 0
  memoryMB : Int := 0
  diskMB : Int := 0
  deriving DecidableEq

def comfortableRunnerCPUs : ℚ := 1

def comfortableRunnerMemoryMB : Int := 2048

def runnerDiskMB : Int := 10 * 1024

variable (p : Pool) (h : Host) (left : Reservation)

def comfortFloor : Reservation where
  cpus :=
    if p.dockerMode = .dind ∧ p.resources.cpus ≤ 0 then
      comfortableRunnerCPUs * p.resources.cpuPairFactor
    else minRunnerCPUs
  memoryMB :=
    if p.dockerMode = .dind ∧ p.resources.memoryMB ≤ 0 then
      ⌈(comfortableRunnerMemoryMB : ℚ) * p.resources.memoryPairFactor⌉
    else minRunnerMemoryMB

def shareFloor : Reservation :=
  let cpuPair : ℚ := if p.dockerMode = .dind then p.resources.cpuPairFactor else 1
  let memPair : ℚ := if p.dockerMode = .dind then p.resources.memoryPairFactor else 1
  { cpus :=
      if p.resources.minCPUs > 0 ∧ p.resources.cpus ≤ 0 then
        max p.resources.minCPUs minRunnerCPUs * cpuPair
      else (comfortFloor p).cpus
    memoryMB :=
      if p.resources.minMemoryMB > 0 ∧ p.resources.memoryMB ≤ 0 then
        ⌈(max p.resources.minMemoryMB minRunnerMemoryMB : ℚ) * memPair⌉
      else (comfortFloor p).memoryMB }

def minimumSlot : Reservation where
  cpus :=
    if p.resources.minCPUs > 0 ∧ p.resources.cpus ≤ 0 then (shareFloor p).cpus else 0
  memoryMB :=
    if p.resources.minMemoryMB > 0 ∧ p.resources.memoryMB ≤ 0 then (shareFloor p).memoryMB else 0

def fieldFactor (typed : Bool) : Int :=
  if typed ∧ p.dockerMode = .dind then 2 else 1

def cpuFactor : Int := fieldFactor p (decide (p.resources.cpus > 0))

def memoryFactor : Int := fieldFactor p (decide (p.resources.memoryMB > 0))

def reserve : Reservation :=
  let p := sizedOn p h
  let floor := minimumSlot p
  let std := standardSize p h
  { cpus :=
      if p.resources.cpus ≤ 0 then
        max (if std.cpus > 0 then std.cpus else share h.allocatable.cpus h.slots) floor.cpus
      else if p.dockerMode = .dind then p.resources.cpus * 2 else p.resources.cpus
    memoryMB :=
      if p.resources.memoryMB ≤ 0 then
        max (if std.memoryMB > 0 then std.memoryMB
          else truncate (share h.allocatable.memoryMB h.slots)) floor.memoryMB
      else if p.dockerMode = .dind then p.resources.memoryMB * 2 else p.resources.memoryMB
    diskMB :=
      if p.resources.diskGB * 1024 ≤ 0 then runnerDiskMB
      else if p.dockerMode = .dind then p.resources.diskGB * 1024 * 2
      else p.resources.diskGB * 1024 }

def runnerGuarantee (r : Runner) : Reservation :=
  let res := reserve p h
  let reduced := r.allocationSource = .reduced ∨ r.allocationSource = .history
  { res with
    cpus :=
      if r.allocatedCPUs > 0 then
        let given := r.allocatedCPUs * cpuFactor p
        -- a runner sized on its own is charged its row, though the pool now asks for more
        if reduced then given else max res.cpus given
      else res.cpus
    memoryMB :=
      if r.allocatedMemoryMB > 0 then
        let given := r.allocatedMemoryMB * memoryFactor p
        if reduced then given else max res.memoryMB given
      else res.memoryMB }

def runnerCharge (r : Runner) : Reservation :=
  let res := runnerGuarantee p h r
  if r.lentMemoryMB > 0 then { res with memoryMB := res.memoryMB + r.lentMemoryMB } else res

def minimumReserve : Reservation :=
  let p := sizedOn p h
  let res := reserve p h
  if !p.resources.reducible then res
  else
    let floor := shareFloor p
    { res with
      cpus :=
        if p.resources.minCPUs > 0 then
          let v := p.resources.minCPUs * cpuFactor p
          -- a minimum is never above the standard, whatever the slot's floor says
          min res.cpus (if p.resources.cpus > 0 then v else max v floor.cpus)
        else res.cpus
      memoryMB :=
        if p.resources.minMemoryMB > 0 then
          let v := p.resources.minMemoryMB * memoryFactor p
          min res.memoryMB (if p.resources.memoryMB > 0 then v else max v floor.memoryMB)
        else res.memoryMB }

def fits (want : Reservation) (known : HostAllocation) : Bool :=
  !(known.diskKnown && (decide (known.diskMB ≤ 0) || decide (left.diskMB < want.diskMB))) &&
  !(known.cpusKnown && decide (left.cpus + cpuEpsilon < want.cpus)) &&
  !(known.memoryKnown && decide (left.memoryMB < want.memoryMB))

def reducedCharge (known : HostAllocation) : Reservation :=
  let p := sizedOn p h
  let floor := minimumReserve p h
  let charge := reserve p h
  { charge with
    cpus :=
      if known.cpusKnown ∧ left.cpus + cpuEpsilon < charge.cpus ∧ floor.cpus < charge.cpus then
        -- rounded down for each container, so that the pair fits in what is left
        max (⌊left.cpus / cpuFactor p * 100 + cpuEpsilon⌋ / 100 * cpuFactor p) floor.cpus
      else charge.cpus
    memoryMB :=
      if known.memoryKnown ∧ left.memoryMB < charge.memoryMB ∧ floor.memoryMB < charge.memoryMB then
        max (left.memoryMB.tdiv (memoryFactor p) * memoryFactor p) floor.memoryMB
      else charge.memoryMB }

def grantFor (charge : Reservation) : Resources :=
  { p.resources with
    minCPUs := 0
    minMemoryMB := 0
    cpus := charge.cpus / cpuFactor p
    memoryMB := charge.memoryMB.tdiv (memoryFactor p) }

def reducedSize (known : HostAllocation) : Option (Reservation × Resources) :=
  let p := sizedOn p h
  if !p.resources.reducible || !fits left (minimumReserve p h) known then none
  else
    let charge := reducedCharge p h left known
    if fits left charge known then some (charge, grantFor p charge) else none

def shareTooSmall (p : Pool) : Option SizeField :=
  if (p.resources.cpus > 0 ∧ p.resources.memoryMB > 0) ∨ h.capacity ≤ 0 then none
  else
    let p := sizedOn p h
    let slot := slotSize p h
    let need := shareFloor p
    let given := minimumSlot p
    -- a pool with a minimum of its own is given that, so its share cannot be too small
    if p.resources.cpus ≤ 0 ∧ h.allocatable.cpusKnown ∧ given.cpus ≤ 0 ∧ slot.cpus < need.cpus then
      some .cpu
    else if p.resources.memoryMB ≤ 0 ∧ h.allocatable.memoryKnown ∧ given.memoryMB ≤ 0 ∧
        slot.memoryMB < need.memoryMB then
      some .memory
    else none

def wholeOf (alloc : HostAllocation) : Reservation where
  cpus := alloc.cpus
  memoryMB := alloc.memoryMB
  diskMB := alloc.diskMB

def hostFits (p : Pool) : Bool :=
  (excludedBySize h p).isNone &&
    let p := sizedOn p h
    (shareTooSmall h p).isNone && fits (wholeOf h.allocatable) (minimumReserve p h) h.allocatable

end Zoomies.Scheduler
