import Zoomies.StoreMachineRows
import Mathlib.Data.List.Sort
import Mathlib.Data.String.Basic
import Zoomies.SchedulerPlan

/-! Which provider could rent a machine for which pool: the selectors of both agree, and the machine
is judged as the host it would become. -/
namespace Zoomies.Scheduler
open Zoomies.Go Zoomies.Store

def equalFold (a b : String) : Bool := toLower a == toLower b

structure Pairing where
  agrees : Bool := false
  refusedBy : String := ""
  why : String := ""
  fix : String := ""

variable (sel : List (String × String))

def selectorEntries : List (String × String) :=
  sel.insertionSort fun a b => a.1 ≤ b.1

def entryMet (value : String → Option String) (entry : String × String) : Bool :=
  match value entry.1 with
  | none => false
  | some got => entry.2 == "" || equalFold got entry.2

def firstMiss (value : String → Option String) : Option (String × String) :=
  (selectorEntries sel).find? fun entry => !entryMet value entry

def labelValue (key label : String) : Option String :=
  if equalFold label key then some ""
  else
    match cut '=' label with
    | some (k, v) => if equalFold k key then some v else none
    | none => none

def poolSelectorValue (pool : Pool) (key : String) : Option String :=
  if toLower key = "name" then some pool.name
  else if toLower key = "backend" then some pool.backend.text
  else pool.labels.findSome? (labelValue key)

def providerSelectorValue (p : Provider) (key : String) : Option String :=
  if toLower key = "name" then some p.name
  else if toLower key = "kind" then some p.kind.text
  else p.machineLabels.lookup key

def formatSelector : String :=
  join ", " ((selectorEntries sel).map fun e => if e.2 = "" then e.1 else e.1 ++ "=" ++ e.2)

def missWhy (subject key want : String) : String :=
  if want = "" then subject ++ " has no " ++ quoted key ++ " label"
  else subject ++ " does not have " ++ key ++ "=" ++ want

def wantLabel (key want : String) : String :=
  if want = "" then "the label " ++ quoted key else "the label " ++ key ++ "=" ++ want

def pair (p : Provider) (pool : Pool) : Pairing :=
  match firstMiss p.poolSelector (poolSelectorValue pool) with
  | some (key, want) =>
    { refusedBy := "provider"
      why := "provider " ++ p.name ++ " only rents for pools matching " ++
        formatSelector p.poolSelector ++ ", and " ++ missWhy ("pool " ++ pool.name) key want
      fix := "edit the provider's pool selector, or give the pool " ++ wantLabel key want }
  | none =>
    match firstMiss pool.providerSelector (providerSelectorValue p) with
    | some (key, want) =>
      { refusedBy := "pool"
        why := "pool " ++ pool.name ++ " only lets providers matching " ++
          formatSelector pool.providerSelector ++ " rent for it, and " ++
          missWhy ("provider " ++ p.name) key want
        fix := "edit the pool's provider selector, or give the provider's machines the label " ++
          key ++ "=" ++ want }
    | none => { agrees := true }

end Zoomies.Scheduler

namespace Zoomies.Naming

def kernel (os : String) : String :=
  if normalizeOS os = "macos" then "macos"
  else if normalizeOS os = "windows" then "windows"
  else if normalizeOS os = "" then "" else "linux"

end Zoomies.Naming

namespace Zoomies.Controller
open Zoomies.Go Zoomies.Store Zoomies.Scheduler Zoomies.Naming

variable (answers : SizeAnswers) (p : Provider) (providers : List Provider)

def providerSlots : Int :=
  max p.machineCapacity 1

def machineSlots (m : Machine) (p : Provider) : Int :=
  if m.capacity > 0 then m.capacity else providerSlots p

def providerMachineSize : Int × Int :=
  (if truncate p.machineCPUs ≤ 0 then p.seenCPUs else truncate p.machineCPUs,
    if p.machineMemoryMB ≤ 0 then p.seenMemoryMB else p.machineMemoryMB)

def providerMachineDisk : Int :=
  if p.machineDiskMB > 0 then p.machineDiskMB else p.seenDiskMB

variable (synth : String → Host) (pool : Pool) (now : Time)

def providerSynthHost : Host where
  id := "synthetic-" ++ p.id
  name := p.name
  capacity := providerSlots p
  backends := [p.machineBackend.text]
  labels := p.machineLabels
  os := kernel p.machinePlatform.normalized.os
  distro := p.machinePlatform.normalized.os
  osVersion := p.machinePlatform.normalized.osVersion
  arch := p.machinePlatform.normalized.arch
  cpus := (providerMachineSize p).1
  memoryMB := (providerMachineSize p).2
  diskTotalMB := providerMachineDisk p
  diskFreeMB := providerMachineDisk p
  lastHeartbeat := now

def providerServes (synth : Host) (pool : Pool) (now : Time) : Bool :=
  (pair p pool).agrees && hostCanRun synth pool now

def acceptsDemand : Bool :=
  p.enabled && !p.paused && (p.pausedUntil.map fun t => !decide (now < t)).getD true

def providerFor
    (owned : String → Int) (now : Time) : Option Provider :=
  let eligible := providers.filter fun p => providerServes p (synth p.id) pool now
  let withRoom := eligible.filter fun p => !decide (p.maxMachines - owned p.id ≤ 0)
  match withRoom.find? fun p => acceptsDemand p now with
  | some p => some p
  | none =>
    match withRoom.head? with
    | some p => some p
    | none => eligible.head?

structure UnservedPool where
  pool : String
  why : String
  fix : String := ""

def unservedBy : Option UnservedPool :=
  (providers.find? fun p => hostCanRun (synth p.id) pool now && !(pair p pool).agrees).map
    fun p => ⟨pool.name, (pair p pool).why, (pair p pool).fix⟩

structure MachineSize where
  cpus : Int := 0
  memoryMB : Int := 0
  diskMB : Int := 0
  deriving DecidableEq

structure SizeAnswers where
  hostShortfall : Host → Pool → String := fun _ _ => ""
  machineFor : Host → Pool → Option MachineSize := fun _ _ => none

structure MachineMisfit where
  why : String := ""
  fix : String := ""
  size : Bool := false

def sentence (s : String) : String :=
  match s.toList with
  | [] => s
  | c :: rest =>
    let s := String.ofList (c.toUpper :: rest)
    if hasSuffix s "." then s else s ++ "."

def andList (words : List String) : String :=
  match words.getLast? with
  | none => ""
  | some last => if words.length = 1 then last else join ", " words.dropLast ++ " and " ++ last

def machineSize (size : MachineSize) : String :=
  andList ((if size.cpus > 0 then [plural size.cpus "CPU"] else []) ++
    (if size.memoryMB > 0 then [formatMB size.memoryMB ++ " of memory"] else []) ++
    (if size.diskMB > 0 then [formatMB size.diskMB ++ " of disk"] else []))

def namesSize : Bool :=
  decide (p.machineCPUs > 0) || decide (p.machineMemoryMB > 0) || decide (p.machineDiskMB > 0)

def machineSizeSaid : String :=
  let size : MachineSize :=
    ⟨(providerMachineSize p).1, (providerMachineSize p).2, providerMachineDisk p⟩
  if size.cpus ≤ 0 ∧ size.memoryMB ≤ 0 ∧ size.diskMB ≤ 0 then ""
  else if namesSize p then "its machine size is " ++ machineSize size
  else if p.seenFrom = .machine then "its machines measure " ++ machineSize size ++ " once they join"
  else if p.seenFrom = .template then "the template it clones gives " ++ machineSize size
  else "its machines have " ++ machineSize size

def machineSizeFix (machine : Host) (pool : Pool) : String :=
  match answers.machineFor machine pool with
  | none =>
    "Give " ++ p.name ++ "'s machines a larger size (" ++
      (if namesSize p then "raise its machine size"
        else "set its machine size, or enlarge the template it clones") ++
      "), or lower this pool's minimum runner size."
  | some need =>
    let more := (if need.cpus > 0 ∨ need.memoryMB > 0 then ["processors", "memory"] else []) ++
      (if need.diskMB > 0 then ["disk"] else [])
    "Give " ++ p.name ++ "'s machines at least " ++ machineSize need ++ " (" ++
      (if namesSize p then "raise its machine size"
        else "set its machine size, or give the template it clones more " ++ andList more) ++
      "), or lower this pool's minimum runner size."

def machineFit (machine : Host) (pool : Pool) : MachineMisfit :=
  if !hostOffers machine pool then
    { why := "The machines it builds run " ++ join ", " machine.backends ++
        ", and this pool needs " ++ pool.backend.text ++ "." }
  else if !hostIsPlatform machine pool then
    { why := "The machines it builds are not the operating system or architecture this pool asks for." }
  else if !hostSelects machine pool then
    { why := "The machine labels it gives its machines do not satisfy this pool's host selector." }
  else if !hostFits machine pool then
    let said := machineSizeSaid p
    let short := answers.hostShortfall machine pool
    { why := sentence ("A machine it builds is too small for one of this pool's runners" ++
        (if said = "" then "" else ": " ++ said) ++ (if short = "" then "" else "; " ++ short))
      fix := machineSizeFix answers p machine pool
      size := true }
  else {}

inductive RentingState | buying | onItsWay | waiting | ceiling | unserved
  deriving DecidableEq

structure PoolRenting where
  poolID : String
  poolName : String
  state : RentingState
  summary : String := ""
  fix : String := ""
  setting : String := ""
  providerID : String := ""
  providerName : String := ""
  queued : Int := 0
  short : Int := 0
  machines : Int := 0
  since : Option Time := none
  because : String := ""

structure PoolDemand where
  poolID : String
  pool : String
  slots : Int
  queued : Int
  nowhere : Bool

def ceilDiv (a b : Int) : Int := if a ≤ 0 ∨ b ≤ 0 then 0 else (a + b - 1).tdiv b

def waitingTail : String :=
  "A machine is rented only once every host that could run this pool is full."

def waitingFix : String :=
  "Wait for those hosts to clear, or uncordon, repair or remove the ones that are unavailable."

def unservedFitFix : String :=
  "Give a provider machines that suit this pool, or change the pool."

def poolReason (d : PoolDemand) : String :=
  plural d.slots "runner slot" ++ " short" ++
    (if d.queued > 0 then " with " ++ plural d.queued "job" ++ " queued" else "") ++
    (if d.nowhere then ", and no host in the fleet can run it"
      else ", and every host that can run it is full")

def waitingVerdict (pp : PoolPlan) (queued : Int) : PoolRenting where
  poolID := pool.id
  poolName := pool.name
  state := .waiting
  summary := "Not renting yet: " ++ pp.blocked ++ ". " ++ waitingTail
  fix := waitingFix
  queued := queued
  short := pp.desired - pp.current

def onItsWayVerdict (p : Provider) (coming : Int) (since : Time)
    (short queued : Int) : PoolRenting where
  poolID := pool.id
  poolName := pool.name
  state := .onItsWay
  summary := plural coming "machine" ++ " from " ++ p.name ++ " " ++
    (if coming = 1 then "is" else "are") ++
    " on the way for this pool, so the next runners start there."
  providerID := p.id
  providerName := p.name
  queued := queued
  short := short
  machines := coming
  since := some since

def unservedVerdict (owned : String → Int) (now : Time) (short queued : Int) :
    PoolRenting × Option UnservedPool :=
  let v : PoolRenting :=
    { poolID := pool.id, poolName := pool.name, state := .unserved, queued := queued, short := short }
  match unservedBy providers synth pool now with
  | some refused =>
    ({ v with
        summary := "No provider will rent for this pool. " ++ sentence refused.why
        fix := sentence refused.fix }, some refused)
  | none =>
    match (providers.find? fun p => (pair p pool).agrees).or providers.head? with
    | none => (v, none)
    | some first =>
      let misfit := machineFit answers first (synth first.id) pool
      let n := owned first.id
      let owns := if n = 1 then "The machine it owns is"
        else "The " ++ toString n ++ " machines it owns are"
      ({ v with
          summary := "No provider builds a machine this pool could use. " ++ first.name ++ ": " ++
            misfit.why ++ (if misfit.size ∧ n > 0 then " " ++ owns ++
              " the same size, so a higher maximum would only buy more machines this pool cannot use."
              else "")
          fix := if misfit.fix = "" then unservedFitFix else misfit.fix }, none)

structure Purchase where
  create : Int
  because : String := ""
  fix : String := ""
  setting : String := ""

def chargedVerdict (d : PoolDemand) (b : Purchase) (want : Int) (shared : Bool) : PoolRenting :=
  let need := ceilDiv d.slots (providerSlots p)
  let v : PoolRenting :=
    { poolID := d.poolID
      poolName := d.pool
      state := .buying
      providerID := p.id
      providerName := p.name
      queued := d.queued
      short := d.slots
      machines := min b.create need }
  if b.create = 0 then
    { v with
      state := .ceiling
      because := b.because
      summary := "Not renting: " ++ b.because ++ "."
      fix := sentence b.fix
      setting := b.setting }
  else if b.create ≥ want then
    { v with
      summary := "Renting " ++ plural need "machine" ++ " from " ++ p.name ++
        ", which covers this pool: " ++ poolReason d ++ "." }
  else
    let some_ := "Renting " ++ toString b.create ++ " of the " ++ toString want ++ " machines "
    { v with
      summary := some_ ++ (if shared then "this pool and others need from " ++ p.name
          else "it needs from " ++ p.name ++ ", which covers this pool") ++
        ": " ++ poolReason d ++ ". The rest are held back: " ++ b.because ++ "."
      fix := sentence b.fix
      setting := b.setting }

end Zoomies.Controller
