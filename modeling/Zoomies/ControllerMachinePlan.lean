import Zoomies.ControllerRenting
import Zoomies.DrawLedger

/-! How many machines each provider should rent: the demand left once every slot is counted once,
cut by the ceilings. -/
namespace Zoomies.Controller
open Zoomies.Go Zoomies.Store Zoomies.Scheduler

structure MachineLimits where
  maxMachines : Int := 0
  maxCreatesInFlight : Int := 0
  idleTimeout : Duration := 0
  scaleDownCooldown : Duration := 0
  deleteGrace : Duration := 0

structure MachineSnapshot where
  now : Time
  plans : List PoolPlan := []
  pools : List Pool := []
  hosts : List Host := []
  runners : RunnerTable := []
  jobs : List Job := []
  machines : List Machine := []
  providers : List Provider := []
  limits : MachineLimits := {}
  answers : SizeAnswers := {}

structure ProviderPlan where
  providerID : String
  wanted : Int := 0
  /-- Its machines: those that own a resource or are on the way to owning one. -/
  have_ : Int := 0
  create : Int := 0
  drain : List String := []
  unfit : List String := []
  reason : String := ""
  blocked : String := ""
  blockedFix : String := ""

structure MachinePlan where
  providers : List ProviderPlan := []
  unserved : List UnservedPool := []
  pools : List PoolRenting := []

def sortedProviders (providers : List Provider) : List Provider :=
  sortStableFunc (compareLex (compareOn Provider.name) (compareOn Provider.id)) providers

def sortedHostsForMachines (hosts : List Host) : List Host :=
  sortStableFunc (compareOn Host.id) hosts

def sortedMachines (machines : List Machine) : List Machine :=
  sortStableFunc (compareLex (compareOn Machine.createdAt) (compareOn Machine.id)) machines

def lastWith {α : Type} (key : α → String) (l : List α) (k : String) : Option α :=
  l.reverse.find? fun a => key a == k

theorem lastWith_mem {α : Type} {key : α → String} {l : List α} {k : String} {a : α}
    (h : lastWith key l k = some a) : a ∈ l ∧ key a = k := by
  have hkey : (key a == k) = true := List.find?_some (p := fun b => key b == k) h
  exact ⟨List.mem_reverse.mp (List.mem_of_find?_eq_some h), beq_iff_eq.mp hkey⟩

theorem lastWith_isSome {α : Type} (key : α → String) (l : List α) (k : String) :
    (lastWith key l k).isSome = decide (k ∈ l.map key) := by
  rw [Bool.eq_iff_iff, decide_eq_true_iff, lastWith, List.find?_isSome, List.mem_map]
  simp

theorem lastWith_of_mem {α : Type} (key : α → String) (l : List α) (hn : (l.map key).Nodup)
    (a : α) (ha : a ∈ l) : lastWith key l (key a) = some a := by
  have hsome : (lastWith key l (key a)).isSome = true := by
    rw [lastWith_isSome, decide_eq_true_iff]
    exact List.mem_map_of_mem ha
  obtain ⟨b, hb⟩ := Option.isSome_iff_exists.mp hsome
  obtain ⟨hmem, hkey⟩ := lastWith_mem hb
  rw [hb, List.inj_on_of_nodup_map hn hmem ha hkey]

section
variable (s : MachineSnapshot)

def planned (poolID : String) : Option PoolPlan := lastWith PoolPlan.poolID s.plans poolID

def byProvider (id : String) : Option Provider :=
  lastWith Provider.id (sortedProviders s.providers) id

def byHost (id : String) : Option Host := lastWith Host.id (sortedHostsForMachines s.hosts) id

def synth (id : String) : Host := providerSynthHost ((byProvider s id).getD {}) s.now

def queuedByPool (poolID : String) : Int :=
  (s.jobs.filter fun j => waitingJob j &&
    decide ((bestOf (sortedPools s.pools) j fun _ => "").pool.map Pool.id = some poolID)).length

end

section
variable (s : MachineSnapshot)

def machinesOf (kind : Machine → Bool) (providerID : String) : Int :=
  ((sortedMachines s.machines).countP fun m => m.providerID == providerID && kind m : Nat)

def fleetMachines (kind : Machine → Bool) : Int :=
  ((sortedMachines s.machines).countP fun m => (byProvider s m.providerID).isSome && kind m : Nat)

variable (m : Machine)

def isPending : Bool := m.state.pending

def isHad : Bool := m.owns || m.state.pending

def isOffering : Bool :=
  m.state.offers && !m.test

def owned (id : String) : Int := machinesOf s Machine.owns id

def credited : Bool :=
  (byProvider s m.providerID).isSome && m.state.pending && !m.test

def credit : String → Int :=
  ledgerOf Machine.id (fun m => machineSlots m ((byProvider s m.providerID).getD {}))
    ((sortedMachines s.machines).filter (credited s))

def free : String → Int := ledgerOf Host.id Host.free (sortedHostsForMachines s.hosts)

end

structure PoolWalk where
  free : String → Int
  credit : String → Int
  demand : List (String × PoolDemand) := []
  unserved : List UnservedPool := []
  verdicts : List PoolRenting := []

section
variable (s : MachineSnapshot)

variable (w : PoolWalk) (pool : Pool) (pp : PoolPlan)

def chargedTo : Option Provider :=
  providerFor (sortedProviders s.providers) (synth s) pool (owned s) s.now

def comingFor (m : Machine) : Bool :=
  ((byProvider s m.providerID).map fun p => providerServes p (synth s p.id) pool s.now).getD false

def refusal (short : Int) : PoolRenting × Option UnservedPool :=
  unservedVerdict s.answers (sortedProviders s.providers) (synth s) pool (owned s) s.now short
    (queuedByPool s pool.id)

def unblockedPool : PoolWalk :=
  if pp.blocked ≠ "" ∧ pp.desired > pp.current then
    match chargedTo s pool with
    | none => { w with verdicts := w.verdicts ++ [(refusal s pool (pp.desired - pp.current)).1] }
    | some _ => { w with verdicts := w.verdicts ++ [waitingVerdict pool pp (queuedByPool s pool.id)] }
  else w

def freeDraw : Draw Host :=
  draw Host.id (fun h => hostCanRun h pool s.now) (sortedHostsForMachines s.hosts)
    (pp.desired - pp.current) w.free

def creditDraw : Draw Machine :=
  draw Machine.id (comingFor s pool) (sortedMachines s.machines) (freeDraw s w pool pp).short w.credit

def coveredPool (owed : Int) (used : List Machine) : PoolWalk :=
  match used with
  | [] => w
  | oldest :: _ =>
    let p := (byProvider s oldest.providerID).getD {}
    let coming := used.countP fun m => m.providerID == oldest.providerID
    { w with
      verdicts := w.verdicts ++
        [onItsWayVerdict pool p coming oldest.createdAt owed (queuedByPool s pool.id)] }

def shortPool (short : Int) : PoolWalk :=
  match chargedTo s pool with
  | none =>
    { w with
      unserved := w.unserved ++ (refusal s pool short).2.toList
      verdicts := w.verdicts ++ [(refusal s pool short).1] }
  | some p =>
    { w with
      demand := w.demand ++
        [(p.id, ⟨pool.id, pool.name, short, queuedByPool s pool.id, pp.blockedNoEligibleHost⟩)] }

def poolStep : PoolWalk :=
  match planned s pool.id with
  | none => w
  | some pp =>
    if !pp.blockedAtCapacity && !pp.blockedNoEligibleHost then unblockedPool s w pool pp
    else if pp.desired - pp.current ≤ 0 then w
    else
      let fromHosts := freeDraw s w pool pp
      let fromMachines := creditDraw s w pool pp
      let w := { w with free := fromHosts.left, credit := fromMachines.left }
      if fromMachines.short ≤ 0 then coveredPool s w pool fromHosts.short fromMachines.used
      else shortPool s w pool pp fromMachines.short

def poolWalk : PoolWalk :=
  (sortedPools s.pools).foldl (poolStep s) { free := free s, credit := credit s }

def demandOn (id : String) : List PoolDemand :=
  ((poolWalk s).demand.filter fun e => e.1 == id).map Prod.snd

end

def idleTimeout (p : Provider) (l : MachineLimits) : Duration :=
  if p.idleTimeout > 0 then p.idleTimeout else l.idleTimeout

def runsNoPool (h : Host) (pools : List Pool) : Bool :=
  if h.backends.length = 0 ∨ (h.cpus ≤ 0 ∧ h.memoryMB ≤ 0) then false
  else
    let enabled := pools.filter fun pool => pool.enabled
    !(enabled.any fun pool => hostCouldRun h pool) && !enabled.isEmpty

structure DrainWalk where
  slack : String → Int
  offering : String → Int
  out : List Machine := []
  unfit : List Machine := []

section
variable (s : MachineSnapshot)

def planOf (pool : Pool) : PoolPlan := (planned s pool.id).getD {}

def capacityFor (pool : Pool) : Int :=
  (((sortedHostsForMachines s.hosts).filter fun h => hostCanRun h pool s.now).map
    Host.effectiveCapacity).sum

def slack : String → Int :=
  ledgerOf Pool.id (fun pool => capacityFor s pool - (planOf s pool).desired) (sortedPools s.pools)

def candidates : List Machine :=
  sortStableFunc
    (compareLex (fun a b => compareOn Machine.createdAt b a) (compareOn Machine.id))
    (sortedMachines s.machines)

def hasLiveRunner (h : Host) : Bool := s.runners.any fun entry => entry.2.any (liveOn h)

variable (w : DrainWalk) (m : Machine) (p : Provider)

variable (host : Host)

def drainWait : Duration :=
  if runsNoPool host (sortedPools s.pools) then s.limits.scaleDownCooldown
  else idleTimeout p s.limits + s.limits.scaleDownCooldown

def idleFor (wait : Duration) : Bool :=
  (m.idleSince.map fun t => !decide (sub s.now t < wait)).getD false

def briefSilence : Bool :=
  !host.healthy s.now && decide (sub s.now host.lastHeartbeat < s.limits.deleteGrace)

def releasable : Bool :=
  !host.retired && m.state == .ready && !hasLiveRunner s host && !m.test &&
    idleFor s m (drainWait s p host) && !briefSilence s host

def served : List Pool :=
  (sortedPools s.pools).filter fun pool => hostCanRun host pool s.now

def spares (pool : Pool) : Bool :=
  !(decide (w.slack pool.id < host.effectiveCapacity) ||
    decide ((planOf s pool).desired > (planOf s pool).current))

def grant : DrainWalk where
  slack := (served s host).foldl
    (fun slack pool => Function.update slack pool.id (slack pool.id - host.effectiveCapacity)) w.slack
  offering := Function.update w.offering p.id (w.offering p.id - 1)
  out := w.out ++ [m]
  unfit := if runsNoPool host (sortedPools s.pools) then w.unfit ++ [m] else w.unfit

def drainStep : DrainWalk :=
  match byProvider s m.providerID, byHost s m.hostID with
  | some p, some host =>
    if !releasable s m p host then w
    else if p.minMachines > 0 ∧ w.offering p.id ≤ p.minMachines then w
    else if (served s host).all (spares s w host) then grant s w m p host
    else w
  | _, _ => w

def drainable : DrainWalk :=
  (candidates s).foldl (drainStep s)
    { slack := slack s, offering := fun id => machinesOf s isOffering id }

def idsOf (machines : List Machine) (providerID : String) : List String :=
  (machines.filter fun m => m.providerID == providerID).map Machine.id

end

def poolList : List String → String
  | [] => "no pool"
  | [a] => "pool " ++ a
  | [a, b] => "pools " ++ a ++ " and " ++ b
  | names => "pools " ++ join ", " names.dropLast ++ " and " ++ names.getLastD ""

def them (n : Nat) : String := if n = 1 then "it" else "them"

def demandReason (ds : List PoolDemand) : String :=
  let slots := (ds.map PoolDemand.slots).sum
  let queued := (ds.map PoolDemand.queued).sum
  let nowhere := ds.countP PoolDemand.nowhere
  let names := ds.map PoolDemand.pool
  (if names.length > 1 then
      poolList names ++ " are " ++ plural slots "runner slot" ++ " short between them"
    else poolList names ++ " is " ++ plural slots "runner slot" ++ " short") ++
    (if queued > 0 then " with " ++ plural queued "job" ++ " queued" else "") ++
    (if nowhere = ds.length then ", and no host in the fleet can run " ++ them ds.length
      else if nowhere = 0 then ", and every host that can run " ++ them ds.length ++ " is full"
      else ", and the fleet has nowhere to put " ++ them ds.length)

structure Ceiling where
  room : Int
  what : String
  how : String
  key : String := ""

def providerMachineCeiling (p : Provider) (owned : Int) : Ceiling :=
  let room := p.maxMachines - owned
  if p.maxMachines ≤ 0 then
    { room
      what := p.name ++ " may own no machines at all"
      how := "set this provider's maximum machines to the number of machines you are willing to pay for" }
  else if owned = 0 then
    { room
      what := p.name ++ " may own only " ++ plural p.maxMachines "machine"
      how := "raise this provider's maximum machines" }
  else
    { room
      what := p.name ++ " owns " ++ plural owned "machine" ++ " and its maximum is " ++
        toString p.maxMachines
      how := "raise this provider's maximum machines, or wait for one of its machines to be released" }

def fleetMachineCeiling (l : MachineLimits) (room : Int) : Ceiling :=
  let key := "provider.max_machines"
  let owned := l.maxMachines - room
  if l.maxMachines ≤ 0 then
    { room, key
      what := "provider.max_machines is 0, so this fleet rents nothing"
      how := "set provider.max_machines to the number of machines this fleet may pay for" }
  else if owned = 0 then
    { room, key
      what := "provider.max_machines allows only " ++ plural l.maxMachines "machine" ++
        " across the fleet"
      how := "raise provider.max_machines" }
  else
    { room, key
      what := "the fleet owns " ++ plural owned "machine" ++ " and provider.max_machines is " ++
        toString l.maxMachines
      how := "raise provider.max_machines, or wait for a machine to be released" }

def providerCreateCeiling (p : Provider) (building : Int) : Ceiling :=
  let room := p.maxCreatesInFlight - building
  if p.maxCreatesInFlight ≤ 0 then
    { room
      what := p.name ++ " may build no machine at a time"
      how := "raise this provider's maximum creates in flight above 0" }
  else if building = 0 then
    { room
      what := p.name ++ " may build only " ++ plural p.maxCreatesInFlight "machine" ++ " at a time"
      how := "raise this provider's maximum creates in flight" }
  else
    { room
      what := p.name ++ " is already building " ++ plural building "machine" ++ " and may build " ++
        toString p.maxCreatesInFlight ++ " at a time"
      how := "raise this provider's maximum creates in flight, or wait for one to finish" }

def fleetCreateCeiling (l : MachineLimits) (room : Int) : Ceiling :=
  let key := "provider.max_creates_in_flight"
  let building := l.maxCreatesInFlight - room
  if l.maxCreatesInFlight ≤ 0 then
    { room, key
      what := "provider.max_creates_in_flight is 0, so nothing may be built"
      how := "set provider.max_creates_in_flight to the number of machines that may be built at once" }
  else if building = 0 then
    { room, key
      what := "provider.max_creates_in_flight allows only " ++ plural l.maxCreatesInFlight "machine" ++
        " at a time"
      how := "raise provider.max_creates_in_flight" }
  else
    { room, key
      what := "the fleet is already building " ++ plural building "machine" ++
        " and provider.max_creates_in_flight is " ++ toString l.maxCreatesInFlight
      how := "raise provider.max_creates_in_flight, or wait for one to finish" }

def bite (b : Purchase) (c : Ceiling) : Purchase :=
  if c.room < b.create then ⟨max c.room 0, c.what, c.how, c.key⟩ else b

structure ProviderWalk where
  fleetRoom : Int
  fleetCreateRoom : Int
  plans : List ProviderPlan := []
  verdicts : List PoolRenting := []

section
variable (s : MachineSnapshot)

variable (w : ProviderWalk) (p : Provider)

def wantOf : Int :=
  ceilDiv ((demandOn s p.id).map PoolDemand.slots).sum (providerSlots p)

def floorOf : Int :=
  if p.minMachines > 0 ∧ acceptsDemand p s.now then
    max (p.minMachines - machinesOf s isOffering p.id - wantOf s p) 0
  else 0

def ceilingsOf : List Ceiling :=
  [providerMachineCeiling p (owned s p.id), fleetMachineCeiling s.limits w.fleetRoom,
    providerCreateCeiling p (machinesOf s isPending p.id),
    fleetCreateCeiling s.limits w.fleetCreateRoom]

def purchaseOf : Purchase :=
  (ceilingsOf s w p).foldl bite { create := wantOf s p + floorOf s p }

def reasonOf (create : Int) : String :=
  let buy := "buy " ++ plural create "machine" ++ " on " ++ p.name ++ ": "
  if create ≤ 0 then ""
  else if wantOf s p = 0 then
    buy ++ "its minimum is " ++ plural p.minMachines "machine" ++ " and it has " ++
      toString (machinesOf s isOffering p.id)
  else if floorOf s p > 0 ∧ create > wantOf s p then
    buy ++ demandReason (demandOn s p.id) ++ ", and " ++ toString (create - wantOf s p) ++
      " of them to meet its minimum of " ++ toString p.minMachines
  else buy ++ demandReason (demandOn s p.id)

def planFor : ProviderPlan :=
  let b := purchaseOf s w p
  { providerID := p.id
    have_ := machinesOf s isHad p.id
    wanted := machinesOf s isHad p.id + wantOf s p + floorOf s p
    create := b.create
    drain := idsOf (drainable s).out p.id
    unfit := idsOf (drainable s).unfit p.id
    reason := reasonOf s p b.create
    blocked := if b.create < wantOf s p then
        plural (wantOf s p - b.create) "machine" ++ " not bought: " ++ b.because
      else ""
    blockedFix := if b.create < wantOf s p then b.fix else "" }

def providerStep : ProviderWalk :=
  let b := purchaseOf s w p
  let ds := demandOn s p.id
  { fleetRoom := w.fleetRoom - b.create
    fleetCreateRoom := w.fleetCreateRoom - b.create
    plans := w.plans ++ [planFor s w p]
    verdicts := w.verdicts ++
      ds.map fun d => chargedVerdict p d b (wantOf s p) (decide (ds.length > 1)) }

def providerWalk : ProviderWalk :=
  (sortedProviders s.providers).foldl (providerStep s)
    { fleetRoom := s.limits.maxMachines - fleetMachines s Machine.owns
      fleetCreateRoom := s.limits.maxCreatesInFlight - fleetMachines s isPending
      verdicts := (poolWalk s).verdicts }

def decideMachines : MachinePlan :=
  if (sortedProviders s.providers).isEmpty then {}
  else
    { providers := (providerWalk s).plans
      unserved := (poolWalk s).unserved
      pools := sortStableFunc
        (compareLex (compareOn PoolRenting.poolName) (compareOn PoolRenting.poolID))
        (providerWalk s).verdicts }

end
end Zoomies.Controller
