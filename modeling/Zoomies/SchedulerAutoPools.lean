import Zoomies.SchedulerPlan
import Zoomies.SchedulerRoom

/-! The pools the controller keeps: one for every architecture and size class with a host in it. -/
namespace Zoomies.Naming

def archLabel (arch : String) : String :=
  if normalizeArch arch = archAMD64 then "x64"
  else if normalizeArch arch = archARM64 then "arm64"
  else ""

end Zoomies.Naming

namespace Zoomies.Store

def brand : String := "zoomies"

def brandLabels (labels : List String) : List String := normalizeLabels (brand :: labels)

def SizeClass.label (c : SizeClass) : String := brand ++ "-" ++ c.text

def exactSizeClass (s : String) : Option SizeClass :=
  [SizeClass.small, .medium, .large].find? fun c => c.text == s

def Host.effectiveSizeClass (h : Host) : Option SizeClass × Bool :=
  match h.labels.lookup labelSize with
  | some v => (exactSizeClass v, true)
  | none => (h.sizeClass, false)

end Zoomies.Store

namespace Zoomies.Scheduler
open Zoomies.Go Zoomies.Store Zoomies.Naming

inductive SkipReason | cordoned | incompatible | silent | noClass | badSize | arch | backend
  deriving DecidableEq

inductive AutoPoolChangeKind | create | resize | enable | disable | reshape
  deriving DecidableEq

structure AutoPoolInput where
  now : Time
  hosts : List Host := []
  pools : List Pool := []
  installationID : String := ""
  runnerGroup : String := ""
  since : Time := 0
  grace : Duration := 0
  dockerMode : Option DockerMode := none
  size : Option (Pool → Pool) := none
  previous : String → Option (List String) := fun _ => none

structure AutoPoolChange where
  kind : AutoPoolChangeKind
  key : String
  /-- Absent for a pool being created. -/
  before : Option Pool := none
  after : Pool
  hosts : List String := []
  slots : Int := 0
  reshaped : Bool := false
  cause : String

inductive FindingCode | nameTaken | labelTaken | hostSkipped
  deriving DecidableEq

structure AutoPoolFinding where
  code : FindingCode
  subject : String
  message : String
  fix : String

structure HostSkip where
  host : Host
  reason : SkipReason

structure AutoPoolPlan where
  changes : List AutoPoolChange := []
  findings : List AutoPoolFinding := []
  skipped : List HostSkip := []
  members : List (String × List String) := []
  slots : List (String × Int) := []

def AutoPoolPlan.add (a b : AutoPoolPlan) : AutoPoolPlan where
  changes := a.changes ++ b.changes
  findings := a.findings ++ b.findings
  skipped := a.skipped ++ b.skipped
  members := a.members ++ b.members
  slots := a.slots ++ b.slots

variable (input : AutoPoolInput) (arch : String) (c : SizeClass)

def AutoPoolInput.sizeHook : Pool → Pool := input.size.getD id

def autoPoolKey : String := autoKeyFor arch c

def autoPoolName : String :=
  let a := normalizeArch arch
  join "-" ([brand] ++ (if a ≠ "" ∧ a ≠ archAMD64 then [a] else []) ++ [c.text])

def autoPoolLabels : List String :=
  brandLabels [c.label, "linux", archLabel arch]

def newAutoPool (backend : BackendKind) : Pool :=
  let burst := if backend = .docker ∨ backend = .podman then BurstMode.observe else .unset
  { name := autoPoolName arch c
    installationID := input.installationID
    runnerGroup := input.runnerGroup
    labels := autoPoolLabels arch c
    backend := backend
    platform := { arch := arch }
    pullPolicy := .ifNotPresent
    idleTimeout := 5 * minute
    ephemeral := true
    dockerMode := input.dockerMode.getD .none
    cacheScope := "pool"
    sizeFromProfile := true
    hostSelector := [(labelSize, c.text)]
    autoKey := autoPoolKey arch c
    enabled := true
    cpuBurst := burst
    memoryBurst := burst }

def laterOf (a b : Time) : Time := if a < b then b else a

def autoClassOf (h : Host) : Except SkipReason (String × SizeClass) :=
  if h.cordoned then .error .cordoned
  else if h.incompatible then .error .incompatible
  -- a controller that was down has heard from nobody, so silence counts from its start too
  else if sub input.now (laterOf h.lastHeartbeat input.since) > input.grace then .error .silent
  else if normalizeArch h.arch = "" then .error .arch
  else
    -- an operator's tag that names no class keeps the host out; no tag and no class only for now
    match h.effectiveSizeClass with
    | (some c, _) => .ok (normalizeArch h.arch, c)
    | (none, true) => .error .badSize
    | (none, false) => .error .noClass

def hostKey (h : Host) : Option String :=
  match autoClassOf input h with
  | .ok (arch, c) => some (autoPoolKey arch c)
  | .error _ => none

def skipOf (h : Host) : Option HostSkip :=
  match autoClassOf input h with
  | .ok _ => none
  | .error reason => some ⟨h, reason⟩

variable (reasons : String → Option SkipReason) (key : String) (p : Pool)

def groupOf : List Host :=
  (sortedHosts input.hosts).filter fun h => hostKey input h == some key

def isOurs : Bool :=
  p.fromHosts && p.installationID == input.installationID

def ours : Option Pool :=
  ((sortedPools input.pools).filter fun p => isOurs input p && p.autoKey == key).getLast?

def elsewhere : List Pool :=
  (sortedPools input.pools).filter fun p =>
    p.fromHosts && p.installationID != input.installationID

def compareKeys : String → String → Ordering :=
  compareLex (compareOn fun key => ((parseAutoKey key).map fun ac => ac.2.rank).getD (-1))
    (compareOn fun key => ((parseAutoKey key).map Prod.fst).getD "")

def orderedKeys : List String :=
  sortStableFunc compareKeys
    (((sortedHosts input.hosts).filterMap (hostKey input) ++
      ((sortedPools input.pools).filter (isOurs input)).map Pool.autoKey).dedup)

def offersBackend (backend : Option BackendKind) (h : Host) : Bool :=
  backend.elim false fun b => h.backends.contains b.text

def autoBackend (hosts : List Host) : Option BackendKind :=
  [BackendKind.docker, .podman].find? fun b => hosts.any (offersBackend (some b))

def keyBackend : Option BackendKind :=
  match ours input key with
  | some p => some p.backend
  | none => autoBackend (groupOf input key)

def membersOf : List Host :=
  (groupOf input key).filter (offersBackend (keyBackend input key))

def leftOut : List Host :=
  (groupOf input key).filter fun h => !offersBackend (keyBackend input key) h

def hostNames (hosts : List Host) : List String := hosts.map Host.name

def archPhrase : String := if arch = archAMD64 then "x64" else arch

def hostPhrase : List Host → String
  | [] => "no host"
  | [h] => "host " ++ forSentence h.name
  | hosts => plural hosts.length "host"

def joinedWithHosts (hosts : List Host) (slots : Int) : String :=
  join ", " ((hostNames hosts).map forSentence) ++ " (" ++ plural slots "slot" ++ ")"

def skipPhrase : Option SkipReason → String
  | some .cordoned => "was cordoned"
  | some .incompatible => "runs an agent this controller cannot place work on"
  | some .silent => "has not been heard from for too long"
  | some .backend => "offers no backend this pool can use"
  | some .badSize => "has a size label that is not a class"
  | some .arch => "reports an architecture no pool is kept for"
  | some .noClass => "has no class yet"
  | none => "no longer counts"

def leftParts (previous now : List String) (all : List Host)
    (reasons : String → Option SkipReason) : List String :=
  (previous.filter fun n => !now.contains n).map fun n =>
    "host " ++ forSentence n ++ " " ++
      match all.reverse.find? fun h => h.name == n with
      | some h => skipPhrase (reasons h.id)
      | none => "was removed"

def resizeCause (before after : Pool) (previous : Option (List String)) (members all : List Host)
    (reasons : String → Option SkipReason) (slots : Int) : String :=
  let head :=
    if before.maxRunners = after.maxRunners then
      "warm runners " ++ toString before.minRunners ++ " → " ++ toString after.minRunners
    else "maximum runners " ++ toString before.maxRunners ++ " → " ++ toString after.maxRunners
  match previous with
  | none => head ++ ": recomputed from " ++ hostPhrase members ++ ", " ++ plural slots "slot"
  | some previous =>
    let now := hostNames members
    let joined := (now.filter fun n => !previous.contains n).map fun n =>
      "host " ++ forSentence n ++ " joined"
    let parts := joined ++ leftParts previous now all reasons
    let otherwise :=
      if before.maxRunners = after.maxRunners then
        "an operator asked for " ++ plural after.autoMin "runner" ++ " kept warm"
      else if after.autoCap > 0 ∧ slots > after.autoCap then
        "an operator capped the pool at " ++ plural after.autoCap "runner"
      else "the slots of " ++ hostPhrase members ++ " changed"
    head ++ ": " ++ join "; " (if parts.isEmpty then [otherwise] else parts)

def skippedFinding (s : HostSkip) : Option AutoPoolFinding :=
  let label := forSentence s.host.name
  let found (fix : String) : Option AutoPoolFinding :=
    some { code := .hostSkipped, subject := s.host.name, fix := fix
           message := "host " ++ label ++ " is in no automatic pool: it " ++
             skipPhrase (some s.reason) }
  match s.reason with
  | .badSize => found ("set the size tag on host " ++ label ++ " to small, medium or large " ++
      "exactly as written here, or remove it to let the controller work it out.")
  | .arch => found ("host " ++ label ++ " reports " ++ quoted (forSentence s.host.arch) ++
      "; automatic pools are kept for amd64 and arm64 hosts only.")
  | .backend => found ("host " ++ label ++ " offers no backend the pool for its class uses; " ++
      "enable Docker or Podman on it.")
  | _ => none

def skippedFindings (skipped : List HostSkip) : List AutoPoolFinding :=
  skipped.filterMap skippedFinding

def collisionWith : Option AutoPoolFinding :=
  let name := autoPoolName arch c
  let sameName := normalizeLabel p.name = normalizeLabel name
  let called := "the pool for " ++ c.text ++ " " ++ archPhrase arch ++
    " hosts would be called " ++ name
  -- pool names are unique across installations, so a pool left behind still holds its name
  if p.fromHosts ∧ p.installationID ≠ input.installationID ∧ sameName then
    some { code := .nameTaken, subject := name
           message := called ++ ", which is the name of the pool the controller kept for " ++
             "another GitHub App installation before automatic pools were moved to this one"
           fix := "delete pool " ++ p.name ++ ", which is out of use and holds the name, and " ++
             "the automatic pool for this installation will be made on the next pass." }
  else if p.fromHosts then none
  else if sameName then
    some { code := .nameTaken, subject := name
           message := called ++ ", which is the name of a pool you made"
           fix := "rename pool " ++ p.name ++ ", or move its hosts into the automatic pool by " ++
             "removing its host selector and letting this one take them." }
  else if p.installationID = input.installationID ∧ c.label ∈ normalizeLabels p.labels then
    some { code := .labelTaken, subject := name
           message := "pool " ++ p.name ++ " already answers to " ++ c.label ++
             ", the label the pool for " ++ c.text ++
             " hosts would use, so jobs that ask for it would be split between the two"
           fix := "take " ++ c.label ++ " off pool " ++ p.name ++
             ", or rename it, and the automatic pool will be made on the next pass." }
  else none

def autoCollision : Option AutoPoolFinding :=
  (sortedPools input.pools).findSome? (collisionWith input arch c)

def labelClash (kept : Pool) (c : SizeClass) : Option AutoPoolFinding :=
  ((sortedPools input.pools).find? fun p =>
    !p.fromHosts && p.installationID == kept.installationID && p.enabled &&
      (normalizeLabels p.labels).contains c.label).map fun p =>
    { code := .labelTaken, subject := kept.name
      message := "pool " ++ p.name ++ " answers to " ++ c.label ++ " as well as the pool " ++
        kept.name ++ " the controller keeps for " ++ c.text ++
        " hosts, so jobs that ask for it are split between the two"
      fix := "take " ++ c.label ++ " off pool " ++ p.name ++
        ", or rename it and give it a label of its own." }

def sameSelector (a b : List (String × String)) : Bool :=
  decide (a.length = b.length) && a.all fun kv => (b.lookup kv.1).getD "" == kv.2

def reshape (arch : String) (c : SizeClass) : Pool :=
  let want := newAutoPool input arch c p.backend
  { p with
    labels :=
      if normalizeLabels p.labels ≠ normalizeLabels want.labels then want.labels else p.labels
    platform := want.platform
    hostSelector :=
      if sameSelector p.hostSelector want.hostSelector then p.hostSelector else want.hostSelector
    sizeFromProfile := true
    dockerMode := want.dockerMode
    ephemeral := true
    resources := {} }

def reshaped (arch : String) (c : SizeClass) : Bool :=
  let want := newAutoPool input arch c p.backend
  decide (normalizeLabels p.labels ≠ normalizeLabels want.labels) ||
    decide (p.platform ≠ want.platform) || !sameSelector p.hostSelector want.hostSelector ||
    !p.sizeFromProfile || decide (p.dockerMode ≠ want.dockerMode) || !p.ephemeral ||
    decide (p.resources ≠ {})

def withoutLiveDisk (h : Host) : Host := { h with diskTotalMB := 0, diskFreeMB := 0 }

def autoSlots (hosts : List Host) (size : Pool → Pool) : Int :=
  (hosts.map fun h => (hostRoomFor (withoutLiveDisk h) (size p)).room).sum

def capped (slots cap : Int) : Int := if cap > 0 then min slots cap else slots

def withLimits (slots : Int) : Pool :=
  { p with
    maxRunners := capped slots p.autoCap
    minRunners := min p.autoMin (capped slots p.autoCap) }

def createdPool (backend : BackendKind)
    (members : List Host) : Pool :=
  let p := newAutoPool input arch c backend
  withLimits p (autoSlots p members input.sizeHook)

def desiredPool (existing : Pool) (arch : String) (c : SizeClass)
    (members : List Host) : Pool :=
  let shaped := reshape input existing arch c
  let sized := withLimits shaped (autoSlots shaped members input.sizeHook)
  if members.isEmpty then { sized with enabled := false, minRunners := 0, maxRunners := 0 }
  else { sized with enabled := !shaped.autoPaused }

def retiredPool : Pool := { p with enabled := false, minRunners := 0, maxRunners := 0 }

def changeCause (arch : String)
    (c : SizeClass) (existing desired : Pool) (members : List Host) (slots : Int)
    (derived : Bool) : AutoPoolChangeKind × String :=
  let room := plural desired.maxRunners "runner"
  if desired.autoPaused && existing.enabled then
    (.disable, "an operator paused the pool, so it takes no new work whatever its hosts do")
  else if members.isEmpty && existing.enabled then
    let left := leftParts ((input.previous key).getD []) [] input.hosts reasons
    (.disable, "no " ++ c.text ++ " " ++ archPhrase arch ++ " host is left to take work" ++
      if left.isEmpty then "" else ": " ++ join "; " left)
  else if !members.isEmpty && !existing.enabled && !existing.autoPaused then
    -- A pool whose hosts were all there the last time was paused, and somebody has stopped.
    if ((input.previous key).getD []).isEmpty then
      (.enable, hostPhrase members ++ " is back, so the pool is in use again with room for " ++
        room)
    else
      (.enable, "an operator resumed the pool, so it is in use again with room for " ++ room)
  else if derived then
    (.resize, resizeCause existing desired (input.previous key) members input.hosts reasons slots)
  else
    (.reshape, "its fixed settings were brought back in line with the automatic pool settings")

def keptChange (arch : String)
    (c : SizeClass) (existing : Pool) (members : List Host) : Option AutoPoolChange :=
  let desired := desiredPool input existing arch c members
  let slots := autoSlots (reshape input existing arch c) members input.sizeHook
  let shaped := reshaped input existing arch c
  let derived := existing.minRunners != desired.minRunners ||
    existing.maxRunners != desired.maxRunners || existing.enabled != desired.enabled
  -- nothing the pass writes differs: no change, and so no line in the audit log
  if !derived && !shaped then none
  else
    let (kind, cause) :=
      changeCause input reasons key arch c existing desired members slots derived
    some { kind := kind, key := key, before := some existing, after := desired
           hosts := hostNames members, slots := slots, reshaped := shaped
           cause := if shaped && kind != .reshape then cause ++
             "; its fixed settings were also brought back in line with the automatic pool settings"
             else cause }

def keyPlan (arch : String)
    (c : SizeClass) : AutoPoolPlan :=
  let members := membersOf input key
  let skipped := (leftOut input key).map fun h => HostSkip.mk h .backend
  match ours input key with
  | some existing =>
    { skipped := skipped
      members := [(key, hostNames members)]
      slots := [(key, autoSlots (reshape input existing arch c) members input.sizeHook)]
      changes := (keptChange input reasons key arch c existing members).toList
      findings := (labelClash input existing c).toList }
  | none =>
    match keyBackend input key with
    | none => { skipped := skipped }
    | some backend =>
      if members.isEmpty then { skipped := skipped }
      else
        match autoCollision input arch c with
        | some clash => { skipped := skipped, findings := [clash] }
        | none =>
          let slots := autoSlots (newAutoPool input arch c backend) members input.sizeHook
          { skipped := skipped
            members := [(key, hostNames members)]
            slots := [(key, slots)]
            changes :=
              [{ kind := .create, key := key, after := createdPool input arch c backend members
                 hosts := hostNames members, slots := slots
                 cause := "no pool existed for " ++ c.text ++ " " ++ archPhrase arch ++
                   " hosts, and " ++ hostPhrase members ++ " has joined: " ++
                   joinedWithHosts members slots }] }

def noteLeftOut (hosts : List Host) (id : String) : Option SkipReason :=
  if hosts.any fun h => h.id == id then some .backend else reasons id

def planKeys (input : AutoPoolInput) : (String → Option SkipReason) → List String → AutoPoolPlan
  | _, [] => {}
  | reasons, key :: rest =>
    match parseAutoKey key with
    | none => planKeys input reasons rest
    | some (arch, c) =>
      let reasons := noteLeftOut reasons (leftOut input key)
      (keyPlan input reasons key arch c).add (planKeys input reasons rest)

def elsewhereChange : Option AutoPoolChange :=
  if !p.enabled && p.maxRunners == 0 then none
  else
    some { kind := .disable, key := p.autoKey, before := some p, after := retiredPool p
           cause := "automatic pools now use another GitHub App installation, " ++
             "so this one is put out of use" }

def planAutoPools : AutoPoolPlan :=
  let skipped := (sortedHosts input.hosts).filterMap (skipOf input)
  let reasons (id : String) := (skipped.find? fun s => s.host.id == id).map HostSkip.reason
  let keyed := planKeys input reasons (orderedKeys input)
  let skipped := skipped ++ keyed.skipped
  { keyed with
    skipped := skipped
    changes := keyed.changes ++ (elsewhere input).filterMap elsewhereChange
    findings := keyed.findings ++ skippedFindings skipped }

end Zoomies.Scheduler
