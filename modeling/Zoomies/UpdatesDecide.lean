import Zoomies.SortFunc
import Zoomies.UpdatesTarget

/-! What the update planner reads, and where each host stands against the target. -/
namespace Zoomies.Updates
open Zoomies.Go Zoomies.Version

def attemptTimeout : Duration := 90 * minute

def retryAfter : Duration := 30 * minute

def maxFailuresPerTag : Nat := 2

inductive Scope where
  | controller | host | other (word : String)
deriving DecidableEq, Repr

inductive AttemptState where
  | requested | succeeded | failed | timedOut | cancelled | other (word : String)
deriving DecidableEq, Repr

inductive RolloutState where
  | running | halted | done | cancelled | other (word : String)
deriving DecidableEq, Repr

inductive Trigger where
  | manual | auto | other (word : String)
deriving DecidableEq, Repr

structure Attempt where
  id : String
  scope : Scope
  hostID : String := ""
  toTag : String
  state : AttemptState
  requestedAt : Time := 0
  finishedAt : Time := 0
deriving DecidableEq, Repr

structure Rollout where
  target : String
  trigger : Trigger
  state : RolloutState
  /-- The hosts it was started for; none is every host that is behind. -/
  hostIDs : List String := []
  since : Time := 0
  cancelledBy : String := ""
deriving DecidableEq, Repr

structure HostFacts where
  id : String
  name : String
  version : String
  goos : String := ""
  goarch : String := ""
  embedded : Bool := false
  healthy : Bool
  canSelfUpdate : Bool
  whyNot : String := ""
  activeRunners : Int := 0
  openAttempt : Option Attempt := none
  ended : List Attempt := []
deriving DecidableEq, Repr

inductive HelperState where
  | ready | missing | unsupported | other (word : String)
deriving DecidableEq, Repr

structure Snapshot where
  now : Time
  mode : Mode
  soak : Duration := 0
  running : String
  goos : String
  goarch : String
  releases : List Release := []
  helper : HelperState
  helperWhyNot : String := ""
  fenced : Bool := false
  hostGraceUntil : Time := 0
  controller : Option Attempt := none
  controllerEnded : List Attempt := []
  rollout : Option Rollout := none
  lastRollout : Option Rollout := none
  hosts : List HostFacts

inductive ActionKind where
  | requestController | startRollout | updateHost | timeOut | halt | finishRollout | cancelRollout
deriving DecidableEq, Repr

structure Action where
  kind : ActionKind
  hostID : String := ""
  attemptID : String := ""
  tag : String := ""
  reason : String
deriving DecidableEq, Repr

structure Plan where
  actions : List Action := []
  sentence : String := ""
deriving DecidableEq, Repr

structure Facts where
  s : Snapshot
  hosts : List HostFacts
  releases : List Release
  choice : Target
  target : String
  rollout : Option Rollout

structure Planner extends Facts where
  timedOut : List (String × String) := []
  controllerNote : String := ""
  plan : Plan := {}

def compareBool (a b : Bool) : Ordering := if a == b then .eq else if !a then .lt else .gt

def compareHosts : HostFacts → HostFacts → Ordering :=
  compareLex (compareOn HostFacts.activeRunners)
    (compareLex (compareOn HostFacts.name) (compareOn HostFacts.id))

def compareReleases : Release → Release → Ordering :=
  compareLex (compareOn Release.tag) <| compareLex (compareOn Release.publishedAt) <|
    compareLex (compareOn Release.url) <|
      compareLex (fun a b => compareBool a.prerelease b.prerelease) <|
        compareLex (fun a b => compareBool a.draft b.draft) <|
          compareOn fun r => join "\n" r.assets

variable (r : Rollout) (f : Facts) (h : HostFacts)

def openRollout : Bool := r.state == .running || r.state == .halted

def newFacts (s : Snapshot) : Facts :=
  let releases := sortStableFunc compareReleases s.releases
  { s
    hosts := sortStableFunc compareHosts s.hosts
    releases
    choice := choose { mode := s.mode, soak := s.soak, now := s.now, running := s.running, releases,
                       goos := s.goos, goarch := s.goarch }
    target := (hostTarget s.running).getD ""
    rollout := s.rollout.filter openRollout }

def newPlanner (s : Snapshot) : Planner := { toFacts := newFacts s }

def Planner.act (p : Planner) (a : Action) : Planner :=
  { p with plan := { p.plan with actions := p.plan.actions ++ [a] } }

def Planner.say (p : Planner) (sentence : String) : Planner :=
  { p with plan := { p.plan with sentence } }

def Facts.controllerAttempt : Option Attempt :=
  f.s.controller.filter fun a => a.scope == .controller && a.state == .requested

def hostAttempt : Option Attempt :=
  h.openAttempt.filter fun a => a.scope == .host && a.hostID == h.id && a.state == .requested

def Facts.expired (a : Attempt) : Bool :=
  a.requestedAt != 0 && decide (sub f.s.now a.requestedAt > attemptTimeout)

def tagOr (tag fallback : String) : String :=
  -- the tag when it is a target, so that a sentence never repeats text that only claimed to be one
  if validTarget tag then tag else fallback

def label : String := if h.name ≠ "" then h.name else h.id

def withNote (sentence note : String) : String :=
  if note = "" then sentence else sentence ++ " " ++ note

def Facts.member : Bool :=
  match f.rollout with
  | none => true
  | some r => r.hostIDs.isEmpty || r.hostIDs.contains h.id

def failed (state : AttemptState) : Bool := state == .failed || state == .timedOut

def failedSince (a : Attempt) : Bool :=
  a.scope == .host && a.hostID == h.id && failed a.state && !decide (a.finishedAt < r.since) &&
    compareBuilds a.toTag r.target == .none

def failedIn : Bool := h.ended.any (failedSince r h)

def counted (tag : String) (keep : Attempt → Bool) (a : Attempt) : Bool :=
  keep a && failed a.state && compareBuilds a.toTag tag == .none

def failureStep (tag : String) (keep : Attempt → Bool) (acc : Nat × Time) (a : Attempt) :
    Nat × Time :=
  if !counted tag keep a then acc
  else (acc.1 + 1, if a.finishedAt > acc.2 then a.finishedAt else acc.2)

def failures (ended : List Attempt) (tag : String) (keep : Attempt → Bool) : Nat × Time :=
  ended.foldl (failureStep tag keep) (0, 0)

def Facts.waiting (failedAt : Time) : Bool :=
  failedAt != 0 && decide (f.s.now < failedAt + retryAfter)

def Facts.retryIn (failedAt : Time) : Span := spanOf (sub (failedAt + retryAfter) f.s.now)

def Facts.listsTarget (r : Release) : Bool :=
  validTag r.tag && !r.draft && !r.prerelease && compareBuilds r.tag f.target == .none

def Facts.carriesBinaryFor : Bool :=
  if h.goos = "" ∨ h.goarch = "" then true
  else
    let listed := f.releases.filter f.listsTarget
    listed.any (fun r => r.complete h.goos h.goarch) || listed.isEmpty

inductive Standing where
  | current | skipped | pending | ready
deriving DecidableEq, Repr

variable (p : Planner) (f : Facts) (h : HostFacts)

def Facts.assessFailures : Standing × String :=
  let name := label h
  let (n, lastFailed) := failures h.ended f.target fun a => a.scope == .host && a.hostID == h.id
  if n ≥ maxFailuresPerTag then
    (.skipped, toString n ++ " attempts to update " ++ name ++ " to " ++ f.target ++
      " have failed, so Zoomies stops trying; an operator must act. Read why on the host's card, " ++
      "then press Update there or run sudo zoomies upgrade on the host.")
  else if !h.healthy then (.pending, name ++ " is not answering, so it is updated once it is back.")
  else if n > 0 ∧ lastFailed = 0 then
    (.pending, name ++ "'s last update did not succeed and when it ended is not known, so it is " ++
      "not tried again until an operator updates it from its card.")
  else if f.waiting lastFailed then
    (.pending, name ++ "'s last update did not succeed; it is tried again in " ++
      (f.retryIn lastFailed).text ++ ".")
  else (.ready, "")

def Facts.assessBehind : Standing × String :=
  let name := label h
  if h.embedded then
    (.skipped, name ++ " is the agent inside the controller, so it is updated with the controller.")
  else if !h.canSelfUpdate then
    (.skipped, withNote (name ++ " cannot be updated from here.") (trimSpace h.whyNot))
  else if !f.carriesBinaryFor h then
    (.skipped, f.target ++ " carries no binary for the system " ++ name ++
      " runs on, so it is left alone.")
  else f.assessFailures h

def Facts.assessBuild : Option String :=
  let name := label h
  if isMainBuild f.target then
    if hostSkew h.version f.target = .differs then
      some (name ++ " runs a build that is neither a release nor one from main, so it is left alone.")
    else none
  else if (targetTag h.version).isNone then
    some (name ++ " does not run a release build, so automatic updating leaves it alone.")
  else none

def Facts.assess : Standing × String :=
  let name := label h
  if trimSpace h.version = "" then
    (.skipped, name ++ " has not said which version it runs, so it is left alone.")
  else
    match f.assessBuild h with
    | some note => (.skipped, note)
    | none =>
      match hostSkew h.version f.target with
      | .none => (.current, "")
      | .ahead =>
        (.skipped, name ++ " runs a later release than the controller's " ++ f.target ++
          " and is never taken back.")
      | .differs => (.skipped, name ++ " runs a build that is not a release, so it is left alone.")
      | .behind => f.assessBehind h

structure Survey where
  ready : Option HostFacts := none
  pending : String := ""
  note : String := ""
  updatable : Nat := 0

def Facts.surveyHost (sv : Survey) (h : HostFacts) : Survey :=
  if !f.member h then sv
  else
    let (stand, note) := f.assess h
    let sv :=
      match stand with
      | .ready => { sv with updatable := sv.updatable + 1, ready := sv.ready.or (some h) }
      | .pending =>
        { sv with updatable := sv.updatable + 1,
                  pending := if sv.pending = "" then note else sv.pending }
      | _ => sv
    { sv with note := if sv.note = "" then note else sv.note }

def Facts.survey : Survey := f.hosts.foldl f.surveyHost {}

def Planner.timeOutController : Planner :=
  match p.controllerAttempt with
  | none => p
  | some a =>
    if p.expired a then
      let reason := "The controller's update to " ++ tagOr a.toTag "a new release" ++
        " did not finish within 90 minutes, so it is recorded as timed out."
      { p with timedOut := (a.id, reason) :: p.timedOut }.act
        { kind := .timeOut, attemptID := a.id, reason }
    else p

def Planner.timeOutHost : Planner :=
  match hostAttempt h with
  | none => p
  | some a =>
    if p.expired a then
      let reason := "The update of " ++ label h ++ " to " ++ tagOr a.toTag "a new release" ++
        " did not finish within 90 minutes, so it is recorded as timed out."
      { p with timedOut := (a.id, reason) :: p.timedOut }.act
        { kind := .timeOut, hostID := h.id, attemptID := a.id, reason }
    else p

def Planner.timeOuts : Planner :=
  let q := p.timeOutController
  if p.s.now < p.s.hostGraceUntil then q else p.hosts.foldl Planner.timeOutHost q

def Planner.openSentence (a : Attempt) (who : String) : String :=
  match p.timedOut.lookup a.id with
  | some reason => reason
  | none => who ++ " is being updated to " ++ tagOr a.toTag "a new release" ++
      "; nothing else starts until that finishes."

def Planner.hostBlocks : Option String :=
  (hostAttempt h).map fun a => p.openSentence a (label h)

def Planner.blocked : Option String :=
  match p.controllerAttempt with
  | some a => some (p.openSentence a "The controller")
  | none => p.hosts.findSome? p.hostBlocks

def Planner.cancel (reason : String) : Planner :=
  (p.act { kind := .cancelRollout, reason }).say reason

def Planner.off (p : Planner) : Planner :=
  match p.rollout with
  | some r =>
    p.cancel ("Updates are off, so the rollout to " ++ tagOr r.target "its release" ++
      " is cancelled. An update already under way finishes by itself and is recorded.")
  | none => p.say (p.blocked.getD p.choice.reason)

def Planner.stopAuto (r : Rollout) : Planner :=
  p.cancel ("Updating is manual, so the rollout auto started to " ++
    tagOr r.target "its release" ++ " is cancelled and nothing moves without a click. " ++
    "An update already under way finishes by itself and is recorded.")

def Planner.haltOn (r : Rollout) (h : HostFacts) : Planner :=
  let reason := "The update of " ++ label h ++ " to " ++ tagOr r.target "its release" ++
    " did not succeed, so the rollout is halted. Read why on the host's card, then resume the " ++
    "rollout or cancel it."
  (p.act { kind := .halt, hostID := h.id, reason }).say reason

def Planner.halt : Option Planner :=
  match p.rollout with
  | none => none
  | some r =>
    if r.state ≠ .running then none
    else (p.hosts.find? fun h => p.member h && failedIn r h).map (p.haltOn r)

def Planner.halted (p : Planner) : Option Planner :=
  match p.rollout with
  | none => none
  | some r =>
    if r.state ≠ .halted then none
    else some (p.say ("The rollout to " ++ tagOr r.target "its release" ++
      " is halted, so nothing is updated until an administrator resumes or cancels it."))

def Planner.unsupportedNote (tag : String) : String :=
  let why := trimSpace p.s.helperWhyNot
  let why := if why = "" then "this controller runs where the helper's units cannot" else why
  tag ++ " can be taken now, but the update helper cannot be installed here: " ++ why ++
    ". Auto leaves the controller to a person and takes hosts to the release it runs; " ++
    "update the controller on its host with sudo zoomies upgrade."

def Planner.requestController (p : Planner) (tag : String) : Planner :=
  let (n, lastFailed) := failures p.s.controllerEnded tag fun a => a.scope == .controller
  if p.s.helper ≠ .ready then
    p.say (tag ++ " can be taken now, but the update helper is not installed beside the " ++
      "controller, so auto waits, and no host is updated before the controller. " ++
      "Run sudo zoomies updates helper install on the controller's host.")
  else if n ≥ maxFailuresPerTag then
    p.say ("Auto stops trying to update the controller to " ++ tag ++ " after " ++ toString n ++
      " failed attempts, and no host is updated before the controller; an operator must act. " ++
      "Read why in Settings → Updates, then press Update there or run sudo zoomies upgrade on " ++
      "the controller's host.")
  else if n > 0 ∧ lastFailed = 0 then
    p.say ("The controller's last update to " ++ tag ++ " did not succeed and when it ended is " ++
      "not known, so auto does not try it again; an operator must act. Press Update in " ++
      "Settings → Updates, or run sudo zoomies upgrade on the controller's host.")
  else if p.waiting lastFailed then
    p.say ("The controller's last update did not succeed; auto tries " ++ tag ++ " again in " ++
      (p.retryIn lastFailed).text ++ ".")
  else
    (p.act { kind := .requestController, tag, reason := p.choice.reason }).say p.choice.reason

def Planner.controller : Planner × Bool :=
  if p.choice.replaces || !p.choice.dueBy p.s.now then (p, false)
  else if p.s.helper = .unsupported then
    ({ p with controllerNote := p.unsupportedNote p.choice.release.tag }, false)
  else
    match p.blocked with
    | some sentence => (p.say sentence, true)
    | none => (p.requestController p.choice.release.tag, true)

def Planner.finish (reason note : String) : Planner :=
  (p.act { kind := .finishRollout, reason }).say (withNote reason note)

def Planner.updateHost (p : Planner) (h : HostFacts) : Planner :=
  (p.act { kind := .updateHost, hostID := h.id, tag := p.target
           reason := label h ++ " is behind " ++ p.target ++ " and runs the fewest jobs (" ++
             toString h.activeRunners ++
             ") of the hosts that can be updated now, so it goes next." }).say
    ("Updating " ++ label h ++ " to " ++ p.target ++
      ". Hosts are updated one at a time, the one running the fewest jobs first.")

def Planner.advanceHosts : Planner :=
  match p.blocked with
  | some sentence => p.say sentence
  | none =>
    let sv := p.survey
    match sv.ready with
    | some h => p.updateHost h
    | none =>
      if sv.pending ≠ "" then
        p.say ("The rollout to " ++ p.target ++ " is waiting. " ++ sv.pending)
      else
        p.finish ("Every host that can be updated from here runs " ++ p.target ++
          ", so the rollout is finished.") sv.note

def Planner.advance (r : Rollout) : Planner :=
  if !validTarget r.target then
    p.say ("The open rollout's target is not a release tag, so it updates nothing. " ++
      "Cancel it and start another.")
  else if p.target = "" then
    p.cancel ("The controller no longer runs a release, so there is nothing to take hosts to " ++
      "and the rollout is cancelled.")
  else
    let skew := compareTargets r.target p.target
    if skew = .differs && (isMainBuild r.target || isMainBuild p.target) then
      p.cancel ("The controller now runs " ++ p.target ++ ", not this rollout's " ++ r.target ++
        ", so the rollout is cancelled; hosts follow the controller's build in a new one.")
    else
      match skew with
      | .none => p.advanceHosts
      | .behind =>
        let next :=
          if p.s.mode ≠ .auto then "start another to bring hosts to " ++ p.target ++ "."
          else "hosts follow " ++ p.target ++ " in a new one."
        p.finish ("The controller now runs " ++ p.target ++ ", newer than this rollout's " ++
          r.target ++ ", so the rollout is finished; " ++ next) ""
      | _ =>
        p.cancel ("The controller runs " ++ p.target ++ ", not this rollout's " ++ r.target ++
          ", so the rollout is cancelled: a host is never taken past its controller.")

def Planner.idle : String :=
  if p.controllerNote ≠ "" then p.controllerNote else p.choice.reason

def Facts.cancelledByHand : Bool :=
  f.s.lastRollout.any fun lr => lr.state == .cancelled && lr.cancelledBy != "" &&
    compareTargets lr.target f.target == .none

def startReason (target : String) (updatable : Nat) : String :=
  let hosts :=
    if updatable = 1 then "1 host is behind it and is"
    else toString updatable ++ " hosts are behind it and are"
  "Starting a rollout to " ++ target ++ ", the release the controller runs: " ++ hosts ++
    " updated one at a time."

def Planner.start (p : Planner) : Planner :=
  match p.blocked with
  | some sentence => p.say sentence
  | none =>
    if p.s.mode ≠ .auto ∨ p.target = "" then p.say p.idle
    else
      let sv := p.survey
      if sv.ready.isNone then p.say (withNote p.idle sv.note)
      else if p.cancelledByHand then
        p.say ("The rollout to " ++ p.target ++ " was cancelled by hand, so auto will not start " ++
          "another rollout to " ++ p.target ++
          " until a newer release is out or somebody starts one.")
      else
        let reason := startReason p.target sv.updatable
        (p.act { kind := .startRollout, tag := p.target, reason }).say reason

def Planner.walk : Planner :=
  match p.rollout with
  | some r => p.advance r
  | none => p.start

def Planner.move : Planner :=
  if p.s.mode = .auto then
    match p.controller with
    | (q, true) => q
    | (q, false) => q.walk
  else p.walk

def Facts.startedByAuto : Option Rollout :=
  if f.s.mode = .manual then f.rollout.filter fun r => r.trigger != .manual else none

def decide (s : Snapshot) : Plan :=
  if s.fenced then
    { sentence := "This controller is fenced for recovery or does not hold the database's lease, " ++
        "so automatic updating starts, halts and closes nothing until it may act again." }
  else
    let p := (newPlanner s).timeOuts
    if s.mode ≠ .manual ∧ s.mode ≠ .auto then p.off.plan
    else
      match p.startedByAuto with
      | some r => (p.stopAuto r).plan
      | none => ((p.halt.or p.halted).getD p.move).plan

end Zoomies.Updates
