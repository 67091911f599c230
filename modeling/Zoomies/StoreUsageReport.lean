import Zoomies.Sweep
import Zoomies.StoreUsageDaily

/-! The jobs a usage report reads, and under which key each is counted. -/
namespace Zoomies.Store
open Zoomies.Go

structure UsageJob where
  poolID : String := ""
  runnerID : String := ""
  repo : String := ""
  workflow : String := ""
  matched : Bool := false
  state : JobState
  labels : List String := []
  queuedAt : Int
  startedAt : Option Int := none
  completedAt : Option Int := none
  conclusion : String := ""
  runnerFault : String := ""
deriving DecidableEq

def hostedPrefixes : List String := ["ubuntu-", "windows-", "macos-"]

def vendorPrefixes : List String :=
  ["blacksmith", "buildjet-", "warp-", "namespace-profile-", "nscloud-", "depot-", "ubicloud"]

def startsLike (word value : String) : Bool :=
  (word.toList.map Char.toLower).isPrefixOf (value.toList.map Char.toLower)

def hostedJobSQL (j : UsageJob) : Bool :=
  decide (j.labels.length > 0) &&
    !j.labels.any fun value => (hostedPrefixes ++ vendorPrefixes).all fun word => !startsLike word value

def managedJobSQL (j : UsageJob) : Bool :=
  j.matched || j.poolID != "" || j.runnerID != "" ||
    (!j.matched && (j.state == .queued || j.state == .waiting) && !hostedJobSQL j)

def usageJobsInWindowSQL (lo hi : Int) (jobs : List UsageJob) : List UsageJob :=
  (jobs.filter fun j =>
      j.state = .completed ∧ (∃ done, j.completedAt = some done ∧ done ≥ lo) ∧ j.queuedAt < hi) ++
    (jobs.filter fun j => j.state = .completed ∧ j.completedAt = none ∧ j.queuedAt < hi) ++
    (jobs.filter fun j => (j.state = .waiting ∨ j.state = .queued ∨ j.state = .inProgress) ∧
      j.queuedAt < hi ∧ j.completedAt.getD hi ≥ lo)

def UsageGroup.expr (s : UsageLedger) : UsageGroup → Option (UsageJob → String)
  | .installation => some fun j =>
    ((rowAt LedgerPool.id j.poolID s.pools).map LedgerPool.installationID).getD ""
  | .repository => some UsageJob.repo
  | .workflow => some UsageJob.workflow
  | .host => some fun j =>
    -- a job whose runner row is gone is still on the host its session names
    match rowAt LedgerRunner.id j.runnerID s.runners with
    | some r => r.hostID
    | none => ((rowAt RunnerSession.runnerID j.runnerID s.sessions).map RunnerSession.hostID).getD ""
  | .pool => some UsageJob.poolID
  | .other _ => none

inductive JobOutcome where
  | failed | succeeded | cancelled | unknown
deriving DecidableEq

def failedConclusions : List String := ["failure", "timed_out", "startup_failure"]

def isFailedConclusion (conclusion : String) : Bool := failedConclusions.contains conclusion

def UsageJob.outcome (j : UsageJob) : JobOutcome :=
  if j.runnerFault ≠ "" ∨ isFailedConclusion j.conclusion then .failed
  else if j.conclusion = "success" then .succeeded
  else if j.conclusion = "cancelled" ∨ j.conclusion = "skipped" then .cancelled
  else .unknown

inductive UsageInterval where
  | auto | hourly | twoHours | threeHours | fourHours | sixHours | eightHours | twelveHours | daily
  | other (word : String)
deriving DecidableEq

def usageIntervalHours : UsageInterval → Option Int
  | .hourly => some 1
  | .twoHours => some 2
  | .threeHours => some 3
  | .fourHours => some 4
  | .sixHours => some 6
  | .eightHours => some 8
  | .twelveHours => some 12
  | .daily => some 24
  | _ => none

def UsageInterval.width (i : UsageInterval) (source until_ : Time) : Duration :=
  match usageIntervalHours i with
  | some h => h * hour
  | none => if until_ - source ≤ 48 * hour then hour else 24 * hour

structure UsageBucket where
  source : Time
  queued : Int := 0
  started : Int := 0
  succeeded : Int := 0
  failed : Int := 0
  cancelled : Int := 0
  unknown : Int := 0
  executionSeconds : ℚ := 0
  allocatedSeconds : ℚ := 0
  capacitySamples : Int := 0
  capacityReached : Int := 0
deriving DecidableEq

structure UsageRow where
  key : String
  history : List UsageBucket := []
  succeeded : Int := 0
  failed : Int := 0
  cancelled : Int := 0
  unknown : Int := 0
  jobExecutionSeconds : ℚ := 0
  allocatedRunnerSeconds : Option ℚ := none
  jobs : Int := 0
  jobsStarted : Int := 0
  jobsCompleted : Int := 0
  averageQueueWaitSeconds : Option ℚ := none
  peakConcurrency : Int := 0
  estimatedCost : Option ℚ := none
deriving DecidableEq

structure UsageAcc where
  row : UsageRow
  wait : ℚ := 0
  allocated : ℚ := 0
  events : List (Edge Int) := []
  crashed : Bool := false

def UsageAcc.fresh (key : String) : UsageAcc := { row := { key } }

section
variable (source : Time) (w : UsageWindow)

def UsageWindow.count : Nat := ((w.hi - w.lo + w.width - 1) / w.width).toNat

def freshHistory : List UsageBucket :=
  (List.range w.count).map fun n : Nat => { source := source + (n : Int) * w.width * 1000000 }

def onBucket (t : Int) (f : UsageBucket → UsageBucket) (x : UsageAcc) : UsageAcc :=
  if t < w.lo ∨ t ≥ w.hi then { x with crashed := true }
  else
    let i := (w.bucket t).toNat
    let history := if x.row.history = [] then freshHistory source w else x.row.history
    match history[i]? with
    | none => { x with crashed := true }
    | some b => { x with row := { x.row with history := history.set i (f b) } }

variable (j : UsageJob) (x : UsageAcc)

def countQueued : UsageAcc :=
  if j.queuedAt ≥ w.lo ∧ j.queuedAt < w.hi then
    onBucket source w j.queuedAt (fun b => { b with queued := b.queued + 1 })
      { x with row := { x.row with jobs := x.row.jobs + 1 } }
  else x

def countStarted : UsageAcc :=
  match j.startedAt with
  | none => x
  | some st =>
    if st ≥ w.lo ∧ st < w.hi then
      onBucket source w st (fun b => { b with started := b.started + 1 })
        { x with
          row := { x.row with jobsStarted := x.row.jobsStarted + 1 }
          wait := x.wait + (max 0 (st - j.queuedAt) : Int) / 1000 }
    else x

def UsageBucket.countOutcome (b : UsageBucket) : JobOutcome → UsageBucket
  | .failed => { b with failed := b.failed + 1 }
  | .succeeded => { b with succeeded := b.succeeded + 1 }
  | .cancelled => { b with cancelled := b.cancelled + 1 }
  | .unknown => { b with unknown := b.unknown + 1 }

def UsageRow.countOutcome (r : UsageRow) : JobOutcome → UsageRow
  | .failed => { r with failed := r.failed + 1 }
  | .succeeded => { r with succeeded := r.succeeded + 1 }
  | .cancelled => { r with cancelled := r.cancelled + 1 }
  | .unknown => { r with unknown := r.unknown + 1 }

def countCompleted : UsageAcc :=
  match j.completedAt with
  | none => x
  | some done =>
    if done ≥ w.lo ∧ done < w.hi then
      onBucket source w done (fun b => b.countOutcome j.outcome)
        { x with row :=
          UsageRow.countOutcome { x.row with jobsCompleted := x.row.jobsCompleted + 1 } j.outcome }
    else x

def execution : Option (Int × Int) :=
  match j.startedAt with
  | none => none
  | some st =>
    let stop := match j.completedAt with
      | none => w.observed
      | some done => min done w.observed
    let start := max st w.lo
    if stop > start then some (start, stop) else none

def UsageWindow.bucketEnd (t : Int) : Int := w.lo + (w.bucket t + 1) * w.width

def addPiece (p : Int × Int) : UsageAcc :=
  onBucket source w p.1
    (fun b => { b with executionSeconds := b.executionSeconds + (p.2 - p.1 : Int) / 1000 }) x

def addExecution : UsageAcc :=
  match execution w j with
  | none => x
  | some (start, stop) =>
    (cuts w.bucketEnd (cutFuel start stop) start stop).foldl (addPiece source w)
      { x with
        row := { x.row with
          jobExecutionSeconds := x.row.jobExecutionSeconds + (stop - start : Int) / 1000 }
        events := x.events ++ [⟨start, 1⟩, ⟨stop, -1⟩] }

def scanJob (j : UsageJob) : UsageAcc :=
  addExecution source w j (countCompleted source w j (countStarted source w j (countQueued source w j x)))

def addFed (f : Fed) : UsageAcc :=
  let x := onBucket source w f.start
    (fun b => { b with allocatedSeconds := b.allocatedSeconds + f.secs })
    { x with allocated := x.allocated + f.secs }
  match f.cost with
  | none => x
  | some cost => { x with row := { x.row with estimatedCost := some (x.row.estimatedCost.getD 0 + cost) } }

structure CapacitySample where
  poolID : String
  instant : Int
  blocked : Int
deriving DecidableEq

structure CapacitySum where
  key : String
  bucket : Int
  samples : Int
  blocked : Int

def addSample (o : Option CapacitySum) (c : CapacitySample) : CapacitySum :=
  match o with
  | none => ⟨c.poolID, w.bucket c.instant, 1, c.blocked⟩
  | some g => ⟨c.poolID, w.bucket c.instant, g.samples + 1, g.blocked + c.blocked⟩

def capacitySums (samples : List CapacitySample) : List CapacitySum :=
  (samples.filter fun c => c.instant ≥ w.lo ∧ c.instant < w.hi).foldl
    (amend (fun g => (g.key, g.bucket)) (fun c => (c.poolID, w.bucket c.instant)) (addSample w)) []

def addCapacity (x : UsageAcc) (g : CapacitySum) : UsageAcc :=
  onBucket source w (w.lo + g.bucket * w.width)
    (fun b => { b with
      capacitySamples := b.capacitySamples + g.samples
      capacityReached := b.capacityReached + g.blocked }) x

def gather {γ : Type} (under : γ → String) (f : UsageAcc → γ → UsageAcc) (accs : List UsageAcc)
    (rows : List γ) : List UsageAcc :=
  rows.foldl (amend (fun x => x.row.key) under fun o c => f (o.getD (UsageAcc.fresh (under c))) c) accs

end

def UsageAcc.nothing (x : UsageAcc) : Bool :=
  x.row.jobs == 0 && x.row.jobsStarted == 0 && x.row.jobsCompleted == 0 &&
    x.row.jobExecutionSeconds == 0 && x.allocated == 0 && x.row.history.length == 0

def sortEvents (events : List (Edge Int)) : List (Edge Int) :=
  sortStableFunc (compareLex (compareOn Edge.instant) (compareOn Edge.delta)) events

def UsageAcc.finish (attributable : Bool) (x : UsageAcc) : UsageRow :=
  { x.row with
    allocatedRunnerSeconds := if attributable then some x.allocated else none
    averageQueueWaitSeconds :=
      if x.row.jobsStarted > 0 then some (x.wait / x.row.jobsStarted) else none
    peakConcurrency := sweep (sortEvents x.events) }

def UsageGroup.attributable (group : UsageGroup) : Bool :=
  group == .pool || group == .installation || group == .host

structure UsageTables where
  jobs : List UsageJob
  ledger : UsageLedger
  samples : List CapacitySample

inductive UsageFailure where
  | failed (e : StoreError)
  | crashed

def allocationFeeds (d : Driver) (group : UsageGroup) (w : UsageWindow) (s : UsageLedger) :
    Except StoreError (List Fed) :=
  if group.attributable then usageAllocation d group w s else .ok []

def reportWindow (now source until_ : Time) (interval : UsageInterval) : UsageWindow where
  lo := ms source
  hi := ms until_
  observed := min (ms until_) (ms now)
  width := interval.width source until_ / 1000000

def gathered (source : Time) (w : UsageWindow) (expr : UsageJob → String) (group : UsageGroup)
    (s : UsageTables) (feeds : List Fed) : List UsageAcc :=
  let jobs := (usageJobsInWindowSQL w.lo w.hi s.jobs).filter managedJobSQL
  let accs := gather expr (scanJob source w) [] jobs
  let accs := gather Fed.key (addFed source w) accs feeds
  if group = .pool then gather CapacitySum.key (addCapacity source w) accs (capacitySums w s.samples)
  else accs

def usageWithInterval (d : Driver) (now : Time) (s : UsageTables) (source until_ : Time)
    (group : UsageGroup) (interval : UsageInterval) : Except UsageFailure (List UsageRow) :=
  if ¬source < until_ ∨ until_ - source > 366 * 24 * hour then
    .error (.failed (.refused "usage range must have from before to"))
  else
    match group.expr s.ledger with
    | none => .error (.failed (.refused ("unknown usage group " ++ quoted group.text)))
    | some expr =>
      match d.queryError with
      | some e => .error (.failed (.driver e))
      | none =>
        let w := reportWindow now source until_ interval
        match allocationFeeds d group w s.ledger with
        | .error e => .error (.failed e)
        | .ok feeds =>
          let accs := gathered source w expr group s feeds
          if accs.any UsageAcc.crashed then .error .crashed
          else .ok (sortStableFunc (compareOn UsageRow.key)
            ((accs.filter fun x => !x.nothing).map (UsageAcc.finish group.attributable)))

end Zoomies.Store
