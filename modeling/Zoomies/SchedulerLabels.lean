import Zoomies.StoreModels
import Zoomies.BestChoice
import Zoomies.SortFunc

/-! Which pool a queued job goes to. -/
namespace Zoomies.Store
open Zoomies.Go Zoomies.Naming

def implicitLabels : List String :=
  ["self-hosted", "linux", "windows", "macos", "x64", "arm", "arm64"]

def normalizeLabel (s : String) : String := toLower (trimSpace s)

def isNormalized : List String → Bool
  | [] => true
  | [l] => l != "" && normalizeLabel l == l
  | l :: m :: rest =>
    l != "" && normalizeLabel l == l && decide (l < m) && isNormalized (m :: rest)

def normalizeLabels (labels : List String) : List String :=
  if !labels.isEmpty && isNormalized labels then labels
  else (((labels.map normalizeLabel).filter (· != "")).eraseDups).insertionSort (· ≤ ·)

def parseSizeClass (s : String) : Option SizeClass :=
  let c := toLower (trimSpace s)
  if c = SizeClass.small.text then some .small
  else if c = SizeClass.medium.text then some .medium
  else if c = SizeClass.large.text then some .large
  else none

def autoKeyFor (arch : String) (c : SizeClass) : String := normalizeArch arch ++ "/" ++ c.text

def parseAutoKey (key : String) : Option (String × SizeClass) :=
  match cut '/' key with
  | none => none
  | some (arch, c) =>
    match parseSizeClass c with
    | none => none
    | some cls => if normalizeArch arch ≠ arch ∨ arch = "" then none else some (arch, cls)

end Zoomies.Store

namespace Zoomies.Scheduler
open Zoomies.Store

def osLabels : List String := ["linux", "windows", "macos"]

def archLabels : List String := ["x64", "arm", "arm64"]

def exactScore : Int := 65536

def contradicts (pool job dim : List String) : Bool :=
  pool.any dim.contains && job.any fun l => dim.contains l && !pool.contains l

def matchesLabels (pool job : List String) (implicit : Bool) : Bool :=
  (job.all fun l => (implicit && implicitLabels.contains l) || pool.contains l) &&
    !contradicts pool job osLabels && !contradicts pool job archLabels

def surplusScore (pool job : List String) : Int :=
  max (exactScore - (pool.filter fun l => !job.contains l).length) 0

def refusalBeforeLabels (p : Pool) (j : Job) : Option String :=
  if !p.enabled then some "the pool is disabled"
  else if j.installationID = "" then some "no GitHub App installation here covers that repository"
  else if p.installationID ≠ j.installationID then
    some "the pool belongs to another GitHub App installation"
  else none

def lessPool (a b : Pool) : Bool :=
  if a.name ≠ b.name then decide (a.name < b.name) else decide (a.id < b.id)

def classPreference (want : SizeClass) (p : Pool) : Int :=
  if !p.fromHosts then 1
  else
    match parseAutoKey p.autoKey with
    | none => 1
    | some (_, have_) =>
      let d := have_.rank - want.rank
      if d = 0 then 0 else if d > 0 then 1 + d else 10 - d

def offDefaultArch (p : Pool) : Bool := p.fromHosts && p.platform.arch != "amd64"

variable (pools : List Pool) (j : Job)

def lessPoolFor (a b : Pool) : Bool :=
  match j.routedClass with
  | none => lessPool a b
  | some want =>
    if classPreference want a ≠ classPreference want b then
      decide (classPreference want a < classPreference want b)
    else if offDefaultArch a ≠ offDefaultArch b then offDefaultArch b
    else lessPool a b

structure Claim where
  pool : Option Pool := none
  reason : String := ""

def installationName (id : String) (targets : String → String) : String :=
  if targets id = "" then id else targets id

def targetsOf (insts : List Installation) (id : String) : String :=
  ((insts.find? fun i => i.id == id).map Installation.target).getD ""

def bestOf (targets : String → String) : Claim :=
  let job := normalizeLabels j.labels
  let open_ := pools.filter fun p =>
    p.enabled && matchesLabels (normalizeLabels p.labels) job (!p.noDefaultLabels)
  let score := fun p : Pool => surplusScore (normalizeLabels p.labels) job
  let better := fun p best =>
    decide (score p > score best) || (decide (score p = score best) && lessPoolFor j p best)
  match bestChoice better (open_.filter fun p => (refusalBeforeLabels p j).isNone) with
  | some p => { pool := some p }
  | none =>
    match bestChoice lessPool (open_.filter fun p => (refusalBeforeLabels p j).isSome) with
    | none => {}
    | some elsewhere =>
      if j.installationID = "" then
        { reason := "its labels match pool " ++ elsewhere.name ++
            ", but no GitHub App installation here covers " ++ j.repo }
      else
        { reason := "its labels match pool " ++ elsewhere.name ++
            ", which belongs to installation " ++ installationName elsewhere.installationID targets }

structure ClaimKey where
  labels : List String
  installationID : String
  routedClass : Option SizeClass
  repo : Option String
  deriving DecidableEq

def claimKey : ClaimKey where
  labels := normalizeLabels j.labels
  installationID := j.installationID
  routedClass := j.routedClass
  repo := if j.installationID = "" then some j.repo else none

structure UnmatchedJob where
  job : Job
  reason : String

structure Assignment where
  demand : String → List Job := fun _ => []
  unmatched : List UnmatchedJob := []
  answers : List (ClaimKey × Claim) := []

def compareJobs : Job → Job → Ordering :=
  compareLex (compareOn fun j => !j.provisionNow)
    (compareLex (compareOn Job.queuedAt) (compareOn Job.id))

def sortedJobs (jobs : List Job) : List Job := sortStableFunc compareJobs jobs

def waitingJob : Bool := j.state == .queued && j.provisioning == .unset

def Assignment.claim (a : Assignment) (pools : List Pool) (targets : String → String) (j : Job) :
    Claim × Assignment :=
  match a.answers.lookup (claimKey j) with
  | some c => (c, a)
  | none =>
    let c := bestOf pools j targets
    (c, { a with answers := (claimKey j, c) :: a.answers })

def Assignment.step (targets : String → String) (a : Assignment) (j : Job) : Assignment :=
  if !waitingJob j then a
  else
    let (c, a) := a.claim pools targets j
    match c.pool with
    | none => { a with unmatched := a.unmatched ++ [⟨j, c.reason⟩] }
    | some p => { a with demand := Function.update a.demand p.id (a.demand p.id ++ [j]) }

def assign (jobs : List Job) (targets : String → String) : Assignment :=
  (sortedJobs jobs).foldl (Assignment.step pools targets) {}

end Zoomies.Scheduler
