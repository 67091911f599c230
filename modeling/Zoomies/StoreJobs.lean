import Zoomies.StoreRows
import Zoomies.SchedulerLabels

/-! A job row and the deliveries that make it: the first inserts it, later ones are merged into it.
-/
namespace Zoomies.Store
open Zoomies.Go List

def jobRank : JobState → Int
  | .waiting => 1
  | .queued => 2
  | .inProgress => 3
  | .completed => 4

structure JobChange where
  created : Bool := false
  previousState : Option JobState := none
  stateChanged : Bool := false
  claimed : Bool := false
  runnerLinked : Bool := false
  deriving DecidableEq

structure JobCondition where
  state : JobState
  startedAt : Option Time

def carry {α : Type} [DecidableEq α] (blank : α) (current : Bool) (dst v : α) : α :=
  if v ≠ blank ∧ (current = true ∨ dst = blank) then v else dst

def arrived (now : Time) (newID : String) (j : JobRow) : JobRow :=
  { j with
    id := if j.id = "" then newID else j.id
    queuedAt := if j.queuedAt = 0 then now else j.queuedAt
    labels := normalizeLabels j.labels
    -- a job that arrives claimed is eligible from the moment it is first seen
    eligibleAt := if j.matched ∧ j.state ≠ .waiting ∧ j.eligibleAt = none then some now
      else j.eligibleAt }

variable (existing j : JobRow)

def insertedJob : JobRow :=
  { j with
    queuedAt := atMillis (ms j.queuedAt)
    startedAt := kept j.startedAt
    completedAt := kept j.completedAt
    eligibleAt := kept j.eligibleAt
    cancelRequestedAt := kept j.cancelRequestedAt
    routedClass := none }

def arrivalChange : JobChange :=
  { created := true
    stateChanged := true
    claimed := j.matched
    runnerLinked := j.runnerID != "" }

def isCurrent : Bool := decide (jobRank j.state ≥ jobRank existing.state)

def mergeJob (now : Time) (existing j : JobRow) : JobRow :=
  let current := isCurrent existing j
  let state := if current then j.state else existing.state
  let matched := existing.matched || j.matched
  { existing with
    state := state
    steps := if current ∧ j.steps ≠ [] then j.steps else existing.steps
    -- the deployment review ended and the job has entered the queue
    queuedAt := if existing.state = .waiting ∧ state = .queued then now else existing.queuedAt
    headBranch := carry "" current existing.headBranch j.headBranch
    headSHA := carry "" current existing.headSHA j.headSHA
    runnerFault := carry "" current existing.runnerFault j.runnerFault
    faultKind := if j.faultKind ≠ "" ∧ (current ∨ existing.faultKind = "")
      then (FaultKind.normalise j.faultKind).text else existing.faultKind
    conclusion := carry "" current existing.conclusion j.conclusion
    repo := carry "" current existing.repo j.repo
    workflow := carry "" current existing.workflow j.workflow
    jobName := carry "" current existing.jobName j.jobName
    installationID := carry "" current existing.installationID j.installationID
    poolID := carry "" current existing.poolID j.poolID
    runnerID := carry "" current existing.runnerID j.runnerID
    runnerName := carry "" current existing.runnerName j.runnerName
    htmlURL := carry "" current existing.htmlURL j.htmlURL
    runAttempt := carry 0 current existing.runAttempt j.runAttempt
    runNumber := carry 0 current existing.runNumber j.runNumber
    githubRunID := carry 0 current existing.githubRunID j.githubRunID
    labels := if j.labels ≠ [] ∧ (current ∨ existing.labels = [])
      then normalizeLabels j.labels else existing.labels
    -- the first start a delivery reports is kept, current or not
    startedAt := carry none false existing.startedAt j.startedAt
    completedAt := carry none current existing.completedAt j.completedAt
    matched := matched
    eligibleAt := if matched ∧ state ≠ .waiting ∧ existing.eligibleAt = none then some now
      else existing.eligibleAt }

def writeJob (row : JobRow) : JobRow :=
  { row with
    githubRunID := j.githubRunID
    repo := j.repo
    workflow := j.workflow
    jobName := j.jobName
    labels := j.labels
    state := j.state
    conclusion := j.conclusion
    installationID := j.installationID
    poolID := j.poolID
    runnerID := j.runnerID
    runnerName := j.runnerName
    htmlURL := j.htmlURL
    startedAt := kept j.startedAt
    completedAt := kept j.completedAt
    matched := j.matched
    eligibleAt := kept j.eligibleAt
    headBranch := j.headBranch
    headSHA := j.headSHA
    runAttempt := j.runAttempt
    runNumber := j.runNumber
    steps := j.steps
    runnerFault := j.runnerFault
    faultKind := j.faultKind
    queuedAt := atMillis (ms j.queuedAt) }

def sameArguments (a b : JobRow) : Bool :=
  a.githubRunID == b.githubRunID && a.repo == b.repo && a.workflow == b.workflow &&
  a.jobName == b.jobName && a.state == b.state && a.conclusion == b.conclusion &&
  a.installationID == b.installationID && a.poolID == b.poolID && a.runnerID == b.runnerID &&
  a.runnerName == b.runnerName && a.htmlURL == b.htmlURL &&
  msp a.startedAt == msp b.startedAt && msp a.completedAt == msp b.completedAt &&
  a.matched == b.matched && msp a.eligibleAt == msp b.eligibleAt &&
  a.headBranch == b.headBranch && a.headSHA == b.headSHA && a.runAttempt == b.runAttempt &&
  a.runNumber == b.runNumber && a.runnerFault == b.runnerFault && a.faultKind == b.faultKind &&
  ms a.queuedAt == ms b.queuedAt && a.id == b.id &&
  decide (a.labels = b.labels) && decide (a.steps = b.steps)

def outdated (c : JobCondition) : Bool :=
  existing.state != c.state || existing.startedAt != c.startedAt

def mergeChange (merged : JobRow) : JobChange :=
  { previousState := some existing.state
    stateChanged := merged.state != existing.state
    claimed := !existing.matched && merged.matched
    runnerLinked := existing.runnerID == "" && merged.runnerID != "" }

def applyJob (d : Driver) (now : Time) (newID : String) (j : JobRow)
    (conditions : List JobCondition) (t : List JobRow) :
    List JobRow × Except StoreError (JobRow × JobChange) :=
  tx d t <|
    match d.queryError with
    | some e => .error (.driver e)
    | none =>
      match rowAt (·.githubJobID) j.githubJobID t with
      | none =>
        let job := arrived now newID j
        if !conditions.isEmpty then .error (.conflict "already exists")
        else if t.any fun o => o.id == job.id then
          .error (.driver "UNIQUE constraint failed: jobs.id")
        else refusing d.execError (t ++ [insertedJob job], (job, arrivalChange job))
      | some existing =>
        if conditions.any (outdated existing) then
          .ok (t, (existing, { previousState := some existing.state }))
        else
          let merged := mergeJob now existing j
          let result := (merged, mergeChange existing merged)
          if merged.state ≠ existing.state ∨ sameArguments merged existing = false then
            refusing d.execError (setAt (·.id) merged.id (writeJob merged) t, result)
          else .ok (t, result)

def storedMerge (merged : JobRow) : JobRow :=
  if merged.state ≠ existing.state ∨ sameArguments merged existing = false then
    writeJob merged existing
  else existing

section
variable {t : List JobRow} (now : Time) (newID : String) {j : JobRow}
  (hjob : ∀ o ∈ t, o.githubJobID ≠ j.githubJobID)
include hjob

theorem rowAt_other_jobs : rowAt (·.githubJobID) j.githubJobID t = none := by
  rw [rowAt, find?_eq_none]
  intro o ho hk
  exact hjob o ho (beq_iff_eq.mp hk)

theorem applyJob_new (hid : ∀ o ∈ t, o.id ≠ (arrived now newID j).id) :
    applyJob {} now newID j [] t = (t ++ [insertedJob (arrived now newID j)],
      .ok (arrived now newID j, arrivalChange (arrived now newID j))) := by
  have hany : (t.any fun o => o.id == (arrived now newID j).id) = false := by
    rw [any_eq_false]
    intro o ho hk
    exact hid o ho (beq_iff_eq.mp hk)
  unfold applyJob
  simp only [rowAt_other_jobs hjob, isEmpty_nil, Bool.not_true, Bool.false_eq_true,
    ↓reduceIte, hany]
  rfl

theorem applyJob_known {row : JobRow} (hrow : row.githubJobID = j.githubJobID)
    (hid : ∀ o ∈ t, o.id ≠ row.id) : applyJob {} now newID j [] (t ++ [row]) =
      (t ++ [storedMerge row (mergeJob now row j)],
        .ok (mergeJob now row j, mergeChange row (mergeJob now row j))) := by
  have hfind : rowAt (·.githubJobID) j.githubJobID (t ++ [row]) = some row := by
    rw [rowAt_append, rowAt_other_jobs hjob, Option.none_or, if_pos hrow]
  have hset : setAt (·.id) row.id (writeJob (mergeJob now row j)) (t ++ [row]) =
      t ++ [writeJob (mergeJob now row j) row] := by
    rw [setAt, map_append, map_cons, if_pos rfl]
    congr 1
    conv_rhs => rw [← map_id t]
    apply map_congr_left
    intro o ho
    rw [if_neg (hid o ho)]
    rfl
  unfold applyJob
  simp only [hfind, any_nil, Bool.false_eq_true, ↓reduceIte]
  rw [show (mergeJob now row j).id = row.id from rfl, hset]
  unfold storedMerge
  by_cases hw : (mergeJob now row j).state ≠ row.state ∨
      sameArguments (mergeJob now row j) row = false
  · rw [if_pos hw, if_pos hw]
    rfl
  · rw [if_neg hw, if_neg hw]
    rfl

end

theorem writeJob_of_same {a b : JobRow} {row : JobRow} (h : sameArguments a b = true) :
    writeJob a row = writeJob b row := by
  simp only [sameArguments, Bool.and_eq_true, beq_iff_eq, decide_eq_true_eq] at h
  simp only [writeJob, kept, h]

structure KeptJob (row : JobRow) : Prop where
  queuedAt : atMillis (ms row.queuedAt) = row.queuedAt
  startedAt : kept row.startedAt = row.startedAt
  completedAt : kept row.completedAt = row.completedAt
  eligibleAt : kept row.eligibleAt = row.eligibleAt

theorem keptJob_inserted {j : JobRow} : KeptJob (insertedJob j) := by
  refine ⟨?_, kept_kept _, kept_kept _, kept_kept _⟩
  dsimp only [insertedJob]
  rw [ms_atMillis]

theorem keptJob_writeJob {j row : JobRow} : KeptJob (writeJob j row) := by
  refine ⟨?_, kept_kept _, kept_kept _, kept_kept _⟩
  dsimp only [writeJob]
  rw [ms_atMillis]

theorem storedMerge_eq {row : JobRow} {merged : JobRow} (h : KeptJob row) :
    storedMerge row merged = writeJob merged row := by
  unfold storedMerge
  split
  · rfl
  rename_i hw
  have hsame : sameArguments merged row = true := by
    rw [not_or] at hw
    exact Bool.not_eq_false _ |>.mp hw.2
  have hself : writeJob row row = row := by
    simp only [writeJob, h.queuedAt, h.startedAt, h.completedAt, h.eligibleAt]
  rw [writeJob_of_same hsame, hself]

theorem rank_merge (now : Time) (row j : JobRow) :
    jobRank row.state ≤ jobRank (mergeJob now row j).state := by
  dsimp only [mergeJob]
  by_cases hc : isCurrent row j = true
  · rw [if_pos hc]
    exact of_decide_eq_true hc
  · rw [if_neg hc]

theorem carry_same {α : Type} [DecidableEq α] {blank : α} {current : Bool} {a : α} :
    carry blank current a a = a := by
  unfold carry
  split <;> rfl

end Zoomies.Store
