import Zoomies.StoreJobsMerge

/-! A delivery applied again changes nothing, and one that comes too late only fills what is blank.
-/
namespace Zoomies.Store
open Zoomies.Go List

structure Absorbs (j row : JobRow) : Prop where
  state : isCurrent row j = true → j.state = row.state
  steps : isCurrent row j = true → j.steps ≠ [] → j.steps = row.steps
  not_waiting : row.state ≠ .waiting
  headBranch : carry "" (isCurrent row j) row.headBranch j.headBranch = row.headBranch
  headSHA : carry "" (isCurrent row j) row.headSHA j.headSHA = row.headSHA
  runnerFault : carry "" (isCurrent row j) row.runnerFault j.runnerFault = row.runnerFault
  faultKind : j.faultKind ≠ "" ∧ (isCurrent row j = true ∨ row.faultKind = "") →
    (FaultKind.normalise j.faultKind).text = row.faultKind
  conclusion : carry "" (isCurrent row j) row.conclusion j.conclusion = row.conclusion
  repo : carry "" (isCurrent row j) row.repo j.repo = row.repo
  workflow : carry "" (isCurrent row j) row.workflow j.workflow = row.workflow
  jobName : carry "" (isCurrent row j) row.jobName j.jobName = row.jobName
  installationID : carry "" (isCurrent row j) row.installationID j.installationID =
    row.installationID
  poolID : carry "" (isCurrent row j) row.poolID j.poolID = row.poolID
  runnerID : carry "" (isCurrent row j) row.runnerID j.runnerID = row.runnerID
  runnerName : carry "" (isCurrent row j) row.runnerName j.runnerName = row.runnerName
  htmlURL : carry "" (isCurrent row j) row.htmlURL j.htmlURL = row.htmlURL
  runAttempt : carry 0 (isCurrent row j) row.runAttempt j.runAttempt = row.runAttempt
  runNumber : carry 0 (isCurrent row j) row.runNumber j.runNumber = row.runNumber
  githubRunID : carry 0 (isCurrent row j) row.githubRunID j.githubRunID = row.githubRunID
  labels : j.labels ≠ [] ∧ (isCurrent row j = true ∨ row.labels = []) →
    normalizeLabels j.labels = row.labels
  startedAt : kept (carry none false row.startedAt j.startedAt) = row.startedAt
  completedAt : kept (carry none (isCurrent row j) row.completedAt j.completedAt) = row.completedAt
  matched : (row.matched || j.matched) = row.matched
  eligibleAt : row.matched = true → row.eligibleAt ≠ none
  kept_row : KeptJob row

variable {j row : JobRow}

theorem absorbs_same {now : Time} (h : Absorbs j row) : writeJob (mergeJob now row j) row = row ∧
      mergeChange row (mergeJob now row j) = { previousState := some row.state } := by
  have hstate : (if isCurrent row j = true then j.state else row.state) = row.state := by
    split
    · rename_i hc
      exact h.state hc
    · rfl
  have hsteps : (if isCurrent row j = true ∧ j.steps ≠ [] then j.steps else row.steps) =
      row.steps := by
    split
    · rename_i hc
      exact h.steps hc.1 hc.2
    · rfl
  have hfault : (if j.faultKind ≠ "" ∧ (isCurrent row j = true ∨ row.faultKind = "")
      then (FaultKind.normalise j.faultKind).text else row.faultKind) = row.faultKind := by
    split
    · rename_i hc
      exact h.faultKind hc
    · rfl
  have hlabels : (if j.labels ≠ [] ∧ (isCurrent row j = true ∨ row.labels = [])
      then normalizeLabels j.labels else row.labels) = row.labels := by
    split
    · rename_i hc
      exact h.labels hc
    · rfl
  have hqueued : (if row.state = .waiting ∧ row.state = .queued then now else row.queuedAt) =
      row.queuedAt := if_neg fun hc => h.not_waiting hc.1
  have heligible : (if row.matched = true ∧ row.state ≠ .waiting ∧ row.eligibleAt = none
      then some now else row.eligibleAt) = row.eligibleAt :=
    if_neg fun hc => h.eligibleAt hc.1 hc.2.2
  have hmerge : mergeJob now row j = { row with
      startedAt := carry none false row.startedAt j.startedAt
      completedAt := carry none (isCurrent row j) row.completedAt j.completedAt } := by
    simp [mergeJob, hstate, hsteps, hfault, hlabels, hqueued, h.matched, heligible, h.headBranch, h.headSHA, h.runnerFault, h.conclusion, h.repo, h.workflow, h.jobName, h.installationID, h.poolID, h.runnerID, h.runnerName, h.htmlURL, h.runAttempt, h.runNumber, h.githubRunID]
  rw [hmerge]
  refine ⟨?_, ?_⟩
  · simp only [writeJob, h.startedAt, h.completedAt, h.kept_row.queuedAt, h.kept_row.eligibleAt]
  · simp [mergeChange]

structure Replayable (now : Time) (j : JobRow) : Prop where
  -- not about a waiting job, with a fault kind this build knows and no time that is stored as none
  not_waiting : j.state ≠ .waiting
  known_kind : (FaultKind.normalise j.faultKind).text = j.faultKind
  clock : ms now ≠ 0
  eligible : j.eligibleAt ≠ none → kept j.eligibleAt ≠ none

variable {α : Type} {blank dst v : α} {current : Bool}

theorem carry_carry [DecidableEq α] :
    carry blank current (carry blank current dst v) v = carry blank current dst v := by
  by_cases h : v ≠ blank ∧ (current = true ∨ dst = blank)
  · have hc : carry blank current dst v = v := if_pos h
    rw [hc, carry_same]
  have hc : carry blank current dst v = dst := if_neg h
  rw [hc]
  exact hc

theorem kept_carry_self {v : Option Time} : kept (carry none current (kept v) v) = kept v := by
  unfold carry
  split
  · rfl
  · exact kept_kept v

theorem kept_carry_carry {dst : Option Time} {v : Option Time} (h : kept dst = dst) :
    kept (carry none current (kept (carry none current dst v)) v) =
      kept (carry none current dst v) := by
  by_cases hv : v ≠ none ∧ (current = true ∨ dst = none)
  · have hc : carry none current dst v = v := if_pos hv
    rw [hc]
    exact kept_carry_self
  have hc : carry none current dst v = dst := if_neg hv
  rw [hc, h, hc]
  exact h

variable {now : Time}

theorem isSome_of_kept (h : ms now ≠ 0) : kept (some now) ≠ none := by
  rw [kept_some h]
  exact Option.some_ne_none _

theorem absorbs_first {newID : String} (h : Replayable now j) :
    Absorbs j (insertedJob (arrived now newID j)) := by
  refine ⟨fun _ => rfl, fun _ _ => rfl, h.not_waiting, carry_same, carry_same,
    carry_same, fun _ => h.known_kind, carry_same, carry_same, carry_same,
    carry_same, carry_same, carry_same, carry_same, carry_same,
    carry_same, carry_same, carry_same, carry_same, fun _ => rfl,
    kept_carry_self, kept_carry_self, Bool.or_self _, ?_, keptJob_inserted⟩
  intro hmatched
  change kept (if j.matched = true ∧ j.state ≠ .waiting ∧ j.eligibleAt = none then some now
    else j.eligibleAt) ≠ none
  by_cases hnone : j.eligibleAt = none
  · rw [if_pos ⟨hmatched, h.not_waiting, hnone⟩]
    exact isSome_of_kept h.clock
  · rw [if_neg (fun hc => hnone hc.2.2)]
    exact h.eligible hnone

theorem isCurrent_merged (now : Time) (row j : JobRow) :
    isCurrent (writeJob (mergeJob now row j) row) j = isCurrent row j := by
  have hstate : (writeJob (mergeJob now row j) row).state =
      if isCurrent row j = true then j.state else row.state := rfl
  cases hc : isCurrent row j with
  | true =>
    rw [hc, if_pos rfl] at hstate
    rw [isCurrent, hstate]
    exact decide_eq_true (le_refl _)
  | false =>
    rw [hc, if_neg Bool.false_ne_true] at hstate
    rw [isCurrent, hstate]
    exact hc

theorem merged_not_waiting (now : Time) (row : JobRow) (h : j.state ≠ .waiting) :
    (mergeJob now row j).state ≠ .waiting := by
  change (if isCurrent row j = true then j.state else row.state) ≠ .waiting
  split
  · exact h
  rename_i hc
  intro hw
  apply hc
  rw [isCurrent, hw]
  cases hs : j.state with
  | waiting => exact absurd hs h
  | queued | inProgress | completed => decide

theorem set_settled [DecidableEq α] {w : α}
    (h : v ≠ blank ∧ (current = true ∨ (if v ≠ blank ∧ (current = true ∨ dst = blank) then w
      else dst) = blank)) :
    w = if v ≠ blank ∧ (current = true ∨ dst = blank) then w else dst := by
  by_cases hset : v ≠ blank ∧ (current = true ∨ dst = blank)
  · rw [if_pos hset]
  · rw [if_neg hset] at h
    exact absurd h hset

theorem absorbs_merged (hrow : KeptJob row) (h : Replayable now j) :
    Absorbs j (writeJob (mergeJob now row j) row) := by
  have hcurrent := isCurrent_merged now row j
  have hnw := merged_not_waiting now row h.not_waiting
  refine ⟨?_, ?_, hnw, ?_, ?_, ?_, ?_, ?_, ?_, ?_, ?_, ?_, ?_, ?_, ?_, ?_, ?_, ?_, ?_, ?_,
    kept_carry_carry hrow.startedAt, ?_, ?_, ?_, keptJob_writeJob⟩
  case refine_21 =>
    change (row.matched || j.matched || j.matched) = (row.matched || j.matched)
    rw [Bool.or_assoc, Bool.or_self]
  case refine_22 =>
    intro hmatched
    change kept (if (row.matched || j.matched) = true ∧ (mergeJob now row j).state ≠ .waiting ∧
      row.eligibleAt = none then some now else row.eligibleAt) ≠ none
    by_cases hnone : row.eligibleAt = none
    · rw [if_pos ⟨hmatched, hnw, hnone⟩]
      exact isSome_of_kept h.clock
    · rw [if_neg (fun hc => hnone hc.2.2), hrow.eligibleAt]
      exact hnone
  all_goals rw [hcurrent]
  case refine_1 => exact fun hc => (if_pos hc).symm
  case refine_2 => exact fun hc hne => (if_pos ⟨hc, hne⟩).symm
  case refine_6 => exact set_settled
  case refine_19 => exact set_settled
  case refine_20 => exact kept_carry_carry hrow.completedAt
  all_goals exact carry_carry

variable {c : JobCall}

theorem absorbs_row {prev : Option JobRow} (hprev : ∀ row, prev = some row → KeptJob row)
    (h : Replayable c.now c.job) : Absorbs c.job (c.row prev) := by
  cases prev with
  | none => exact absorbs_first h
  | some row => exact absorbs_merged (hprev row rfl) h

variable {calls : List JobCall}

theorem apply_again {g : Int} {t : List JobRow} (h : OneJob g t (calls ++ [c]))
    (hc : Replayable c.now c.job) {again : Time} {newID : String} :
    ∃ saved, (JobCall.mk c.job again newID).apply (runJobs (calls ++ [c]) t) =
      (runJobs (calls ++ [c]) t, .ok (saved, { previousState := some saved.state })) := by
  have hmem : c ∈ calls ++ [c] := mem_append_right _ mem_cons_self
  have hinit := OneJob.init h
  obtain ⟨hg, hid, hkept⟩ := rowAfter_spec h _ rowAfter_append
  obtain ⟨hrow, hchange⟩ := absorbs_same (absorbs_row
    (fun row hrow => (rowAfter_spec hinit row hrow).2.2) hc)
  have hothers : ∀ o ∈ t, o.githubJobID ≠ c.job.githubJobID := by
    rw [h.one_job c hmem]
    exact h.others
  have happly := applyJob_known again newID hothers (hg.trans (h.one_job c hmem).symm) hid
  rw [storedMerge_eq hkept, hrow, hchange] at happly
  rw [runJobs_eq h, rowAfter_append, Option.toList_some]
  have hstate : (writeJob (mergeJob again (c.row (rowAfter calls)) c.job)
      (c.row (rowAfter calls))).state = (c.row (rowAfter calls)).state :=
    congrArg (fun r : JobRow => r.state) hrow
  rw [← hstate] at happly
  exact ⟨_, happly⟩

def Fills {α : Type} (blank old new : α) : Prop := old ≠ blank → new = old

structure OnlyFills (row row' : JobRow) : Prop where
  headBranch : Fills "" row.headBranch row'.headBranch
  headSHA : Fills "" row.headSHA row'.headSHA
  runnerFault : Fills "" row.runnerFault row'.runnerFault
  faultKind : Fills "" row.faultKind row'.faultKind
  conclusion : Fills "" row.conclusion row'.conclusion
  repo : Fills "" row.repo row'.repo
  workflow : Fills "" row.workflow row'.workflow
  jobName : Fills "" row.jobName row'.jobName
  installationID : Fills "" row.installationID row'.installationID
  poolID : Fills "" row.poolID row'.poolID
  runnerID : Fills "" row.runnerID row'.runnerID
  runnerName : Fills "" row.runnerName row'.runnerName
  htmlURL : Fills "" row.htmlURL row'.htmlURL
  runAttempt : Fills 0 row.runAttempt row'.runAttempt
  runNumber : Fills 0 row.runNumber row'.runNumber
  githubRunID : Fills 0 row.githubRunID row'.githubRunID
  labels : Fills [] row.labels row'.labels
  startedAt : Fills none row.startedAt row'.startedAt
  completedAt : Fills none row.completedAt row'.completedAt
  matched : Fills false row.matched row'.matched
  eligibleAt : Fills none row.eligibleAt row'.eligibleAt
  others : { row' with
    headBranch := row.headBranch
    headSHA := row.headSHA
    runnerFault := row.runnerFault
    faultKind := row.faultKind
    conclusion := row.conclusion
    repo := row.repo
    workflow := row.workflow
    jobName := row.jobName
    installationID := row.installationID
    poolID := row.poolID
    runnerID := row.runnerID
    runnerName := row.runnerName
    htmlURL := row.htmlURL
    runAttempt := row.runAttempt
    runNumber := row.runNumber
    githubRunID := row.githubRunID
    labels := row.labels
    startedAt := row.startedAt
    completedAt := row.completedAt
    matched := row.matched
    eligibleAt := row.eligibleAt } = row

theorem fills_set [DecidableEq α] {w : α} :
    Fills blank dst (if v ≠ blank ∧ (false = true ∨ dst = blank) then w else dst) := by
  intro hne
  apply if_neg
  rintro ⟨-, hc | hb⟩
  · exact Bool.false_ne_true hc
  · exact hne hb

theorem fills_kept {dst new : Option Time} (hk : kept dst = dst) (h : Fills none dst new) :
    Fills none dst (kept new) := by
  intro hne
  rw [h hne, hk]

theorem late_only_fills (now : Time) (hrow : KeptJob row) (hdone : row.state = .completed)
    (hj : j.state ≠ .completed) : OnlyFills row (writeJob (mergeJob now row j) row) := by
  have hcurrent : isCurrent row j = false := by
    rw [isCurrent, hdone]
    cases hs : j.state with
    | completed => exact absurd hs hj
    | waiting | queued | inProgress => rfl
  have hstate : (if isCurrent row j = true then j.state else row.state) = row.state := by
    rw [hcurrent, if_neg Bool.false_ne_true]
  have hsteps : (if isCurrent row j = true ∧ j.steps ≠ [] then j.steps else row.steps) =
      row.steps := by
    rw [hcurrent, if_neg fun hc => Bool.false_ne_true hc.1]
  have hqueued : atMillis (ms (if row.state = .waiting ∧
      (if isCurrent row j = true then j.state else row.state) = .queued
      then now else row.queuedAt)) = row.queuedAt := by
    rw [if_neg ?_, hrow.queuedAt]
    rw [hdone]
    exact fun hc => JobState.noConfusion hc.1
  refine ⟨?_, ?_, ?_, ?_, ?_, ?_, ?_, ?_, ?_, ?_, ?_, ?_, ?_, ?_, ?_, ?_, ?_,
    fills_kept hrow.startedAt fills_set, ?_, ?_, ?_, ?_⟩
  case refine_18 =>
    apply fills_kept hrow.completedAt
    dsimp only [mergeJob]
    rw [hcurrent]
    exact fills_set
  case refine_19 =>
    intro hm
    change (row.matched || j.matched) = row.matched
    rw [Bool.eq_true_of_not_eq_false hm, Bool.true_or]
  case refine_20 =>
    apply fills_kept hrow.eligibleAt
    intro hne
    exact if_neg fun hc => hne hc.2.2
  case refine_21 =>
    dsimp only [writeJob, mergeJob]
    rw [hstate, hsteps, hdone]
    rw [hstate] at hqueued
    rw [← hdone, hqueued]
  all_goals
    dsimp only [writeJob, mergeJob]
    rw [hcurrent]
    exact fills_set

theorem OneJob.take (g : Int) (t : List JobRow) (calls : List JobCall) (k : Nat)
    (h : OneJob g t calls) : OneJob g t (calls.take k) :=
  ⟨h.others, fun c hc => h.one_job c (mem_of_mem_take hc),
    fun c hc => h.new_id c (mem_of_mem_take hc)⟩

theorem apply_fills {g : Int} {t : List JobRow} (h : OneJob g t calls)
    (hrow : rowAt (·.githubJobID) g (runJobs calls t) = some row) (hdone : row.state = .completed)
    (hg : c.job.githubJobID = g) (hc : c.job.state ≠ .completed) :
    ∃ row', rowAt (·.githubJobID) g (c.apply (runJobs calls t)).1 = some row' ∧
      OnlyFills row row' := by
  rw [rowAt_runJobs h] at hrow
  obtain ⟨hrg, hid, hkept⟩ := rowAfter_spec h row hrow
  have hothers : ∀ o ∈ t, o.githubJobID ≠ c.job.githubJobID := by
    rw [hg]
    exact h.others
  have hnone : rowAt (·.githubJobID) g t = none := by
    rw [rowAt, find?_eq_none]
    intro o ho hk
    exact h.others o ho (beq_iff_eq.mp hk)
  have happly := applyJob_known c.now c.newID hothers (hrg.trans hg.symm) hid
  rw [storedMerge_eq hkept] at happly
  refine ⟨_, ?_, late_only_fills c.now hkept hdone hc⟩
  rw [runJobs_eq h, hrow, Option.toList_some, JobCall.apply, happly, rowAt_append, hnone,
    Option.none_or]
  exact if_pos hrg

theorem rowAfter_none_of_subset {calls' : List JobCall}
    (hsub : ∀ j ∈ calls'.map (fun c => c.job), j ∈ calls.map fun c => c.job)
    (h : rowAfter calls = none) : rowAfter calls' = none := by
  have hnil : calls'.map (fun c => c.job) = [] := by
    apply eq_nil_iff_forall_not_mem.mpr
    intro j hj
    have hmem := hsub j hj
    rw [rowAfter_eq_none h] at hmem
    cases hmem
  rw [map_eq_nil_iff.mp hnil]
  rfl

/-- Deliveries of one job that agree merge without regard to order or repetition. -/
theorem deliveries_merge (g : Int) (t : List JobRow) (calls calls' : List JobCall)
    (h : OneJob g t calls) (h' : OneJob g t calls')
    (hset : ∀ j, j ∈ calls.map (fun c => c.job) ↔ j ∈ calls'.map fun c => c.job)
    (ha : Agreeing (calls.map fun c => c.job)) (hs : StepsGiven (calls.map fun c => c.job)) :
    (rowAt (·.githubJobID) g (runJobs calls t)).map view =
        (rowAt (·.githubJobID) g (runJobs calls' t)).map view ∧
      (∀ i k row last, i ≤ k → rowAt (·.githubJobID) g (runJobs (calls.take i) t) = some row →
        rowAt (·.githubJobID) g (runJobs (calls.take k) t) = some last →
        jobRank row.state ≤ jobRank last.state) ∧
      (∀ k row, rowAt (·.githubJobID) g (runJobs (calls.take k) t) = some row →
        entered calls t row.state = 1) ∧
      (reports calls t).countP (fun x => x.2.claimed) ≤ 1 ∧
      (reports calls t).countP (fun x => x.2.runnerLinked) ≤ 1 ∧
      (∀ before c after, calls = before ++ c :: after → Replayable c.now c.job →
        ∀ again newID, ∃ saved, (JobCall.mk c.job again newID).apply (runJobs (before ++ [c]) t) =
            (runJobs (before ++ [c]) t, .ok (saved, { previousState := some saved.state }))) ∧
      ∀ k row, rowAt (·.githubJobID) g (runJobs (calls.take k) t) = some row →
        row.state = .completed → ∀ c : JobCall, c.job.githubJobID = g → c.job.state ≠ .completed →
        ∃ row', rowAt (·.githubJobID) g (c.apply (runJobs (calls.take k) t)).1 = some row' ∧
          OnlyFills row row' := by
  refine ⟨?_, ?_, ?_, claimed_once t h, runnerLinked_once t h, ?_, ?_⟩
  · rw [rowAt_runJobs h, rowAt_runJobs h']
    have hs' : StepsGiven (calls'.map fun c => c.job) := fun j hj => hs j ((hset j).mpr hj)
    have ha' := ha.subset _ (calls'.map fun c => c.job) fun j hj => (hset j).mpr hj
    cases hrow : rowAfter calls with
    | none =>
      rw [rowAfter_none_of_subset (fun j hj => (hset j).mpr hj) hrow]
    | some row =>
      cases hrow' : rowAfter calls' with
      | none =>
        rw [rowAfter_none_of_subset (fun j hj => (hset j).mp hj) hrow'] at hrow
        cases hrow
      | some row' =>
        exact congrArg some (view_eq hset ha (rowAfter_merged ha hs row hrow)
          (rowAfter_merged ha' hs' row' hrow'))
  · intro i k row last hik hrow hlast
    rw [rowAt_runJobs (h.take g t calls _)] at hrow hlast
    refine rank_take i last ?_ hlast
    rw [take_take, Nat.min_eq_left hik]
    exact hrow
  · intro k row hrow
    rw [rowAt_runJobs (h.take g t calls _)] at hrow
    exact entered_once t h k row hrow
  · rintro before c after rfl hc again newID
    refine apply_again ⟨h.others, fun x hx => h.one_job x ?_, fun x hx => h.new_id x ?_⟩ hc
    all_goals
      rw [append_cons]
      exact mem_append_left _ hx
  · intro k row hrow hdone c hg hc
    exact apply_fills (h.take g t calls k) hrow hdone hg hc

def announced (job : JobRow) : JobCall :=
  { job := { job with githubJobID := 7 }
    now := unixEpoch + 60 * second
    newID := "job_1" }

def queuedSeven : JobCall :=
  announced { state := .queued, repo := "acme/app", labels := ["Linux"] }

def startedSeven : JobCall :=
  announced { state := .inProgress, repo := "acme/app", runnerName := "r-1", runnerID := "run_1" }

def finishedSeven : JobCall :=
  announced { state := .completed, conclusion := "success", steps := [{ number := 1 }] }

theorem deliveries_merge_seven :
    (rowAt (·.githubJobID) 7 (runJobs [queuedSeven, startedSeven, finishedSeven] [])).map view =
      (rowAt (·.githubJobID) 7
        (runJobs [finishedSeven, queuedSeven, startedSeven, queuedSeven] [])).map view := by
  refine (deliveries_merge 7 [] [queuedSeven, startedSeven, finishedSeven]
    [finishedSeven, queuedSeven, startedSeven, queuedSeven] ⟨?_, by decide, ?_⟩
    ⟨?_, by decide, ?_⟩ ?_ ?_ ?_).1
  · intro o ho
    cases ho
  · intro c hc o ho
    cases ho
  · intro o ho
    cases ho
  · intro c hc o ho
    cases ho
  · simp only [map_cons, map_nil, mem_cons, not_mem_nil, or_false]
    tauto
  · constructor <;> try unfold AgreeOn
    all_goals decide +kernel
  · unfold StepsGiven
    decide +kernel

/-- Labels and steps may be given differently; an unknown fault kind is replaced when it comes
again; and a time in the first millisecond of 1970 is stored as none. -/
theorem deliveries_differ : ((rowAt (·.githubJobID) 7 (runJobs [announced { labels := ["a"] },
        announced { labels := ["b"] }] [])).map view ≠
      (rowAt (·.githubJobID) 7 (runJobs [announced { labels := ["b"] },
        announced { labels := ["a"] }] [])).map view) ∧
    ((rowAt (·.githubJobID) 7 (runJobs [announced { state := .completed, steps := [{ number := 1 }] },
        announced { state := .completed, steps := [{ number := 2 }] }] [])).map view ≠
      (rowAt (·.githubJobID) 7 (runJobs [announced { state := .completed, steps := [{ number := 2 }] },
        announced { state := .completed, steps := [{ number := 1 }] }] [])).map view) ∧
    ((rowAt (·.githubJobID) 7 (runJobs [announced { faultKind := "gremlin" }] [])).map
        (fun row => row.faultKind) ≠
      (rowAt (·.githubJobID) 7 (runJobs [announced { faultKind := "gremlin" },
        announced { faultKind := "gremlin" }] [])).map fun row => row.faultKind) ∧
    ((rowAt (·.githubJobID) 7 (runJobs [{ announced { matched := true } with now := unixEpoch }] [])).map
        (fun row => row.eligibleAt) ≠
      (rowAt (·.githubJobID) 7 (runJobs [{ announced { matched := true } with now := unixEpoch },
        announced { matched := true }] [])).map fun row => row.eligibleAt) := by
  decide +kernel

end Zoomies.Store
