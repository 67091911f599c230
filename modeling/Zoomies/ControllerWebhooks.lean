import Zoomies.StoreRunners
import Zoomies.StoreJobs

/-! The webhook handlers of one job: each delivery is recorded in one transaction and acts on its
runner in another, so they may cross. -/
namespace Zoomies.Controller
open Zoomies.Go Zoomies.Store List

inductive Phase
  | received
  | recorded (saved : JobRow)
  | finished

structure Handler where
  job : JobRow
  newID : String
  phase : Phase := .received

structure Webhooks where
  runners : List RunnerRow
  jobs : List JobRow
  handlers : List Handler

def settleRunner (now : Time) (runnerID : String) (saved : JobRow) (jobs : List JobRow)
    (t : List RunnerRow) : List RunnerRow :=
  match saved.state with
  | .inProgress => (startRunnerJob {} now runnerID saved.id
      ("running " ++ saved.workflow ++ " / " ++ saved.jobName) t).1
  | .completed =>
    (completeRunnerJob {} now jobs runnerID saved.id ("finished " ++ saved.jobName) t).1
  | .queued | .waiting => t

def phaseAfter (saved : JobRow) : Phase :=
  match saved.state with
  | .inProgress | .completed => .recorded saved
  | .queued | .waiting => .finished

def recordJob (now : Time) (h : Handler) (jobs : List JobRow) : List JobRow × Phase :=
  let applied := applyJob {} now h.newID h.job [] jobs
  (applied.1, match applied.2 with
    | .ok (saved, _) => phaseAfter saved
    | .error _ => .finished)

variable (runnerID : String) (s : Webhooks) (h : Handler)

def Webhooks.step (i : Nat) (now : Time) : Webhooks :=
  match s.handlers[i]? with
  | none => s
  | some h =>
    match h.phase with
    | .received =>
      let recorded := recordJob now h s.jobs
      { s with
        jobs := recorded.1
        handlers := s.handlers.set i { h with phase := recorded.2 } }
    | .recorded saved =>
      { s with
        runners := settleRunner now runnerID saved s.jobs s.runners
        handlers := s.handlers.set i { h with phase := .finished } }
    | .finished => s

def Handler.isFinished : Bool :=
  match h.phase with
  | .finished => true
  | .received | .recorded _ => false

def Webhooks.run (schedule : List (Nat × Time)) : Webhooks :=
  schedule.foldl (fun s p => s.step runnerID p.1 p.2) s

def Handler.releases : Bool :=
  match h.phase with
  | .received => true
  | .recorded saved => saved.state == .completed
  | .finished => false

def lateStart (i : Nat) : Bool :=
  match s.handlers[i]? with
  | none => false
  | some h =>
    match h.phase with
    | .recorded saved => saved.state == .inProgress &&
        (s.jobs.any fun j => j.id == saved.id && j.state == .completed) &&
        !(s.handlers.any Handler.releases) &&
        (rowAt (·.id) runnerID s.runners).any fun r => !startRefused r
    | .received | .finished => false

def noLateStart (runnerID : String) : List (Nat × Time) → Webhooks → Bool
  | [], _ => true
  | p :: rest, s =>
    !lateStart runnerID s p.1 && noLateStart runnerID rest (s.step runnerID p.1 p.2)

theorem startRunnerJob_rows {now : Time} {i : String} {jobID message : String} {t : List RunnerRow}
    {r : RunnerRow} (hr : rowAt (·.id) i t = some r) : (startRunnerJob {} now i jobID message t).1 =
      if startRefused r then t else setAt (·.id) i (writeStart (started now jobID message r)) t := by
  have hid : r.id = i := key_of_rowAt r hr
  unfold startRunnerJob selectRunner
  simp only [hr]
  cases startRefused r with
  | true => rfl
  | false =>
    simp only [Bool.false_eq_true, if_false, hid]
    rfl

theorem completeRunnerJob_rows {now : Time} {jobs : List JobRow} {i : String} {jobID message : String}
    {t : List RunnerRow} {r : RunnerRow} (hr : rowAt (·.id) i t = some r) :
    (completeRunnerJob {} now jobs i jobID message t).1 =
      if assigned jobID r || (unused r && completedOn jobs jobID i) then
        setAt (·.id) i (writeRelease (released now message r)) t
      else t := by
  have hid : r.id = i := key_of_rowAt r hr
  unfold completeRunnerJob selectRunner missedStart
  simp only [hr, hid]
  cases unused r <;> cases assigned jobID r <;> cases completedOn jobs jobID i <;> rfl

theorem any_set_of_not {α : Type} {p : α → Bool} {l : List α} (i : Nat) {a : α} {b : α}
    (hi : l[i]? = some a) (ha : p a = false) : (l.set i b).any p = (p b || l.any p) := by
  induction l generalizing i with
  | nil => cases hi
  | cons c rest ih =>
    cases i with
    | zero =>
      cases hi
      rw [set_cons_zero, any_cons, any_cons, ha, Bool.false_or]
    | succ i =>
      rw [set_cons_succ, any_cons, any_cons, ih i hi]
      cases p b <;> cases p c <;> rfl

def Handler.jobID : String := if h.job.id = "" then h.newID else h.job.id

structure Opening (g : Int) (runnerID : String) (r₀ : RunnerRow) (s : Webhooks) : Prop where
  row : rowAt (·.id) runnerID s.runners = some r₀
  working : r₀.state = .busy → r₀.currentJobID ≠ ""
  others : ∀ o ∈ s.jobs, o.githubJobID ≠ g
  received : ∀ h ∈ s.handlers, h.phase = .received
  one_job : ∀ h ∈ s.handlers, h.job.githubJobID = g
  named : ∀ h ∈ s.handlers, h.jobID ≠ ""
  new_id : ∀ h ∈ s.handlers, ∀ o ∈ s.jobs, o.id ≠ h.jobID
  unlinked : ∀ h ∈ s.handlers, ∀ id r, rowAt (·.id) id s.runners = some r → r.currentJobID ≠ h.jobID

structure Underway (g : Int) (runnerID : String) (r₀ : RunnerRow) (t : List JobRow)
    (row : JobRow) (r : RunnerRow) (s : Webhooks) : Prop where
  jobs : s.jobs = t ++ [row]
  others : ∀ o ∈ t, o.githubJobID ≠ g
  number : row.githubJobID = g
  named : row.id ≠ ""
  apart : r₀.currentJobID ≠ row.id
  new_id : ∀ o ∈ t, o.id ≠ row.id
  kept : KeptJob row
  one_job : ∀ h ∈ s.handlers, h.job.githubJobID = g
  saved : ∀ h ∈ s.handlers, ∀ j, h.phase = .recorded j → j.id = row.id ∧
    (j.state = .inProgress ∨ j.state = .completed) ∧ (j.state = .completed → row.state = .completed)
  runner : rowAt (·.id) runnerID s.runners = some r
  others_unlinked : ∀ id o, id ≠ runnerID → rowAt (·.id) id s.runners = some o →
    o.currentJobID ≠ row.id
  on_job : r.currentJobID = row.id → r.state = .busy ∨ r.state = .draining
  busy_on : r.state = .busy → r.currentJobID = row.id ∨ (r₀.state = .busy ∧ r₀.currentJobID ≠ "")

inductive Effect (runnerID : String) (now : Time) (s s' : Webhooks) (i : Nat)
    (row row' : JobRow) (r r' : RunnerRow) : Prop
  | idle (hn : ∀ h saved, s.handlers[i]? = some h → h.phase ≠ .recorded saved)
      (hs : s' = s) (hrow : row' = row) (hr : r' = r)
  | recorded (h : Handler) (saved : JobRow) (hi : s.handlers[i]? = some h)
      (hp : h.phase = .received)
      (hs : s'.handlers = s.handlers.set i { h with phase := phaseAfter saved })
      (hmerge : row' = writeJob saved row ∧ saved = mergeJob now row h.job)
      (hdone : row.state = .completed → row'.state = .completed) (hr : r' = r)
  | started (h : Handler) (saved : JobRow) (message : String) (hi : s.handlers[i]? = some h)
      (hp : h.phase = .recorded saved) (hstate : saved.state = .inProgress)
      (hs : s'.handlers = s.handlers.set i { h with phase := .finished }) (hrow : row' = row)
      (hr : r' = if startRefused r then r else writeStart (started now row.id message r) r)
  | completed (h : Handler) (saved : JobRow) (message : String) (hi : s.handlers[i]? = some h)
      (hp : h.phase = .recorded saved) (hstate : saved.state = .completed)
      (hs : s'.handlers = s.handlers.set i { h with phase := .finished }) (hrow : row' = row)
      (hr : r' = if assigned row.id r || (unused r && completedOn s.jobs row.id runnerID)
        then writeRelease (released now message r) r else r)
      (hoff : r'.currentJobID ≠ row.id)

theorem completed_of_rank {state : JobState} (h : jobRank .completed ≤ jobRank state) :
    state = .completed := by
  cases state
  · exact absurd h (by decide)
  · exact absurd h (by decide)
  · exact absurd h (by decide)
  · rfl

variable {saved : JobRow}

theorem phaseAfter_eq {j : JobRow} (h : phaseAfter saved = .recorded j) :
    j = saved ∧ (saved.state = .inProgress ∨ saved.state = .completed) := by
  unfold phaseAfter at h
  cases hs : saved.state <;> rw [hs] at h
  · cases h
  · cases h
  · cases h
    exact ⟨rfl, .inl rfl⟩
  · cases h
    exact ⟨rfl, .inr rfl⟩

theorem released_state {now : Time} {message : String} {r : RunnerRow} :
    (released now message r).state ≠ .busy := by
  unfold released
  dsimp only
  split
  · intro hb
    cases hb
  split
  · intro hb
    cases hb
  rename_i hd
  intro hb
  exact hd (by rw [hb]; decide)

theorem started_link {now : Time} {jobID message : String} {r : RunnerRow} :
    (writeStart (started now jobID message r) r).currentJobID = jobID := by
  unfold started
  dsimp only
  split <;> rfl

theorem released_link (now : Time) (message : String) (r : RunnerRow) :
    (writeRelease (released now message r) r).currentJobID = "" := by
  unfold released
  dsimp only
  split
  · rfl
  · split <;> rfl

section
variable {g : Int} {runnerID : String} {r₀ : RunnerRow} {t : List JobRow} {row : JobRow}
  {r : RunnerRow} {s : Webhooks} (hu : Underway g runnerID r₀ t row r s) {i : Nat} {now : Time}
  {h : Handler} (hi : s.handlers[i]? = some h)
include hu hi

theorem step_recorded (hp : h.phase = .received) :
    ∃ row', Underway g runnerID r₀ t row' r (s.step runnerID i now) ∧ row'.id = row.id ∧
      Effect runnerID now s (s.step runnerID i now) i row row' r r := by
  have hmem : h ∈ s.handlers := mem_of_getElem? hi
  have hg : h.job.githubJobID = g := hu.one_job h hmem
  have hothers : ∀ o ∈ t, o.githubJobID ≠ h.job.githubJobID := by
    rw [hg]
    exact hu.others
  have happly := applyJob_known now h.newID hothers (hu.number.trans hg.symm) hu.new_id
  generalize hm : mergeJob now row h.job = merged at happly
  have hid : merged.id = row.id := by
    rw [← hm]
    rfl
  have hdone : row.state = .completed → merged.state = .completed := by
    intro hc
    apply completed_of_rank
    rw [← hc, ← hm]
    exact rank_merge now row h.job
  rw [storedMerge_eq hu.kept] at happly
  have hstep : s.step runnerID i now = { s with
      jobs := t ++ [writeJob merged row]
      handlers := s.handlers.set i { h with phase := phaseAfter merged } } := by
    unfold Webhooks.step recordJob
    simp only [hi, hp, hu.jobs, happly]
  rw [hstep]
  refine ⟨writeJob merged row, ?_, rfl, ?_⟩
  · refine ⟨rfl, hu.others, hu.number, hu.named, hu.apart, hu.new_id, keptJob_writeJob, ?_, ?_, hu.runner,
      hu.others_unlinked, hu.on_job, hu.busy_on⟩
    · intro k hk
      rcases mem_or_eq_of_mem_set hk with hk | rfl
      · exact hu.one_job k hk
      · exact hg
    intro k hk j hj
    rcases mem_or_eq_of_mem_set hk with hk | rfl
    · obtain ⟨h1, h2, h3⟩ := hu.saved k hk j hj
      exact ⟨h1, h2, fun hc => hdone (h3 hc)⟩
    · obtain ⟨rfl, h2⟩ := phaseAfter_eq hj
      exact ⟨hid, h2, id⟩
  · exact .recorded h merged hi hp rfl ⟨rfl, hm.symm⟩ hdone rfl

theorem underway_keep : Underway g runnerID r₀ t row r { s with
      handlers := s.handlers.set i { h with phase := .finished } } := by
  refine ⟨hu.jobs, hu.others, hu.number, hu.named, hu.apart, hu.new_id, hu.kept, ?_, ?_, hu.runner,
    hu.others_unlinked, hu.on_job, hu.busy_on⟩
  · intro k hk
    rcases mem_or_eq_of_mem_set hk with hk | rfl
    · exact hu.one_job k hk
    · exact hu.one_job h (mem_of_getElem? hi)
  intro k hk j hj
  rcases mem_or_eq_of_mem_set hk with hk | rfl
  · exact hu.saved k hk j hj
  · cases hj

theorem underway_set {f : RunnerRow → RunnerRow} (hf : ∀ o, (f o).id = o.id)
    (hon : (f r).currentJobID = row.id → (f r).state = .busy ∨ (f r).state = .draining)
    (hbusy : (f r).state = .busy → (f r).currentJobID = row.id ∨
      (r₀.state = .busy ∧ r₀.currentJobID ≠ "")) :
    Underway g runnerID r₀ t row (f r) { s with
      runners := setAt (·.id) runnerID f s.runners
      handlers := s.handlers.set i { h with phase := .finished } } := by
  refine { underway_keep hu hi with
    runner := ?_, others_unlinked := ?_, on_job := hon, busy_on := hbusy }
  · dsimp only
    rw [rowAt_setAt hf, hu.runner, Option.map_some, if_pos rfl]
  intro k o hk ho
  dsimp only at ho
  rw [rowAt_setAt hf] at ho
  cases hrow : rowAt (fun x : RunnerRow => x.id) k s.runners with
  | none =>
    rw [hrow] at ho
    cases ho
  | some o' =>
    rw [hrow, Option.map_some, if_neg hk] at ho
    cases ho
    exact hu.others_unlinked k o hk hrow

omit hu in
theorem step_settled (hp : h.phase = .recorded saved) : s.step runnerID i now = { s with
      runners := settleRunner now runnerID saved s.jobs s.runners
      handlers := s.handlers.set i { h with phase := .finished } } := by
  unfold Webhooks.step
  simp only [hi, hp]

theorem step_started (hp : h.phase = .recorded saved) (hstate : saved.state = .inProgress) :
    ∃ r', Underway g runnerID r₀ t row r' (s.step runnerID i now) ∧
      Effect runnerID now s (s.step runnerID i now) i row row r r' := by
  obtain ⟨hid, -, -⟩ := hu.saved h (mem_of_getElem? hi) saved hp
  rw [step_settled hi hp]
  unfold settleRunner
  simp only [hstate, hid]
  rw [startRunnerJob_rows hu.runner]
  cases href : startRefused r with
  | true =>
    refine ⟨r, underway_keep hu hi, ?_⟩
    apply Effect.started h saved "" hi hp hstate rfl rfl
    rw [if_pos href]
  | false =>
    refine ⟨_, underway_set hu hi (fun _ => rfl) ?_ ?_, ?_⟩
    · intro _
      unfold started
      dsimp only
      split
      · exact .inl rfl
      · rename_i hb
        exact working_of_startable r href hb
    · intro _
      exact .inl started_link
    · apply Effect.started h saved _ hi hp hstate rfl rfl
      rw [href, if_neg Bool.false_ne_true]

theorem step_completed (hp : h.phase = .recorded saved) (hstate : saved.state = .completed) :
    ∃ r', Underway g runnerID r₀ t row r' (s.step runnerID i now) ∧
      Effect runnerID now s (s.step runnerID i now) i row row r r' := by
  obtain ⟨hid, -, -⟩ := hu.saved h (mem_of_getElem? hi) saved hp
  rw [step_settled hi hp]
  unfold settleRunner
  simp only [hstate, hid]
  rw [completeRunnerJob_rows hu.runner]
  split
  · -- released: the link is gone, and no release leaves a runner busy
    rename_i hyes
    have hfree : ∀ message, (writeRelease (released now message r) r).currentJobID ≠ row.id := by
      intro message
      rw [released_link]
      exact hu.named.symm
    refine ⟨_, underway_set hu hi (fun _ => rfl) ?_ ?_, ?_⟩
    · intro hj
      exact absurd hj (hfree _)
    · intro hb
      exact absurd hb released_state
    apply Effect.completed h saved _ hi hp hstate rfl rfl
    · rw [if_pos hyes]
    · exact hfree _
  · rename_i hno
    refine ⟨r, underway_keep hu hi, ?_⟩
    apply Effect.completed h saved "" hi hp hstate rfl rfl
    · rw [if_neg hno]
    -- a runner on the job is assigned to it, and would have been released
    intro hj
    apply hno
    have hassigned : assigned row.id r = true := by
      rw [assigned, hj, beq_self_eq_true, Bool.true_and]
      rcases hu.on_job hj with hb | hb <;> rw [hb] <;> rfl
    rw [hassigned, Bool.true_or]

end

theorem step_underway {g : Int} {runnerID : String} {r₀ : RunnerRow} {t : List JobRow}
    {row : JobRow} {r : RunnerRow} {s : Webhooks} (hu : Underway g runnerID r₀ t row r s)
    {i : Nat} {now : Time} :
    ∃ row' r', Underway g runnerID r₀ t row' r' (s.step runnerID i now) ∧ row'.id = row.id ∧
      Effect runnerID now s (s.step runnerID i now) i row row' r r' := by
  have hidle : (∀ h saved, s.handlers[i]? = some h → h.phase ≠ .recorded saved) →
      s.step runnerID i now = s →
      ∃ row' r', Underway g runnerID r₀ t row' r' (s.step runnerID i now) ∧ row'.id = row.id ∧
        Effect runnerID now s (s.step runnerID i now) i row row' r r' := by
    intro hn hs
    rw [hs]
    exact ⟨row, r, hu, rfl, .idle hn rfl rfl rfl⟩
  cases hi : s.handlers[i]? with
  | none =>
    apply hidle
    · intro h saved hh
      rw [hi] at hh
      cases hh
    · unfold Webhooks.step
      rw [hi]
  | some h =>
    cases hp : h.phase with
    | received =>
      obtain ⟨row', hu', hid, he⟩ := step_recorded hu hi hp
      exact ⟨row', r, hu', hid, he⟩
    | recorded saved =>
      obtain ⟨-, hstate | hstate, -⟩ := hu.saved h (mem_of_getElem? hi) saved hp
      · obtain ⟨r', hu', he⟩ := step_started hu hi hp hstate
        exact ⟨row, r', hu', rfl, he⟩
      · obtain ⟨r', hu', he⟩ := step_completed hu hi hp hstate
        exact ⟨row, r', hu', rfl, he⟩
    | finished =>
      apply hidle
      · intro k saved hk hrec
        rw [hi] at hk
        cases hk
        rw [hp] at hrec
        cases hrec
      · unfold Webhooks.step
        simp only [hi, hp]

end Zoomies.Controller
