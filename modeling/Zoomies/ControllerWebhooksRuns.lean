import Zoomies.ControllerWebhooks

/-! A completed job that still has a runner has a handler that will release it, until one starts the
runner too late. -/
namespace Zoomies.Controller
open Zoomies.Go Zoomies.Store List

theorem releases_recorded {l : List Handler} {i : Nat} {h : Handler} {saved : JobRow}
    (hi : l[i]? = some h) (hstate : saved.state = .completed) :
    (l.set i { h with phase := phaseAfter saved }).any Handler.releases = true := by
  have hlt : i < l.length := by
    by_contra hge
    rw [getElem?_eq_none (Nat.le_of_not_lt hge)] at hi
    cases hi
  rw [any_eq_true]
  refine ⟨_, mem_set hlt _, ?_⟩
  rw [Handler.releases, phaseAfter]
  simp only [hstate, beq_self_eq_true]

def Guarded (row : JobRow) (r : RunnerRow) (s : Webhooks) : Prop :=
  row.state = .completed → r.currentJobID = row.id → s.handlers.any Handler.releases = true

def Stranded (row : JobRow) (r : RunnerRow) (s : Webhooks) : Prop :=
  row.state = .completed ∧ r.currentJobID = row.id ∧ s.handlers.any Handler.releases = false

section
variable {g : Int} {runnerID : String} {r₀ : RunnerRow} {t : List JobRow} {row row' : JobRow}
  {r r' : RunnerRow} {s s' : Webhooks} (hu : Underway g runnerID r₀ t row r s) {i : Nat}
  {now : Time}
include hu

omit now in
theorem lateStart_iff {h : Handler} {saved : JobRow} (hi : s.handlers[i]? = some h)
    (hp : h.phase = .recorded saved) (hstate : saved.state = .inProgress) :
    lateStart runnerID s i = true ↔ row.state = .completed ∧
      s.handlers.any Handler.releases = false ∧ startRefused r = false := by
  obtain ⟨hid, -, -⟩ := hu.saved h (mem_of_getElem? hi) saved hp
  have hjob : (s.jobs.any fun j => j.id == saved.id && j.state == .completed) =
      (row.state == .completed) := by
    have hnone : (t.any fun j => j.id == saved.id && j.state == .completed) = false := by
      rw [any_eq_false]
      intro o ho hk
      rw [Bool.and_eq_true, beq_iff_eq, hid] at hk
      exact hu.new_id o ho hk.1
    rw [hu.jobs, any_append, hnone, Bool.false_or, any_cons, any_nil, hid,
      beq_self_eq_true, Bool.true_and, Bool.or_false]
  unfold lateStart
  simp [hi, hp, hstate, hjob, hu.runner, and_assoc]

theorem guarded_step (he : Effect runnerID now s s' i row row' r r') (hid : row'.id = row.id)
    (hlate : lateStart runnerID s i = false) (hg : Guarded row r s) : Guarded row' r' s' := by
  intro hdone hon
  cases he with
  | idle hn hs hrow hr =>
    rw [hs]
    rw [hrow] at hdone hon
    rw [hr] at hon
    exact hg hdone hon
  | recorded h saved hi hp hs hmerge hd hr =>
    rw [hmerge.1] at hdone
    rw [hs]
    exact releases_recorded hi hdone
  | started h saved message hi hp hstate hs hrow hr =>
    have hnot : h.releases = false := by
      rw [Handler.releases, hp]
      simp only [hstate]
      rfl
    rw [hs, any_set_of_not _ hi hnot, Bool.or_eq_true]
    right
    rw [hrow] at hdone hon
    cases href : startRefused r with
    | true =>
      rw [href, if_pos rfl] at hr
      rw [hr] at hon
      exact hg hdone hon
    | false =>
      by_contra hno
      have hl := (lateStart_iff hu hi hp hstate).mpr ⟨hdone, Bool.not_eq_true _ |>.mp hno, href⟩
      rw [hlate] at hl
      cases hl
  | completed h saved message hi hp hstate hs hrow hr hoff =>
    rw [hid] at hon
    exact absurd hon hoff

theorem stranded_step (he : Effect runnerID now s s' i row row' r r') (hst : Stranded row r s) :
    Stranded row' r' s' := by
  obtain ⟨hdone, hon, hno⟩ := hst
  have hnone : ∀ h, s.handlers[i]? = some h → h.releases = false := by
    intro h hi
    have hall := any_eq_false.mp hno h (mem_of_getElem? hi)
    exact Bool.not_eq_true _ |>.mp hall
  cases he with
  | idle hn hs hrow hr =>
    rw [hs, hrow, hr]
    exact ⟨hdone, hon, hno⟩
  | recorded h saved hi hp hs hmerge hd hr =>
    have hrel := hnone h hi
    rw [Handler.releases, hp] at hrel
    cases hrel
  | started h saved message hi hp hstate hs hrow hr =>
    -- a runner that works on a job keeps it
    have hrefused : startRefused r = true := by
      rw [startRefused, Bool.or_eq_true]
      right
      have hne : (r.currentJobID != "") = true := by
        rw [bne_iff_ne, hon]
        exact hu.named
      rcases hu.on_job hon with hb | hb <;> rw [hb, hne] <;> rfl
    rw [hrefused, if_pos rfl] at hr
    rw [hrow, hr]
    refine ⟨hdone, hon, ?_⟩
    rw [hs, any_set_of_not _ hi (hnone h hi), hno]
    rfl
  | completed h saved message hi hp hstate hs hrow hr hoff =>
    have hrel := hnone h hi
    rw [Handler.releases, hp] at hrel
    simp only [hstate] at hrel
    cases hrel

theorem stranded_of_late (he : Effect runnerID now s s' i row row' r r')
    (hlate : lateStart runnerID s i = true) : Stranded row' r' s' := by
  have hphase : ∃ h saved, s.handlers[i]? = some h ∧ h.phase = .recorded saved ∧
      saved.state = .inProgress := by
    unfold lateStart at hlate
    cases hi : s.handlers[i]? with
    | none =>
      rw [hi] at hlate
      cases hlate
    | some h =>
      simp only [hi] at hlate
      cases hp : h.phase with
      | received | finished =>
        simp only [hp] at hlate
        cases hlate
      | recorded saved =>
        simp only [hp, Bool.and_eq_true, beq_iff_eq] at hlate
        exact ⟨h, saved, rfl, hp, hlate.1.1.1⟩
  obtain ⟨h, saved, hi, hp, hstate⟩ := hphase
  obtain ⟨hdone, hno, hfree⟩ :=
    (lateStart_iff hu hi hp hstate).mp hlate
  have hnot : h.releases = false := by
    have hall := any_eq_false.mp hno h (mem_of_getElem? hi)
    exact Bool.not_eq_true _ |>.mp hall
  cases he with
  | started k saved' message hk hp' hstate' hs hrow hr =>
    rw [hfree, if_neg Bool.false_ne_true] at hr
    rw [hrow, hr]
    refine ⟨hdone, started_link, ?_⟩
    rw [hs, any_set_of_not _ hi hnot, hno]
    rfl
  | idle hn hs hrow hr => exact absurd hp (hn h saved hi)
  | recorded k saved' hk hp' hs hmerge hd hr =>
    rw [hi] at hk
    cases hk
    rw [hp] at hp'
    cases hp'
  | completed k saved' message hk hp' hstate' hs hrow hr hoff =>
    rw [hi] at hk
    cases hk
    rw [hp] at hp'
    cases hp'
    rw [hstate] at hstate'
    cases hstate'

end

section
variable {g : Int} {runnerID : String} {r₀ : RunnerRow}

variable {schedule : List (Nat × Time)}

theorem run_guarded {t : List JobRow} (row : JobRow) (r : RunnerRow) (s : Webhooks)
    (hu : Underway g runnerID r₀ t row r s) (hg : Guarded row r s)
    (hno : noLateStart runnerID schedule s = true) :
    ∃ row' r', Underway g runnerID r₀ t row' r' (s.run runnerID schedule) ∧
      Guarded row' r' (s.run runnerID schedule) := by
  induction schedule generalizing row r s with
  | nil => exact ⟨row, r, hu, hg⟩
  | cons p rest ih =>
    rw [noLateStart, Bool.and_eq_true, Bool.not_eq_true'] at hno
    obtain ⟨row', r', hu', hid, he⟩ := step_underway hu
    exact ih row' r' _ hu' (guarded_step hu he hid hno.1 hg) hno.2

theorem run_late {t : List JobRow} (row : JobRow) (r : RunnerRow) (s : Webhooks)
    (hu : Underway g runnerID r₀ t row r s)
    (hlate : Stranded row r s ∨ noLateStart runnerID schedule s = false) :
    ∃ row' r', Underway g runnerID r₀ t row' r' (s.run runnerID schedule) ∧
      Stranded row' r' (s.run runnerID schedule) := by
  induction schedule generalizing row r s with
  | nil =>
    rcases hlate with hst | hlate
    · exact ⟨row, r, hu, hst⟩
    · cases hlate
  | cons p rest ih =>
    obtain ⟨row', r', hu', -, he⟩ := step_underway hu
    refine ih row' r' _ hu' ?_
    rcases hlate with hst | hlate
    · exact .inl (stranded_step hu he hst)
    cases hl : lateStart runnerID s p.1 with
    | true => exact .inl (stranded_of_late hu he hl)
    | false =>
      rw [noLateStart, hl, Bool.not_false, Bool.true_and] at hlate
      exact .inr hlate

/-- The first handler to move records the job. -/
theorem step_opening {s : Webhooks} (ho : Opening g runnerID r₀ s) {i : Nat} {now : Time} :
    s.step runnerID i now = s ∨ ∃ row h saved,
      Underway g runnerID r₀ s.jobs row r₀ (s.step runnerID i now) ∧
        Guarded row r₀ (s.step runnerID i now) ∧ h ∈ s.handlers ∧
        row.runnerID = h.job.runnerID ∧ saved.state = row.state ∧ s.handlers[i]? = some h ∧
        (s.step runnerID i now).handlers =
          s.handlers.set i { h with phase := phaseAfter saved } := by
  cases hi : s.handlers[i]? with
  | none =>
    left
    unfold Webhooks.step
    rw [hi]
  | some h =>
    right
    have hmem : h ∈ s.handlers := mem_of_getElem? hi
    have hp := ho.received h hmem
    have hg := ho.one_job h hmem
    have hothers : ∀ o ∈ s.jobs, o.githubJobID ≠ h.job.githubJobID := by
      rw [hg]
      exact ho.others
    have happly := applyJob_new now h.newID hothers (ho.new_id h hmem)
    generalize hj : arrived now h.newID h.job = job at happly
    have hid : job.id = h.jobID := by
      rw [← hj]
      rfl
    have hstep : s.step runnerID i now = { s with
        jobs := s.jobs ++ [insertedJob job]
        handlers := s.handlers.set i { h with phase := phaseAfter job } } := by
      unfold Webhooks.step recordJob
      simp only [hi, hp, happly]
    have hnumber : (insertedJob job).githubJobID = g := by
      rw [← hg, ← hj]
      rfl
    have hfree : ∀ id o, rowAt (·.id) id s.runners = some o →
        o.currentJobID ≠ (insertedJob job).id := by
      intro id o hrow
      rw [show (insertedJob job).id = h.jobID from hid]
      exact ho.unlinked h hmem id o hrow
    rw [hstep]
    have hrunner : (insertedJob job).runnerID = h.job.runnerID := by
      rw [← hj]
      rfl
    refine ⟨insertedJob job, h, job, ?_, ?_, hmem, hrunner, rfl, rfl, rfl⟩
    · refine ⟨rfl, ho.others, hnumber, ?_, hfree runnerID r₀ ho.row, ?_, keptJob_inserted, ?_,
        ?_, ho.row, ?_, ?_, ?_⟩
      · rw [show (insertedJob job).id = h.jobID from hid]
        exact ho.named h hmem
      · intro o hm
        rw [show (insertedJob job).id = h.jobID from hid]
        exact ho.new_id h hmem o hm
      · intro k hk
        rcases mem_or_eq_of_mem_set hk with hk | rfl
        · exact ho.one_job k hk
        · exact hg
      · intro k hk j hrec
        rcases mem_or_eq_of_mem_set hk with hk | rfl
        · rw [ho.received k hk] at hrec
          cases hrec
        · obtain ⟨rfl, hstate⟩ := phaseAfter_eq hrec
          exact ⟨rfl, hstate, id⟩
      · intro id o _ hrow
        exact hfree id o hrow
      · intro hon
        exact absurd hon (hfree runnerID r₀ ho.row)
      · intro hb
        exact .inr ⟨hb, ho.working hb⟩
    · intro _ hon
      exact absurd hon (hfree runnerID r₀ ho.row)

theorem lateStart_opening {s : Webhooks} (ho : Opening g runnerID r₀ s) {i : Nat} :
    lateStart runnerID s i = false := by
  unfold lateStart
  cases hi : s.handlers[i]? with
  | none => rfl
  | some h => simp only [ho.received h (mem_of_getElem? hi)]

theorem run_opening {s : Webhooks} (ho : Opening g runnerID r₀ s)
    (hjob : ∃ o ∈ (s.run runnerID schedule).jobs, o.githubJobID = g) :
    ∃ row r, Underway g runnerID r₀ s.jobs row r (s.run runnerID schedule) ∧
      (noLateStart runnerID schedule s = true → Guarded row r (s.run runnerID schedule)) ∧
      (noLateStart runnerID schedule s = false → Stranded row r (s.run runnerID schedule)) := by
  -- by induction on the schedule: until the first recording nothing changes
  induction schedule with
  | nil =>
    obtain ⟨o, hm, hk⟩ := hjob
    exact absurd hk (ho.others o hm)
  | cons p rest ih =>
    rw [noLateStart, lateStart_opening ho, Bool.not_false, Bool.true_and]
    rcases step_opening ho with hs | ⟨row, -, -, hu, hg, -⟩
    · rw [hs]
      have hrun : s.run runnerID (p :: rest) = s.run runnerID rest := by
        change (s.step runnerID p.1 p.2).run runnerID rest = _
        rw [hs]
      rw [hrun] at hjob ⊢
      exact ih hjob
    cases hno : noLateStart runnerID rest (s.step runnerID p.1 p.2) with
    | true =>
      obtain ⟨row', r', hu', hg'⟩ := run_guarded row r₀ _ hu hg hno
      refine ⟨row', r', hu', fun _ => hg', fun h => ?_⟩
      cases h
    | false =>
      obtain ⟨row', r', hu', hst⟩ := run_late row r₀ _ hu (.inr hno)
      refine ⟨row', r', hu', fun h => ?_, fun _ => hst⟩
      cases h

end

structure LeftFree (runnerID : String) (r₀ : RunnerRow) (jobID : String) (s : Webhooks) : Prop where
  unlinked : ∀ id r, rowAt (·.id) id s.runners = some r → r.currentJobID ≠ jobID
  not_busy : ∀ r, rowAt (·.id) runnerID s.runners = some r → r.state = .busy →
    r₀.state = .busy ∧ r₀.currentJobID ≠ "" ∧ r₀.currentJobID ≠ jobID

/-- Once every handler has finished and the job is completed, no runner is left on it exactly when
none started the runner after the last one that would have released it. -/
theorem no_runner_left_iff (g : Int) (runnerID : String) (r₀ : RunnerRow) (s : Webhooks)
    (ho : Opening g runnerID r₀ s) (schedule : List (Nat × Time))
    (hfinished : (s.run runnerID schedule).handlers.all Handler.isFinished = true) (row : JobRow)
    (hrow : rowAt (·.githubJobID) g (s.run runnerID schedule).jobs = some row)
    (hcompleted : row.state = .completed) : LeftFree runnerID r₀ row.id (s.run runnerID schedule) ↔
      noLateStart runnerID schedule s = true := by
  have hjob : ∃ o ∈ (s.run runnerID schedule).jobs, o.githubJobID = g :=
    ⟨row, mem_of_rowAt hrow, key_of_rowAt row hrow⟩
  obtain ⟨row', r, hu, hguard, hstrand⟩ := run_opening ho hjob
  -- the row found under the job's number is the one the run has followed
  have hsame : row' = row := by
    have hnone : rowAt (·.githubJobID) g s.jobs = none := by
      rw [rowAt, find?_eq_none]
      intro o hm hk
      exact hu.others o hm (beq_iff_eq.mp hk)
    rw [hu.jobs, rowAt_append, hnone, Option.none_or, if_pos hu.number] at hrow
    exact Option.some.inj hrow
  subst hsame
  have hnone : (s.run runnerID schedule).handlers.any Handler.releases = false := by
    rw [any_eq_false]
    intro h hm hrel
    have hf := all_eq_true.mp hfinished h hm
    unfold Handler.isFinished at hf
    unfold Handler.releases at hrel
    cases hp : h.phase with
    | received | recorded saved =>
      simp only [hp] at hf
      cases hf
    | finished =>
      simp only [hp] at hrel
      cases hrel
  constructor
  · intro hfree
    by_contra hno
    obtain ⟨-, hon, -⟩ := hstrand (Bool.not_eq_true _ |>.mp hno)
    exact hfree.unlinked runnerID r hu.runner hon
  intro hno
  have hoff : r.currentJobID ≠ row'.id := by
    intro hon
    have hrel := hguard hno hcompleted hon
    rw [hnone] at hrel
    cases hrel
  refine ⟨?_, ?_⟩
  · intro id o hr
    by_cases hid : id = runnerID
    · rw [hid, hu.runner] at hr
      cases hr
      exact hoff
    · exact hu.others_unlinked id o hid hr
  intro o hr hb
  rw [hu.runner] at hr
  cases hr
  rcases hu.busy_on hb with hon | ⟨h1, h2⟩
  · exact absurd hon hoff
  · exact ⟨h1, h2, hu.apart⟩

def crossing (r₀ : RunnerRow) : Webhooks :=
  { runners := [r₀]
    jobs := []
    handlers :=
      [{ job := { githubJobID := 7, state := .inProgress, runnerID := "run_1" }, newID := "job_a" },
        { job := { githubJobID := 7, state := .completed, runnerID := "run_1" },
          newID := "job_b" }] }

def overtaken : List (Nat × Time) :=
  [(0, unixEpoch + second), (1, unixEpoch + 2 * second), (1, unixEpoch + 3 * second),
    (0, unixEpoch + 4 * second)]

def inOrder : List (Nat × Time) :=
  [(0, unixEpoch + second), (0, unixEpoch + 2 * second), (1, unixEpoch + 3 * second),
    (1, unixEpoch + 4 * second)]

theorem opening_crossing {r₀ : RunnerRow} (hid : r₀.id = "run_1") (hfree : r₀.currentJobID = "")
    (hstate : r₀.state = .idle) : Opening 7 "run_1" r₀ (crossing r₀) := by
  have hrow : rowAt (·.id) "run_1" (crossing r₀).runners = some r₀ := by
    simp [crossing, rowAt, hid]
  refine ⟨hrow, ?_, ?_, ?_, ?_, ?_, ?_, ?_⟩
  · intro hb
    rw [hstate] at hb
    cases hb
  · intro o ho
    cases ho
  · simp [crossing]
  · simp [crossing]
  · simp [crossing, Handler.jobID]
  · intro h _ o ho
    cases ho
  intro h hm id r hr
  have hr₀ : r = r₀ := by
    have := mem_of_rowAt hr
    simpa [crossing] using this
  rw [hr₀, hfree]
  simp only [crossing, mem_cons, not_mem_nil, or_false] at hm
  rcases hm with rfl | rfl <;> decide

theorem no_runner_left_inOrder : (∀ row, rowAt (·.githubJobID) 7
        ((crossing { id := "run_1", state := .idle }).run "run_1" inOrder).jobs = some row →
      row.state = .completed → LeftFree "run_1" { id := "run_1", state := .idle } row.id
        ((crossing { id := "run_1", state := .idle }).run "run_1" inOrder)) ∧
      (rowAt (·.githubJobID) 7
        ((crossing { id := "run_1", state := .idle }).run "run_1" inOrder).jobs).map
          (fun row => row.state) = some .completed := by
  refine ⟨?_, by decide +kernel⟩
  intro row hrow hcompleted
  exact (no_runner_left_iff 7 "run_1" { id := "run_1", state := .idle } _
    (opening_crossing rfl rfl rfl) inOrder (by decide +kernel) row hrow hcompleted).mpr
    (by decide +kernel)

def reversed : List (Nat × Time) :=
  [(1, unixEpoch + second), (1, unixEpoch + 2 * second), (0, unixEpoch + 3 * second),
    (0, unixEpoch + 4 * second)]

def Webhooks.outcome (s : Webhooks) :
    Bool × List (String × JobState) × List (RunnerState × String) :=
  (s.handlers.all Handler.isFinished, s.jobs.map fun j => (j.id, j.state),
    s.runners.map fun r => (r.state, r.currentJobID))

/-- A late start leaves a persistent runner busy on a completed job; one busy without a job stays
so. -/
theorem overtaken_left_busy :
    ((crossing { id := "run_1", state := .idle }).run "run_1" overtaken).outcome =
        (true, [("job_a", .completed)], [(.busy, "job_a")]) ∧
      noLateStart "run_1" overtaken (crossing { id := "run_1", state := .idle }) = false ∧
      ((crossing { id := "run_1", state := .busy }).run "run_1" reversed).outcome =
        (true, [("job_b", .completed)], [(.busy, "")]) := by
  decide +kernel

end Zoomies.Controller
