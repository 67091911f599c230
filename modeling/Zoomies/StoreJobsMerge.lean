import Zoomies.FirstKnown
import Zoomies.StoreJobs

/-! Deliveries about one job, in any order and repeated at will. -/
namespace Zoomies.Store
open Zoomies.Go List

structure JobCall where
  job : JobRow
  now : Time
  newID : String

def JobCall.apply (c : JobCall) (t : List JobRow) :
    List JobRow × Except StoreError (JobRow × JobChange) :=
  applyJob {} c.now c.newID c.job [] t

def runJobs (calls : List JobCall) (t : List JobRow) : List JobRow :=
  calls.foldl (fun t c => (c.apply t).1) t

def reports : List JobCall → List JobRow → List (JobState × JobChange)
  | [], _ => []
  | c :: rest, t =>
    match (c.apply t).2 with
    | .ok (saved, change) => (saved.state, change) :: reports rest (c.apply t).1
    | .error _ => reports rest (c.apply t).1

structure OneJob (g : Int) (t : List JobRow) (calls : List JobCall) : Prop where
  others : ∀ o ∈ t, o.githubJobID ≠ g
  one_job : ∀ c ∈ calls, c.job.githubJobID = g
  new_id : ∀ c ∈ calls, ∀ o ∈ t, o.id ≠ (arrived c.now c.newID c.job).id

def JobCall.row (c : JobCall) : Option JobRow → JobRow
  | none => insertedJob (arrived c.now c.newID c.job)
  | some row => writeJob (mergeJob c.now row c.job) row

def JobCall.change (c : JobCall) : Option JobRow → JobChange
  | none => arrivalChange (arrived c.now c.newID c.job)
  | some row => mergeChange row (mergeJob c.now row c.job)

def rowAfter (calls : List JobCall) : Option JobRow :=
  calls.foldl (fun row c => some (c.row row)) none

theorem rowAfter_append {calls : List JobCall} {c : JobCall} :
    rowAfter (calls ++ [c]) = some (c.row (rowAfter calls)) := by
  rw [rowAfter, foldl_append]
  rfl

variable {calls : List JobCall}

theorem rowAfter_eq_none (h : rowAfter calls = none) : calls = [] := by
  cases calls using List.reverseRecOn with
  | nil => rfl
  | append_singleton l c =>
    rw [rowAfter_append] at h
    cases h

theorem runJobs_append (calls : List JobCall) (c : JobCall) (t : List JobRow) :
    runJobs (calls ++ [c]) t = (c.apply (runJobs calls t)).1 := by
  rw [runJobs, foldl_append]
  rfl

theorem OneJob.init {g : Int} {t : List JobRow} {c : JobCall}
    (h : OneJob g t (calls ++ [c])) : OneJob g t calls :=
  ⟨h.others, fun x hx => h.one_job x (mem_append_left _ hx),
    fun x hx => h.new_id x (mem_append_left _ hx)⟩

theorem rowAfter_spec {g : Int} {t : List JobRow} (h : OneJob g t calls) (row : JobRow)
    (hrow : rowAfter calls = some row) :
    row.githubJobID = g ∧ (∀ o ∈ t, o.id ≠ row.id) ∧ KeptJob row := by
  induction calls using List.reverseRecOn generalizing row with
  | nil => cases hrow
  | append_singleton calls c ih =>
    rw [rowAfter_append, Option.some.injEq] at hrow
    have hc : c ∈ calls ++ [c] := mem_append_right _ mem_cons_self
    cases hprev : rowAfter calls with
    | none =>
      rw [hprev] at hrow
      rw [← hrow]
      exact ⟨h.one_job c hc, h.new_id c hc, keptJob_inserted⟩
    | some prev =>
      rw [hprev] at hrow
      obtain ⟨h1, h2, -⟩ := ih (OneJob.init h) prev hprev
      rw [← hrow]
      exact ⟨h1, h2, keptJob_writeJob⟩

variable {c : JobCall}

theorem apply_after {g : Int} {t : List JobRow} (h : OneJob g t (calls ++ [c])) :
    ∃ saved, c.apply (t ++ (rowAfter calls).toList) = (t ++ [c.row (rowAfter calls)],
      .ok (saved, c.change (rowAfter calls))) ∧ saved.state = (c.row (rowAfter calls)).state := by
  have hmem : c ∈ calls ++ [c] := mem_append_right _ mem_cons_self
  have hothers : ∀ o ∈ t, o.githubJobID ≠ c.job.githubJobID := by
    rw [h.one_job c hmem]
    exact h.others
  cases hrow : rowAfter calls with
  | none =>
    rw [Option.toList_none, append_nil]
    exact ⟨_, applyJob_new c.now c.newID hothers (h.new_id c hmem), rfl⟩
  | some row =>
    obtain ⟨hg, hid, hkept⟩ := rowAfter_spec (OneJob.init h) row hrow
    have happly := applyJob_known c.now c.newID hothers (hg.trans (h.one_job c hmem).symm) hid
    rw [storedMerge_eq hkept] at happly
    exact ⟨_, happly, rfl⟩

theorem runJobs_eq {g : Int} {t : List JobRow} (h : OneJob g t calls) :
    runJobs calls t = t ++ (rowAfter calls).toList := by
  induction calls using List.reverseRecOn with
  | nil => exact (append_nil t).symm
  | append_singleton calls c ih =>
    obtain ⟨saved, happly, -⟩ := apply_after h
    rw [runJobs_append, ih (OneJob.init h), happly, rowAfter_append]
    rfl

theorem rowAt_runJobs {g : Int} {t : List JobRow} (h : OneJob g t calls) :
    rowAt (·.githubJobID) g (runJobs calls t) = rowAfter calls := by
  have hnone : rowAt (·.githubJobID) g t = none := by
    rw [rowAt, find?_eq_none]
    intro o ho hk
    exact h.others o ho (beq_iff_eq.mp hk)
  rw [runJobs_eq h]
  cases hrow : rowAfter calls with
  | none =>
    rw [Option.toList_none, append_nil]
    exact hnone
  | some row =>
    obtain ⟨hg, -, -⟩ := rowAfter_spec h row hrow
    rw [Option.toList_some, rowAt_append, hnone, Option.none_or, if_pos hg]

theorem reports_append (calls : List JobCall) (c : JobCall) (t : List JobRow) :
    reports (calls ++ [c]) t = reports calls t ++ reports [c] (runJobs calls t) := by
  induction calls generalizing t with
  | nil => rfl
  | cons x rest ih =>
    rw [cons_append, reports, reports, ih]
    split <;> rfl

theorem reports_after {g : Int} {t : List JobRow} (h : OneJob g t (calls ++ [c])) :
    reports (calls ++ [c]) t = reports calls t ++
      [((c.row (rowAfter calls)).state, c.change (rowAfter calls))] := by
  obtain ⟨saved, happly, hstate⟩ := apply_after h
  rw [reports_append, runJobs_eq (OneJob.init h)]
  rw [reports, happly]
  dsimp only
  rw [hstate]
  rfl

structure Agreeing (l : List JobRow) : Prop where
  conclusion : AgreeOn id (fun j : JobRow => j.conclusion) "" l
  repo : AgreeOn id (fun j : JobRow => j.repo) "" l
  workflow : AgreeOn id (fun j : JobRow => j.workflow) "" l
  jobName : AgreeOn id (fun j : JobRow => j.jobName) "" l
  runnerName : AgreeOn id (fun j : JobRow => j.runnerName) "" l
  installationID : AgreeOn id (fun j : JobRow => j.installationID) "" l
  poolID : AgreeOn id (fun j : JobRow => j.poolID) "" l
  runnerID : AgreeOn id (fun j : JobRow => j.runnerID) "" l
  githubRunID : AgreeOn id (fun j : JobRow => j.githubRunID) 0 l
  runAttempt : AgreeOn id (fun j : JobRow => j.runAttempt) 0 l
  runNumber : AgreeOn id (fun j : JobRow => j.runNumber) 0 l
  labels : AgreeOn normalizeLabels (fun j : JobRow => j.labels) [] l
  startedAt : AgreeOn kept (fun j : JobRow => j.startedAt) none l
  completedAt : AgreeOn kept (fun j : JobRow => j.completedAt) none l
  steps : ∀ a ∈ l, ∀ b ∈ l, a.state = .completed → b.state = .completed → a.steps = b.steps

structure Merged (l : List JobRow) (row : JobRow) : Prop where
  state_mem : ∃ j ∈ l, j.state = row.state
  state_max : ∀ j ∈ l, jobRank j.state ≤ jobRank row.state
  conclusion : row.conclusion = known (fun j : JobRow => j.conclusion) "" l
  repo : row.repo = known (fun j : JobRow => j.repo) "" l
  workflow : row.workflow = known (fun j : JobRow => j.workflow) "" l
  jobName : row.jobName = known (fun j : JobRow => j.jobName) "" l
  runnerName : row.runnerName = known (fun j : JobRow => j.runnerName) "" l
  installationID : row.installationID = known (fun j : JobRow => j.installationID) "" l
  poolID : row.poolID = known (fun j : JobRow => j.poolID) "" l
  runnerID : row.runnerID = known (fun j : JobRow => j.runnerID) "" l
  githubRunID : row.githubRunID = known (fun j : JobRow => j.githubRunID) 0 l
  runAttempt : row.runAttempt = known (fun j : JobRow => j.runAttempt) 0 l
  runNumber : row.runNumber = known (fun j : JobRow => j.runNumber) 0 l
  labels : row.labels = normalizeLabels (known (fun j : JobRow => j.labels) [] l)
  startedAt : row.startedAt = kept (known (fun j : JobRow => j.startedAt) none l)
  completedAt : row.completedAt = kept (known (fun j : JobRow => j.completedAt) none l)
  matched : row.matched = l.any fun j => j.matched
  steps : row.state = .completed → ∃ j ∈ l, j.state = .completed ∧ row.steps = j.steps

variable {j : JobRow}

theorem eq_known_single {α : Type} [DecidableEq α] {f : JobRow → α} {blank : α} {a : α}
    (h : a = f j) : a = known f blank [j] := by
  rw [known, known, h]
  split
  · rename_i hb
    exact hb
  · rfl

variable {l : List JobRow}

theorem carry_known {α : Type} [DecidableEq α] {f : JobRow → α} {blank : α} {current : Bool}
    {dst : α} (hdst : dst = known f blank l) (h : AgreeOn id f blank (l ++ [j])) :
    carry blank current dst (f j) = known f blank (l ++ [j]) := by
  rw [hdst]
  exact (known_step h _ (fun ht => ht.1) fun hb hi => ⟨hi, .inr hb⟩).symm

theorem carry_kept {f : JobRow → Option Time} {current : Bool} {dst : Option Time}
    (hdst : dst = kept (known f none l)) (h : AgreeOn kept f none (l ++ [j])) :
    kept (carry none current dst (f j)) = kept (known f none (l ++ [j])) := by
  have hstep := known_step h (f j ≠ none ∧ (current = true ∨ dst = none))
    (fun ht => ht.1) fun hb hi => ⟨hi, .inr (by rw [hdst, hb, kept_none])⟩
  rw [hstep, carry]
  split
  · rfl
  · rw [hdst, kept_kept]

theorem merged_first {now : Time} {newID : String} :
    Merged [j] (insertedJob (arrived now newID j)) := by
  refine ⟨⟨j, mem_cons_self, rfl⟩, ?_, eq_known_single rfl,
    eq_known_single rfl, eq_known_single rfl, eq_known_single rfl,
    eq_known_single rfl, eq_known_single rfl, eq_known_single rfl,
    eq_known_single rfl, eq_known_single rfl, eq_known_single rfl,
    eq_known_single rfl, congrArg normalizeLabels (eq_known_single rfl),
    congrArg kept (eq_known_single rfl), congrArg kept (eq_known_single rfl), ?_, ?_⟩
  · intro k hk
    rw [mem_singleton.mp hk]
    exact le_refl _
  · rw [any_cons, any_nil, Bool.or_false]
    rfl
  · intro hs
    exact ⟨j, mem_cons_self, hs, rfl⟩

/-- One delivery merges into what the earlier ones left. -/
theorem merged_step {now : Time} {row : JobRow} (hm : Merged l row) (ha : Agreeing (l ++ [j]))
    (hsteps : j.state = .completed → j.steps ≠ []) :
    Merged (l ++ [j]) (writeJob (mergeJob now row j) row) := by
  refine ⟨?_, ?_, carry_known hm.conclusion ha.conclusion,
    carry_known hm.repo ha.repo, carry_known hm.workflow ha.workflow,
    carry_known hm.jobName ha.jobName, carry_known hm.runnerName ha.runnerName,
    carry_known hm.installationID ha.installationID,
    carry_known hm.poolID ha.poolID, carry_known hm.runnerID ha.runnerID,
    carry_known hm.githubRunID ha.githubRunID, carry_known hm.runAttempt ha.runAttempt,
    carry_known hm.runNumber ha.runNumber, ?_, carry_kept hm.startedAt ha.startedAt,
    carry_kept hm.completedAt ha.completedAt, ?_, ?_⟩ <;>
    dsimp only [writeJob, mergeJob]
  · by_cases hc : isCurrent row j = true
    · rw [if_pos hc]
      exact ⟨j, mem_append_right _ mem_cons_self, rfl⟩
    rw [if_neg hc]
    obtain ⟨k, hk, he⟩ := hm.state_mem
    exact ⟨k, mem_append_left _ hk, he⟩
  · intro k hk
    have hrank := rank_merge now row j
    rcases mem_append.mp hk with hk | hk
    · exact le_trans (hm.state_max k hk) hrank
    rw [mem_singleton.mp hk]
    by_cases hc : isCurrent row j = true
    · rw [if_pos hc]
    rw [if_neg hc]
    have hlt : ¬jobRank j.state ≥ jobRank row.state := fun hge => hc (decide_eq_true hge)
    omega
  · have hstep := known_step ha.labels
      (j.labels ≠ [] ∧ (isCurrent row j = true ∨ row.labels = [])) (fun ht => ht.1)
      fun hb hi => ⟨hi, .inr (by rw [hm.labels, hb]; rfl)⟩
    rw [hstep, hm.labels]
  · rw [any_append, ← hm.matched, any_cons, any_nil, Bool.or_false]
  · intro hs
    by_cases hc : isCurrent row j = true
    · rw [if_pos hc] at hs
      refine ⟨j, mem_append_right _ mem_cons_self, hs, ?_⟩
      rw [if_pos ⟨hc, hsteps hs⟩]
    rw [if_neg hc] at hs
    obtain ⟨k, hk, hk', he⟩ := hm.steps hs
    refine ⟨k, mem_append_left _ hk, hk', ?_⟩
    rw [if_neg (fun h => hc h.1)]
    exact he

structure JobView where
  state : JobState
  steps : List JobStep
  conclusion : String
  repo : String
  workflow : String
  jobName : String
  runnerName : String
  installationID : String
  poolID : String
  runnerID : String
  githubRunID : Int
  runAttempt : Int
  runNumber : Int
  labels : List String
  startedAt : Option Time
  completedAt : Option Time
  matched : Bool
  deriving DecidableEq

def view (row : JobRow) : JobView :=
  { state := row.state
    steps := if row.state = .completed then row.steps else []
    conclusion := row.conclusion
    repo := row.repo
    workflow := row.workflow
    jobName := row.jobName
    runnerName := row.runnerName
    installationID := row.installationID
    poolID := row.poolID
    runnerID := row.runnerID
    githubRunID := row.githubRunID
    runAttempt := row.runAttempt
    runNumber := row.runNumber
    labels := row.labels
    startedAt := row.startedAt
    completedAt := row.completedAt
    matched := row.matched }

theorem jobRank_inj {a b : JobState} (h : jobRank a = jobRank b) : a = b := by
  cases a <;> cases b <;> first | rfl | (exact absurd h (by decide))

/-- Two orders of the same deliveries show the same row. -/
theorem view_eq {l' : List JobRow} {row row' : JobRow} (hset : ∀ j, j ∈ l ↔ j ∈ l')
    (ha : Agreeing l) (hm : Merged l row) (hm' : Merged l' row') : view row = view row' := by
  have hstate : row.state = row'.state := by
    obtain ⟨j, hj, he⟩ := hm.state_mem
    obtain ⟨j', hj', he'⟩ := hm'.state_mem
    have h1 := hm'.state_max j ((hset j).mp hj)
    have h2 := hm.state_max j' ((hset j').mpr hj')
    rw [he] at h1
    rw [he'] at h2
    exact jobRank_inj (le_antisymm h1 h2)
  have hsteps : (if row.state = .completed then row.steps else []) =
      if row'.state = .completed then row'.steps else [] := by
    rw [hstate]
    by_cases hc : row'.state = .completed
    · rw [if_pos hc, if_pos hc]
      obtain ⟨j, hj, hjc, he⟩ := hm.steps (hstate.trans hc)
      obtain ⟨j', hj', hjc', he'⟩ := hm'.steps hc
      rw [he, he']
      exact ha.steps j hj j' ((hset j').mpr hj') hjc hjc'
    · rw [if_neg hc, if_neg hc]
  have hmatched : row.matched = row'.matched := by
    rw [hm.matched, hm'.matched, Bool.eq_iff_iff, any_eq_true, any_eq_true]
    constructor
    · rintro ⟨j, hj, he⟩
      exact ⟨j, (hset j).mp hj, he⟩
    · rintro ⟨j, hj, he⟩
      exact ⟨j, (hset j).mpr hj, he⟩
  have same : ∀ {α : Type} [DecidableEq α] (f : JobRow → α) (blank : α), AgreeOn id f blank l →
      known f blank l = known f blank l' := fun f blank h => known_congr hset h
  have hlabels := known_congr hset ha.labels
  have hstarted := known_congr hset ha.startedAt
  have hcompleted := known_congr hset ha.completedAt
  unfold view
  rw [hsteps, hstate, hmatched, hm.conclusion, hm'.conclusion, same _ _ ha.conclusion,
    hm.repo, hm'.repo, same _ _ ha.repo, hm.workflow, hm'.workflow, same _ _ ha.workflow,
    hm.jobName, hm'.jobName, same _ _ ha.jobName, hm.runnerName, hm'.runnerName,
    same _ _ ha.runnerName, hm.installationID, hm'.installationID, same _ _ ha.installationID,
    hm.poolID, hm'.poolID, same _ _ ha.poolID, hm.runnerID, hm'.runnerID, same _ _ ha.runnerID,
    hm.githubRunID, hm'.githubRunID, same _ _ ha.githubRunID, hm.runAttempt, hm'.runAttempt,
    same _ _ ha.runAttempt, hm.runNumber, hm'.runNumber, same _ _ ha.runNumber,
    hm.labels, hm'.labels, hlabels, hm.startedAt, hm'.startedAt, hstarted,
    hm.completedAt, hm'.completedAt, hcompleted]

def StepsGiven (l : List JobRow) : Prop := ∀ j ∈ l, j.state = .completed → j.steps ≠ []

theorem Agreeing.subset (l l' : List JobRow) (h : Agreeing l) (hsub : ∀ j ∈ l', j ∈ l) :
    Agreeing l' := by
  have part : ∀ {α β : Type} (φ : α → β) (f : JobRow → α) (blank : α),
      AgreeOn φ f blank l → AgreeOn φ f blank l' := fun φ f blank h a ha b hb =>
    h a (hsub a ha) b (hsub b hb)
  exact ⟨part _ _ _ h.conclusion, part _ _ _ h.repo, part _ _ _ h.workflow, part _ _ _ h.jobName,
    part _ _ _ h.runnerName, part _ _ _ h.installationID, part _ _ _ h.poolID,
    part _ _ _ h.runnerID, part _ _ _ h.githubRunID, part _ _ _ h.runAttempt,
    part _ _ _ h.runNumber, part _ _ _ h.labels, part _ _ _ h.startedAt, part _ _ _ h.completedAt,
    fun a ha b hb => h.steps a (hsub a ha) b (hsub b hb)⟩

theorem rowAfter_merged (ha : Agreeing (calls.map fun c => c.job))
    (hs : StepsGiven (calls.map fun c => c.job)) (row : JobRow) (hrow : rowAfter calls = some row) :
    Merged (calls.map fun c => c.job) row := by
  -- by induction from the last call, so that each step adds one delivery
  induction calls using List.reverseRecOn generalizing row with
  | nil => cases hrow
  | append_singleton calls c ih =>
    rw [rowAfter_append, Option.some.injEq] at hrow
    rw [map_append, map_cons, map_nil] at ha hs ⊢
    have hlast : c.job.state = .completed → c.job.steps ≠ [] :=
      hs c.job (mem_append_right _ mem_cons_self)
    cases hprev : rowAfter calls with
    | none =>
      rw [← hrow, rowAfter_eq_none hprev]
      exact merged_first
    | some prev =>
      have hm := ih (ha.subset _ _ fun j hj => mem_append_left _ hj)
        (fun j hj => hs j (mem_append_left _ hj)) prev hprev
      rw [hprev] at hrow
      rw [← hrow]
      exact merged_step hm ha hlast

section
variable {g : Int} (t : List JobRow)

theorem flips_once (p : JobRow → Bool) {q : JobChange → Bool}
    (hfirst : ∀ c : JobCall, q (c.change none) = p (c.row none))
    (hstep : ∀ (c : JobCall) row, q (c.change (some row)) = (!p row && p (c.row (some row))))
    (hkeep : ∀ (c : JobCall) row, p row = true → p (c.row (some row)) = true) (h : OneJob g t calls) :
    (reports calls t).countP (fun x => q x.2) = if (rowAfter calls).any p then 1 else 0 := by
  induction calls using List.reverseRecOn with
  | nil => rfl
  | append_singleton calls c ih =>
    rw [reports_after h, countP_append, ih (OneJob.init h), rowAfter_append, Option.any_some]
    cases hprev : rowAfter calls with
    | none =>
      rw [Option.any_none, countP_cons, countP_nil, hfirst]
      simp
    | some row =>
      rw [Option.any_some, countP_cons, countP_nil, hstep]
      cases hp : p row with
      | true =>
        rw [hkeep c row hp]
        rfl
      | false => simp

theorem claimed_once (h : OneJob g t calls) :
    (reports calls t).countP (fun x => x.2.claimed) ≤ 1 := by
  rw [flips_once t (fun row => row.matched) (fun _ => rfl) (fun _ _ => rfl) ?_ h]
  · split
    · exact le_refl _
    · exact Nat.zero_le _
  intro c row hp
  change (row.matched || c.job.matched) = true
  rw [hp, Bool.true_or]

theorem carry_ne_blank {α : Type} [DecidableEq α] {blank : α} {current : Bool} {dst : α} {v : α}
    (h : dst ≠ blank) : carry blank current dst v ≠ blank := by
  unfold carry
  split
  · rename_i hc
    exact hc.1
  · exact h

theorem runnerLinked_once (h : OneJob g t calls) :
    (reports calls t).countP (fun x => x.2.runnerLinked) ≤ 1 := by
  rw [flips_once t (fun row => row.runnerID != "") (fun _ => rfl) ?_ ?_ h]
  · split
    · exact le_refl _
    · exact Nat.zero_le _
  · intro c row
    change (row.runnerID == "" && _) = (!(!(row.runnerID == "")) && _)
    rw [Bool.not_not]
    rfl
  intro c row hp
  rw [bne_iff_ne] at hp ⊢
  exact carry_ne_blank hp

theorem rank_after (c : JobCall) (row : JobRow) :
    jobRank row.state ≤ jobRank (c.row (some row)).state :=
  rank_merge c.now row c.job

theorem stateChanged_iff {row : JobRow} :
    (c.change (some row)).stateChanged = true ↔ jobRank row.state < jobRank (c.row (some row)).state := by
  have hrank := rank_after c row
  have hchange : (c.change (some row)).stateChanged = ((c.row (some row)).state != row.state) := rfl
  rw [hchange, bne_iff_ne]
  constructor
  · intro hne
    rcases lt_or_eq_of_le hrank with hlt | heq
    · exact hlt
    · exact absurd (jobRank_inj heq).symm hne
  intro hlt heq
  rw [heq] at hlt
  exact lt_irrefl _ hlt

theorem reported_rank (h : OneJob g t calls) (row : JobRow) (hrow : rowAfter calls = some row) :
    ∀ x ∈ reports calls t, jobRank x.1 ≤ jobRank row.state := by
  induction calls using List.reverseRecOn generalizing row with
  | nil => cases hrow
  | append_singleton calls c ih =>
    rw [rowAfter_append, Option.some.injEq] at hrow
    rw [reports_after h]
    intro x hx
    rcases mem_append.mp hx with hx | hx
    · cases hprev : rowAfter calls with
      | none =>
        rw [rowAfter_eq_none hprev] at hx
        cases hx
      | some prev =>
        have hle := ih (OneJob.init h) prev hprev x hx
        rw [hprev] at hrow
        rw [← hrow]
        exact le_trans hle (rank_after c prev)
    · rw [mem_singleton.mp hx, hrow]

theorem take_snoc {α : Type} {l : List α} {a : α} {k : Nat} :
    (l ++ [a]).take k = l.take k ∨ (l ++ [a]).take k = l ++ [a] := by
  by_cases hk : k ≤ l.length
  · exact .inl (take_append_of_le_length hk)
  right
  apply take_of_length_le
  rw [length_append, length_singleton]
  omega

theorem rank_take (k : Nat) {row : JobRow} (last : JobRow)
    (hrow : rowAfter (calls.take k) = some row) (hlast : rowAfter calls = some last) :
    jobRank row.state ≤ jobRank last.state := by
  induction calls using List.reverseRecOn generalizing last with
  | nil => cases hlast
  | append_singleton calls c ih =>
    rw [rowAfter_append, Option.some.injEq] at hlast
    rcases take_snoc with hk | hk
    · rw [hk] at hrow
      cases hprev : rowAfter calls with
      | none =>
        rw [rowAfter_eq_none hprev, take_nil] at hrow
        cases hrow
      | some prev =>
        rw [hprev] at hlast
        rw [← hlast]
        exact le_trans (ih prev hrow hprev) (rank_after c prev)
    · rw [hk, rowAfter_append, Option.some.injEq] at hrow
      rw [← hrow, hlast]

def entered (calls : List JobCall) (t : List JobRow) (state : JobState) : Nat :=
  (reports calls t).countP fun x => x.2.stateChanged && x.1 == state

theorem entered_append (h : OneJob g t (calls ++ [c])) (state : JobState) :
    entered (calls ++ [c]) t state = entered calls t state +
      if (c.change (rowAfter calls)).stateChanged = true ∧ (c.row (rowAfter calls)).state = state
      then 1 else 0 := by
  rw [entered, reports_after h, countP_append, countP_cons, countP_nil, Nat.zero_add]
  simp only [Bool.and_eq_true, beq_iff_eq]
  rfl

/-- Every state the row has reached was reported by one call. -/
theorem entered_once (h : OneJob g t calls) (k : Nat) (row : JobRow)
    (hrow : rowAfter (calls.take k) = some row) : entered calls t row.state = 1 := by
  induction calls using List.reverseRecOn generalizing k row with
  | nil =>
    rw [take_nil] at hrow
    cases hrow
  | append_singleton calls c ih =>
    have hinit := OneJob.init h
    rw [entered_append t h]
    rcases take_snoc with hk | hk
    · -- entered before the last call, which then cannot enter it again
      rw [hk] at hrow
      rw [ih hinit k row hrow, if_neg]
      rintro ⟨hchanged, hstate⟩
      cases hprev : rowAfter calls with
      | none =>
        rw [rowAfter_eq_none hprev, take_nil] at hrow
        cases hrow
      | some prev =>
        rw [hprev] at hchanged hstate
        have hlt := stateChanged_iff.mp hchanged
        have hle := rank_take k prev hrow hprev
        rw [hstate] at hlt
        omega
    · rw [hk, rowAfter_append, Option.some.injEq] at hrow
      cases hprev : rowAfter calls with
      | none =>
        rw [hprev] at hrow
        rw [rowAfter_eq_none hprev, if_pos ⟨rfl, by rw [← hrow]⟩]
        rfl
      | some prev =>
        rw [hprev] at hrow
        by_cases hchanged : (c.change (some prev)).stateChanged = true
        · rw [if_pos ⟨hchanged, by rw [← hrow]⟩]
          have hlt := stateChanged_iff.mp hchanged
          have hzero : entered calls t row.state = 0 := by
            rw [entered, countP_eq_zero]
            intro x hx hc
            rw [Bool.and_eq_true, beq_iff_eq] at hc
            have hle := reported_rank t hinit prev hprev x hx
            rw [hc.2, ← hrow] at hle
            omega
          rw [hzero]
        · rw [if_neg (fun hc => hchanged hc.1), Nat.add_zero]
          have hsame : row.state = prev.state := by
            rw [← hrow]
            have hchange : (c.change (some prev)).stateChanged =
              ((c.row (some prev)).state != prev.state) := rfl
            rw [hchange, bne_iff_ne, not_not] at hchanged
            exact hchanged
          rw [hsame]
          apply ih hinit calls.length prev
          rw [take_length]
          exact hprev

end

end Zoomies.Store
