import Zoomies.StoreUsageReport
import Zoomies.StoreUsageServed

/-! Each figure of a report is kept twice, as a total and in buckets. -/
namespace Zoomies.Store
open Zoomies.Go List

inductive UsageFigure where
  | queued | started | completed | succeeded | failed | cancelled | unknown | execution | allocated
deriving DecidableEq

def UsageBucket.figure (b : UsageBucket) : UsageFigure → ℚ
  | .queued => b.queued
  | .started => b.started
  | .completed => b.succeeded + b.failed + b.cancelled + b.unknown
  | .succeeded => b.succeeded
  | .failed => b.failed
  | .cancelled => b.cancelled
  | .unknown => b.unknown
  | .execution => b.executionSeconds
  | .allocated => b.allocatedSeconds

def UsageRow.figure (r : UsageRow) : UsageFigure → ℚ
  | .queued => r.jobs
  | .started => r.jobsStarted
  | .completed => r.jobsCompleted
  | .succeeded => r.succeeded
  | .failed => r.failed
  | .cancelled => r.cancelled
  | .unknown => r.unknown
  | .execution => r.jobExecutionSeconds
  | .allocated => r.allocatedRunnerSeconds.getD 0

def UsageAcc.figure (x : UsageAcc) : UsageFigure → ℚ
  | .allocated => x.allocated
  | fig => x.row.figure fig

def inBuckets (history : List UsageBucket) (fig : UsageFigure) : ℚ :=
  (history.map fun b => b.figure fig).sum

structure Owing (w : UsageWindow) (owed : UsageFigure → ℚ) (x : UsageAcc) : Prop where
  sound : x.crashed = false
  whole : x.row.history = [] ∨ x.row.history.length = w.count
  balance : ∀ fig, x.figure fig = inBuckets x.row.history fig + owed fig

section
variable (source : Time) (w : UsageWindow)

theorem length_freshHistory : (freshHistory source w).length = w.count := by
  rw [freshHistory, length_map, length_range]

theorem inBuckets_freshHistory (fig : UsageFigure) : inBuckets (freshHistory source w) fig = 0 := by
  apply sum_eq_zero
  intro q hq
  obtain ⟨b, hb, rfl⟩ := mem_map.mp hq
  obtain ⟨n, -, rfl⟩ := mem_map.mp hb
  cases fig <;> simp [UsageBucket.figure]

variable {t : Int}

theorem bucket_lt_count (hw : 0 < w.width) (hlo : w.lo ≤ t) (hhi : t < w.hi) :
    (w.bucket t).toNat < w.count := by
  have hle : (t - w.lo) / w.width + 1 ≤ (w.hi - w.lo + w.width - 1) / w.width := by
    rw [← Int.add_mul_ediv_right (t - w.lo) 1 hw.ne']
    exact Int.ediv_le_ediv hw (by omega)
  have hnonneg : 0 ≤ (t - w.lo) / w.width := Int.ediv_nonneg (by omega) (le_of_lt hw)
  unfold UsageWindow.bucket UsageWindow.count
  omega

variable {f : UsageBucket → UsageBucket} {x : UsageAcc}

theorem onBucket_spec (hw : 0 < w.width) (hlo : w.lo ≤ t) (hhi : t < w.hi)
    (hx : x.row.history = [] ∨ x.row.history.length = w.count) :
    ∃ history, onBucket source w t f x = { x with row := { x.row with history := history } } ∧
      history.length = w.count ∧ ∀ fig d, (∀ b : UsageBucket, (f b).figure fig = b.figure fig + d) →
        inBuckets history fig = inBuckets x.row.history fig + d := by
  have hin : ¬(t < w.lo ∨ t ≥ w.hi) := by omega
  obtain ⟨history, hhistory, hlen, hsum⟩ : ∃ history,
      (if x.row.history = [] then freshHistory source w else x.row.history) = history ∧
        history.length = w.count ∧ ∀ fig, inBuckets history fig = inBuckets x.row.history fig := by
    by_cases h : x.row.history = []
    · refine ⟨_, if_pos h, length_freshHistory source w, fun fig => ?_⟩
      rw [inBuckets_freshHistory, h]
      rfl
    · exact ⟨_, if_neg h, hx.resolve_left h, fun fig => rfl⟩
  have hi : (w.bucket t).toNat < history.length := hlen ▸ bucket_lt_count w hw hlo hhi
  refine ⟨history.set (w.bucket t).toNat (f history[(w.bucket t).toNat]), ?_, ?_, fun fig d hd => ?_⟩
  · rw [onBucket, if_neg hin]
    dsimp only
    rw [hhistory, getElem?_eq_getElem hi]
  · rw [length_set, hlen]
  · rw [← hsum fig]
    exact sum_map_set _ (getElem?_eq_getElem hi) (hd _)

theorem onBucket_cases : ∃ history crashed, onBucket source w t f x =
      { x with row := { x.row with history := history }, crashed := crashed } := by
  by_cases hin : t < w.lo ∨ t ≥ w.hi
  · exact ⟨x.row.history, true, if_pos hin⟩
  rw [onBucket, if_neg hin]
  dsimp only
  generalize (if x.row.history = [] then freshHistory source w else x.row.history) = history
  cases history[(w.bucket t).toNat]? with
  | none => exact ⟨x.row.history, true, rfl⟩
  | some b => exact ⟨history.set (w.bucket t).toNat (f b), x.crashed, rfl⟩

@[simp] theorem onBucket_figure (t : Int) (f : UsageBucket → UsageBucket) (x : UsageAcc)
    (fig : UsageFigure) : (onBucket source w t f x).figure fig = x.figure fig := by
  obtain ⟨history, crashed, h⟩ := onBucket_cases source w
  rw [h]
  cases fig <;> rfl

@[simp] theorem onBucket_events (t : Int) (f : UsageBucket → UsageBucket) (x : UsageAcc) :
    (onBucket source w t f x).events = x.events := by
  obtain ⟨history, crashed, h⟩ := onBucket_cases source w
  rw [h]

@[simp] theorem onBucket_key : (onBucket source w t f x).row.key = x.row.key := by
  obtain ⟨history, crashed, h⟩ := onBucket_cases source w
  rw [h]

variable (hw : 0 < w.width)
include hw

theorem Owing.onBucket (owed paid : UsageFigure → ℚ)
    (hx : Owing w (fun fig => paid fig + owed fig) x) (hlo : w.lo ≤ t) (hhi : t < w.hi)
    (f : UsageBucket → UsageBucket)
    (hf : ∀ (b : UsageBucket) fig, (f b).figure fig = b.figure fig + paid fig) :
    Owing w owed (onBucket source w t f x) := by
  obtain ⟨history, heq, hlen, hsum⟩ := onBucket_spec source w hw hlo hhi hx.whole
  have hbalance : ∀ fig, (Store.onBucket source w t f x).figure fig =
      inBuckets history fig + owed fig := by
    intro fig
    rw [onBucket_figure, hx.balance fig, hsum fig (paid fig) fun b => hf b fig, add_assoc]
  rw [heq] at hbalance ⊢
  exact ⟨hx.sound, .inr hlen, hbalance⟩

end

structure Adds (w : UsageWindow) (d : UsageFigure → ℚ) (events : List (Edge Int)) (x y : UsageAcc) :
    Prop where
  owing : Owing w (fun _ => 0) x → Owing w (fun _ => 0) y
  figure : ∀ fig, y.figure fig = x.figure fig + d fig
  events : y.events = x.events ++ events
  key : y.row.key = x.row.key

variable (w : UsageWindow) (j : UsageJob)

theorem Adds.refl (x : UsageAcc) : Adds w (fun _ => 0) [] x x :=
  ⟨id, fun _ => (add_zero _).symm, (append_nil _).symm, rfl⟩

theorem Adds.trans {w : UsageWindow} {d d' : UsageFigure → ℚ} {e e' : List (Edge Int)}
    {x y z : UsageAcc} (h : Adds w d e x y) (h' : Adds w d' e' y z) :
    Adds w (fun fig => d fig + d' fig) (e ++ e') x z := by
  refine ⟨fun hx => h'.owing (h.owing hx), fun fig => ?_, ?_, h'.key.trans h.key⟩
  · rw [h'.figure, h.figure, add_assoc]
  · rw [h'.events, h.events, append_assoc]

theorem adds_foldl {γ : Type} {w : UsageWindow} (f : UsageAcc → γ → UsageAcc) (d : γ → UsageFigure → ℚ)
    (e : γ → List (Edge Int)) (rows : List γ) (hf : ∀ c ∈ rows, ∀ x, Adds w (d c) (e c) x (f x c))
    (x : UsageAcc) :
    Adds w (fun fig => (rows.map fun c => d c fig).sum) (rows.flatMap e) x (rows.foldl f x) := by
  induction rows generalizing x with
  | nil => exact Adds.refl w x
  | cons c rest ih =>
    exact (hf c mem_cons_self x).trans (ih (fun c hc => hf c (mem_cons_of_mem _ hc)) (f x c))

def UsageFigure.one (fig other : UsageFigure) : ℚ := if fig = other then 1 else 0

def UsageWindow.counts : Option Int → ℚ
  | none => 0
  | some t => if t ≥ w.lo ∧ t < w.hi then 1 else 0

def JobOutcome.figure : JobOutcome → UsageFigure
  | .failed => .failed
  | .succeeded => .succeeded
  | .cancelled => .cancelled
  | .unknown => .unknown

def UsageJob.executed : ℚ :=
  match execution w j with
  | none => 0
  | some (start, stop) => (stop - start : Int) / 1000

def UsageJob.adds (fig : UsageFigure) : ℚ :=
  w.counts (some j.queuedAt) * UsageFigure.queued.one fig +
    w.counts j.startedAt * UsageFigure.started.one fig +
    w.counts j.completedAt * (UsageFigure.completed.one fig + j.outcome.figure.one fig) +
    j.executed w * UsageFigure.execution.one fig

def UsageJob.events : List (Edge Int) :=
  edges (execution w j).toList

section
variable (source : Time) {w : UsageWindow} (hw : 0 < w.width)
include hw

variable {x : UsageAcc}

variable {t : Int} {d : UsageFigure → ℚ} {x' : UsageAcc} {f : UsageBucket → UsageBucket}

theorem adds_onBucket (hlo : w.lo ≤ t) (hhi : t < w.hi)
    (hf : ∀ (b : UsageBucket) fig, (f b).figure fig = b.figure fig + d fig)
    (hfigure : ∀ fig, x'.figure fig = x.figure fig + d fig)
    (hhistory : x'.row.history = x.row.history) (hkey : x'.row.key = x.row.key)
    (hcrashed : x'.crashed = x.crashed) (hevents : x'.events = x.events) :
    Adds w d [] x (onBucket source w t f x') := by
  refine ⟨fun hx => ?_, fun fig => ?_, ?_, ?_⟩
  · apply Owing.onBucket source w hw _ d _ hlo hhi f hf
    refine ⟨hcrashed.trans hx.sound, hhistory ▸ hx.whole, fun fig => ?_⟩
    rw [hfigure, hx.balance, hhistory, add_zero, add_zero]
  · rw [onBucket_figure, hfigure]
  · rw [onBucket_events, hevents, append_nil]
  · rw [onBucket_key, hkey]

theorem adds_counted (hf : ∀ (b : UsageBucket) fig, (f b).figure fig = b.figure fig + d fig)
    (hfigure : ∀ fig, x'.figure fig = x.figure fig + d fig)
    (hhistory : x'.row.history = x.row.history) (hkey : x'.row.key = x.row.key)
    (hcrashed : x'.crashed = x.crashed) (hevents : x'.events = x.events) :
    Adds w (fun fig => w.counts (some t) * d fig) [] x
      (if t ≥ w.lo ∧ t < w.hi then onBucket source w t f x' else x) := by
  by_cases hin : t ≥ w.lo ∧ t < w.hi
  · simp only [if_pos hin, UsageWindow.counts, one_mul]
    exact adds_onBucket source hw hin.1 hin.2 hf hfigure hhistory hkey hcrashed hevents
  · simpa only [if_neg hin, UsageWindow.counts, zero_mul] using Adds.refl w x

theorem countQueued_adds (j : UsageJob) (x : UsageAcc) :
    Adds w (fun fig => w.counts (some j.queuedAt) * UsageFigure.queued.one fig) [] x
      (countQueued source w j x) := by
  refine adds_counted source hw (fun b fig => ?_) (fun fig => ?_) rfl rfl rfl rfl
  · cases fig <;> simp [UsageBucket.figure, UsageFigure.one]
  · cases fig <;> simp [UsageAcc.figure, UsageRow.figure, UsageFigure.one]

theorem countStarted_adds (j : UsageJob) :
    Adds w (fun fig => w.counts j.startedAt * UsageFigure.started.one fig) [] x
      (countStarted source w j x) := by
  unfold countStarted
  cases j.startedAt with
  | none => simpa only [UsageWindow.counts, zero_mul] using Adds.refl w x
  | some st =>
    refine adds_counted source hw (fun b fig => ?_) (fun fig => ?_) rfl rfl rfl rfl
    · cases fig <;> simp [UsageBucket.figure, UsageFigure.one]
    · cases fig <;> simp [UsageAcc.figure, UsageRow.figure, UsageFigure.one]

omit hw in
theorem figure_countOutcome {b : UsageBucket} {o : JobOutcome} {fig : UsageFigure} :
    (b.countOutcome o).figure fig =
      b.figure fig + (UsageFigure.completed.one fig + o.figure.one fig) := by
  cases o <;> cases fig <;>
    simp [UsageBucket.countOutcome, UsageBucket.figure, UsageFigure.one, JobOutcome.figure] <;> ring

theorem countCompleted_adds (j : UsageJob) : Adds w (fun fig => w.counts j.completedAt *
      (UsageFigure.completed.one fig + j.outcome.figure.one fig)) [] x (countCompleted source w j x) := by
  unfold countCompleted
  cases j.completedAt with
  | none => simpa only [UsageWindow.counts, zero_mul] using Adds.refl w x
  | some done =>
    refine adds_counted source hw (fun b fig => figure_countOutcome) (fun fig => ?_) ?_ ?_ rfl rfl
    · cases j.outcome <;> cases fig <;>
        simp [UsageAcc.figure, UsageRow.figure, UsageRow.countOutcome, UsageFigure.one, JobOutcome.figure]
    · cases j.outcome <;> rfl
    · cases j.outcome <;> rfl

omit hw in
theorem foldl_addPiece {pieces : List (Int × Int)} (x : UsageAcc) :
    (∀ fig, (pieces.foldl (addPiece source w) x).figure fig = x.figure fig) ∧
      (pieces.foldl (addPiece source w) x).events = x.events ∧
        (pieces.foldl (addPiece source w) x).row.key = x.row.key := by
  induction pieces generalizing x with
  | nil => exact ⟨fun _ => rfl, rfl, rfl⟩
  | cons p rest ih =>
    obtain ⟨hfigure, hevents, hkey⟩ := ih (addPiece source w x p)
    refine ⟨fun fig => ?_, ?_, ?_⟩
    · rw [foldl_cons, hfigure, addPiece, onBucket_figure]
    · rw [foldl_cons, hevents, addPiece, onBucket_events]
    · rw [foldl_cons, hkey, addPiece, onBucket_key]

theorem owing_pieces {pieces : List (Int × Int)} (hin : ∀ p ∈ pieces, w.lo ≤ p.1 ∧ p.1 < w.hi)
    (x : UsageAcc) (hx : Owing w (fun fig =>
      (pieces.map fun p => ((p.2 - p.1 : Int) : ℚ) / 1000).sum * UsageFigure.execution.one fig) x) :
    Owing w (fun _ => 0) (pieces.foldl (addPiece source w) x) := by
  induction pieces generalizing x with
  | nil =>
    simp only [map_nil, sum_nil, zero_mul] at hx
    exact hx
  | cons p rest ih =>
    obtain ⟨hlo, hhi⟩ := hin p mem_cons_self
    apply ih (fun q hq => hin q (mem_cons_of_mem _ hq))
    simp only [map_cons, sum_cons, add_mul] at hx
    apply Owing.onBucket source w hw _ _ hx hlo hhi
    intro b fig
    cases fig <;> simp [UsageBucket.figure, UsageFigure.one]

omit hw in
theorem execution_mem (hobs : w.observed ≤ w.hi) {j : UsageJob} {p : Int × Int}
    (hp : execution w j = some p) : w.lo ≤ p.1 ∧ p.1 < p.2 ∧ p.2 ≤ w.hi := by
  unfold execution at hp
  cases hst : j.startedAt with
  | none => simp [hst] at hp
  | some st =>
    simp only [hst] at hp
    split_ifs at hp with hlt
    obtain rfl := Option.some.inj hp
    refine ⟨le_max_right _ _, hlt, le_trans ?_ hobs⟩
    cases j.completedAt with
    | none => exact le_refl _
    | some done => exact min_le_right _ _

theorem addExecution_adds (hobs : w.observed ≤ w.hi) {j : UsageJob} :
    Adds w (fun fig => j.executed w * UsageFigure.execution.one fig) (j.events w) x
      (addExecution source w j x) := by
  unfold addExecution UsageJob.executed UsageJob.events
  cases hex : execution w j with
  | none =>
    simp only [zero_mul]
    exact Adds.refl w x
  | some p =>
    obtain ⟨start, stop⟩ := p
    obtain ⟨hlo, hlt, hhi⟩ := execution_mem hobs hex
    have hend : ∀ t, t < w.bucketEnd t := by
      intro t
      have h := Int.lt_ediv_add_one_mul_self (t - w.lo) hw
      unfold UsageWindow.bucketEnd UsageWindow.bucket
      omega
    have hin : ∀ p ∈ cuts w.bucketEnd (cutFuel start stop) start stop, w.lo ≤ p.1 ∧ p.1 < w.hi := by
      intro p hp
      obtain ⟨hge, hlt', hle, -⟩ := mem_cuts hend _ hp
      exact ⟨le_trans hlo hge, lt_of_lt_of_le hlt' (le_trans hle hhi)⟩
    have hsum : ((cuts w.bucketEnd (cutFuel start stop) start stop).map fun p =>
        ((p.2 - p.1 : Int) : ℚ) / 1000).sum = ((stop - start : Int) : ℚ) / 1000 := by
      apply sum_cuts hend (fun a b => ((b - a : Int) : ℚ) / 1000) _ _ (le_of_lt hlt) (le_refl _)
      intro a b c _ _
      push_cast
      ring
    obtain ⟨hfigure, hevents, hkey⟩ := foldl_addPiece source { x with
        row := { x.row with
          jobExecutionSeconds := x.row.jobExecutionSeconds + ((stop - start : Int) : ℚ) / 1000 }
        events := x.events ++ [⟨start, 1⟩, ⟨stop, -1⟩] }
    refine ⟨fun hx => ?_, fun fig => (hfigure fig).trans ?_, hevents, hkey⟩
    · apply owing_pieces source hw hin
      refine ⟨hx.sound, hx.whole, fun fig => ?_⟩
      have hbalance := hx.balance fig
      rw [hsum, ← add_zero (inBuckets _ fig), ← hbalance]
      cases fig <;> simp [UsageAcc.figure, UsageRow.figure, UsageFigure.one]
    · cases fig <;> simp [UsageAcc.figure, UsageRow.figure, UsageFigure.one]

theorem scanJob_adds (hobs : w.observed ≤ w.hi) (j : UsageJob) :
    Adds w (j.adds w) (j.events w) x (scanJob source w x j) := by
  have hqueued := countQueued_adds source hw j x
  have hstarted := hqueued.trans (countStarted_adds source hw j)
  have hcompleted := hstarted.trans (countCompleted_adds source hw j)
  exact hcompleted.trans (addExecution_adds source hw hobs)

theorem addFed_adds {f : Fed} (hlo : w.lo ≤ f.start) (hhi : f.start < w.hi) :
    Adds w (fun fig => f.secs * UsageFigure.allocated.one fig) [] x (addFed source w x f) := by
  have hadd : Adds w (fun fig => f.secs * UsageFigure.allocated.one fig) [] x
      (onBucket source w f.start (fun b => { b with allocatedSeconds := b.allocatedSeconds + f.secs })
        { x with allocated := x.allocated + f.secs }) := by
    refine adds_onBucket source hw hlo hhi (fun b fig => ?_) (fun fig => ?_) rfl rfl rfl rfl
    · cases fig <;> simp [UsageBucket.figure, UsageFigure.one]
    · cases fig <;> simp [UsageAcc.figure, UsageRow.figure, UsageFigure.one]
  unfold addFed
  cases f.cost with
  | none => exact hadd
  | some cost =>
    refine ⟨fun hx => ?_, fun fig => ?_, hadd.events, hadd.key⟩
    · obtain ⟨hsound, hwhole, hbalance⟩ := hadd.owing hx
      refine ⟨hsound, hwhole, fun fig => ?_⟩
      rw [← hbalance fig]
      cases fig <;> rfl
    · rw [← hadd.figure fig]
      cases fig <;> rfl

theorem addCapacity_adds {g : CapacitySum} (hlo : w.lo ≤ w.lo + g.bucket * w.width)
    (hhi : w.lo + g.bucket * w.width < w.hi) :
    Adds w (fun _ => 0) [] x (addCapacity source w x g) := by
  refine adds_onBucket source hw hlo hhi (fun b fig => ?_) (fun _ => (add_zero _).symm)
    rfl rfl rfl rfl
  cases fig <;> simp [UsageBucket.figure]

end

end Zoomies.Store
