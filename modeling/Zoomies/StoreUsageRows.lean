import Zoomies.StoreUsageAllocated
import Zoomies.StoreUsageScan

/-! What is gathered under one key is what the rows of that key add, and the report shows it. -/
namespace Zoomies.Store
open Zoomies.Go List

def UsageAcc.key (x : UsageAcc) : String := x.row.key

section
variable {γ : Type} (under : γ → String) (f : UsageAcc → γ → UsageAcc)
variable (hf : ∀ x c, (f x c).row.key = x.row.key)
include hf

theorem gather_key (o : Option UsageAcc) (c : γ) (ho : ∀ x, o = some x → x.key = under c) :
    (f (o.getD (UsageAcc.fresh (under c))) c).key = under c := by
  rw [UsageAcc.key, hf]
  cases o with
  | none => rfl
  | some x => exact ho x rfl

theorem nodup_gather (accs : List UsageAcc) (rows : List γ) (h : (accs.map UsageAcc.key).Nodup) :
    ((gather under f accs rows).map UsageAcc.key).Nodup :=
  nodup_foldl_amend UsageAcc.key _ (gather_key under f hf) accs h

theorem getD_rowAt_gather (accs : List UsageAcc) (rows : List γ) (k : String) :
    (rowAt UsageAcc.key k (gather under f accs rows)).getD (UsageAcc.fresh k) =
      (rows.filter fun c => under c = k).foldl f ((rowAt UsageAcc.key k accs).getD (UsageAcc.fresh k)) := by
  have hrow := rowAt_foldl_amend UsageAcc.key under _ (gather_key under f hf) rows accs k
  have hown : ∀ (l : List γ), (∀ c ∈ l, under c = k) → ∀ o : Option UsageAcc,
      (l.foldl (fun o c => some (f (o.getD (UsageAcc.fresh (under c))) c)) o).getD (UsageAcc.fresh k) =
        l.foldl f (o.getD (UsageAcc.fresh k)) := by
    intro l
    induction l with
    | nil => exact fun _ _ => rfl
    | cons c rest ih =>
      intro hl o
      rw [foldl_cons, foldl_cons, ih (fun c hc => hl c (mem_cons_of_mem _ hc)), hl c mem_cons_self]
      rfl
  exact (congrArg (fun o => o.getD (UsageAcc.fresh k)) hrow).trans
    (hown _ (fun c hc => of_decide_eq_true (mem_filter.mp hc).2) _)

end

section
variable (source : Time) (w : UsageWindow) (hw : 0 < w.width) (hobs : w.observed ≤ w.hi)
variable (expr : UsageJob → String) (group : UsageGroup) (s : UsageTables) (feeds : List Fed)

def keyJobs (k : String) : List UsageJob :=
  ((usageJobsInWindowSQL w.lo w.hi s.jobs).filter managedJobSQL).filter fun j => expr j = k

def standing (k : String) : UsageAcc :=
  (rowAt UsageAcc.key k (gathered source w expr group s feeds)).getD (UsageAcc.fresh k)

theorem owing_fresh {k : String} : Owing w (fun _ => 0) (UsageAcc.fresh k) := by
  refine ⟨rfl, .inl rfl, fun fig => ?_⟩
  cases fig <;> simp [UsageAcc.fresh, UsageAcc.figure, UsageRow.figure, inBuckets]

theorem figure_fresh {k : String} {fig : UsageFigure} : (UsageAcc.fresh k).figure fig = 0 := by
  cases fig <;> simp [UsageAcc.fresh, UsageAcc.figure, UsageRow.figure]

theorem addFed_key (x : UsageAcc) (f : Fed) : (addFed source w x f).row.key = x.row.key := by
  unfold addFed
  cases f.cost with
  | none | some cost => exact onBucket_key source w

variable {w feeds}

theorem addCapacity_key (x : UsageAcc) (g : CapacitySum) :
    (addCapacity source w x g).row.key = x.row.key :=
  onBucket_key source w

include hw

theorem mem_capacitySums {samples : List CapacitySample} {g : CapacitySum}
    (hg : g ∈ capacitySums w samples) :
    w.lo ≤ w.lo + g.bucket * w.width ∧ w.lo + g.bucket * w.width < w.hi := by
  have hkey := key_mem_foldl_amend (fun g : CapacitySum => (g.key, g.bucket)) (addSample w)
    (fun o c _ => by cases o <;> rfl) [] _ (mem_map_of_mem hg)
  rcases hkey with h | h
  · cases h
  obtain ⟨c, hc, hpair⟩ := mem_map.mp h
  have hbucket : w.bucket c.instant = g.bucket := congrArg Prod.snd hpair
  obtain ⟨hlo, hhi⟩ := of_decide_eq_true (mem_filter.mp hc).2
  have hle : (c.instant - w.lo) / w.width * w.width ≤ c.instant - w.lo := Int.ediv_mul_le _ hw.ne'
  have hge : 0 ≤ (c.instant - w.lo) / w.width * w.width :=
    mul_nonneg (Int.ediv_nonneg (by omega) (le_of_lt hw)) (le_of_lt hw)
  rw [← hbucket, UsageWindow.bucket]
  omega

include hobs

theorem standing_adds (hfeeds : ∀ f ∈ feeds, w.lo ≤ f.start ∧ f.start < w.hi) (k : String) :
    Adds w (fun fig => ((keyJobs w expr s k).map fun j => j.adds w fig).sum +
        ((feeds.filter fun f => f.key = k).map fun f => f.secs * UsageFigure.allocated.one fig).sum)
      ((keyJobs w expr s k).flatMap fun j => j.events w) (UsageAcc.fresh k)
      (standing source w expr group s feeds k) := by
  have hjobs := adds_foldl (scanJob source w) (fun j => j.adds w) (fun j => j.events w)
    (keyJobs w expr s k) (fun j _ x => scanJob_adds source hw hobs j) (UsageAcc.fresh k)
  have hfed := adds_foldl (addFed source w) (fun f fig => f.secs * UsageFigure.allocated.one fig)
    (fun _ => []) (feeds.filter fun f => f.key = k)
    (fun f hf x => addFed_adds source hw (hfeeds f (mem_of_mem_filter hf)).1
      (hfeeds f (mem_of_mem_filter hf)).2) ((keyJobs w expr s k).foldl (scanJob source w) (UsageAcc.fresh k))
  have hboth := hjobs.trans hfed
  rw [flatMap_eq_nil_iff.mpr fun _ _ => rfl, append_nil] at hboth
  have hscanned := getD_rowAt_gather expr (scanJob source w)
    (fun x j => (scanJob_adds source hw hobs j).key) []
  have haccs := getD_rowAt_gather Fed.key (addFed source w) (addFed_key source w)
    (gather expr (scanJob source w) [] ((usageJobsInWindowSQL w.lo w.hi s.jobs).filter managedJobSQL))
    feeds k
  rw [hscanned] at haccs
  unfold standing gathered
  by_cases hpool : group = .pool
  · have hcapacity := adds_foldl (addCapacity source w) (fun _ _ => 0) (fun _ => [])
      ((capacitySums w s.samples).filter fun g => g.key = k)
      (fun g hg x => addCapacity_adds source hw
        (mem_capacitySums hw (mem_of_mem_filter hg)).1
        (mem_capacitySums hw (mem_of_mem_filter hg)).2)
      ((feeds.filter fun f => f.key = k).foldl (addFed source w)
        ((keyJobs w expr s k).foldl (scanJob source w) (UsageAcc.fresh k)))
    have hall := hboth.trans hcapacity
    rw [flatMap_eq_nil_iff.mpr fun _ _ => rfl, append_nil] at hall
    rw [if_pos hpool, getD_rowAt_gather CapacitySum.key (addCapacity source w) (addCapacity_key source),
      haccs]
    simp only [map_const', sum_replicate, nsmul_zero, add_zero] at hall
    exact hall
  · rw [if_neg hpool, haccs]
    exact hboth

end

def figureOf (rows : List UsageRow) (k : String) (fig : UsageFigure) : ℚ :=
  ((rowAt UsageRow.key k rows).map fun r => r.figure fig).getD 0

def peakOf (rows : List UsageRow) (k : String) : Int :=
  ((rowAt UsageRow.key k rows).map UsageRow.peakConcurrency).getD 0

def spans (w : UsageWindow) (jobs : List UsageJob) : List (Int × Int) := jobs.filterMap (execution w)

theorem flatMap_events (w : UsageWindow) (jobs : List UsageJob) :
    (jobs.flatMap fun j => j.events w) = edges (spans w jobs) := by
  induction jobs with
  | nil => rfl
  | cons j rest ih =>
    rw [flatMap_cons, ih, UsageJob.events]
    unfold spans
    rw [filterMap_cons]
    cases execution w j with
    | none => rfl
    | some p => rfl

theorem width_pos {i : UsageInterval} {source until_ : Time} :
    0 < i.width source until_ / 1000000 := by
  have hdiv : ∀ h : Int, 0 < h → 0 < h * hour / 1000000 := by
    intro h hh
    have hhour : hour = 3600000 * 1000000 := by decide
    rw [hhour, ← mul_assoc, Int.mul_ediv_cancel _ (by decide)]
    omega
  unfold UsageInterval.width
  cases i with
  | auto =>
    split_ifs
    · decide
    · decide
  | other word =>
    dsimp only [usageIntervalHours]
    split_ifs
    · decide
    · decide
  | _ => exact hdiv _ (by decide)

theorem adds_execution (w : UsageWindow) (j : UsageJob) : j.adds w .execution = j.executed w := by
  cases ho : j.outcome <;> simp [UsageJob.adds, UsageFigure.one, ho, JobOutcome.figure]

theorem executed_cases {w : UsageWindow} {j : UsageJob} :
    execution w j = none ∧ j.executed w = 0 ∨ 0 < j.executed w := by
  unfold UsageJob.executed
  cases hex : execution w j with
  | none => exact .inl ⟨rfl, rfl⟩
  | some p =>
    right
    have hlt : p.1 < p.2 := by
      unfold execution at hex
      cases hst : j.startedAt with
      | none => simp [hst] at hex
      | some st =>
        simp only [hst] at hex
        split_ifs at hex with hlt
        obtain rfl := Option.some.inj hex
        exact hlt
    have hpos : (0 : ℚ) < ((p.2 - p.1 : Int) : ℚ) := Int.cast_pos.mpr (by omega)
    exact div_pos hpos (by norm_num)

theorem spans_of_sum_eq_zero {w : UsageWindow} {jobs : List UsageJob}
    (h : (jobs.map fun j => j.adds w .execution).sum = 0) : spans w jobs = [] := by
  induction jobs with
  | nil => rfl
  | cons j rest ih =>
    have hrest : 0 ≤ (rest.map fun j => j.adds w .execution).sum := by
      apply sum_nonneg
      intro q hq
      obtain ⟨i, -, rfl⟩ := mem_map.mp hq
      rw [adds_execution]
      rcases executed_cases with hi | hi
      · exact le_of_eq hi.2.symm
      · exact le_of_lt hi
    rw [map_cons, sum_cons, adds_execution] at h
    rcases executed_cases with ⟨hnone, hzero⟩ | hpos
    · rw [hzero, zero_add] at h
      rw [spans, filterMap_cons, hnone]
      exact ih h
    · linarith

section
variable (source : Time) (w : UsageWindow) (hw : 0 < w.width) (hobs : w.observed ≤ w.hi)
variable (expr : UsageJob → String) (group : UsageGroup) (s : UsageTables) (feeds : List Fed)
variable (hfeeds : ∀ f ∈ feeds, w.lo ≤ f.start ∧ f.start < w.hi)

include hw hobs in
theorem nodup_gathered : ((gathered source w expr group s feeds).map UsageAcc.key).Nodup := by
  have hjobs := nodup_gather expr (scanJob source w) (fun x j => (scanJob_adds source hw hobs j).key) []
    ((usageJobsInWindowSQL w.lo w.hi s.jobs).filter managedJobSQL) nodup_nil
  have hfed := nodup_gather Fed.key (addFed source w) (addFed_key source w) _ feeds hjobs
  unfold gathered
  dsimp only
  split_ifs
  · exact nodup_gather CapacitySum.key (addCapacity source w) (addCapacity_key source) _ _ hfed
  · exact hfed

include hw hobs hfeeds

theorem standing_owing (k : String) :
    Owing w (fun _ => 0) (standing source w expr group s feeds k) :=
  (standing_adds source hw hobs expr group s hfeeds k).owing (owing_fresh w)

theorem standing_figure (k : String) (fig : UsageFigure) (hfig : fig ≠ .allocated) :
    (standing source w expr group s feeds k).figure fig =
      ((keyJobs w expr s k).map fun j => j.adds w fig).sum := by
  rw [(standing_adds source hw hobs expr group s hfeeds k).figure, figure_fresh, zero_add]
  have hzero : ∀ q ∈ (feeds.filter fun f => f.key = k).map fun f =>
      f.secs * UsageFigure.allocated.one fig, q = 0 := by
    intro q hq
    obtain ⟨f, -, rfl⟩ := mem_map.mp hq
    rw [UsageFigure.one, if_neg hfig.symm, mul_zero]
  rw [sum_eq_zero hzero, add_zero]

theorem standing_events (k : String) :
    (standing source w expr group s feeds k).events = edges (spans w (keyJobs w expr s k)) := by
  rw [(standing_adds source hw hobs expr group s hfeeds k).events, flatMap_events]
  rfl

omit hfeeds in
theorem standing_of_mem {x : UsageAcc} (hx : x ∈ gathered source w expr group s feeds) :
    standing source w expr group s feeds x.key = x := by
  rw [standing, rowAt,
    find?_eq_of_nodup UsageAcc.key (nodup_gathered source w hw hobs expr group s feeds) hx]
  rfl

theorem not_crashed : (gathered source w expr group s feeds).any UsageAcc.crashed = false := by
  rw [any_eq_false]
  intro x hx hcrashed
  have hsound := (standing_owing source w hw hobs expr group s feeds hfeeds x.key).sound
  rw [standing_of_mem source w hw hobs expr group s feeds hx, hcrashed] at hsound
  cases hsound

def reportRows : List UsageRow :=
  sortStableFunc (compareOn UsageRow.key)
    (((gathered source w expr group s feeds).filter fun x => !x.nothing).map
      (UsageAcc.finish group.attributable))

variable {source w expr group s feeds}

omit hfeeds in
theorem rowAt_reportRows (k : String) :
    rowAt UsageRow.key k (reportRows source w expr group s feeds) =
      ((rowAt UsageAcc.key k (gathered source w expr group s feeds)).filter fun x => !x.nothing).map
        (UsageAcc.finish group.attributable) := by
  have hn := nodup_gathered source w hw hobs expr group s feeds
  have hkeys : ((((gathered source w expr group s feeds).filter fun x => !x.nothing).map
      (UsageAcc.finish group.attributable)).map UsageRow.key).Nodup := by
    rw [map_map]
    exact hn.sublist (filter_sublist.map UsageAcc.key)
  have hsort := find?_perm UsageRow.key hkeys (@sortStableFunc_perm _ (compareOn UsageRow.key) _).symm k
  exact hsort.symm.trans (find?_filter_map UsageAcc.key
    (UsageAcc.finish group.attributable) (fun _ => rfl) hn)

omit hw hobs hfeeds in
theorem figure_finish {attributable : Bool} {x : UsageAcc} {fig : UsageFigure}
    (hfig : fig ≠ .allocated ∨ attributable = true ∨ x.allocated = 0) :
    (x.finish attributable).figure fig = x.figure fig := by
  cases fig with
  | allocated =>
    rcases hfig with h | h | h
    · exact absurd rfl h
    · simp [UsageAcc.finish, UsageRow.figure, UsageAcc.figure, h]
    cases attributable with
    | true => rfl
    | false => exact h.symm
  | _ => rfl

omit hw hobs hfeeds in
theorem figure_of_nothing {x : UsageAcc} (hx : Owing w (fun _ => 0) x) (hnone : x.nothing = true)
    {fig : UsageFigure} : x.figure fig = 0 := by
  have hhistory : x.row.history = [] := by
    unfold UsageAcc.nothing at hnone
    simp only [Bool.and_eq_true, beq_iff_eq, length_eq_zero_iff] at hnone
    exact hnone.2
  rw [hx.balance, hhistory]
  exact add_zero _

theorem figureOf_reportRows {k : String} {fig : UsageFigure} (hfig : fig ≠ .allocated) :
    figureOf (reportRows source w expr group s feeds) k fig =
      ((keyJobs w expr s k).map fun j => j.adds w fig).sum := by
  have howing := standing_owing source w hw hobs expr group s feeds hfeeds k
  rw [← standing_figure source w hw hobs expr group s feeds hfeeds k fig hfig, figureOf,
    rowAt_reportRows hw hobs]
  unfold standing at howing ⊢
  cases hrow : rowAt UsageAcc.key k (gathered source w expr group s feeds) with
  | none => exact figure_fresh.symm
  | some x =>
    rw [hrow] at howing
    cases hnone : x.nothing with
    | true =>
      rw [Option.filter_some, hnone]
      exact (figure_of_nothing howing hnone).symm
    | false =>
      rw [Option.filter_some, hnone]
      exact figure_finish (.inl hfig)

theorem peakOf_reportRows {k : String} : peakOf (reportRows source w expr group s feeds) k =
      sweep (sortEvents (edges (spans w (keyJobs w expr s k)))) := by
  have howing := standing_owing source w hw hobs expr group s feeds hfeeds k
  have hexecution := standing_figure source w hw hobs expr group s feeds hfeeds k .execution (by decide)
  rw [← standing_events source w hw hobs expr group s feeds hfeeds k, peakOf,
    rowAt_reportRows hw hobs]
  have hevents := standing_events source w hw hobs expr group s feeds hfeeds k
  unfold standing at howing hexecution hevents ⊢
  cases hrow : rowAt UsageAcc.key k (gathered source w expr group s feeds) with
  | none => rfl
  | some x =>
    rw [hrow] at howing hexecution hevents
    cases hnone : x.nothing with
    | true =>
      -- nothing was executed, so there is no event either
      have hzero := hexecution.symm.trans (figure_of_nothing howing hnone)
      have hspans := spans_of_sum_eq_zero hzero
      have hnil : x.events = [] := by
        rw [hspans] at hevents
        exact hevents
      rw [Option.filter_some, hnone]
      dsimp only [Option.getD_some]
      rw [hnil]
      rfl
    | false =>
      rw [Option.filter_some, hnone]
      rfl

theorem inBuckets_reportRows (hnone : group.attributable = false → feeds = []) {row : UsageRow}
    (hrow : row ∈ reportRows source w expr group s feeds) {fig : UsageFigure} :
    inBuckets row.history fig = row.figure fig := by
  rw [reportRows, mem_sortStableFunc] at hrow
  obtain ⟨x, hx, rfl⟩ := mem_map.mp hrow
  have hmem := mem_of_mem_filter hx
  have howing := standing_owing source w hw hobs expr group s feeds hfeeds x.key
  have hadds := standing_adds source hw hobs expr group s hfeeds x.key
  rw [standing_of_mem source w hw hobs expr group s feeds hmem] at howing hadds
  have hbalance : x.figure fig = inBuckets x.row.history fig := (howing.balance fig).trans (add_zero _)
  rw [figure_finish]
  · exact hbalance.symm
  cases hatt : group.attributable with
  | true => exact .inr (.inl rfl)
  | false =>
    have hallocated := hadds.figure .allocated
    have hjobs : ∀ q ∈ (keyJobs w expr s x.key).map fun j => j.adds w .allocated, q = 0 := by
      intro q hq
      obtain ⟨j, -, rfl⟩ := mem_map.mp hq
      cases ho : j.outcome <;> simp [UsageJob.adds, UsageFigure.one, ho, JobOutcome.figure]
    rw [hnone hatt, sum_eq_zero hjobs, figure_fresh] at hallocated
    exact .inr (.inr (hallocated.trans (by simp)))

end

end Zoomies.Store
