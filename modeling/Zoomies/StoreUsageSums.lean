import Zoomies.StoreUsageRows

/-! A job adds to a window what happened in it, so reports over adjacent windows add up. -/
namespace Zoomies.Store
open Zoomies.Go List

structure UsageJob.InOrder (j : UsageJob) : Prop where
  started : ∀ st, j.startedAt = some st → j.queuedAt ≤ st
  completed : ∀ done, j.completedAt = some done → j.queuedAt ≤ done
  run : ∀ st done, j.startedAt = some st → j.completedAt = some done → st ≤ done

def UsageJob.Around (lo hi : Int) (j : UsageJob) : Prop :=
  j.queuedAt < hi ∧ j.completedAt.getD hi ≥ lo

instance (lo hi : Int) : DecidablePred (UsageJob.Around lo hi) :=
  fun j => inferInstanceAs (Decidable (j.queuedAt < hi ∧ j.completedAt.getD hi ≥ lo))

theorem sum_usageJobsInWindow {M : Type} [AddCommMonoid M] {lo hi : Int} (hle : lo ≤ hi)
    (jobs : List UsageJob) (φ : UsageJob → M) : ((usageJobsInWindowSQL lo hi jobs).map φ).sum =
      (jobs.map fun j => if j.Around lo hi then φ j else 0).sum := by
  rw [usageJobsInWindowSQL, map_append, map_append, sum_append, sum_append,
    sum_map_filter, sum_map_filter, sum_map_filter, ← sum_map_add, ← sum_map_add]
  congr 1
  apply map_congr_left
  intro j _
  unfold UsageJob.Around
  rcases Option.eq_none_or_eq_some j.completedAt with hc | ⟨done, hc⟩
  · cases j.state <;> simp [hc, hle]
  · cases j.state <;> simp [hc, and_comm]

def fleetJobs (expr : UsageJob → String) (s : UsageTables) (k : String) : List UsageJob :=
  s.jobs.filter fun j => managedJobSQL j = true ∧ expr j = k

theorem sum_keyJobs {M : Type} [AddCommMonoid M] {w : UsageWindow} (hle : w.lo ≤ w.hi)
    {expr : UsageJob → String} {s : UsageTables} {k : String} {φ : UsageJob → M}
    (hφ : ∀ j ∈ s.jobs, ¬j.Around w.lo w.hi → φ j = 0) :
    ((keyJobs w expr s k).map φ).sum = ((fleetJobs expr s k).map φ).sum := by
  have hmanaged : ((usageJobsInWindowSQL w.lo w.hi s.jobs).filter managedJobSQL).filter
      (fun j => expr j = k) = (usageJobsInWindowSQL w.lo w.hi s.jobs).filter fun j =>
        managedJobSQL j = true ∧ expr j = k := by
    rw [filter_filter]
    apply filter_congr
    intro j _
    rw [Bool.decide_and, Bool.decide_eq_true, Bool.and_comm]
  rw [keyJobs, hmanaged, sum_map_filter, sum_usageJobsInWindow hle, fleetJobs, sum_map_filter]
  congr 1
  apply map_congr_left
  intro j hj
  by_cases ha : j.Around w.lo w.hi
  · rw [if_pos ha]
  · rw [if_neg ha, hφ j hj ha, ite_self]

def UsageJob.runEnd (now : Int) (j : UsageJob) : Int :=
  match j.completedAt with
  | none => now
  | some done => min done now

section
variable {w : UsageWindow} {now : Int} (hnow : w.observed = min w.hi now)
include hnow

theorem execution_eq {j : UsageJob} {st : Int} (hst : j.startedAt = some st) :
    execution w j = if max st w.lo < min (j.runEnd now) w.hi then
      some (max st w.lo, min (j.runEnd now) w.hi) else none := by
  unfold execution UsageJob.runEnd
  rw [hst]
  rcases Option.eq_none_or_eq_some j.completedAt with hc | ⟨done, hc⟩
  · simp [hc, hnow, min_comm w.hi now]
  · simp only [hc, hnow, min_comm w.hi now, ← min_assoc, gt_iff_lt]

theorem executed_eq (j : UsageJob) : j.executed w =
    match j.startedAt with
    | none => 0
    | some st => (overlap st (j.runEnd now) w.lo w.hi : ℚ) / 1000 := by
  unfold UsageJob.executed
  cases hst : j.startedAt with
  | none =>
    have hnone : execution w j = none := by
      unfold execution
      rw [hst]
    rw [hnone]
  | some st =>
    rw [execution_eq hnow hst]
    dsimp only
    unfold overlap
    by_cases hlt : max st w.lo < min (j.runEnd now) w.hi
    · have hpos : 0 ≤ min (j.runEnd now) w.hi - max st w.lo := by omega
      rw [if_pos hlt, max_eq_right hpos]
    · have hneg : min (j.runEnd now) w.hi - max st w.lo ≤ 0 := by omega
      rw [if_neg hlt, max_eq_left hneg, Int.cast_zero, zero_div]

theorem adds_of_not_around (hle : w.lo ≤ w.hi) {j : UsageJob} (hj : j.InOrder)
    (ha : ¬j.Around w.lo w.hi) (fig : UsageFigure) : j.adds w fig = 0 ∧ execution w j = none := by
  have hqueued : w.counts (some j.queuedAt) = 0 := by
    apply if_neg
    intro hin
    apply ha
    refine ⟨hin.2, ?_⟩
    cases hc : j.completedAt with
    | none => exact hle
    | some done => exact le_trans hin.1 (hj.completed done hc)
  have hstarted : w.counts j.startedAt = 0 := by
    cases hst : j.startedAt with
    | none => rfl
    | some st =>
      apply if_neg
      intro hin
      apply ha
      refine ⟨lt_of_le_of_lt (hj.started st hst) hin.2, ?_⟩
      cases hc : j.completedAt with
      | none => exact hle
      | some done => exact le_trans hin.1 (hj.run st done hst hc)
  have hcompleted : w.counts j.completedAt = 0 := by
    cases hc : j.completedAt with
    | none => rfl
    | some done =>
      apply if_neg
      intro hin
      apply ha
      refine ⟨lt_of_le_of_lt (hj.completed done hc) hin.2, ?_⟩
      rw [hc]
      exact hin.1
  have hnone : execution w j = none := by
    cases hst : j.startedAt with
    | none =>
      unfold execution
      rw [hst]
    | some st =>
      rw [execution_eq hnow hst]
      apply if_neg
      intro hlt
      apply ha
      have hqst := hj.started st hst
      refine ⟨by omega, ?_⟩
      cases hc : j.completedAt with
      | none => exact hle
      | some done =>
        have hend : j.runEnd now ≤ done := by
          unfold UsageJob.runEnd
          rw [hc]
          exact min_le_left _ _
        change done ≥ w.lo
        omega
  refine ⟨?_, hnone⟩
  have hexecuted : j.executed w = 0 := by
    unfold UsageJob.executed
    rw [hnone]
  rw [UsageJob.adds, hqueued, hstarted, hcompleted, hexecuted]
  ring

end

def UsageJob.runs (w : UsageWindow) (t : Int) (j : UsageJob) : Int := active (execution w j).toList t

theorem active_spans (w : UsageWindow) (jobs : List UsageJob) (t : Int) :
    active (spans w jobs) t = (jobs.map fun j => j.runs w t).sum := by
  induction jobs with
  | nil => rfl
  | cons j rest ih =>
    rw [map_cons, sum_cons, ← ih]
    unfold spans UsageJob.runs active
    rw [filterMap_cons]
    cases execution w j with
    | none => exact (zero_add _).symm
    | some p =>
      rw [map_cons, sum_cons, Option.toList_some, map_singleton, sum_singleton]

theorem runs_eq {w : UsageWindow} {now : Int} (hnow : w.observed = min w.hi now) (t : Int)
    (j : UsageJob) : j.runs w t =
      match j.startedAt with
      | none => 0
      | some st => if st ≤ t ∧ t < j.runEnd now ∧ w.lo ≤ t ∧ t < w.hi then 1 else 0 := by
  unfold UsageJob.runs
  cases hst : j.startedAt with
  | none =>
    have hnone : execution w j = none := by
      unfold execution
      rw [hst]
    rw [hnone]
    rfl
  | some st =>
    rw [execution_eq hnow hst]
    dsimp only
    by_cases hlt : max st w.lo < min (j.runEnd now) w.hi
    · rw [if_pos hlt, Option.toList_some, active, map_singleton, sum_singleton]
      dsimp only
      apply if_congr _ rfl rfl
      rw [max_le_iff, lt_min_iff]
      tauto
    · rw [if_neg hlt, if_neg (by omega)]
      rfl

structure Adjacent (ab bc ac : UsageWindow) : Prop where
  left : ac.lo = ab.lo
  meet : ab.hi = bc.lo
  right : ac.hi = bc.hi
  le_left : ab.lo ≤ ab.hi
  le_right : bc.lo ≤ bc.hi

section
variable {ab bc ac : UsageWindow} (hadj : Adjacent ab bc ac) (now : Int)
variable (hab : ab.observed = min ab.hi now) (hbc : bc.observed = min bc.hi now)
variable (hac : ac.observed = min ac.hi now)
include hadj

theorem counts_split (o : Option Int) : ac.counts o = ab.counts o + bc.counts o := by
  obtain ⟨hl, hm, hr, hle, hle'⟩ := hadj
  cases o with
  | none => exact (add_zero _).symm
  | some t =>
    unfold UsageWindow.counts
    dsimp only
    rw [hl, hr]
    by_cases h1 : t ≥ ab.lo ∧ t < ab.hi
    · have h2 : ¬(t ≥ bc.lo ∧ t < bc.hi) := by omega
      have h3 : t ≥ ab.lo ∧ t < bc.hi := by omega
      rw [if_pos h1, if_neg h2, if_pos h3, add_zero]
    have h3 : (t ≥ ab.lo ∧ t < bc.hi) ↔ t ≥ bc.lo ∧ t < bc.hi := by omega
    rw [if_neg h1, zero_add]
    exact if_congr h3 rfl rfl

include hab hbc hac

theorem executed_split (j : UsageJob) : j.executed ac = j.executed ab + j.executed bc := by
  obtain ⟨hl, hm, hr, hle, hle'⟩ := hadj
  rw [executed_eq hac, executed_eq hab, executed_eq hbc]
  cases j.startedAt with
  | none => exact (add_zero _).symm
  | some st =>
    dsimp only
    rw [hl, hr, ← overlap_split_window hle (hm ▸ hle'), hm]
    push_cast
    ring

theorem adds_split {j : UsageJob} {fig : UsageFigure} : j.adds ac fig = j.adds ab fig + j.adds bc fig := by
  unfold UsageJob.adds
  rw [executed_split hadj now hab hbc hac, counts_split hadj, counts_split hadj, counts_split hadj]
  ring

theorem runs_split (j : UsageJob) (t : Int) : j.runs ac t = j.runs ab t + j.runs bc t := by
  obtain ⟨hl, hm, hr, hle, hle'⟩ := hadj
  rw [runs_eq hac, runs_eq hab, runs_eq hbc]
  cases j.startedAt with
  | none => rfl
  | some st =>
    dsimp only
    rw [hl, hr]
    by_cases h1 : st ≤ t ∧ t < j.runEnd now ∧ ab.lo ≤ t ∧ t < ab.hi
    · have h2 : ¬(st ≤ t ∧ t < j.runEnd now ∧ bc.lo ≤ t ∧ t < bc.hi) := by omega
      have h3 : st ≤ t ∧ t < j.runEnd now ∧ ab.lo ≤ t ∧ t < bc.hi := by omega
      rw [if_pos h1, if_neg h2, if_pos h3, add_zero]
    have h3 : (st ≤ t ∧ t < j.runEnd now ∧ ab.lo ≤ t ∧ t < bc.hi) ↔
        st ≤ t ∧ t < j.runEnd now ∧ bc.lo ≤ t ∧ t < bc.hi := by omega
    rw [if_neg h1, zero_add]
    exact if_congr h3 rfl rfl

end

theorem sortEvents_sorted {events : List (Edge Int)} : EdgesSorted (sortEvents events) := by
  refine sortStableFunc_pairwise.imp ?_
  intro a b hab
  unfold ordered compareLex compareOn at hab
  rcases lt_trichotomy a.instant b.instant with h | h | h
  · exact .inl h
  · right
    refine ⟨h, ?_⟩
    rw [h, compare_eq_iff_eq.mpr rfl] at hab
    by_contra hgt
    rw [compare_gt_iff_gt.mpr (not_le.mp hgt)] at hab
    cases hab
  · rw [compare_gt_iff_gt.mpr h] at hab
    cases hab

theorem isPeak_sweep (w : UsageWindow) (hobs : w.observed ≤ w.hi) (jobs : List UsageJob) :
    IsPeak (active (spans w jobs)) (sweep (sortEvents (edges (spans w jobs)))) := by
  apply sweep_isPeak _ sortStableFunc_perm sortEvents_sorted
  intro p hp
  obtain ⟨j, -, hj⟩ := mem_filterMap.mp hp
  exact le_of_lt (execution_mem hobs hj).2.1

theorem active_spans_outside {w : UsageWindow} (hobs : w.observed ≤ w.hi) {jobs : List UsageJob} {t : Int}
    (ht : t < w.lo ∨ w.hi ≤ t) : active (spans w jobs) t = 0 := by
  apply sum_eq_zero
  intro n hn
  obtain ⟨p, hp, rfl⟩ := mem_map.mp hn
  obtain ⟨j, -, hj⟩ := mem_filterMap.mp hp
  obtain ⟨hlo, -, hhi⟩ := execution_mem hobs hj
  exact if_neg (by omega)

theorem allocationFeeds_ok {d : Driver} (hd : d.queryError = none) {group : UsageGroup}
    {w : UsageWindow} (hw : 0 < w.width) (hobs : w.observed ≤ w.hi) {s : UsageLedger} :
    ∃ feeds, allocationFeeds d group w s = .ok feeds ∧
      (∀ f ∈ feeds, w.lo ≤ f.start ∧ f.start < w.hi) ∧ (group.attributable = false → feeds = []) := by
  by_cases hatt : group.attributable = true
  · obtain ⟨c, hc⟩ : ∃ c, group.column = some c := by
      cases group <;> simp [UsageGroup.attributable] at hatt <;> exact ⟨_, rfl⟩
    refine ⟨dayFeeds c w s ++ rowFeeds c w s, ?_, ?_, fun h => absurd hatt (by rw [h]; decide)⟩
    · rw [allocationFeeds, if_pos hatt]
      unfold usageAllocation
      rw [hd, hc]
    intro f hf
    rcases mem_append.mp hf with h | h
    · obtain ⟨hlo, hhi, -⟩ := rolled_iff.mp (rolled_of_mem_dayFeeds c w h)
      have hday : 0 < dayMS := by decide
      exact ⟨hlo, by omega⟩
    · obtain ⟨stop, hlt, -, hlo, hle, -⟩ := mem_rowFeeds c w hw h
      exact ⟨hlo, by omega⟩
  · refine ⟨[], ?_, fun f hf => (by cases hf), fun _ => rfl⟩
    rw [allocationFeeds, if_neg hatt]

theorem usageWithInterval_spec {d : Driver} (hd : d.queryError = none) {now : Time} {s : UsageTables}
    {source until_ : Time} (hlt : source < until_) (hmax : until_ - source ≤ 366 * 24 * hour)
    {group : UsageGroup} {expr : UsageJob → String} (hexpr : group.expr s.ledger = some expr)
    {interval : UsageInterval} :
    ∃ rows, usageWithInterval d now s source until_ group interval = .ok rows ∧
      (∀ k fig, fig ≠ .allocated → figureOf rows k fig =
        ((keyJobs (reportWindow now source until_ interval) expr s k).map fun j =>
          j.adds (reportWindow now source until_ interval) fig).sum) ∧
      (∀ k, peakOf rows k = sweep (sortEvents (edges (spans (reportWindow now source until_ interval)
        (keyJobs (reportWindow now source until_ interval) expr s k))))) ∧
      ∀ row ∈ rows, ∀ fig, inBuckets row.history fig = row.figure fig := by
  have hw : 0 < (reportWindow now source until_ interval).width := width_pos
  have hobs : (reportWindow now source until_ interval).observed ≤
      (reportWindow now source until_ interval).hi := min_le_left _ _
  obtain ⟨feeds, hfeeds, hin, hnone⟩ := allocationFeeds_ok hd hw hobs
  refine ⟨reportRows source (reportWindow now source until_ interval) expr group s feeds, ?_, ?_, ?_, ?_⟩
  · have hrange : ¬(¬source < until_ ∨ until_ - source > 366 * 24 * hour) :=
      fun h => h.elim (fun h => h hlt) (fun h => not_lt.mpr hmax h)
    have hcrash := not_crashed source _ hw hobs expr group s feeds hin
    rw [usageWithInterval, if_neg hrange, hexpr]
    dsimp only
    rw [hd]
    dsimp only
    rw [hfeeds]
    dsimp only
    rw [hcrash]
    rfl
  · exact fun k fig hfig => figureOf_reportRows hw hobs hin hfig
  · exact fun k => peakOf_reportRows hw hobs hin
  · exact fun row hrow fig =>
      inBuckets_reportRows hw hobs hin hnone hrow

/-- Reports over adjacent windows add up, the peak of the whole is the higher of the two, and the
buckets of a row hold its totals. -/
theorem adjacent_reports_add (d : Driver) (hd : d.queryError = none) (now : Time) (s : UsageTables)
    (hjobs : ∀ j ∈ s.jobs, j.InOrder) (group : UsageGroup)
    (hgroup : (group.expr s.ledger).isSome = true) (a b c : Time) (hab : a < b) (hbc : b < c)
    (hac : c - a ≤ 366 * 24 * hour) (i j k : UsageInterval) :
    ∃ ab bc ac, usageWithInterval d now s a b group i = .ok ab ∧
      usageWithInterval d now s b c group j = .ok bc ∧
      usageWithInterval d now s a c group k = .ok ac ∧ (∀ key fig, fig ≠ .allocated →
        figureOf ac key fig = figureOf ab key fig + figureOf bc key fig) ∧
      (∀ key, peakOf ac key = max (peakOf ab key) (peakOf bc key)) ∧
      ∀ row ∈ ab ++ bc ++ ac, ∀ fig, inBuckets row.history fig = row.figure fig := by
  obtain ⟨expr, hexpr⟩ := Option.isSome_iff_exists.mp hgroup
  have hb : b - a ≤ 366 * 24 * hour := le_trans (Int.sub_le_sub_right (le_of_lt hbc) a) hac
  have hc : c - b ≤ 366 * 24 * hour := le_trans (Int.sub_le_sub_left (le_of_lt hab) c) hac
  obtain ⟨ab, hab', habf, habp, habb⟩ := usageWithInterval_spec hd hab hb hexpr
  obtain ⟨bc, hbc', hbcf, hbcp, hbcb⟩ := usageWithInterval_spec hd hbc hc hexpr
  obtain ⟨ac, hac', hacf, hacp, hacb⟩ :=
    usageWithInterval_spec hd (lt_trans hab hbc) hac hexpr
  have hadj : Adjacent (reportWindow now a b i) (reportWindow now b c j) (reportWindow now a c k) :=
    ⟨rfl, rfl, rfl, ms_le_ms (le_of_lt hab), ms_le_ms (le_of_lt hbc)⟩
  have hle : (reportWindow now a c k).lo ≤ (reportWindow now a c k).hi :=
    ms_le_ms (le_of_lt (lt_trans hab hbc))
  -- every job of the fleet counts, for one that was not around adds nothing
  have hfigure : ∀ w : UsageWindow, w.lo ≤ w.hi → w.observed = min w.hi (ms now) → ∀ key fig,
      ((keyJobs w expr s key).map fun j => j.adds w fig).sum =
        ((fleetJobs expr s key).map fun j => j.adds w fig).sum :=
    fun w hw hnow key fig => sum_keyJobs hw fun j hj ha =>
      (adds_of_not_around hnow hw (hjobs j hj) ha fig).1
  have hrunning : ∀ w : UsageWindow, w.lo ≤ w.hi → w.observed = min w.hi (ms now) → ∀ key t,
      active (spans w (keyJobs w expr s key)) t = ((fleetJobs expr s key).map fun j => j.runs w t).sum := by
    intro w hw hnow key t
    rw [active_spans]
    apply sum_keyJobs hw
    intro j hj ha
    rw [UsageJob.runs, (adds_of_not_around hnow hw (hjobs j hj) ha .queued).2]
    rfl
  refine ⟨ab, bc, ac, hab', hbc', hac', fun key fig hfig => ?_, fun key => ?_, fun row hrow => ?_⟩
  · rw [hacf key fig hfig, habf key fig hfig, hbcf key fig hfig, hfigure _ hle rfl,
      hfigure _ hadj.le_left rfl, hfigure _ hadj.le_right rfl, ← sum_map_add]
    congr 1
    apply map_congr_left
    intro x _
    exact adds_split hadj (ms now) rfl rfl rfl
  · rw [hacp, habp, hbcp]
    have hpeak := isPeak_sweep (reportWindow now a c k) (min_le_left _ _)
      (keyJobs (reportWindow now a c k) expr s key)
    have hsum : active (spans (reportWindow now a c k) (keyJobs (reportWindow now a c k) expr s key)) =
        fun t => active (spans (reportWindow now a b i) (keyJobs (reportWindow now a b i) expr s key)) t +
          active (spans (reportWindow now b c j) (keyJobs (reportWindow now b c j) expr s key)) t := by
      funext t
      rw [hrunning _ hle rfl, hrunning _ hadj.le_left rfl, hrunning _ hadj.le_right rfl,
        ← sum_map_add]
      congr 1
      apply map_congr_left
      intro x _
      exact runs_split hadj (ms now) rfl rfl rfl x t
    rw [hsum] at hpeak
    refine IsPeak.add _ _ _ _ _ (isPeak_sweep _ (min_le_left _ _) _) (isPeak_sweep _ (min_le_left _ _) _)
      hpeak active_nonneg active_nonneg fun t => ?_
    -- an instant is in one of the two windows at most
    rcases lt_or_ge t (ms b) with ht | ht
    · exact .inr (active_spans_outside (min_le_left _ _) (.inl ht))
    · exact .inl (active_spans_outside (min_le_left _ _) (.inr ht))
  · rcases mem_append.mp hrow with h | h
    · rcases mem_append.mp h with h | h
      · exact habb row h
      · exact hbcb row h
    · exact hacb row h

def acrossMidnight : UsageTables where
  jobs := [
    { poolID := "p", state := .completed, queuedAt := 11 * dayMS - 20, startedAt := some (11 * dayMS - 10),
      completedAt := some (11 * dayMS + 10), conclusion := "success" },
    { poolID := "p", state := .queued, queuedAt := 11 * dayMS + 5 }]
  ledger := {}
  samples := []

theorem inOrder_acrossMidnight : ∀ j ∈ acrossMidnight.jobs, j.InOrder := by
  intro j hj
  rcases mem_cons.mp hj with rfl | hj
  · exact ⟨fun st h => Option.some.inj h ▸ by decide, fun done h => Option.some.inj h ▸ by decide,
      fun st done h h' => Option.some.inj h ▸ Option.some.inj h' ▸ by decide⟩
  · obtain rfl := mem_singleton.mp hj
    exact ⟨fun st h => (by cases h), fun done h => (by cases h), fun st done h => (by cases h)⟩

theorem adjacent_reports_add_across_midnight : ∃ ab bc ac,
      usageWithInterval {} (atMillis (12 * dayMS)) acrossMidnight (atMillis (10 * dayMS))
        (atMillis (11 * dayMS)) .pool .auto = .ok ab ∧
      usageWithInterval {} (atMillis (12 * dayMS)) acrossMidnight (atMillis (11 * dayMS))
        (atMillis (12 * dayMS)) .pool .auto = .ok bc ∧
      usageWithInterval {} (atMillis (12 * dayMS)) acrossMidnight (atMillis (10 * dayMS))
        (atMillis (12 * dayMS)) .pool .daily = .ok ac ∧
      figureOf ac "p" .execution = figureOf ab "p" .execution + figureOf bc "p" .execution ∧
      peakOf ac "p" = max (peakOf ab "p") (peakOf bc "p") := by
  obtain ⟨ab, bc, ac, hab, hbc, hac, hfigure, hpeak, -⟩ := adjacent_reports_add {} rfl
    (atMillis (12 * dayMS)) acrossMidnight inOrder_acrossMidnight .pool rfl (atMillis (10 * dayMS))
    (atMillis (11 * dayMS)) (atMillis (12 * dayMS)) (by decide) (by decide) (by decide) .auto .auto .daily
  exact ⟨ab, bc, ac, hab, hbc, hac, hfigure "p" .execution (by decide), hpeak "p"⟩

end Zoomies.Store
