import Zoomies.StoreUsageServed

/-! What the report is fed for a key is its run time, but for what the roll-up loses below a second.
-/
namespace Zoomies.Store
open List

section
variable (c : UsageColumn) (w : UsageWindow) {s : UsageLedger} (hs : Reportable s)
variable (hw : 0 < w.width) (hobs : w.observed ≤ w.hi)

include hs hw in
theorem sum_rolledTime {key : String} : (s.sessions.map fun x => if c.ofSession x = key then
        rolledTime w s.rolledUntil x.startedAt x.finishedAt else 0).sum =
      ((takenDays c w s key).map (dayTime s)).sum := by
  unfold dayTime
  rw [sum_map_comm]
  congr 1
  apply map_congr_left
  intro x hx
  by_cases hk : c.ofSession x = key
  · rw [if_pos hk, rolledTime_session c w hs hw hx, hk]
  rw [if_neg hk]
  symm
  apply sum_eq_zero
  intro m hm
  obtain ⟨d, hd, rfl⟩ := mem_map.mp hm
  apply if_neg
  intro hkey
  apply hk
  rw [← ofDay_dayKey, hkey]
  exact ((mem_takenDays c w).mp hd).2.2

include hs hw hobs in
theorem fedFor_rowFeeds (key : String) : fedFor key (rowFeeds c w s) =
      ((runTime c w s key - ((takenDays c w s key).map (dayTime s)).sum : Int) : ℚ) / 1000 := by
  have hrows : fedFor key (rowFeeds c w s) = ((s.runners.filterMap (runnerRow c w s) ++
        (s.sessions.filter fun x => !hasRunner s x).map (sessionRow c)).map fun r =>
          ((if r.key = key then fedTime w s.rolledUntil r else 0 : Int) : ℚ) / 1000).sum := by
    rw [fedFor_eq, rowFeeds, sum_map_flatMap, runRows, sum_map_filter]
    congr 1
    apply map_congr_left
    intro r _
    rw [← fedFor_eq, fedFor_feedRow w hw]
    by_cases hk : r.key = key
    · rw [if_pos hk, if_pos hk]
      by_cases hin : r.start < w.hi ∧ r.stop > w.lo
      · rw [if_pos hin]
      · rw [if_neg hin, fedTime_of_absent w hw hobs hin, Int.cast_zero, zero_div]
    · rw [if_neg hk, if_neg hk, Int.cast_zero, zero_div, ite_self]
  have htime : ((s.runners.filterMap (runnerRow c w s) ++
        (s.sessions.filter fun x => !hasRunner s x).map (sessionRow c)).map fun r =>
          if r.key = key then fedTime w s.rolledUntil r else 0).sum =
      runTime c w s key - ((takenDays c w s key).map (dayTime s)).sum := by
    rw [sum_union hs, runTime, ← sum_rolledTime c w hs hw, sum_map_filter, sum_map_filter,
      eq_sub_iff_add_eq, add_right_comm, ← sum_map_add]
    congr 2
    · apply map_congr_left
      intro x _
      by_cases hk : c.ofSession x = key
      · rw [if_pos hk, if_pos hk]
        exact (congrArg (· + _) (if_pos hk)).trans (sub_add_cancel _ _)
      · rw [if_neg hk, if_neg hk]
        exact (congrArg (· + _) (if_neg hk)).trans (add_zero _)
    · apply map_congr_left
      intro r hr
      apply if_congr Iff.rfl _ rfl
      have hnone := rolledTime_unrecorded w hs hw hr (r.finishedAt.getD w.observed)
      exact (congrArg (_ - ·) hnone).trans (sub_zero _)
  rw [hrows, ← htime, Int.cast_list_sum, map_map, div_eq_mul_inv, ← sum_map_mul_right]
  simp only [Function.comp_def, div_eq_mul_inv]

include hs in
theorem lost_of_takenDay (key : String) (d : UsageDay) (hd : d ∈ takenDays c w s key) :
    0 ≤ (dayTime s d : ℚ) / 1000 - d.allocatedSeconds ∧
      (dayTime s d : ℚ) / 1000 - d.allocatedSeconds < 1 := by
  obtain ⟨hmem, hrolled, -⟩ := (mem_takenDays c w).mp hd
  obtain ⟨-, -, huntil, -⟩ := rolled_iff.mp hrolled
  have hlt : d.key.day < s.rolledUntil := by
    have hpos : 0 < dayMS := by decide
    omega
  have hsecs : d.allocatedSeconds = dayTime s d / 1000 := seconds_of_usageDaily hs hmem hlt
  have hmod : dayTime s d = 1000 * d.allocatedSeconds + dayTime s d % 1000 := by
    rw [hsecs, Int.mul_ediv_add_emod]
  have hge : 0 ≤ dayTime s d % 1000 := Int.emod_nonneg _ (by decide)
  have hle : dayTime s d % 1000 < 1000 := Int.emod_lt_of_pos _ (by decide)
  have hgap : (dayTime s d : ℚ) / 1000 - d.allocatedSeconds = ((dayTime s d % 1000 : Int) : ℚ) / 1000 := by
    have hcast : (dayTime s d : ℚ) = 1000 * d.allocatedSeconds + ((dayTime s d % 1000 : Int) : ℚ) := by
      exact_mod_cast hmod
    rw [hcast]
    ring
  have hge' : (0 : ℚ) ≤ ((dayTime s d % 1000 : Int) : ℚ) := by exact_mod_cast hge
  have hle' : ((dayTime s d % 1000 : Int) : ℚ) < 1000 := by exact_mod_cast hle
  rw [hgap]
  exact ⟨by linarith, by linarith⟩

include hs hw hobs in
theorem fedFor_add_lost (key : String) :
    fedFor key (dayFeeds c w s ++ rowFeeds c w s) + ((takenDays c w s key).map fun d =>
        (dayTime s d : ℚ) / 1000 - d.allocatedSeconds).sum = (runTime c w s key : ℚ) / 1000 := by
  have hlost : ((takenDays c w s key).map fun d => (dayTime s d : ℚ) / 1000 - d.allocatedSeconds).sum +
      ((takenDays c w s key).map fun d => (d.allocatedSeconds : ℚ)).sum =
        ((((takenDays c w s key).map (dayTime s)).sum : Int) : ℚ) / 1000 := by
    rw [← sum_map_add, Int.cast_list_sum, map_map, div_eq_mul_inv, ← sum_map_mul_right]
    congr 1
    apply map_congr_left
    intro d _
    rw [sub_add_cancel, div_eq_mul_inv]
    rfl
  have hrows := fedFor_rowFeeds c w hs hw hobs key
  rw [Int.cast_sub] at hrows
  rw [fedFor_append, fedFor_dayFeeds, hrows]
  linarith

theorem rolled_of_mem_dayFeeds {g : Fed} (hg : g ∈ dayFeeds c w s) :
    w.rolled s.rolledUntil g.start = true := by
  unfold dayFeeds at hg
  split_ifs at hg
  · obtain ⟨sum, hsum, rfl⟩ := mem_map.mp hg
    exact (mem_filter.mp hsum).2
  · cases hg

include hs in
theorem midnight_of_mem_dayFeeds {g : Fed} (hg : g ∈ dayFeeds c w s) : utcDay g.start = g.start := by
  unfold dayFeeds at hg
  split_ifs at hg
  · obtain ⟨sum, hsum, rfl⟩ := mem_map.mp hg
    have hkey := key_mem_foldl_amend (fun g : DaySum => (g.day, g.key)) (addDay c) (fun o d _ => by cases o <;> rfl) [] _ (mem_map_of_mem (mem_filter.mp hsum).1)
    rcases hkey with h | h
    · cases h
    obtain ⟨d, hd, hday⟩ := mem_map.mp h
    have hday' : d.key.day = sum.day := congrArg Prod.fst hday
    obtain ⟨-, hlt⟩ := of_decide_eq_true (mem_filter.mp hd).2
    have hmid := (day_of_usageDaily hs (mem_filter.mp hd).1 (lt_min_iff.mp hlt).2).1
    rw [hday'] at hmid
    exact hmid
  · cases hg

include hw in
theorem mem_rowFeeds {f : Fed} (hf : f ∈ rowFeeds c w s) :
    ∃ stop : Int, f.start < stop ∧ f.secs = ((stop - f.start : Int) : ℚ) / 1000 ∧ w.lo ≤ f.start ∧
      stop ≤ w.observed ∧ w.bucket f.start = w.bucket (stop - 1) ∧ stop ≤ utcDay f.start + dayMS ∧
        w.rolled s.rolledUntil (utcDay f.start) = false := by
  obtain ⟨r, -, hr⟩ := mem_flatMap.mp hf
  obtain ⟨p, hp, rfl⟩ := mem_map.mp hr
  obtain ⟨hmem, hkept⟩ := mem_filter.mp hp
  obtain ⟨hge, hlt, hle, hday, hbucket⟩ := mem_pieces hw hmem
  exact ⟨p.2, hlt, rfl, le_trans (le_max_right _ _) hge, le_trans hle (min_le_right _ _), hbucket,
    hday, by simpa using hkept⟩

end

/-- For every key the seconds fed are the run time, short of less than a second for each row of the
roll-up; a piece of a row shares no instant with a day of the roll-up; and each lies inside one
bucket. -/
theorem allocation_fed_once (d : Driver) (hd : d.queryError = none) (group : UsageGroup)
    (c : UsageColumn) (hc : group.column = some c) (w : UsageWindow) (hw : 0 < w.width)
    (hobs : w.observed ≤ w.hi) (s : UsageLedger) (hs : Reportable s) :
    usageAllocation d group w s = .ok (dayFeeds c w s ++ rowFeeds c w s) ∧
    (∀ key, fedFor key (dayFeeds c w s ++ rowFeeds c w s) ≤ (runTime c w s key : ℚ) / 1000 ∧
      (takenDays c w s key = [] →
        fedFor key (dayFeeds c w s ++ rowFeeds c w s) = (runTime c w s key : ℚ) / 1000) ∧
      (takenDays c w s key ≠ [] → (runTime c w s key : ℚ) / 1000 <
        fedFor key (dayFeeds c w s ++ rowFeeds c w s) + (takenDays c w s key).length)) ∧
    (∀ f ∈ rowFeeds c w s, ∃ stop : Int, f.start < stop ∧
      f.secs = ((stop - f.start : Int) : ℚ) / 1000 ∧ w.lo ≤ f.start ∧ stop ≤ w.observed ∧
      w.bucket f.start = w.bucket (stop - 1) ∧
      ∀ g ∈ dayFeeds c w s, stop ≤ g.start ∨ g.start + dayMS ≤ f.start) ∧
    (∀ g ∈ dayFeeds c w s, w.lo ≤ g.start ∧ g.start + dayMS ≤ w.observed ∧
      w.bucket g.start = w.bucket (g.start + dayMS - 1)) := by
  refine ⟨?_, fun key => ?_, fun f hf => ?_, fun g hg => ?_⟩
  · unfold usageAllocation
    rw [hd, hc]
  · have hfed := fedFor_add_lost c w hs hw hobs key
    have hlost := lost_of_takenDay c w hs key
    refine ⟨?_, fun hnone => ?_, fun hsome => ?_⟩
    · have hnonneg := sum_nonneg (l := (takenDays c w s key).map fun d =>
        (dayTime s d : ℚ) / 1000 - d.allocatedSeconds) fun q hq => by
          obtain ⟨e, he, rfl⟩ := mem_map.mp hq
          exact (hlost e he).1
      linarith
    · rw [hnone, map_nil, sum_nil, add_zero] at hfed
      exact hfed
    have hless := sum_lt_sum_of_ne_nil hsome
      (fun d => (dayTime s d : ℚ) / 1000 - d.allocatedSeconds) (fun _ => (1 : ℚ))
      fun e he => (hlost e he).2
    rw [map_const', sum_replicate, nsmul_one] at hless
    linarith
  · obtain ⟨stop, hlt, hsecs, hlo, hle, hbucket, hday, hkept⟩ := mem_rowFeeds c w hw hf
    refine ⟨stop, hlt, hsecs, hlo, hle, hbucket, fun g hg => ?_⟩
    have hmid := midnight_of_mem_dayFeeds c w hs hg
    have hrolled := rolled_of_mem_dayFeeds c w hg
    by_contra hmeet
    have hbefore : g.start ≤ f.start := by
      by_contra hafter
      have hl := utcDay_le f.start
      have hend := day_end_le (utcDay_utcDay f.start) hmid (by omega)
      omega
    -- a piece that meets the day lies in it, and then the day is not the rows' to feed
    have hsame := utcDay_eq_of_mem hmid hbefore (by omega)
    rw [hsame, hrolled] at hkept
    cases hkept
  · obtain ⟨hlo, -, -, hle, hbucket⟩ := rolled_iff.mp (rolled_of_mem_dayFeeds c w hg)
    exact ⟨hlo, hle, hbucket⟩

def lifeRolledUp : UsageLedger :=
  let start : UsageLedger :=
    { runners := [⟨"a", "x", "h", 10 * dayMS, some (11 * dayMS + 43200500), none, none⟩]
      pools := [⟨"x", "i", none⟩, ⟨"y", "i", none⟩]
      sessions := [⟨"a", "x", "h", "i", 10 * dayMS, 11 * dayMS + 43200500, none, 11 * dayMS + 43200500⟩] }
  addRunner (12 * dayMS) ⟨"b", "x", "h", 0, none, none, none⟩
    (rollUpUsage {} (atMillis (12 * dayMS)) start).1

theorem reportable_lifeRolledUp : Reportable lifeRolledUp where
  pooled := by decide +kernel
  runnerIDs := by decide +kernel
  sessionIDs := by decide +kernel
  dayKeys := by decide +kernel
  copied := by decide +kernel
  rolledUp := fun k source until_ hk hsource huntil =>
    rolledUp_of_rollUpSessions (atMillis (10 * dayMS)) (atMillis (12 * dayMS))
      (by decide +kernel) (by decide +kernel) (by decide +kernel) hk hsource huntil
  awaited := by decide +kernel

def threeDays : UsageWindow := ⟨10 * dayMS, 13 * dayMS, 12 * dayMS + 43200000, dayMS⟩

theorem allocation_fed_once_rolledUp : runTime .pool threeDays lifeRolledUp "x" = 172800500 ∧
      (172800500 : ℚ) / 1000 <
        fedFor "x" (dayFeeds .pool threeDays lifeRolledUp ++ rowFeeds .pool threeDays lifeRolledUp) + 2 := by
  have htime : runTime .pool threeDays lifeRolledUp "x" = 172800500 := by decide +kernel
  have hlen : (takenDays .pool threeDays lifeRolledUp "x").length = 2 := by decide +kernel
  have hfed := (allocation_fed_once {} rfl .pool .pool rfl threeDays (by decide) (by decide)
    lifeRolledUp reportable_lifeRolledUp).2.1 "x"
  have hsome : takenDays .pool threeDays lifeRolledUp "x" ≠ [] := by
    decide
  have hless := hfed.2.2 hsome
  exact ⟨htime, hless⟩

def movedToY : UsageLedger := editRunners (fun r => { r with poolID := "y" }) lifeRolledUp

def dayAndHalf : UsageWindow := ⟨10 * dayMS, 11 * dayMS + 43200000, 11 * dayMS + 43200000, dayMS⟩

/-- The half day the roll-up does not serve is fed under the runner's new pool: of the session's
129600 seconds pool "x" is fed 86400 and pool "y" 43200. -/
theorem moved_runner_split : movedToY.usageDaily =
        rollUpSessions movedToY.sessions (atMillis (10 * dayMS)) (atMillis (12 * dayMS)) ∧
      movedToY.rolledUntil = 12 * dayMS ∧
      (∀ r ∈ movedToY.unrecorded, movedToY.rolledUntil ≤ r.createdAt) ∧
      runTime .pool dayAndHalf movedToY "x" = 129600000 ∧
      runTime .pool dayAndHalf movedToY "y" = 0 ∧
      (takenDays .pool dayAndHalf movedToY "x").length = 1 ∧
      takenDays .pool dayAndHalf movedToY "y" = [] ∧
      fedFor "x" (dayFeeds .pool dayAndHalf movedToY ++ rowFeeds .pool dayAndHalf movedToY) = 86400 ∧
      fedFor "y" (dayFeeds .pool dayAndHalf movedToY ++ rowFeeds .pool dayAndHalf movedToY) = 43200 := by
  decide +kernel

end Zoomies.Store
