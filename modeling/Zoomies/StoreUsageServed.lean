import Zoomies.StoreUsageDaily

/-! A row cut at bucket and day boundaries: each piece lies in one bucket of one day. -/
namespace Zoomies.Store
open List

variable {w : UsageWindow} (hw : 0 < w.width)
include hw

theorem lt_next (t : Int) : t < w.next t := by
  apply lt_min _ (lt_utcDay_add t)
  have h := Int.lt_ediv_add_one_mul_self (t - w.lo) hw
  unfold UsageWindow.bucket
  omega

theorem bucket_eq {a b : Int} (hab : a ≤ b) (hb : b < w.lo + (w.bucket a + 1) * w.width) :
    w.bucket b = w.bucket a := by
  unfold UsageWindow.bucket at hb ⊢
  have hge : (a - w.lo) / w.width ≤ (b - w.lo) / w.width :=
    Int.ediv_le_ediv hw (Int.sub_le_sub_right hab w.lo)
  have hlt : (b - w.lo) / w.width < (a - w.lo) / w.width + 1 :=
    Int.ediv_lt_of_lt_mul hw (by omega)
  omega

theorem mem_pieces {start stop : Int} {p : Int × Int} (hp : p ∈ w.pieces start stop) :
    max start w.lo ≤ p.1 ∧ p.1 < p.2 ∧ p.2 ≤ min stop w.observed ∧ p.2 ≤ utcDay p.1 + dayMS ∧
      w.bucket p.1 = w.bucket (p.2 - 1) := by
  obtain ⟨hge, hlt, hle, hnext⟩ := mem_cuts (lt_next hw) _ hp
  have hday := le_trans hnext (min_le_right _ _)
  have hbucket := le_trans hnext (min_le_left _ _)
  refine ⟨hge, hlt, hle, hday, ?_⟩
  exact (bucket_eq hw (by omega) (by omega)).symm

theorem sum_pieces (start stop : Int) :
    ((w.pieces start stop).map fun p => p.2 - p.1).sum = overlap start stop w.lo w.observed := by
  have hsum := sum_overlap_cuts (lt_next hw) (max start w.lo) (min stop w.observed) w.lo w.observed
  rw [overlap_clip (le_refl _) (le_refl _)] at hsum
  rw [← hsum]
  congr 1
  apply map_congr_left
  intro p hp
  obtain ⟨hge, hlt, hle, -⟩ := mem_pieces hw hp
  exact (overlap_inside hlt.le (le_trans (le_max_right _ _) hge)
    (le_trans hle (min_le_right _ _))).symm

/-- The time of a row in the days the roll-up serves, counted day by day. -/
theorem sum_rolled_pieces {until_ start stop : Int} {days : List Int} (hn : days.Nodup)
    (hmid : ∀ d ∈ days, utcDay d = d) (hrolled : ∀ d ∈ days, w.rolled until_ d = true)
    (hall : ∀ p ∈ w.pieces start stop, w.rolled until_ (utcDay p.1) = true → utcDay p.1 ∈ days) :
    ((w.pieces start stop).map fun p =>
        if w.rolled until_ (utcDay p.1) = true then p.2 - p.1 else 0).sum =
      (days.map fun d => overlap start stop d (d + dayMS)).sum := by
  have hpiece : ∀ p ∈ w.pieces start stop,
      (if w.rolled until_ (utcDay p.1) = true then p.2 - p.1 else 0) =
        (days.map fun d => overlap p.1 p.2 d (d + dayMS)).sum := by
    intro p hp
    obtain ⟨-, hlt, -, hday, -⟩ := mem_pieces hw hp
    have hone : days.map (fun d => overlap p.1 p.2 d (d + dayMS)) =
        days.map fun d => if utcDay p.1 = d then p.2 - p.1 else 0 :=
      map_congr_left fun d hd => overlap_piece (hmid d hd) hlt hday
    have hin : utcDay p.1 ∈ days ↔ w.rolled until_ (utcDay p.1) = true :=
      ⟨hrolled _, hall p hp⟩
    rw [hone, sum_map_eq_of_nodup hn]
    exact (if_congr hin rfl rfl).symm
  have hday : ∀ d ∈ days, overlap start stop d (d + dayMS) =
      ((w.pieces start stop).map fun p => overlap p.1 p.2 d (d + dayMS)).sum := by
    intro d hd
    have hr := hrolled d hd
    simp only [UsageWindow.rolled, Bool.and_eq_true, decide_eq_true_eq] at hr
    rw [UsageWindow.pieces, sum_overlap_cuts (lt_next hw)]
    exact (overlap_clip hr.1.1.1.1 hr.1.2).symm
  rw [map_congr_left hpiece, sum_map_comm, map_congr_left hday]

end Zoomies.Store

namespace Zoomies.Store
open Zoomies.Go

structure Reportable (s : UsageLedger) : Prop where
  pooled : ∀ r ∈ s.runners, (rowAt LedgerPool.id r.poolID s.pools).isSome = true
  runnerIDs : (s.runners.map LedgerRunner.id).Nodup
  sessionIDs : (s.sessions.map RunnerSession.runnerID).Nodup
  dayKeys : (s.usageDaily.map UsageDay.key).Nodup
  /-- A session is its runner's own: the pool, the host and the beginning are those copied. -/
  copied : ∀ r ∈ s.runners, ∀ x ∈ s.sessions, x.runnerID = r.id →
    x.poolID = r.poolID ∧ x.hostID = r.hostID ∧ x.startedAt = r.createdAt
  rolledUp : ∀ k source until_, k.day < s.rolledUntil → utcDay (ms source) ≤ k.day →
    k.day < utcDay (ms until_) → rowAt UsageDay.key k s.usageDaily =
      rowAt UsageDay.key k (rollUpSessions s.sessions source until_)
  awaited : ∀ r ∈ s.runners, hasSession s.sessions r.id = false → s.rolledUntil ≤ r.createdAt

def UsageColumn.ofRunner (c : UsageColumn) (s : UsageLedger) (r : LedgerRunner) : String :=
  match c with
  | .pool => r.poolID
  | .host => r.hostID
  | .installation => ((rowAt LedgerPool.id r.poolID s.pools).map LedgerPool.installationID).getD ""

def UsageLedger.unrecorded (s : UsageLedger) : List LedgerRunner :=
  s.runners.filter fun r => hasSession s.sessions r.id = false

def runTime (c : UsageColumn) (w : UsageWindow) (s : UsageLedger) (key : String) : Int :=
  ((s.sessions.filter fun x => c.ofSession x = key).map fun x =>
      overlap x.startedAt x.finishedAt w.lo w.observed).sum +
    ((s.unrecorded.filter fun r => c.ofRunner s r = key).map fun r =>
      overlap r.createdAt (r.finishedAt.getD w.observed) w.lo w.observed).sum

def fedFor (key : String) (feeds : List Fed) : ℚ :=
  ((feeds.filter fun f => f.key = key).map Fed.secs).sum

def takenDays (c : UsageColumn) (w : UsageWindow) (s : UsageLedger) (key : String) : List UsageDay :=
  (w.days s).filter fun d => w.rolled s.rolledUntil d.key.day = true ∧ c.ofDay d.key = key

section
variable {s : UsageLedger} (hs : Reportable s)
include hs

theorem rowAt_usageDaily (k : UsageDayKey) (hk : k.day < s.rolledUntil) :
    rowAt UsageDay.key k s.usageDaily =
      if utcDay k.day = k.day then dayTotal s.sessions k else none := by
  have hfrom : utcDay (ms (atMillis k.day)) ≤ k.day := by
    rw [ms_atMillis]
    exact utcDay_le _
  have hto : k.day < utcDay (ms (atMillis (k.day + dayMS))) := by
    have h := lt_utcDay_add (k.day + dayMS)
    rw [ms_atMillis]
    omega
  rw [hs.rolledUp k _ _ hk hfrom hto, rowAt_rollUpSessions]
  exact if_congr ⟨fun h => h.2.2, fun h => ⟨hfrom, hto, h⟩⟩ rfl rfl

theorem day_of_usageDaily {d : UsageDay} (hd : d ∈ s.usageDaily) (hlt : d.key.day < s.rolledUntil) :
    utcDay d.key.day = d.key.day ∧ dayTotal s.sessions d.key = some d := by
  have hrow := rowAt_usageDaily hs d.key hlt
  rw [rowAt, find?_eq_of_nodup UsageDay.key hs.dayKeys hd] at hrow
  split_ifs at hrow with hmid
  exact ⟨hmid, hrow.symm⟩

theorem seconds_of_usageDaily {d : UsageDay} (hd : d ∈ s.usageDaily)
    (hlt : d.key.day < s.rolledUntil) : d.allocatedSeconds = (s.sessions.map fun x =>
      if x.dayKey d.key.day = d.key then x.liveOn d.key.day else 0).sum / 1000 := by
  have htotal := (day_of_usageDaily hs hd hlt).2
  unfold dayTotal at htotal
  split_ifs at htotal
  have hsum : (dayAcc (sessionsOf s.sessions d.key) d.key.day).ms =
      (s.sessions.map fun x => if x.dayKey d.key.day = d.key then x.liveOn d.key.day else 0).sum :=
    sum_sessionsOf fun x h => h
  rw [← hsum]
  exact (congrArg UsageDay.allocatedSeconds (Option.some.inj htotal)).symm

end

theorem rolledUp_of_rollUpSessions {s : UsageLedger} (first last : Time)
    (hdaily : s.usageDaily = rollUpSessions s.sessions first last)
    (hfirst : ∀ x ∈ s.sessions, utcDay (ms first) ≤ x.startedAt)
    (hlast : s.rolledUntil ≤ utcDay (ms last)) {k : UsageDayKey} {source until_ : Time}
    (hk : k.day < s.rolledUntil) (hsource : utcDay (ms source) ≤ k.day)
    (huntil : k.day < utcDay (ms until_)) : rowAt UsageDay.key k s.usageDaily =
      rowAt UsageDay.key k (rollUpSessions s.sessions source until_) := by
  rw [hdaily, rowAt_rollUpSessions, rowAt_rollUpSessions]
  by_cases hmid : utcDay k.day = k.day
  · have hasked : utcDay (ms source) ≤ k.day ∧ k.day < utcDay (ms until_) ∧ utcDay k.day = k.day :=
      ⟨hsource, huntil, hmid⟩
    rw [if_pos hasked]
    by_cases hin : utcDay (ms first) ≤ k.day
    · exact if_pos ⟨hin, lt_of_lt_of_le hk hlast, hmid⟩
    have hout : ¬(utcDay (ms first) ≤ k.day ∧ k.day < utcDay (ms last) ∧ utcDay k.day = k.day) :=
      fun h => hin h.1
    rw [if_neg hout]
    -- a day before the first session has nobody
    have hend := day_end_le hmid (utcDay_utcDay _) (not_le.mp hin)
    have hnobody : sessionsOf s.sessions k = [] := by
      apply List.filter_eq_nil_iff.mpr
      intro x hx hlive
      have hstart := hfirst x hx
      have hpos := (of_decide_eq_true hlive).2
      unfold RunnerSession.liveOn overlap at hpos
      omega
    rw [dayTotal, if_pos hnobody]
  · rw [if_neg fun h => hmid h.2.2, if_neg fun h => hmid h.2.2]

end Zoomies.Store

namespace Zoomies.Store

theorem fedFor_eq (key : String) (feeds : List Fed) :
    fedFor key feeds = (feeds.map fun f => if f.key = key then f.secs else 0).sum :=
  sum_map_filter

theorem fedFor_append (key : String) (a b : List Fed) :
    fedFor key (a ++ b) = fedFor key a + fedFor key b := by
  rw [fedFor_eq, fedFor_eq, fedFor_eq, List.map_append, List.sum_append]

theorem fedFor_dayFeeds (c : UsageColumn) (w : UsageWindow) (s : UsageLedger) (key : String) :
    fedFor key (dayFeeds c w s) =
      ((takenDays c w s key).map fun d => (d.allocatedSeconds : ℚ)).sum := by
  unfold dayFeeds
  split_ifs with hlo
  · have hgroups := sum_foldl_amend (fun g : DaySum => (g.day, g.key)) (addDay c)
      (fun g => if w.rolled s.rolledUntil g.day = true ∧ g.key = key then (g.secs : ℚ) else 0)
      (fun d => if w.rolled s.rolledUntil d.key.day = true ∧ c.ofDay d.key = key then
        (d.allocatedSeconds : ℚ) else 0)
      (fun d => rfl)
      (fun g d hk => by
        obtain ⟨hday, hkey⟩ := Prod.mk.inj hk
        rw [hday, hkey]
        by_cases ht : w.rolled s.rolledUntil d.key.day = true ∧ c.ofDay d.key = key
        · rw [if_pos ht, if_pos ht]
          exact (if_pos ht).trans (Int.cast_add g.secs d.allocatedSeconds)
        · rw [if_neg ht, if_neg ht, add_zero]
          exact if_neg ht)
      (w.days s) []
    rw [List.map_nil, List.sum_nil, zero_add] at hgroups
    have hrolled : ((daySums c (w.days s)).filter fun g => w.rolled s.rolledUntil g.day) =
        (daySums c (w.days s)).filter fun g => w.rolled s.rolledUntil g.day = true :=
      List.filter_congr fun g _ => Bool.decide_eq_true.symm
    rw [takenDays, sum_map_filter, ← hgroups, fedFor_eq, List.map_map, hrolled, sum_map_filter]
    congr 1
    apply List.map_congr_left
    intro g _
    by_cases hr : w.rolled s.rolledUntil g.day = true
    · rw [if_pos hr]
      exact if_congr ⟨fun h => ⟨hr, h⟩, fun h => h.2⟩ rfl rfl
    · rw [if_neg hr, if_neg fun h => hr h.1]
  · have hnone : takenDays c w s key = [] := by
      rw [takenDays, UsageWindow.days, List.filter_filter, List.filter_eq_nil_iff]
      intro d _ hd
      simp only [Bool.and_eq_true, decide_eq_true_eq, lt_min_iff] at hd
      omega
    rw [hnone]
    rfl

def rolledTime (w : UsageWindow) (until_ start stop : Int) : Int :=
  ((w.pieces start stop).map fun p =>
    if w.rolled until_ (utcDay p.1) = true then p.2 - p.1 else 0).sum

section
variable (w : UsageWindow) (hw : 0 < w.width)

def fedTime (until_ : Int) (r : RunRow) : Int :=
  overlap r.start r.stop w.lo w.observed - rolledTime w until_ r.start r.stop

include hw in
theorem fedFor_feedRow (until_ : Int) (key : String) (r : RunRow) :
    fedFor key (feedRow w until_ r) = if r.key = key then (fedTime w until_ r : ℚ) / 1000 else 0 := by
  have hkept : ((w.pieces r.start r.stop).filter fun p => !w.rolled until_ (utcDay p.1)) =
      (w.pieces r.start r.stop).filter fun p => ¬w.rolled until_ (utcDay p.1) = true :=
    List.filter_congr fun p _ => by simp
  have hsplit : ((w.pieces r.start r.stop).map fun p =>
      if ¬w.rolled until_ (utcDay p.1) = true then p.2 - p.1 else 0).sum = fedTime w until_ r := by
    rw [fedTime, rolledTime, ← sum_pieces hw, eq_sub_iff_add_eq, ← List.sum_map_add]
    congr 1
    apply List.map_congr_left
    intro p _
    by_cases hr : w.rolled until_ (utcDay p.1) = true
    · rw [if_neg (not_not_intro hr), if_pos hr, zero_add]
    · rw [if_pos hr, if_neg hr, add_zero]
  rw [fedFor_eq, feedRow, List.map_map]
  by_cases hk : r.key = key
  · rw [if_pos hk, ← hsplit, hkept, sum_map_filter, Int.cast_list_sum, List.map_map, div_eq_mul_inv,
      ← List.sum_map_mul_right]
    congr 1
    apply List.map_congr_left
    intro p _
    dsimp only [Function.comp]
    by_cases hr : w.rolled until_ (utcDay p.1) = true
    · rw [if_neg (not_not_intro hr), if_neg (not_not_intro hr), Int.cast_zero, zero_mul]
    · rw [if_pos hr, if_pos hr, if_pos hk, div_eq_mul_inv]
  · rw [if_neg hk]
    apply List.sum_eq_zero
    intro q hq
    obtain ⟨p, -, rfl⟩ := List.mem_map.mp hq
    exact if_neg hk

include hw in
theorem fedTime_of_absent (hobs : w.observed ≤ w.hi) {until_ : Int} {r : RunRow}
    (h : ¬(r.start < w.hi ∧ r.stop > w.lo)) : fedTime w until_ r = 0 := by
  have hnone : w.pieces r.start r.stop = [] := by
    rw [List.eq_nil_iff_forall_not_mem]
    intro p hp
    obtain ⟨hge, hlt, hle, -⟩ := mem_pieces hw hp
    apply h
    omega
  have hzero := sum_pieces hw r.start r.stop
  rw [hnone] at hzero
  rw [fedTime, rolledTime, hnone, ← hzero]
  rfl

end

def bareRow (c : UsageColumn) (w : UsageWindow) (s : UsageLedger) (r : LedgerRunner) : RunRow where
  key := c.ofRunner s r
  start := r.createdAt
  stop := r.finishedAt.getD w.observed
  rate := (rowAt LedgerPool.id r.poolID s.pools).bind LedgerPool.costPerRunnerHour

theorem hasSession_eq_false {sessions : List RunnerSession} {id : String} :
    hasSession sessions id = false ↔ rowAt RunnerSession.runnerID id sessions = none := by
  simp [hasSession, rowAt, List.find?_eq_none]

theorem hasRunner_iff (s : UsageLedger) (x : RunnerSession) :
    hasRunner s x = true ↔ x.runnerID ∈ s.runners.map LedgerRunner.id := by
  simp [hasRunner]

section
variable {c : UsageColumn} {w : UsageWindow} {s : UsageLedger} (hs : Reportable s)
include hs

theorem runnerRow_eq {r : LedgerRunner} (hr : r ∈ s.runners) :
    runnerRow c w s r = some ((rowAt RunnerSession.runnerID r.id s.sessions).elim
      (bareRow c w s r) (sessionRow c)) := by
  obtain ⟨p, hp⟩ := Option.isSome_iff_exists.mp (hs.pooled r hr)
  unfold runnerRow
  cases hx : rowAt RunnerSession.runnerID r.id s.sessions with
  | none =>
    simp only [Option.elim, bareRow, hp, Option.map_some, Option.bind_some, UsageColumn.ofRunner]
    cases c <;> rfl
  | some x =>
    have hmem : x ∈ s.sessions := List.mem_of_find?_eq_some hx
    have hid : x.runnerID = r.id := by simpa using List.find?_some hx
    obtain ⟨hpool, hhost, hstart⟩ := hs.copied r hr x hmem hid
    simp [Option.elim, hp, sessionRow, UsageColumn.ofSession, hpool, hhost, hstart]

/-- Every session and every runner without one is counted once. -/
theorem sum_union {M : Type} [AddCommMonoid M] (φ : RunRow → M) :
    ((s.runners.filterMap (runnerRow c w s) ++
        (s.sessions.filter fun x => !hasRunner s x).map (sessionRow c)).map φ).sum =
      (s.sessions.map fun x => φ (sessionRow c x)).sum +
        (s.unrecorded.map fun r => φ (bareRow c w s r)).sum := by
  have hrows : s.runners.filterMap (runnerRow c w s) = s.runners.map fun r =>
      (rowAt RunnerSession.runnerID r.id s.sessions).elim (bareRow c w s r) (sessionRow c) := by
    rw [List.filterMap_congr fun r hr => runnerRow_eq hs hr]
    exact congrFun List.filterMap_eq_map' _
  have hrow : ∀ r : LedgerRunner,
      φ ((rowAt RunnerSession.runnerID r.id s.sessions).elim (bareRow c w s r) (sessionRow c)) =
        ((rowAt RunnerSession.runnerID r.id s.sessions).map fun x => φ (sessionRow c x)).getD 0 +
          if hasSession s.sessions r.id = false then φ (bareRow c w s r) else 0 := by
    intro r
    cases hx : rowAt RunnerSession.runnerID r.id s.sessions with
    | none =>
      rw [if_pos (hasSession_eq_false.mpr hx)]
      exact (zero_add _).symm
    | some x =>
      have hhas : ¬hasSession s.sessions r.id = false := by
        rw [hasSession_eq_false, hx]
        exact Option.some_ne_none x
      rw [if_neg hhas]
      exact (add_zero _).symm
  have hgone : (s.sessions.filter fun x => !hasRunner s x) =
      s.sessions.filter fun x => ¬x.runnerID ∈ s.runners.map LedgerRunner.id :=
    List.filter_congr fun x _ => by
      rw [Bool.eq_iff_iff, Bool.not_eq_true', ← Bool.not_eq_true, hasRunner_iff, decide_eq_true_eq]
  rw [List.map_append, List.sum_append, hrows, List.map_map, List.map_map, hgone, sum_map_filter]
  simp only [Function.comp_def, hrow]
  rw [List.sum_map_add, sum_rowAt_comm _ hs.runnerIDs hs.sessionIDs, sum_map_filter,
    UsageLedger.unrecorded, sum_map_filter, add_right_comm, ← List.sum_map_add]
  congr 3
  funext x
  by_cases hin : x.runnerID ∈ s.runners.map LedgerRunner.id
  · rw [if_pos hin, if_neg (not_not_intro hin), add_zero]
  · rw [if_neg hin, if_pos hin, zero_add]

end

end Zoomies.Store

namespace Zoomies.Store

theorem rolled_iff {w : UsageWindow} {until_ day : Int} :
    w.rolled until_ day = true ↔ w.lo ≤ day ∧ day + dayMS ≤ w.hi ∧ day + dayMS ≤ until_ ∧
      day + dayMS ≤ w.observed ∧ w.bucket day = w.bucket (day + dayMS - 1) := by
  simp [UsageWindow.rolled, and_assoc]

def dayTime (s : UsageLedger) (d : UsageDay) : Int :=
  (s.sessions.map fun x => if x.dayKey d.key.day = d.key then x.liveOn d.key.day else 0).sum

theorem ofDay_dayKey {c : UsageColumn} {x : RunnerSession} {day : Int} :
    c.ofDay (x.dayKey day) = c.ofSession x := by
  cases c <;> rfl

section
variable (c : UsageColumn) (w : UsageWindow) {s : UsageLedger} (hs : Reportable s)

theorem mem_takenDays {key : String} {d : UsageDay} :
    d ∈ takenDays c w s key ↔ d ∈ s.usageDaily ∧ w.rolled s.rolledUntil d.key.day = true ∧
      c.ofDay d.key = key := by
  rw [takenDays, UsageWindow.days, List.mem_filter, List.mem_filter, decide_eq_true_eq,
    decide_eq_true_eq]
  refine ⟨fun h => ⟨h.1.1, h.2⟩, fun h => ⟨⟨h.1, ?_⟩, h.2⟩⟩
  obtain ⟨hlo, hhi, huntil, -⟩ := rolled_iff.mp h.2.1
  have hday : 0 < dayMS := by decide
  exact ⟨hlo, lt_min (by omega) (by omega)⟩

include hs in
theorem nodup_takenDays (key : String) : ((takenDays c w s key).map UsageDay.key).Nodup :=
  hs.dayKeys.sublist (List.Sublist.map _ (List.filter_sublist.trans List.filter_sublist))

include hs in
theorem exists_takenDay {x : RunnerSession} (hx : x ∈ s.sessions) {day : Int}
    (hmid : utcDay day = day) (hrolled : w.rolled s.rolledUntil day = true)
    (hlive : 0 < x.liveOn day) : ∃ d ∈ takenDays c w s (c.ofSession x), d.key = x.dayKey day := by
  obtain ⟨-, -, huntil, -⟩ := rolled_iff.mp hrolled
  have hlt : day < s.rolledUntil := by
    have hday : 0 < dayMS := by decide
    omega
  have hrow := (rowAt_usageDaily hs (x.dayKey day) hlt).trans (if_pos hmid)
  have hof : sessionsOf s.sessions (x.dayKey day) ≠ [] :=
    List.ne_nil_of_mem (List.mem_filter.mpr ⟨hx, decide_eq_true ⟨rfl, hlive⟩⟩)
  rw [dayTotal, if_neg hof] at hrow
  refine ⟨_, ?_, by simpa using List.find?_some hrow⟩
  rw [mem_takenDays]
  exact ⟨List.mem_of_find?_eq_some hrow, hrolled, ofDay_dayKey⟩

variable (hw : 0 < w.width)
include hs hw

theorem rolledTime_session {x : RunnerSession} (hx : x ∈ s.sessions) :
    rolledTime w s.rolledUntil x.startedAt x.finishedAt =
      ((takenDays c w s (c.ofSession x)).map fun d =>
        if x.dayKey d.key.day = d.key then x.liveOn d.key.day else 0).sum := by
  have hnodup : (((takenDays c w s (c.ofSession x)).filter fun d =>
      x.dayKey d.key.day = d.key).map fun d => d.key.day).Nodup := by
    have hkeys := (nodup_takenDays c w hs (c.ofSession x)).sublist
      (List.Sublist.map _ (List.filter_sublist (p := fun d => x.dayKey d.key.day = d.key)))
    apply List.Nodup.map_on _ (List.Nodup.of_map _ hkeys)
    intro d hd e he hday
    have hd' : x.dayKey d.key.day = d.key := of_decide_eq_true (List.mem_filter.mp hd).2
    have he' : x.dayKey e.key.day = e.key := of_decide_eq_true (List.mem_filter.mp he).2
    apply List.inj_on_of_nodup_map hkeys hd he
    rw [← hd', ← he', hday]
  rw [rolledTime, sum_rolled_pieces hw hnodup, List.map_map, sum_map_filter]
  · rfl
  · intro day hday
    obtain ⟨d, hd, rfl⟩ := List.mem_map.mp hday
    obtain ⟨hmem, hrolled, -⟩ := (mem_takenDays c w).mp (List.mem_filter.mp hd).1
    obtain ⟨-, -, huntil, -⟩ := rolled_iff.mp hrolled
    have hpos : 0 < dayMS := by decide
    exact (day_of_usageDaily hs hmem (by omega)).1
  · intro day hday
    obtain ⟨d, hd, rfl⟩ := List.mem_map.mp hday
    exact ((mem_takenDays c w).mp (List.mem_filter.mp hd).1).2.1
  intro p hp hrolled
  obtain ⟨hge, hlt, hle, hend, -⟩ := mem_pieces hw hp
  have hday := utcDay_le p.1
  have hlive : 0 < x.liveOn (utcDay p.1) := by
    unfold RunnerSession.liveOn overlap
    omega
  obtain ⟨d, hd, hkey⟩ := exists_takenDay c w hs hx (utcDay_utcDay p.1) hrolled hlive
  have hd' : d.key.day = utcDay p.1 := congrArg UsageDayKey.day hkey
  apply List.mem_map.mpr
  refine ⟨d, List.mem_filter.mpr ⟨hd, decide_eq_true ?_⟩, hd'⟩
  rw [hd', hkey]

theorem rolledTime_unrecorded {r : LedgerRunner} (hr : r ∈ s.unrecorded) (stop : Int) :
    rolledTime w s.rolledUntil r.createdAt stop = 0 := by
  obtain ⟨hmem, hnone⟩ := List.mem_filter.mp hr
  have hawaited := hs.awaited r hmem (of_decide_eq_true hnone)
  apply List.sum_eq_zero
  intro m hm
  obtain ⟨p, hp, rfl⟩ := List.mem_map.mp hm
  apply if_neg
  intro hrolled
  obtain ⟨-, -, huntil, -⟩ := rolled_iff.mp hrolled
  obtain ⟨hge, -⟩ := mem_pieces hw hp
  have hlt := lt_utcDay_add p.1
  omega

end

end Zoomies.Store
