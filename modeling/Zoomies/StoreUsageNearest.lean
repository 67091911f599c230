import Zoomies.StoreUsageDaily

/-! How far a row of the daily roll-up is from the exact figure. -/
namespace Zoomies.Store
open Zoomies.Go

section
variable (source until_ : Time) (sessions : List RunnerSession) (x : RunnerSession)

def RunnerSession.liveWithin (day : Int) : Int :=
  overlap x.startedAt x.finishedAt (max day (ms source)) (min (day + dayMS) (ms until_))

def exactMS (k : UsageDayKey) : Int :=
  (sessions.map fun x => if x.dayKey k.day = k then x.liveWithin source until_ k.day else 0).sum

def exactMinor (k : UsageDayKey) : ℚ :=
  (sessions.map fun x => if x.dayKey k.day = k then
    (x.liveWithin source until_ k.day : ℚ) * x.costPerRunnerHour.getD 0 else 0).sum / 3600000 * 100

def Contributes (k : UsageDayKey) : Prop :=
  x.dayKey k.day = k ∧ 0 < x.liveWithin source until_ k.day

def Uncut : Prop :=
  -- the session is not live in the part of the first day before the window, nor in the part of its
  -- last day the roll-up leaves for later
  overlap x.startedAt x.finishedAt (utcDay (ms source)) (ms source) = 0 ∧
    overlap x.startedAt x.finishedAt (utcDay (ms until_)) (ms until_) = 0

variable {source until_ x} {day : Int}

/-- What the window has of a session on one of the days that are rolled up is all of that day's. -/
theorem liveWithin_inside (h : Uncut source until_ x) (hday : utcDay day = day)
    (hlo : utcDay (ms source) ≤ day) (hhi : day < utcDay (ms until_)) :
    x.liveWithin source until_ day = x.liveOn day := by
  have hend : day + dayMS ≤ utcDay (ms until_) := day_end_le hday (utcDay_utcDay _) hhi
  have huntil := utcDay_le (ms until_)
  have hnext := lt_utcDay_add (ms source)
  have hcut := overlap_eq_zero_iff.mp h.1
  have hsame : utcDay (ms source) = day ∨ ms source ≤ day := by
    rcases hlo.eq_or_lt with heq | hlt
    · exact .inl heq
    · have := day_end_le (utcDay_utcDay (ms source)) hday hlt
      exact .inr (by omega)
  unfold RunnerSession.liveWithin RunnerSession.liveOn overlap
  omega

/-- On a day that is not rolled up the window has nothing of it. -/
theorem liveWithin_outside (h : Uncut source until_ x) (hday : utcDay day = day)
    (hout : ¬(utcDay (ms source) ≤ day ∧ day < utcDay (ms until_))) :
    x.liveWithin source until_ day = 0 := by
  have hsource := utcDay_le (ms source)
  have hnext := lt_utcDay_add (ms until_)
  have hcut := overlap_eq_zero_iff.mp h.2
  rw [RunnerSession.liveWithin, overlap_eq_zero_iff]
  rcases lt_or_ge day (utcDay (ms source)) with hbefore | hafter
  · have := day_end_le hday (utcDay_utcDay (ms source)) hbefore
    omega
  have hge : utcDay (ms until_) ≤ day := not_lt.mp fun hlt => hout ⟨hafter, hlt⟩
  rcases hge.eq_or_lt with heq | hlt
  · omega
  · have := day_end_le (utcDay_utcDay (ms until_)) hday hlt
    omega

end

theorem roundHalfAway_near (q : ℚ) : |(roundHalfAway q : ℚ) - q| ≤ 1 / 2 := by
  unfold roundHalfAway
  rw [abs_le]
  split
  · have hle := Int.floor_le (q + 1 / 2)
    have hlt := Int.lt_floor_add_one (q + 1 / 2)
    constructor <;> linarith
  have hle := Int.le_ceil (q - 1 / 2)
  have hlt := Int.ceil_lt_add_one (q - 1 / 2)
  constructor <;> linarith

theorem seconds_near_iff (m : Int) : |((m / 1000 : Int) : ℚ) - m / 1000| ≤ 1 / 2 ↔ m % 1000 ≤ 500 := by
  have hm : (m : ℚ) = 1000 * (m / 1000 : Int) + (m % 1000 : Int) := by
    exact_mod_cast (Int.mul_ediv_add_emod m 1000).symm
  have hpos : (0 : ℚ) ≤ (m % 1000 : Int) := by exact_mod_cast Int.emod_nonneg m (by decide)
  rw [show ((m / 1000 : Int) : ℚ) - m / 1000 = -((m % 1000 : Int) / 1000) by rw [hm]; ring, abs_neg,
    abs_of_nonneg (by positivity), div_le_div_iff₀ (by norm_num) (by norm_num)]
  constructor
  · intro h
    have : ((m % 1000 : Int) : ℚ) ≤ 500 := by linarith
    exact_mod_cast this
  intro h
  have : ((m % 1000 : Int) : ℚ) ≤ 500 := by exact_mod_cast h
  linarith

instance : Std.TransCmp compareDays := by
  unfold compareDays
  infer_instance

theorem compareDays_of_day_lt {a b : UsageDay} (h : a.key.day < b.key.day) :
    compareDays a b = .lt := by
  simp [compareDays, compareLex, compareOn, compare_lt_iff_lt.mpr h, Ordering.then]

theorem key_eq_of_compareDays {a b : UsageDay} (h : compareDays a b = .eq) : a.key = b.key := by
  simp only [compareDays, compareLex, compareOn, Ordering.then_eq_eq, compare_eq_iff_eq] at h
  obtain ⟨hday, hpool, hhost, hinst⟩ := h
  cases ha : a.key
  cases hb : b.key
  simp_all

variable {sessions : List RunnerSession} {source until_ : Time} {d : UsageDay} {k : UsageDayKey}

theorem key_of_dayTotal (h : dayTotal sessions k = some d) : d.key = k := by
  unfold dayTotal at h
  split at h
  · cases h
  · rw [← Option.some.inj h]
    rfl

theorem mem_rollUpSessions_iff : d ∈ rollUpSessions sessions source until_ ↔
    (utcDay (ms source) ≤ d.key.day ∧ d.key.day < utcDay (ms until_) ∧
      utcDay d.key.day = d.key.day) ∧ dayTotal sessions d.key = some d := by
  have hrow : d ∈ rollUpSessions sessions source until_ ↔
      rowAt UsageDay.key d.key (rollUpSessions sessions source until_) = some d :=
    ⟨find?_eq_of_nodup UsageDay.key nodup_rollUpSessions, List.mem_of_find?_eq_some⟩
  rw [hrow, rowAt_rollUpSessions]
  split_ifs with hin
  · exact ⟨fun h => ⟨hin, h⟩, fun h => h.2⟩
  · exact ⟨fun h => h.elim, fun h => absurd h.1 hin⟩

theorem exists_dayTotal_iff : (∃ d, dayTotal sessions k = some d) ↔
    ∃ x ∈ sessions, x.dayKey k.day = k ∧ 0 < x.liveOn k.day := by
  have hnil : sessionsOf sessions k ≠ [] ↔
      ∃ x ∈ sessions, x.dayKey k.day = k ∧ 0 < x.liveOn k.day := by
    rw [ne_eq, sessionsOf, List.filter_eq_nil_iff]
    simp
  rw [← hnil, dayTotal]
  split_ifs with h
  · simp [h]
  · simp [h]

/-- A row of the roll-up is made of the exact figures of its day in the window. -/
theorem row_fields (huncut : ∀ x ∈ sessions, Uncut source until_ x)
    (h : d ∈ rollUpSessions sessions source until_) :
    d.allocatedSeconds = exactMS source until_ sessions d.key / 1000 ∧
    d.costMinor = if (sessionsOf sessions d.key).any fun x => x.costPerRunnerHour.isSome then
      some (roundHalfAway (exactMinor source until_ sessions d.key)) else none := by
  obtain ⟨⟨hlo, hhi, hday⟩, htotal⟩ := mem_rollUpSessions_iff.mp h
  have hlive : ∀ x ∈ sessions, x.liveWithin source until_ d.key.day = x.liveOn d.key.day :=
    fun x hx => liveWithin_inside (huncut x hx) hday hlo hhi
  have hms : ((sessionsOf sessions d.key).map fun x => x.liveOn d.key.day).sum =
      exactMS source until_ sessions d.key := by
    rw [sum_sessionsOf fun _ h => h, exactMS]
    congr 1
    exact List.map_congr_left fun x hx => by rw [hlive x hx]
  have hcost : ((sessionsOf sessions d.key).map fun x =>
      (x.liveOn d.key.day : ℚ) * x.costPerRunnerHour.getD 0).sum / 3600000 * 100 =
        exactMinor source until_ sessions d.key := by
    rw [sum_sessionsOf fun x h => by rw [h, Int.cast_zero, zero_mul], exactMinor]
    congr 3
    exact List.map_congr_left fun x hx => by rw [hlive x hx]
  unfold dayTotal at htotal
  split at htotal
  · cases htotal
  rw [← hms, ← hcost]
  have hrow := Option.some.inj htotal
  exact ⟨congrArg UsageDay.allocatedSeconds hrow.symm, congrArg UsageDay.costMinor hrow.symm⟩

/-- A session has part of a day in the window just where the day is rolled up and the session is
live on it. -/
theorem contributes_iff (huncut : ∀ x ∈ sessions, Uncut source until_ x)
    (hday : utcDay k.day = k.day) {x : RunnerSession} (hx : x ∈ sessions) :
    Contributes source until_ x k ↔ (utcDay (ms source) ≤ k.day ∧ k.day < utcDay (ms until_)) ∧
      x.dayKey k.day = k ∧ 0 < x.liveOn k.day := by
  unfold Contributes
  by_cases hin : utcDay (ms source) ≤ k.day ∧ k.day < utcDay (ms until_)
  · rw [liveWithin_inside (huncut x hx) hday hin.1 hin.2]
    exact ⟨fun h => ⟨hin, h⟩, And.right⟩
  · rw [liveWithin_outside (huncut x hx) hday hin]
    exact ⟨fun h => absurd h.2 (lt_irrefl 0), fun h => absurd h.1 hin⟩

theorem rollUpSessions_append {middle : Time} (hle : utcDay (ms source) ≤ utcDay (ms middle))
    (hle' : utcDay (ms middle) ≤ utcDay (ms until_)) :
    rollUpSessions sessions source middle ++ rollUpSessions sessions middle until_ =
      rollUpSessions sessions source until_ := by
  have hday : ∀ a ∈ rollUpSessions sessions source middle,
      ∀ b ∈ rollUpSessions sessions middle until_, a.key.day < b.key.day := by
    intro a ha b hb
    exact (mem_rollUpSessions_iff.mp ha).1.2.1.trans_le (mem_rollUpSessions_iff.mp hb).1.1
  have hmem : ∀ d, d ∈ rollUpSessions sessions source middle ++ rollUpSessions sessions middle until_ ↔
      d ∈ rollUpSessions sessions source until_ := by
    intro d
    rw [List.mem_append, mem_rollUpSessions_iff, mem_rollUpSessions_iff, mem_rollUpSessions_iff]
    constructor
    · rintro (⟨⟨h1, h2, h3⟩, h⟩ | ⟨⟨h1, h2, h3⟩, h⟩)
      · exact ⟨⟨h1, h2.trans_le hle', h3⟩, h⟩
      · exact ⟨⟨hle.trans h1, h2, h3⟩, h⟩
    rintro ⟨⟨h1, h2, h3⟩, h⟩
    rcases lt_or_ge d.key.day (utcDay (ms middle)) with hlt | hge
    · exact .inl ⟨⟨h1, hlt, h3⟩, h⟩
    · exact .inr ⟨⟨hge, h2, h3⟩, h⟩
  have hnodup (a b : Time) : (rollUpSessions sessions a b).Nodup := .of_map _ nodup_rollUpSessions
  have hdisjoint : (rollUpSessions sessions source middle ++
      rollUpSessions sessions middle until_).Nodup :=
    List.nodup_append.mpr ⟨hnodup _ _, hnodup _ _, fun a ha b hb he => (hday a ha b hb).ne (he ▸ rfl)⟩
  refine ((List.perm_ext_iff_of_nodup hdisjoint (hnodup _ _)).mpr hmem).eq_of_pairwise ?_ ?_
    sortStableFunc_pairwise
  · intro a b ha hb hab hba
    have hkey := key_eq_of_compareDays (Std.OrientedCmp.isLE_antisymm hab hba)
    have hta := (mem_rollUpSessions_iff.mp ((hmem a).mp ha)).2
    rw [hkey, (mem_rollUpSessions_iff.mp hb).2] at hta
    exact (Option.some.inj hta).symm
  refine List.pairwise_append.mpr ⟨sortStableFunc_pairwise, sortStableFunc_pairwise, ?_⟩
  intro a ha b hb
  rw [ordered, compareDays_of_day_lt (hday a ha b hb)]
  rfl

/-- Two windows that meet at a midnight have the rows of one. Where the window cuts no session's
day, there is a row for each key with time in it, its cost is the nearest cent, and its seconds,
which are cut off, are the nearest only where at most half of one is lost. -/
theorem rollUpSessions_nearest (sessions : List RunnerSession) (source until_ : Time) :
    (∀ middle, utcDay (ms source) ≤ utcDay (ms middle) → utcDay (ms middle) ≤ utcDay (ms until_) →
      rollUpSessions sessions source middle ++ rollUpSessions sessions middle until_ =
        rollUpSessions sessions source until_) ∧
    ((∀ x ∈ sessions, Uncut source until_ x) →
      (∀ k, utcDay k.day = k.day → (k ∈ (rollUpSessions sessions source until_).map UsageDay.key ↔
        ∃ x ∈ sessions, Contributes source until_ x k)) ∧
      ∀ d ∈ rollUpSessions sessions source until_, utcDay d.key.day = d.key.day ∧
        (|(d.allocatedSeconds : ℚ) - exactMS source until_ sessions d.key / 1000| ≤ 1 / 2 ↔
          exactMS source until_ sessions d.key % 1000 ≤ 500) ∧
        (d.costMinor.isSome ↔
          ∃ x ∈ sessions, Contributes source until_ x d.key ∧ x.costPerRunnerHour.isSome) ∧
        ∀ cents ∈ d.costMinor,
          |(cents : ℚ) - exactMinor source until_ sessions d.key| ≤ 1 / 2) := by
  refine ⟨fun middle hle hle' => rollUpSessions_append hle hle', fun huncut => ⟨fun k hday => ?_,
    fun d hd => ?_⟩⟩
  · have hrow : k ∈ (rollUpSessions sessions source until_).map UsageDay.key ↔
        (utcDay (ms source) ≤ k.day ∧ k.day < utcDay (ms until_)) ∧
          ∃ d, dayTotal sessions k = some d := by
      rw [List.mem_map]
      constructor
      · rintro ⟨d, hd, rfl⟩
        obtain ⟨⟨hlo, hhi, -⟩, htotal⟩ := mem_rollUpSessions_iff.mp hd
        exact ⟨⟨hlo, hhi⟩, d, htotal⟩
      rintro ⟨⟨hlo, hhi⟩, d, htotal⟩
      obtain rfl := key_of_dayTotal htotal
      exact ⟨d, mem_rollUpSessions_iff.mpr ⟨⟨hlo, hhi, hday⟩, htotal⟩, rfl⟩
    rw [hrow, exists_dayTotal_iff]
    constructor
    · rintro ⟨hin, x, hx, hlive⟩
      exact ⟨x, hx, (contributes_iff huncut hday hx).mpr ⟨hin, hlive⟩⟩
    · rintro ⟨x, hx, hc⟩
      obtain ⟨hin, hlive⟩ := (contributes_iff huncut hday hx).mp hc
      exact ⟨hin, x, hx, hlive⟩
  · obtain ⟨hlo, hhi, hday⟩ := (mem_rollUpSessions_iff.mp hd).1
    obtain ⟨hseconds, hcost⟩ := row_fields huncut hd
    refine ⟨hday, hseconds ▸ seconds_near_iff _, ?_, fun cents hcents => ?_⟩
    · have hany : (sessionsOf sessions d.key).any (fun x => x.costPerRunnerHour.isSome) = true ↔
          ∃ x ∈ sessions, Contributes source until_ x d.key ∧ x.costPerRunnerHour.isSome := by
        simp only [sessionsOf, List.any_eq_true, List.mem_filter, decide_eq_true_eq]
        constructor
        · rintro ⟨x, ⟨hx, hlive⟩, hrate⟩
          exact ⟨x, hx, (contributes_iff huncut hday hx).mpr ⟨⟨hlo, hhi⟩, hlive⟩, hrate⟩
        · rintro ⟨x, hx, hc, hrate⟩
          exact ⟨x, ⟨hx, ((contributes_iff huncut hday hx).mp hc).2⟩, hrate⟩
      rw [hcost, ← hany]
      split_ifs with h <;> simp [h]
    rw [hcost] at hcents
    split_ifs at hcents
    · rw [← Option.some.inj hcents]
      exact roundHalfAway_near _
    · cases hcents

def shortSession : RunnerSession :=
  { runnerID := "r1", poolID := "p1", hostID := "h1", installationID := "i1", startedAt := 0
    finishedAt := 999, costPerRunnerHour := none, recordedAt := 0 }

def morningSession : RunnerSession :=
  { shortSession with startedAt := 6 * 3600000, finishedAt := 7 * 3600000 }

/-- A runner alive for 999 milliseconds has a row of no seconds, and one alive from six to seven has
an hour in a window that starts at noon. -/
theorem shortSession_lost :
    (∃ d ∈ rollUpSessions [shortSession] unixEpoch (unixEpoch + dayMS * 1000000),
      exactMS unixEpoch (unixEpoch + dayMS * 1000000) [shortSession] d.key = 999 ∧
        d.allocatedSeconds = 0) ∧
    ∃ d ∈ rollUpSessions [morningSession] (unixEpoch + 12 * hour) (unixEpoch + 24 * hour),
      exactMS (unixEpoch + 12 * hour) (unixEpoch + 24 * hour) [morningSession] d.key = 0 ∧
        d.allocatedSeconds = 3600 :=
  ⟨⟨⟨shortSession.dayKey 0, 0, none⟩, by decide +kernel, by decide +kernel, rfl⟩,
    ⟨⟨morningSession.dayKey 0, 3600, none⟩, by decide +kernel, by decide +kernel, rfl⟩⟩

end Zoomies.Store
