import Zoomies.StoreUsageDaily

/-! A day that has been rolled up holds what all sessions ever written add up to in it. -/
namespace Zoomies.Store
open Zoomies.Go List

inductive LedgerEvent where
  | created (r : LedgerRunner)
  | edited (f : LedgerRunner → LedgerRunner)
  | repriced (pools : List LedgerPool)
  | recorded (selects : LedgerRunner → Bool)
  | rolledUp (d : Driver) (until_ : Time)
  | pruned (d : Driver) (before : Time)
  | deleted (selects : LedgerRunner → Bool)

variable (now : Time) (s : UsageLedger)

def LedgerEvent.apply : LedgerEvent → UsageLedger
  | .created r => addRunner (ms now) r s
  | .edited f => editRunners f s
  | .repriced pools => { s with pools }
  | .recorded selects => recordSessionsWhere (ms now) selects s
  | .rolledUp d until_ => (rollUpUsage d until_ s).1
  | .pruned d before => (pruneRunnerSessions d before s).1
  | .deleted selects => deleteRunners selects s

def LedgerEvent.writes : LedgerEvent → List RunnerSession
  | .recorded selects => (recordSessionsWhere (ms now) selects s).sessions.drop s.sessions.length
  | _ => []

structure LedgerPoint where
  clock : Time
  ledger : UsageLedger := {}
  written : List RunnerSession := []

def LedgerPoint.after (p : LedgerPoint) (now : Time) (e : LedgerEvent) : LedgerPoint where
  clock := now
  ledger := e.apply now p.ledger
  written := p.written ++ e.writes now p.ledger

def LedgerEvent.notAhead : LedgerEvent → Bool
  | .rolledUp _ until_ => decide (until_ ≤ now)
  | _ => true

structure LedgerPoint.Allows (p : LedgerPoint) (now : Time) (e : LedgerEvent) : Prop where
  clock : p.clock ≤ now
  notAhead : e.notAhead now = true
  once : ((p.after now e).written.map RunnerSession.runnerID).Nodup

instance (p : LedgerPoint) (now : Time) (e : LedgerEvent) : Decidable (p.Allows now e) :=
  decidable_of_iff (p.clock ≤ now ∧ e.notAhead now = true ∧
      ((p.after now e).written.map RunnerSession.runnerID).Nodup)
    ⟨fun h => ⟨h.1, h.2.1, h.2.2⟩, fun h => ⟨h.clock, h.notAhead, h.once⟩⟩

def LedgerPoint.run (p : LedgerPoint) (events : List (Time × LedgerEvent)) : LedgerPoint :=
  events.foldl (fun p e => p.after e.1 e.2) p

def LedgerPoint.AllowsAll : LedgerPoint → List (Time × LedgerEvent) → Prop
  | _, [] => True
  | p, e :: rest => p.Allows e.1 e.2 ∧ (p.after e.1 e.2).AllowsAll rest

instance decidableAllowsAll : (p : LedgerPoint) → (events : List (Time × LedgerEvent)) →
    Decidable (p.AllowsAll events)
  | _, [] => instDecidableTrue
  | p, e :: rest => @instDecidableAnd _ _ inferInstance (decidableAllowsAll (p.after e.1 e.2) rest)

def UsageLedger.mark : Option Int := s.rollup.map UsageRollup.rolledUntil

def UsageLedger.spent (x : RunnerSession) : Prop :=
  x.finishedAt ≤ x.startedAt ∨ ∃ u, s.mark = some u ∧ x.finishedAt < u

structure Accounted (p : LedgerPoint) : Prop where
  epoch : 0 ≤ ms p.clock
  kept : ∀ x ∈ p.ledger.sessions, x ∈ p.written
  gone : ∀ x ∈ p.written, x ∉ p.ledger.sessions → p.ledger.spent x
  once : (p.written.map RunnerSession.runnerID).Nodup
  distinct : p.ledger.sessions.Nodup
  started : ∀ x ∈ p.written, 0 ≤ x.startedAt
  created : ∀ r ∈ p.ledger.runners, 0 ≤ r.createdAt
  midnight : ∀ u, p.ledger.mark = some u → utcDay u = u ∧ u ≤ ms p.clock
  awaited : ∀ u, p.ledger.mark = some u → ∀ r ∈ p.ledger.runners,
    r.id ∉ p.written.map RunnerSession.runnerID → u ≤ r.createdAt
  rows : ∀ u, p.ledger.mark = some u → ∀ k, rowAt UsageDay.key k p.ledger.usageDaily =
      if k.day < u ∧ utcDay k.day = k.day then dayTotal p.written k else none
  noRows : p.ledger.mark = none → p.ledger.usageDaily = []

theorem accounted_start {t : Time} (h : unixEpoch ≤ t) : Accounted { clock := t } where
  epoch := Int.ediv_nonneg (Int.sub_nonneg.mpr h) (by decide)
  kept := fun x hx => absurd hx not_mem_nil
  gone := fun x hx => absurd hx not_mem_nil
  once := nodup_nil
  distinct := nodup_nil
  started := fun x hx => absurd hx not_mem_nil
  created := fun r hr => absurd hr not_mem_nil
  midnight := fun u hu => by cases hu
  awaited := fun u hu => by cases hu
  rows := fun u hu => by cases hu
  noRows := fun _ => rfl

variable {p : LedgerPoint} {now : Time}

/-- As long as the runners it leaves were created where the accounts need them. -/
theorem accounted_of_runners (h : Accounted p) (hclock : p.clock ≤ now)
    {runners : List LedgerRunner} {pools : List LedgerPool}
    (hnew : ∀ r ∈ runners, 0 ≤ r.createdAt ∧ ∀ u, p.ledger.mark = some u →
      r.id ∉ p.written.map RunnerSession.runnerID → u ≤ r.createdAt) :
    Accounted ⟨now, { p.ledger with runners, pools }, p.written⟩ where
  epoch := le_trans h.epoch (ms_le_ms hclock)
  kept := h.kept
  gone := h.gone
  once := h.once
  distinct := h.distinct
  started := h.started
  created := fun r hr => (hnew r hr).1
  midnight := fun u hu => ⟨(h.midnight u hu).1, le_trans (h.midnight u hu).2 (ms_le_ms hclock)⟩
  awaited := fun u hu r hr => (hnew r hr).2 u hu
  rows := h.rows
  noRows := h.noRows

theorem accounted_created (h : Accounted p) (hclock : p.clock ≤ now) {r : LedgerRunner} :
    Accounted ⟨now, addRunner (ms now) r p.ledger, p.written⟩ := by
  have hms := ms_le_ms hclock
  have hold : ∀ o ∈ p.ledger.runners, 0 ≤ o.createdAt ∧ ∀ u, p.ledger.mark = some u →
      o.id ∉ p.written.map RunnerSession.runnerID → u ≤ o.createdAt :=
    fun o ho => ⟨h.created o ho, fun u hu => h.awaited u hu o ho⟩
  unfold addRunner
  split_ifs
  · exact accounted_of_runners h hclock hold
  refine accounted_of_runners h hclock ?_
  intro o ho
  rcases mem_append.mp ho with ho | ho
  · exact hold o ho
  · rw [mem_singleton.mp ho]
    exact ⟨le_trans h.epoch hms, fun u hu _ => le_trans (h.midnight u hu).2 hms⟩

theorem accounted_edited (h : Accounted p) (hclock : p.clock ≤ now)
    {f : LedgerRunner → LedgerRunner} : Accounted ⟨now, editRunners f p.ledger, p.written⟩ := by
  refine accounted_of_runners h hclock ?_
  intro o ho
  obtain ⟨r, hr, rfl⟩ := mem_map.mp ho
  exact ⟨h.created r hr, fun u hu => h.awaited u hu r hr⟩

theorem accounted_deleted (h : Accounted p) (hclock : p.clock ≤ now) {selects : LedgerRunner → Bool} :
    Accounted ⟨now, deleteRunners selects p.ledger, p.written⟩ := by
  refine accounted_of_runners h hclock ?_
  intro o ho
  have hmem := (mem_filter.mp ho).1
  exact ⟨h.created o hmem, fun u hu => h.awaited u hu o hmem⟩

theorem accounted_pruned (h : Accounted p) (hclock : p.clock ≤ now) (d : Driver) (before : Time) :
    Accounted ⟨now, (pruneRunnerSessions d before p.ledger).1, p.written⟩ := by
  have hsame : Accounted ⟨now, p.ledger, p.written⟩ :=
    accounted_of_runners h hclock fun r hr => ⟨h.created r hr, fun u hu => h.awaited u hu r hr⟩
  rcases exec_cases with ⟨e, he⟩ | he
  · rw [pruneRunnerSessions, he]
    exact hsame
  rw [pruneRunnerSessions, he]
  refine { hsame with kept := ?_, gone := ?_, distinct := h.distinct.filter _ }
  · intro x hx
    exact h.kept x (mem_filter.mp hx).1
  intro x hx hno
  by_cases hin : x ∈ p.ledger.sessions
  · have hcut : x.finishedAt < pruneCutoff before p.ledger := by
      by_contra hge
      exact hno (mem_filter.mpr ⟨hin, by simpa using hge⟩)
    have hmark := lt_of_lt_of_le hcut (min_le_right _ _)
    cases hu : p.ledger.mark with
    | none =>
      -- nothing rolled up yet: the cutoff is the epoch, and no session starts before it
      have hzero : (p.ledger.rollup.map UsageRollup.rolledUntil).getD 0 = 0 := by
        change p.ledger.mark.getD 0 = 0
        rw [hu]
        rfl
      rw [hzero] at hmark
      exact .inl (le_trans hmark.le (h.started x hx))
    | some u =>
      have hmark' : x.finishedAt < p.ledger.mark.getD 0 := hmark
      rw [hu] at hmark'
      exact .inr ⟨u, hu, hmark'⟩
  · exact h.gone x hx hin

end Zoomies.Store

namespace Zoomies.Store
open Zoomies.Go

theorem foldl_insertSession {xs : List RunnerSession} (t : List RunnerSession) :
    ∃ added, xs.foldl insertSession t = t ++ added ∧ ∀ x ∈ added, x ∈ xs := by
  induction xs generalizing t with
  | nil => exact ⟨[], (List.append_nil t).symm, fun x hx => hx⟩
  | cons y rest ih =>
    obtain ⟨added, hfold, hmem⟩ := ih (insertSession t y)
    rw [List.foldl_cons, hfold]
    unfold insertSession
    split_ifs
    · exact ⟨added, rfl, fun x hx => List.mem_cons_of_mem _ (hmem x hx)⟩
    refine ⟨y :: added, by rw [List.append_assoc, List.singleton_append], ?_⟩
    intro x hx
    rcases List.mem_cons.mp hx with rfl | hx
    · exact List.mem_cons_self
    · exact List.mem_cons_of_mem _ (hmem x hx)

theorem recorded_cases (now : Int) (selects : LedgerRunner → Bool) (s : UsageLedger) :
    ∃ added, recordSessionsWhere now selects s = { s with sessions := s.sessions ++ added } ∧
      (recordSessionsWhere now selects s).sessions.drop s.sessions.length = added ∧
      ∀ x ∈ added, ∃ r ∈ s.runners, x = sessionOf now s.pools r := by
  obtain ⟨added, hfold, hmem⟩ :=
    foldl_insertSession s.sessions
  refine ⟨added, ?_, ?_, ?_⟩
  · rw [recordSessionsWhere, hfold]
  · rw [recordSessionsWhere, hfold, List.drop_left]
  intro x hx
  obtain ⟨r, hr, rfl⟩ := List.mem_map.mp (hmem x hx)
  exact ⟨r, (List.mem_filter.mp hr).1, rfl⟩

theorem liveOn_eq_zero_of_start {x : RunnerSession} {day u : Int} (hd : utcDay day = day)
    (hu : utcDay u = u) (hlt : day < u) (hx : u ≤ x.startedAt) : x.liveOn day = 0 :=
  overlap_outside (.inr (le_trans (day_end_le hd hu hlt) hx))

variable {b : List RunnerSession} {k : UsageDayKey}

variable {a : List RunnerSession}

theorem sessionsOf_append (h : ∀ x ∈ b, x.liveOn k.day = 0) :
    sessionsOf (a ++ b) k = sessionsOf a k := by
  have hnone : sessionsOf b k = [] := by
    rw [sessionsOf, List.filter_eq_nil_iff]
    intro x hx
    simp [h x hx]
  rw [sessionsOf, List.filter_append]
  change sessionsOf a k ++ sessionsOf b k = _
  rw [hnone, List.append_nil]

theorem dayTotal_append (h : ∀ x ∈ b, x.liveOn k.day = 0) : dayTotal (a ++ b) k = dayTotal a k := by
  unfold dayTotal
  rw [sessionsOf_append h]

theorem added_after_mark (p : LedgerPoint) (h : Accounted p) (now : Int) (added : List RunnerSession)
    (honce : ((p.written ++ added).map RunnerSession.runnerID).Nodup)
    (hadded : ∀ x ∈ added, ∃ r ∈ p.ledger.runners, x = sessionOf now p.ledger.pools r) (u : Int)
    (hu : p.ledger.mark = some u) : ∀ x ∈ added, u ≤ x.startedAt := by
  intro x hx
  obtain ⟨r, hr, rfl⟩ := hadded x hx
  refine h.awaited u hu r hr fun hid => ?_
  rw [List.map_append] at honce
  exact (List.nodup_append.mp honce).2.2 _ hid _
    (List.mem_map_of_mem (f := RunnerSession.runnerID) hx) rfl

theorem accounted_recorded {p : LedgerPoint} (h : Accounted p) {now : Time} (hclock : p.clock ≤ now)
    {selects : LedgerRunner → Bool}
    (honce : ((p.after now (.recorded selects)).written.map RunnerSession.runnerID).Nodup) :
    Accounted (p.after now (.recorded selects)) := by
  obtain ⟨added, hledger, hdrop, hadded⟩ := recorded_cases (ms now) selects p.ledger
  have hpoint : p.after now (.recorded selects) =
      ⟨now, { p.ledger with sessions := p.ledger.sessions ++ added }, p.written ++ added⟩ := by
    unfold LedgerPoint.after LedgerEvent.apply LedgerEvent.writes
    dsimp only
    rw [hdrop, hledger]
  rw [hpoint] at honce ⊢
  have hms := ms_le_ms hclock
  have hafter := added_after_mark p h (ms now) added honce hadded
  have hwritten : (p.written ++ added).Nodup := List.Nodup.of_map _ honce
  have hold : ∀ id, id ∉ (p.written ++ added).map RunnerSession.runnerID →
      id ∉ p.written.map RunnerSession.runnerID := fun id hid hin =>
    hid (by rw [List.map_append]; exact List.mem_append_left _ hin)
  refine ⟨le_trans h.epoch hms, ?_, ?_, honce, ?_, ?_, h.created, ?_, ?_, ?_, h.noRows⟩
  · intro x hx
    rcases List.mem_append.mp hx with hx | hx
    · exact List.mem_append_left _ (h.kept x hx)
    · exact List.mem_append_right _ hx
  · intro x hx hno
    rcases List.mem_append.mp hx with hx | hx
    · exact h.gone x hx fun hin => hno (List.mem_append_left _ hin)
    · exact absurd (List.mem_append_right _ hx) hno
  · obtain ⟨-, hnew, hdisj⟩ := List.nodup_append.mp hwritten
    exact List.nodup_append.mpr ⟨h.distinct, hnew, fun a ha b hb => hdisj a (h.kept a ha) b hb⟩
  · intro x hx
    rcases List.mem_append.mp hx with hx | hx
    · exact h.started x hx
    · obtain ⟨r, hr, rfl⟩ := hadded x hx
      exact h.created r hr
  · intro u hu
    exact ⟨(h.midnight u hu).1, le_trans (h.midnight u hu).2 hms⟩
  · intro u hu r hr hid
    exact h.awaited u hu r hr (hold _ hid)
  intro u hu k
  rw [h.rows u hu k]
  refine if_ctx_congr Iff.rfl (fun hk => ?_) fun _ => rfl
  exact (dayTotal_append fun x hx =>
    liveOn_eq_zero_of_start hk.2 (h.midnight u hu).1 hk.1 (hafter u hu x hx)).symm

theorem minimum_eq_some {l : List Int} {m : Int} (h : minimum l = some m) : ∀ a ∈ l, m ≤ a := by
  cases l with
  | nil => cases h
  | cons b rest =>
    cases h
    have hfold : ∀ (l : List Int) (b : Int), l.foldl min b ≤ b ∧ ∀ a ∈ l, l.foldl min b ≤ a := by
      intro l
      induction l with
      | nil =>
        intro b
        exact ⟨le_refl b, fun a ha => absurd ha List.not_mem_nil⟩
      | cons c rest ih =>
        intro b
        obtain ⟨hle, hall⟩ := ih (min b c)
        refine ⟨le_trans hle (min_le_left _ _), fun a ha => ?_⟩
        rcases List.mem_cons.mp ha with rfl | ha
        · exact le_trans hle (min_le_right _ _)
        · exact hall a ha
    intro a ha
    rcases List.mem_cons.mp ha with rfl | ha
    · exact (hfold rest a).1
    · exact (hfold rest b).2 a ha

theorem minimum_eq_none {l : List Int} (h : minimum l = none) : l = [] := by
  cases l with
  | nil => rfl
  | cons b rest => cases h

theorem rollUpTarget_spec {until_ : Time} {s : UsageLedger} :
    utcDay (rollUpTarget until_ s) = rollUpTarget until_ s ∧ rollUpTarget until_ s ≤ ms until_ ∧
      ∀ r ∈ s.runners, hasSession s.sessions r.id = false → rollUpTarget until_ s ≤ r.createdAt := by
  unfold rollUpTarget
  cases hheld : heldAt s with
  | none =>
    refine ⟨utcDay_utcDay _, utcDay_le _, fun r hr hno => ?_⟩
    have hnil := minimum_eq_none hheld
    have hin : r.createdAt ∈ (s.runners.filter fun r => !hasSession s.sessions r.id).map
        LedgerRunner.createdAt :=
      List.mem_map_of_mem (List.mem_filter.mpr ⟨hr, by rw [hno]; rfl⟩)
    rw [hnil] at hin
    exact absurd hin List.not_mem_nil
  | some held =>
    dsimp only
    refine ⟨?_, le_trans (min_le_left _ _) (utcDay_le _), fun r hr hno => ?_⟩
    · rcases min_choice (utcDay (ms until_)) (utcDay held) with hmin | hmin
      · rw [hmin, utcDay_utcDay]
      · rw [hmin, utcDay_utcDay]
    have hle := minimum_eq_some hheld r.createdAt
      (List.mem_map_of_mem (List.mem_filter.mpr ⟨hr, by rw [hno]; rfl⟩))
    exact le_trans (min_le_right _ _) (le_trans (utcDay_le _) hle)

theorem dayTotal_perm (h : (sessionsOf a k).Perm (sessionsOf b k)) :
    dayTotal a k = dayTotal b k := by
  have hacc : dayAcc (sessionsOf a k) k.day = dayAcc (sessionsOf b k) k.day := by
    unfold dayAcc
    rw [(h.map fun x => x.liveOn k.day).sum_eq,
      (h.map fun x => (x.liveOn k.day : ℚ) * x.costPerRunnerHour.getD 0).sum_eq, h.any_eq]
  have hnil : sessionsOf a k = [] ↔ sessionsOf b k = [] := by
    rw [← List.length_eq_zero_iff, ← List.length_eq_zero_iff, h.length_eq]
  unfold dayTotal
  rw [hacc]
  exact if_congr hnil rfl rfl

/-- Below the watermark the daily rows are the totals of all sessions written. -/
theorem rolledSoFar_spec {p : LedgerPoint} (h : Accounted p) {r : UsageRollup}
    (hr : rolledSoFar p.ledger = some r) : utcDay r.rolledUntil = r.rolledUntil ∧
      (∀ x ∈ p.written, x ∉ p.ledger.sessions → x.finishedAt ≤ x.startedAt ∨
        x.finishedAt < r.rolledUntil) ∧
      ∀ k, rowAt UsageDay.key k p.ledger.usageDaily =
        if k.day < r.rolledUntil ∧ utcDay k.day = k.day then dayTotal p.written k else none := by
  unfold rolledSoFar at hr
  cases hmark : p.ledger.rollup with
  | some r' =>
    rw [hmark] at hr
    cases hr
    have hu : p.ledger.mark = some r.rolledUntil := by rw [UsageLedger.mark, hmark]; rfl
    refine ⟨(h.midnight _ hu).1, fun x hx hno => ?_, h.rows _ hu⟩
    rcases h.gone x hx hno with hempty | ⟨u, hu', hlt⟩
    · exact .inl hempty
    rw [hu] at hu'
    cases hu'
    exact .inr hlt
  | none =>
    rw [hmark] at hr
    obtain ⟨first, hfirst, rfl⟩ := Option.map_eq_some_iff.mp hr
    have hu : p.ledger.mark = none := by rw [UsageLedger.mark, hmark]; rfl
    have hgone : ∀ x ∈ p.written, x ∉ p.ledger.sessions → x.finishedAt ≤ x.startedAt := by
      intro x hx hno
      rcases h.gone x hx hno with hempty | ⟨u, hu', -⟩
      · exact hempty
      · rw [hu] at hu'
        cases hu'
    refine ⟨utcDay_utcDay _, fun x hx hno => .inl (hgone x hx hno), fun k => ?_⟩
    rw [h.noRows hu]
    split_ifs with hk
    · -- before the first session there is nothing to roll up
      have hnone : sessionsOf p.written k = [] := by
        rw [sessionsOf, List.filter_eq_nil_iff]
        intro x hx hlive
        have hpos : 0 < x.liveOn k.day := by simpa using (of_decide_eq_true hlive).2
        by_cases hin : x ∈ p.ledger.sessions
        · have hstart := minimum_eq_some hfirst x.startedAt (List.mem_map_of_mem hin)
          have hzero := liveOn_eq_zero_of_start hk.2 (utcDay_utcDay _) hk.1
            (le_trans (utcDay_le _) hstart)
          exact hpos.ne' hzero
        have hempty := hgone x hx hin
        have hzero : x.liveOn k.day = 0 := overlap_eq_zero_iff.mpr
          (le_trans (min_le_left _ _) (le_trans hempty (le_max_left _ _)))
        exact hpos.ne' hzero
      rw [dayTotal, if_pos hnone]
      rfl
    · rfl

theorem dayTotal_querySessions {p : LedgerPoint} (h : Accounted p) {lo hi : Int}
    (hhi : utcDay hi = hi)
    (hgone : ∀ x ∈ p.written, x ∉ p.ledger.sessions → x.finishedAt ≤ x.startedAt ∨
      x.finishedAt < lo) (hin : lo ≤ k.day) (hbefore : k.day < hi) (hday : utcDay k.day = k.day) :
    dayTotal (querySessions lo hi p.ledger.sessions) k = dayTotal p.written k := by
  apply dayTotal_perm
  have hend := day_end_le hday hhi hbefore
  have hwritten : p.written.Nodup := List.Nodup.of_map _ h.once
  have hquery : (querySessions lo hi p.ledger.sessions).Nodup :=
    sortStableFunc_perm.nodup_iff.mpr (h.distinct.filter _)
  refine (List.perm_ext_iff_of_nodup (hquery.filter _) (hwritten.filter _)).mpr fun x => ?_
  rw [List.mem_filter, List.mem_filter, querySessions, mem_sortStableFunc, List.mem_filter]
  constructor
  · rintro ⟨⟨hx, -⟩, hlive⟩
    exact ⟨h.kept x hx, hlive⟩
  rintro ⟨hx, hlive⟩
  have hpos : 0 < x.liveOn k.day := (of_decide_eq_true hlive).2
  have hover : max x.startedAt k.day < min x.finishedAt (k.day + dayMS) :=
    not_le.mp fun hle => hpos.ne' (overlap_eq_zero_iff.mpr hle)
  obtain ⟨hstart, hfrom⟩ := max_lt_iff.mp hover
  have hin' : x ∈ p.ledger.sessions := by
    by_contra hno
    rcases hgone x hx hno with hempty | hlt
    · exact absurd (lt_of_lt_of_le hstart (min_le_left _ _)) (not_lt.mpr hempty)
    · exact absurd (lt_trans (lt_of_lt_of_le hfrom (min_le_left _ _)) hlt) (not_lt.mpr hin)
  refine ⟨⟨hin', decide_eq_true ⟨?_, ?_⟩⟩, hlive⟩
  · exact lt_of_lt_of_le hstart (le_trans (min_le_right _ _) hend)
  · exact lt_of_le_of_lt hin (lt_of_lt_of_le hfrom (min_le_left _ _))

end Zoomies.Store

namespace Zoomies.Store
open Zoomies.Go List

theorem mergeDay_key {o : Option UsageDay} (d : UsageDay) : (mergeDay o d).key = d.key := by
  cases o with
  | none => rfl
  | some u => rfl

variable {p : LedgerPoint}

theorem rows_absorbDays (h : Accounted p) {r : UsageRollup} (hr : rolledSoFar p.ledger = some r)
    {target : Int} (htarget : utcDay target = target) (hlt : r.rolledUntil < target)
    {k : UsageDayKey} : rowAt UsageDay.key k (absorbDays r target p.ledger).usageDaily =
      if k.day < target ∧ utcDay k.day = k.day then dayTotal p.written k else none := by
  obtain ⟨hmid, hgone, hrows⟩ := rolledSoFar_spec h hr
  have hday := rowAt_rollUpSessions (querySessions r.rolledUntil target p.ledger.sessions)
    (atMillis r.rolledUntil) (atMillis target) k
  rw [ms_atMillis, ms_atMillis, hmid, htarget] at hday
  unfold absorbDays
  rw [rowAt_foldl_amend_of_nodup _ _ (fun o c _ => mergeDay_key c) nodup_rollUpSessions, hday, hrows]
  by_cases hk : utcDay k.day = k.day
  · by_cases hin : r.rolledUntil ≤ k.day
    · by_cases hbefore : k.day < target
      · -- a day the roll-up closes: no row was there, and the sessions read give it its total
        rw [if_pos ⟨hin, hbefore, hk⟩, if_neg fun hold => absurd hold.1 (not_lt.mpr hin),
          if_pos ⟨hbefore, hk⟩, dayTotal_querySessions h htarget hgone hin hbefore hk]
        cases dayTotal p.written k with
        | none => rfl
        | some d => rfl
      · rw [if_neg fun hnew => hbefore hnew.2.1, if_neg fun hold => absurd hold.1 (not_lt.mpr hin),
          if_neg fun hnew => hbefore hnew.1]
    · have hold := not_le.mp hin
      rw [if_neg fun hnew => hin hnew.1, if_pos ⟨hold, hk⟩, if_pos ⟨lt_trans hold hlt, hk⟩]
  · rw [if_neg fun hnew => hk hnew.2.2, if_neg fun hold => hk hold.2, if_neg fun hnew => hk hnew.2]

theorem rollUpUsage_cases {d : Driver} {until_ : Time} {s : UsageLedger} :
    (rollUpUsage d until_ s).1 = s ∨ ∃ r, rolledSoFar s = some r ∧
      r.rolledUntil < rollUpTarget until_ s ∧
      (rollUpUsage d until_ s).1 = absorbDays r (rollUpTarget until_ s) s := by
  unfold rollUpUsage
  rcases tx_cases with ⟨e, he⟩ | ⟨s', n, hbody, he⟩
  · rw [he]
    exact .inl rfl
  rw [he]
  unfold rollUpBody at hbody
  split at hbody
  · cases hbody
  split at hbody
  · cases hbody
    exact .inl rfl
  next r hr =>
  dsimp only at hbody
  split_ifs at hbody with hle
  · cases hbody
    exact .inl rfl
  · have heq := refusing_eq_ok hbody
    exact .inr ⟨r, hr, not_le.mp hle, congrArg Prod.fst heq⟩

variable {now : Time}

theorem accounted_rolledUp (h : Accounted p) (hclock : p.clock ≤ now) {d : Driver} {until_ : Time}
    (hahead : until_ ≤ now) : Accounted ⟨now, (rollUpUsage d until_ p.ledger).1, p.written⟩ := by
  have hsame : Accounted ⟨now, p.ledger, p.written⟩ :=
    accounted_of_runners h hclock fun r hr => ⟨h.created r hr, fun u hu => h.awaited u hu r hr⟩
  rcases rollUpUsage_cases with he | ⟨r, hr, hlt, he⟩
  · rw [he]
    exact hsame
  rw [he]
  obtain ⟨hmid, hle, hheld⟩ := rollUpTarget_spec
  obtain ⟨-, hgone, -⟩ := rolledSoFar_spec h hr
  refine ⟨hsame.epoch, h.kept, ?_, h.once, h.distinct, h.started, h.created, ?_, ?_, ?_, ?_⟩
  · intro x hx hno
    rcases hgone x hx hno with hempty | hbefore
    · exact .inl hempty
    · exact .inr ⟨_, rfl, lt_trans hbefore hlt⟩
  · intro u hu
    cases hu
    exact ⟨hmid, le_trans hle (ms_le_ms hahead)⟩
  · intro u hu o ho hid
    cases hu
    refine hheld o ho ?_
    rw [hasSession, any_eq_false]
    intro x hx heq
    exact hid (beq_iff_eq.mp heq ▸ mem_map_of_mem (h.kept x hx))
  · intro u hu k
    cases hu
    exact rows_absorbDays h hr hmid hlt
  · intro hnone
    cases hnone

variable {e : LedgerEvent}

theorem after_of_writes_nil (h : e.writes now p.ledger = []) :
    p.after now e = ⟨now, e.apply now p.ledger, p.written⟩ := by
  rw [LedgerPoint.after, h, append_nil]

theorem accounted_after (h : Accounted p) (ha : p.Allows now e) : Accounted (p.after now e) := by
  cases e with
  | recorded selects => exact accounted_recorded h ha.clock ha.once
  | created r =>
    rw [after_of_writes_nil rfl]
    exact accounted_created h ha.clock
  | edited f =>
    rw [after_of_writes_nil rfl]
    exact accounted_edited h ha.clock
  | repriced pools =>
    rw [after_of_writes_nil rfl]
    exact accounted_of_runners h ha.clock fun r hr =>
      ⟨h.created r hr, fun u hu => h.awaited u hu r hr⟩
  | rolledUp d until_ =>
    rw [after_of_writes_nil rfl]
    exact accounted_rolledUp h ha.clock (of_decide_eq_true ha.notAhead)
  | pruned d before =>
    rw [after_of_writes_nil rfl]
    exact accounted_pruned h ha.clock d before
  | deleted selects =>
    rw [after_of_writes_nil rfl]
    exact accounted_deleted h ha.clock

theorem accounted_run (p : LedgerPoint) (h : Accounted p) {events : List (Time × LedgerEvent)}
    (ha : p.AllowsAll events) : Accounted (p.run events) := by
  induction events generalizing p with
  | nil => exact h
  | cons e rest ih => exact ih _ (accounted_after h ha.1) ha.2

theorem mark_apply {s : UsageLedger} {u : Int}
    (hu : s.mark = some u) : ∃ u', (e.apply now s).mark = some u' ∧ u ≤ u' := by
  cases e with
  | created r =>
    refine ⟨u, ?_, le_refl u⟩
    unfold LedgerEvent.apply addRunner
    dsimp only
    split_ifs
    · exact hu
    · exact hu
  | edited f | repriced pools | recorded selects | deleted selects => exact ⟨u, hu, le_refl u⟩
  | pruned d before =>
    refine ⟨u, ?_, le_refl u⟩
    change (pruneRunnerSessions d before s).1.mark = some u
    rcases exec_cases with ⟨e, he⟩ | he
    · rw [pruneRunnerSessions, he]
      exact hu
    · rw [pruneRunnerSessions, he]
      exact hu
  | rolledUp d until_ =>
    change ∃ u', (rollUpUsage d until_ s).1.mark = some u' ∧ u ≤ u'
    rcases rollUpUsage_cases with he | ⟨r, hr, hlt, he⟩
    · rw [he]
      exact ⟨u, hu, le_refl u⟩
    rw [he]
    obtain ⟨r', hr', rfl⟩ := Option.map_eq_some_iff.mp hu
    rw [rolledSoFar, hr'] at hr
    cases hr
    exact ⟨_, rfl, hlt.le⟩

theorem writes_after_mark (h : Accounted p) (ha : p.Allows now e) {u : Int}
    (hu : p.ledger.mark = some u) : ∀ x ∈ e.writes now p.ledger, u ≤ x.startedAt := by
  cases e with
  | recorded selects =>
    obtain ⟨added, -, hdrop, hadded⟩ := recorded_cases (ms now) selects p.ledger
    have honce := ha.once
    unfold LedgerPoint.after LedgerEvent.writes at honce
    dsimp only at honce
    rw [hdrop] at honce
    unfold LedgerEvent.writes
    dsimp only
    rw [hdrop]
    exact added_after_mark p h (ms now) added honce hadded u hu
  | created r | edited f | repriced pools | rolledUp d until_ | pruned d before
  | deleted selects => exact fun x hx => absurd hx not_mem_nil

theorem written_run (p : LedgerPoint) (h : Accounted p) {events : List (Time × LedgerEvent)}
    (ha : p.AllowsAll events) : ∃ more, (p.run events).written = p.written ++ more ∧
      ∀ u, p.ledger.mark = some u → ∀ x ∈ more, u ≤ x.startedAt := by
  induction events generalizing p with
  | nil => exact ⟨[], (append_nil _).symm, fun u _ x hx => absurd hx not_mem_nil⟩
  | cons e rest ih =>
    obtain ⟨more, hmore, hafter⟩ := ih _ (accounted_after h ha.1) ha.2
    refine ⟨e.2.writes e.1 p.ledger ++ more, ?_, ?_⟩
    · rw [← append_assoc]
      exact hmore
    intro u hu x hx
    rcases mem_append.mp hx with hx | hx
    · exact writes_after_mark h ha.1 hu x hx
    · obtain ⟨u', hu', hle⟩ := mark_apply hu
      exact le_trans hle (hafter u' hu' x hx)

/-- At every point of every run whose clock never reads before the Unix epoch: each day before the
watermark holds the row computed from all sessions ever written, the sessions still to be written
start at or after it, and a prune takes only sessions that have no time left there. -/
theorem sessions_counted_once (t : Time) (ht : unixEpoch ≤ t) (events : List (Time × LedgerEvent))
    (ha : LedgerPoint.AllowsAll { clock := t } events) (p : LedgerPoint)
    (hp : p = LedgerPoint.run { clock := t } events) :
    (∀ u, p.ledger.mark = some u → ∀ k, k.day < u → utcDay k.day = k.day → ∀ source until_,
      utcDay (ms source) ≤ k.day → k.day < utcDay (ms until_) →
        rowAt UsageDay.key k p.ledger.usageDaily =
          rowAt UsageDay.key k (rollUpSessions p.written source until_)) ∧
      (∀ u, p.ledger.mark = some u → ∀ later, p.AllowsAll later →
        ∃ more, (p.run later).written = p.written ++ more ∧ ∀ x ∈ more, u ≤ x.startedAt) ∧
      ∀ d before, ∀ x ∈ p.ledger.sessions,
        x ∉ (pruneRunnerSessions d before p.ledger).1.sessions → p.ledger.spent x := by
  have hacc : Accounted p := by
    rw [hp]
    exact accounted_run _ (accounted_start ht) ha
  refine ⟨?_, ?_, ?_⟩
  · intro u hu k hlt hk source until_ hfrom hto
    rw [hacc.rows u hu k, if_pos ⟨hlt, hk⟩, rowAt_rollUpSessions, if_pos ⟨hfrom, hto, hk⟩]
  · intro u hu later hlater
    obtain ⟨more, hmore, hafter⟩ := written_run p hacc hlater
    exact ⟨more, hmore, hafter u hu⟩
  intro d before x hx hno
  have hpruned := accounted_pruned hacc (le_refl _) d before
  have hsame : (pruneRunnerSessions d before p.ledger).1.mark = p.ledger.mark := by
    rcases exec_cases with ⟨e, he⟩ | he
    · rw [pruneRunnerSessions, he]
    · rw [pruneRunnerSessions, he]
      rfl
  have hspent := hpruned.gone x (hacc.kept x hx) hno
  unfold UsageLedger.spent at hspent ⊢
  rw [hsame] at hspent
  exact hspent

def hourOf (day hours : Int) : Time := atMillis (day * dayMS + hours * 3600000)

def twoLives (day : Int) : List (Time × LedgerEvent) :=
  let lived : LedgerRunner → LedgerRunner := fun r => { r with finishedAt := some (r.createdAt + 3600000) }
  [(hourOf day 0, .created ⟨"a", "pool", "host", 0, none, none, none⟩),
    (hourOf day 1, .edited lived), (hourOf day 2, .recorded fun _ => true),
    (hourOf day 2, .deleted fun _ => true), (hourOf (day + 1) 0, .pruned {} (hourOf (day + 1) 0)),
    (hourOf (day + 1) 0, .created ⟨"b", "pool", "host", 0, none, none, none⟩),
    (hourOf (day + 1) 1, .edited lived), (hourOf (day + 1) 2, .recorded fun _ => true),
    (hourOf (day + 3) 0, .rolledUp {} (hourOf (day + 3) 0)),
    (hourOf (day + 3) 0, .pruned {} (hourOf (day + 3) 0))]

def twoLivesEnd (day : Int) : LedgerPoint := LedgerPoint.run { clock := hourOf day 0 } (twoLives day)

/-- Both sessions are pruned at the end, and the hour of each is in its day. -/
theorem sessions_counted_once_pruned : (twoLivesEnd 10).ledger.sessions = [] ∧
      rowAt UsageDay.key ⟨10 * dayMS, "pool", "host", ""⟩ (twoLivesEnd 10).ledger.usageDaily =
        rowAt UsageDay.key ⟨10 * dayMS, "pool", "host", ""⟩
          (rollUpSessions (twoLivesEnd 10).written (hourOf 10 0) (hourOf 13 0)) := by
  have hmark : (twoLivesEnd 10).ledger.mark = some (13 * dayMS) := by decide +kernel
  refine ⟨by decide +kernel, ?_⟩
  exact (sessions_counted_once (hourOf 10 0) (by decide) (twoLives 10) (by decide +kernel) _ rfl).1
    (13 * dayMS) hmark _ (by decide) (by decide) _ _ (by decide) (by decide)

/-- Before 1970 the first prune takes the first session unrolled: its day is rolled up
without its hour. -/
theorem pruned_before_rolled_up :
    LedgerPoint.AllowsAll { clock := hourOf (-10) 0 } (twoLives (-10)) ∧
      (twoLivesEnd (-10)).ledger.mark = some (-7 * dayMS) ∧
      rowAt UsageDay.key ⟨-10 * dayMS, "pool", "host", ""⟩ (twoLivesEnd (-10)).ledger.usageDaily =
        none ∧
      rowAt UsageDay.key ⟨-10 * dayMS, "pool", "host", ""⟩
        (rollUpSessions (twoLivesEnd (-10)).written (hourOf (-10) 0) (hourOf (-7) 0)) =
          some ⟨⟨-10 * dayMS, "pool", "host", ""⟩, 3600, none⟩ := by
  decide +kernel

end Zoomies.Store
