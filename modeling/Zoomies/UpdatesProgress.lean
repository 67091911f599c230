import Zoomies.UpdatesMoves

/-! Two passes of the planner, with the rollout that the first one started or closed. -/
namespace Zoomies.Updates
open Zoomies.Go Zoomies.Version List

variable {s : Snapshot} {p q : Planner} {r : Rollout} {a b : Action} {o last : Option Rollout}

theorem compareTargets_self (tag : String) : compareTargets tag tag = .none := by
  simp [compareTargets, compareBuilds]

def Planner.reopen (p : Planner) (o last : Option Rollout) : Planner :=
  { p with s := { p.s with rollout := o, lastRollout := last }, rollout := o.filter openRollout }

theorem expired_reopen (t : Attempt) : (p.reopen o last).expired t = p.expired t := rfl

theorem timeOutHost_reopen (h : HostFacts) :
    (p.reopen o last).timeOutHost h = (p.timeOutHost h).reopen o last := by
  unfold Planner.timeOutHost
  cases hostAttempt h with
  | none => rfl
  | some t =>
    dsimp only
    rw [expired_reopen]
    split_ifs <;> rfl

theorem timeOuts_reopen : (p.reopen o last).timeOuts = p.timeOuts.reopen o last := by
  have hcontroller : (p.reopen o last).timeOutController = p.timeOutController.reopen o last := by
    have hsame : (p.reopen o last).controllerAttempt = p.controllerAttempt := rfl
    unfold Planner.timeOutController
    rw [hsame]
    cases p.controllerAttempt with
    | none => rfl
    | some t =>
      dsimp only
      rw [expired_reopen]
      split_ifs <;> rfl
  have hhosts (l : List HostFacts) (q : Planner) :
      l.foldl Planner.timeOutHost (q.reopen o last) = (l.foldl Planner.timeOutHost q).reopen o last := by
    induction l generalizing q with
    | nil => rfl
    | cons h l ih => rw [foldl_cons, foldl_cons, timeOutHost_reopen, ih]
  unfold Planner.timeOuts
  rw [hcontroller, apply_ite (Planner.reopen · o last), ← hhosts]
  rfl

theorem newPlanner_reopen (s : Snapshot) (o last : Option Rollout) :
    (newPlanner { s with rollout := o, lastRollout := last }).timeOuts =
      (newPlanner s).timeOuts.reopen o last := by
  have hnew : newPlanner { s with rollout := o, lastRollout := last } =
      (newPlanner s).reopen o last := by
    simp only [newPlanner, newFacts, Planner.reopen]
  rw [hnew, timeOuts_reopen]

theorem controller_reopen (o last : Option Rollout) :
    (p.reopen o last).controller.2 = p.controller.2 ∧ (p.controller.2 = false →
      (p.reopen o last).controller.1 = p.controller.1.reopen o last ∧
        p.controller.1.toFacts = p.toFacts ∧ p.controller.1.plan = p.plan) := by
  have hdue : ((p.reopen o last).choice.replaces ||
      !(p.reopen o last).choice.dueBy (p.reopen o last).s.now) =
        (p.choice.replaces || !p.choice.dueBy p.s.now) := rfl
  have hhelper : (p.reopen o last).s.helper = p.s.helper := rfl
  have hblocked : (p.reopen o last).blocked = p.blocked := rfl
  unfold Planner.controller
  rw [hdue, hhelper, hblocked]
  split_ifs
  · exact ⟨rfl, fun _ => ⟨rfl, rfl, rfl⟩⟩
  · exact ⟨rfl, fun _ => ⟨rfl, rfl, rfl⟩⟩
  · cases p.blocked <;> exact ⟨rfl, nofun⟩

theorem assess_congr {f g : Facts} (hnow : f.s.now = g.s.now) (htarget : f.target = g.target)
    (hreleases : f.releases = g.releases) (h : HostFacts) : f.assess h = g.assess h := by
  have hlists : f.listsTarget = g.listsTarget := by
    funext r
    rw [Facts.listsTarget, Facts.listsTarget, htarget]
  have hcarries : f.carriesBinaryFor h = g.carriesBinaryFor h := by
    unfold Facts.carriesBinaryFor
    rw [hlists, hreleases]
  have hwaiting : f.waiting = g.waiting := by
    funext t
    rw [Facts.waiting, Facts.waiting, hnow]
  have hretry : f.retryIn = g.retryIn := by
    funext t
    rw [Facts.retryIn, Facts.retryIn, hnow]
  have hfailures : f.assessFailures h = g.assessFailures h := by
    unfold Facts.assessFailures
    rw [hwaiting, hretry, htarget]
  unfold Facts.assess Facts.assessBehind Facts.assessBuild
  rw [hcarries, hfailures, htarget]

theorem survey_reopen (hall : ∀ h, p.member h = true)
    (hall' : ∀ h, (p.reopen o last).member h = true) : (p.reopen o last).survey = p.survey := by
  have hhost (sv : Survey) (h : HostFacts) :
      (p.reopen o last).surveyHost sv h = p.surveyHost sv h := by
    have hassess : (p.reopen o last).assess h = p.assess h :=
      assess_congr (f := (p.reopen o last).toFacts) (g := p.toFacts) rfl rfl rfl h
    simp only [Facts.surveyHost, hall, hall', hassess]
  exact congrArg (foldl · {} p.hosts) (funext₂ hhost)

theorem mem_act (ha : a ∈ (p.act b).plan.actions) : a ∈ p.plan.actions ∨ a = b := by
  simpa [Planner.act] using ha

/-- So far a pass has only timed attempts out. -/
theorem kind_of_timeOuts (ha : a ∈ (newPlanner s).timeOuts.plan.actions) : a.kind = .timeOut := by
  have hcontroller (ha : a ∈ (newPlanner s).timeOutController.plan.actions) : a.kind = .timeOut := by
    unfold Planner.timeOutController at ha
    split at ha
    · cases ha
    split_ifs at ha
    · exact (mem_act ha).elim nofun (congrArg Action.kind)
    · cases ha
  have hhosts (l : List HostFacts) (q : Planner)
      (ha : a ∈ (l.foldl Planner.timeOutHost q).plan.actions) :
      a ∈ q.plan.actions ∨ a.kind = .timeOut := by
    induction l generalizing q with
    | nil => exact .inl ha
    | cons h l ih =>
      refine (ih _ ha).elim (fun ha => ?_) .inr
      unfold Planner.timeOutHost at ha
      split at ha
      · exact .inl ha
      split_ifs at ha
      · exact (mem_act ha).imp_right (congrArg Action.kind)
      · exact .inl ha
  unfold Planner.timeOuts at ha
  split_ifs at ha
  · exact hcontroller ha
  · exact (hhosts _ _ ha).elim hcontroller id

theorem mem_halts (hq : p.halt.or p.halted = some q) (ha : a ∈ q.plan.actions) :
    a ∈ p.plan.actions ∨ a.kind = .halt := by
  obtain hq | ⟨-, hq⟩ := Option.or_eq_some_iff.mp hq
  · unfold Planner.halt at hq
    split at hq
    · cases hq
    split_ifs at hq
    obtain ⟨h, -, rfl⟩ := Option.map_eq_some_iff.mp hq
    exact (mem_act ha).imp_right (congrArg Action.kind)
  · unfold Planner.halted at hq
    split at hq
    · cases hq
    split_ifs at hq
    obtain rfl := Option.some.inj hq
    exact .inl ha

/-- A rollout is started only where a host is ready to be taken to the target. -/
theorem mem_start (ha : a ∈ p.start.plan.actions) : a ∈ p.plan.actions ∨ a.tag = p.target ∧
    p.blocked = none ∧ p.target ≠ "" ∧ p.survey.ready ≠ none := by
  unfold Planner.start at ha
  cases hb : p.blocked with
  | some sentence =>
    rw [hb] at ha
    exact .inl ha
  | none =>
    simp only [hb] at ha
    split_ifs at ha with hoff hready hcan
    · exact .inl ha
    · exact .inl ha
    · exact .inl ha
    refine (mem_act ha).imp_right ?_
    rintro rfl
    exact ⟨rfl, rfl, fun h => hoff (.inr h), by simpa using hready⟩

theorem advance_eq_updateHost {h : HostFacts} (hvalid : validTarget r.target = true)
    (htarget : p.target ≠ "") (hsame : compareTargets r.target p.target = .none)
    (hfree : p.blocked = none) (hready : p.survey.ready = some h) :
    p.advance r = p.updateHost h := by
  simp [Planner.advance, Planner.advanceHosts, hvalid, htarget, hsame, hfree, hready]

/-- A rollout that is closed has no host to move, or another target than the controller's. -/
theorem mem_advance (ha : a ∈ (p.advance r).plan.actions) :
    a ∈ p.plan.actions ∨ a.kind = .updateHost ∨ (p.target ≠ "" → p.blocked = none →
      p.survey.ready ≠ none → compareTargets r.target p.target ≠ .none) := by
  by_cases hsame : compareTargets r.target p.target = .none
  · unfold Planner.advance at ha
    simp only [hsame] at ha
    split_ifs at ha with hvalid hempty hmain
    · exact .inl ha
    · exact .inr (.inr fun hne => absurd hempty hne)
    · cases hmain
    unfold Planner.advanceHosts at ha
    cases hb : p.blocked with
    | some sentence =>
      rw [hb] at ha
      exact .inl ha
    | none =>
      simp only [hb] at ha
      cases hr : p.survey.ready with
      | none => exact .inr (.inr fun _ _ hready => absurd rfl hready)
      | some h =>
        simp only [hr] at ha
        exact (mem_act ha).imp_right fun h => .inl (congrArg Action.kind h)
  · exact .inr (.inr fun _ _ _ => hsame)

theorem decide_auto (hfenced : s.fenced = false) (hmode : s.mode = .auto) :
    let p := (newPlanner s).timeOuts
    decide s = ((p.halt.or p.halted).getD
      (if p.controller.2 then p.controller.1 else p.controller.1.walk)).plan := by
  intro p
  have hs : p.s = s := congrArg Facts.s (timeOuts_still (newPlanner s)).facts
  have hauto : p.startedByAuto = none := by simp [Facts.startedByAuto, hs, hmode]
  have hmove : p.move = if p.controller.2 then p.controller.1 else p.controller.1.walk := by
    unfold Planner.move
    rw [hs, if_pos hmode]
    obtain ⟨q, _ | _⟩ := p.controller <;> rfl
  rw [← hmove, decide, if_neg (by simp [hfenced]), if_neg (by simp [hmode])]
  simp only [p] at hauto
  simp only [hauto, p]

/-- What a pass has found when it starts a rollout. -/
theorem decide_starts (ha : a ∈ (decide s).actions) (hk : a.kind = .startRollout) :
    let q := (newPlanner s).timeOuts.controller
    s.fenced = false ∧ s.mode = .auto ∧ q.2 = false ∧ q.1.toFacts = newFacts s ∧
      q.1.rollout = none ∧ a.tag = q.1.target ∧ q.1.blocked = none ∧ q.1.target ≠ "" ∧
      q.1.survey.ready ≠ none := by
  intro q
  have hmoves : a.kind.moves = true := by
    rw [hk]
    rfl
  have hmoving : a ∈ (decide s).moving := mem_filter.mpr ⟨ha, hmoves⟩
  obtain ⟨hmode, -, hnone⟩ : MayStart s a.tag := by simpa [hk] using (decide_moved s).may hmoving
  have hfenced : s.fenced = false := by
    by_contra h
    rw [decide_still (.inl (by simpa using h))] at hmoving
    cases hmoving
  have hstill := timeOuts_still (newPlanner s)
  -- what has moved nothing so far has not started a rollout
  have hold {p : Planner} (hp : Still (newPlanner s).timeOuts p) : a ∉ p.plan.actions := fun h => by
    have : a ∈ p.plan.moving := mem_filter.mpr ⟨h, hmoves⟩
    rw [(hstill.trans hp).moving] at this
    cases this
  rw [decide_auto hfenced hmode] at ha
  cases hhalt : (newPlanner s).timeOuts.halt.or (newPlanner s).timeOuts.halted with
  | some q =>
    rw [hhalt] at ha
    exact absurd ha (hold (halts_still hhalt))
  | none =>
    rw [hhalt, Option.getD_none] at ha
    cases hc : (newPlanner s).timeOuts.controller.2 with
    | true =>
      rw [hc, if_pos rfl] at ha
      obtain h | ⟨-, -, -, -, -, h⟩ := controller_cases (p := (newPlanner s).timeOuts)
      · exact absurd ha (hold h)
      have : a ∈ (newPlanner s).timeOuts.controller.1.plan.moving := mem_filter.mpr ⟨ha, hmoves⟩
      rw [h, hstill.moving] at this
      rw [mem_singleton.mp this] at hk
      cases hk
    | false =>
      obtain ⟨-, hfacts, hplan⟩ := (controller_reopen none none).2 hc
      have hfacts := hfacts.trans hstill.facts
      have hrollout : q.1.rollout = none := by
        rw [hfacts]
        refine Option.filter_eq_none_iff.mpr fun r hr => ?_
        simp [openRollout, hnone r hr]
      rw [hc, if_neg Bool.false_ne_true, Planner.walk, hrollout] at ha
      obtain h | ⟨htag, hfree, htarget, hready⟩ := mem_start ha
      · exact absurd (hplan ▸ h) (hold (.refl _))
      · exact ⟨hfenced, hmode, rfl, hfacts, hrollout, htag, hfree, htarget, hready⟩

def Snapshot.opened (s : Snapshot) (tag : String) : Snapshot :=
  { s with rollout := some { target := tag, trigger := .auto, state := .running, since := s.now } }

/-- The rollout just started moves a host in the next pass. -/
theorem started_moves (ha : a ∈ (decide s).actions) (hk : a.kind = .startRollout)
    (hended : ∀ h ∈ s.hosts, ∀ e ∈ h.ended, e.finishedAt < s.now) :
    (∃ b ∈ (decide (s.opened a.tag)).actions, b.kind = .updateHost ∧
      ∃ h ∈ s.hosts, b.hostID = h.id) ∧ ∀ b ∈ (decide (s.opened a.tag)).actions,
        b.kind ≠ .halt ∧ b.kind ≠ .finishRollout ∧ b.kind ≠ .cancelRollout := by
  obtain ⟨hfenced, hmode, hc, hfacts, hrollout, htag, hfree, htarget, hready⟩ := decide_starts ha hk
  set r : Rollout := { target := a.tag, trigger := .auto, state := .running, since := s.now }
  set p := (newPlanner s).timeOuts
  set q := p.controller.1
  obtain ⟨h, hh⟩ := Option.ne_none_iff_exists'.mp hready
  have hout : (newPlanner (s.opened a.tag)).timeOuts = p.reopen (some r) s.lastRollout :=
    newPlanner_reopen ..
  obtain ⟨hend, hcontroller⟩ := controller_reopen (p := p) (some r) s.lastRollout
  obtain ⟨hcontroller, -, hplan⟩ := hcontroller hc
  have hnew : p.toFacts = newFacts s := (timeOuts_still (newPlanner s)).facts
  have hhalts : (p.reopen (some r) s.lastRollout).halt.or
      (p.reopen (some r) s.lastRollout).halted = none := by
    refine Option.or_eq_none_iff.mpr ⟨Option.map_eq_none_iff.mpr (find?_eq_none.mpr ?_), rfl⟩
    intro g hg
    have hg : g ∈ s.hosts := by
      rw [← mem_newFacts_hosts, ← hnew]
      exact hg
    -- no attempt has ended since the rollout was started
    have hnone : failedIn r g = false := by
      refine any_eq_false.mpr fun e he => ?_
      simp [failedSince, r, hended g hg e he]
    simp [hnone]
  have hadvance : (q.reopen (some r) s.lastRollout).walk =
      (q.reopen (some r) s.lastRollout).updateHost h := by
    refine advance_eq_updateHost ?_ htarget ?_ hfree ?_
    · have htarget : (newFacts s).target ≠ "" := hfacts ▸ htarget
      rw [show r.target = (newFacts s).target from hfacts ▸ htag]
      exact validTarget_of_hostTarget (hostTarget_of_target htarget)
    · exact htag ▸ compareTargets_self _
    · rw [survey_reopen (fun h => by simp [Facts.member, hrollout]) fun h => rfl]
      exact hh
  rw [decide_auto (s := s.opened a.tag) hfenced hmode, hout, hhalts, hend, hc, hcontroller,
    Option.getD_none, if_neg Bool.false_ne_true, hadvance]
  refine ⟨⟨_, mem_append_right _ (mem_singleton_self _), rfl, h, ?_, rfl⟩, fun b hb => ?_⟩
  · rw [← mem_newFacts_hosts, ← hfacts]
    exact (survey_ready hh).1
  obtain hb | rfl := mem_act hb
  · simp [kind_of_timeOuts (hplan ▸ hb)]
  · simp

/-- A rollout that was closed is not started again. -/
theorem closed_stays (hopen : s.rollout = some r) (hrunning : openRollout r = true)
    (hall : r.hostIDs = []) (ha : a ∈ (decide s).actions)
    (hk : a.kind = .finishRollout ∨ a.kind = .cancelRollout)
    (hb : b ∈ (decide { s with rollout := none, lastRollout := last }).actions)
    (hstart : b.kind = .startRollout) : compareTargets r.target b.tag ≠ .none := by
  obtain ⟨hfenced, hmode, hc, -, -, htag, hfree, htarget, hready⟩ := decide_starts hb hstart
  rw [newPlanner_reopen, (controller_reopen _ _).1] at hc
  obtain ⟨hcontroller, hsame, hplan⟩ := (controller_reopen _ _).2 hc
  rw [newPlanner_reopen, hcontroller] at htag hfree htarget hready
  have hold (ha : a ∈ (newPlanner s).timeOuts.plan.actions) : False := by
    simp [kind_of_timeOuts ha] at hk
  have hrollout : (newPlanner s).timeOuts.controller.1.rollout = some r := by
    rw [hsame, (timeOuts_still (newPlanner s)).facts]
    exact Option.filter_eq_some_iff.mpr ⟨hopen, hrunning⟩
  rw [decide_auto (s := s) hfenced hmode, hc, if_neg Bool.false_ne_true, Planner.walk, hrollout] at ha
  cases hhalt : (newPlanner s).timeOuts.halt.or (newPlanner s).timeOuts.halted with
  | some q =>
    rw [hhalt] at ha
    obtain h | h := mem_halts hhalt ha
    · exact (hold h).elim
    · simp [h] at hk
  | none =>
    rw [hhalt] at ha
    obtain h | h | h := mem_advance ha
    · exact (hold (hplan ▸ h)).elim
    · simp [h] at hk
    rw [survey_reopen (fun h => by simp [Facts.member, hrollout, hall]) fun h => rfl] at hready
    rw [htag]
    exact h htarget hfree hready

/-- The planner makes progress and does not flap: a rollout it starts moves a host in the next
pass, and one it closes it does not start again. -/
theorem decide_progresses (s : Snapshot) : (∀ a ∈ (decide s).actions, a.kind = .startRollout →
      (∀ h ∈ s.hosts, ∀ e ∈ h.ended, e.finishedAt < s.now) →
      (∃ b ∈ (decide (s.opened a.tag)).actions, b.kind = .updateHost ∧
        ∃ h ∈ s.hosts, b.hostID = h.id) ∧ ∀ b ∈ (decide (s.opened a.tag)).actions,
          b.kind ≠ .halt ∧ b.kind ≠ .finishRollout ∧ b.kind ≠ .cancelRollout) ∧
    ∀ r, s.rollout = some r → openRollout r = true → r.hostIDs = [] →
      ∀ a ∈ (decide s).actions, a.kind = .finishRollout ∨ a.kind = .cancelRollout →
      ∀ last, ∀ b ∈ (decide { s with rollout := none, lastRollout := some last }).actions,
        b.kind = .startRollout → b.tag ≠ r.target ∧ compareTargets r.target b.tag ≠ .none := by
  refine ⟨fun a ha hk hended => started_moves ha hk hended,
    fun r hopen hrunning hall a ha hk last b hb hstart => ?_⟩
  have hother := closed_stays hopen hrunning hall ha hk hb hstart
  refine ⟨fun heq => hother ?_, hother⟩
  rw [heq]
  exact compareTargets_self r.target

def caughtUp : Snapshot :=
  { soaked "1.4.0" with
    hosts := [{ id := "h1", name := "build-1", version := "1.4.0", healthy := true, canSelfUpdate := true }] }

/-- With no rollout the soaked release starts one and the host is next; where the host has it already
the rollout is finished, and not started again. -/
theorem decide_progresses_soaked :
    (∃ b ∈ (decide (Snapshot.opened { soaked "1.4.0" with rollout := none } "v1.4.0")).actions,
      b.kind = .updateHost) ∧
    ∀ last, ∀ b ∈ (decide { caughtUp with rollout := none, lastRollout := some last }).actions,
      b.kind = .startRollout → b.tag ≠ "v1.4.0" := by
  have hstart : ∃ a ∈ (decide { soaked "1.4.0" with rollout := none }).actions,
      a.kind = .startRollout ∧ a.tag = "v1.4.0" := by decide +kernel
  have hfinish : ∃ a ∈ (decide caughtUp).actions, a.kind = .finishRollout := by decide +kernel
  obtain ⟨a, ha, hk, htag⟩ := hstart
  obtain ⟨c, hc, hkc⟩ := hfinish
  constructor
  · obtain ⟨⟨b, hb, hkb, -⟩, -⟩ := (decide_progresses _).1 a ha hk (by simp [soaked])
    rw [htag] at hb
    exact ⟨b, hb, hkb⟩
  intro last b hb hkb
  exact ((decide_progresses caughtUp).2 _ rfl rfl rfl c hc (.inl hkc)
    last b hb hkb).1

end Zoomies.Updates
