import Zoomies.UpdatesDecide

/-! Every path through a pass of the update planner, what each rule adds, and what it may set moving. -/
namespace Zoomies.Updates

def ActionKind.moves : ActionKind → Bool
  | .requestController | .startRollout | .updateHost => true
  | .timeOut | .halt | .finishRollout | .cancelRollout => false

def Plan.moving (p : Plan) : List Action := p.actions.filter fun a => a.kind.moves

def Snapshot.openAttempt (s : Snapshot) : Prop :=
  (∃ a, s.controller = some a ∧ a.scope = .controller ∧ a.state = .requested) ∨
    ∃ h ∈ s.hosts, ∃ a, h.openAttempt = some a ∧ a.scope = .host ∧ a.hostID = h.id ∧
      a.state = .requested

variable {a : Action}

theorem act_moving {p : Planner} (h : a.kind.moves = true) :
    (p.act a).plan.moving = p.plan.moving ++ [a] := by
  simp [Planner.act, Plan.moving, h]

theorem act_still {p : Planner} (h : a.kind.moves = false) :
    (p.act a).plan.moving = p.plan.moving := by
  simp [Planner.act, Plan.moving, h]

structure Still (p q : Planner) : Prop where
  facts : q.toFacts = p.toFacts
  moving : q.plan.moving = p.plan.moving

theorem Still.refl (p : Planner) : Still p p := ⟨rfl, rfl⟩

variable {p : Planner}

theorem Still.trans {q r : Planner} (h : Still p q) (k : Still q r) : Still p r :=
  ⟨k.facts.trans h.facts, k.moving.trans h.moving⟩

theorem still_say {t : String} : Still p (p.say t) := ⟨rfl, rfl⟩

theorem still_act (h : a.kind.moves = false) : Still p (p.act a) :=
  ⟨rfl, act_still h⟩

theorem still_timedOut {t : List (String × String)} (h : a.kind.moves = false) :
    Still p ({ p with timedOut := t }.act a) :=
  ⟨rfl, act_still h⟩

theorem timeOutController_still : Still p p.timeOutController := by
  unfold Planner.timeOutController
  split
  · exact Still.refl p
  split_ifs
  · exact still_timedOut rfl
  · exact Still.refl p

theorem timeOutHost_still {h : HostFacts} : Still p (p.timeOutHost h) := by
  unfold Planner.timeOutHost
  split
  · exact Still.refl p
  split_ifs
  · exact still_timedOut rfl
  · exact Still.refl p

theorem timeOuts_still (p : Planner) : Still p p.timeOuts := by
  have hhosts : ∀ (l : List HostFacts) (q : Planner), Still q (l.foldl Planner.timeOutHost q) := by
    intro l
    induction l with
    | nil =>
      intro q
      exact Still.refl q
    | cons h rest ih =>
      intro q
      exact timeOutHost_still.trans (ih _)
  unfold Planner.timeOuts
  dsimp only
  split_ifs
  · exact timeOutController_still
  · exact timeOutController_still.trans (hhosts _ _)

theorem cancel_still {reason : String} : Still p (p.cancel reason) :=
  (still_act rfl).trans still_say

theorem finish_still {reason note : String} : Still p (p.finish reason note) :=
  (still_act rfl).trans still_say

theorem off_still : Still p p.off := by
  unfold Planner.off
  split
  · exact cancel_still
  · exact still_say

theorem halts_still {q : Planner} (h : p.halt.or p.halted = some q) : Still p q := by
  rcases Option.or_eq_some_iff.mp h with hq | ⟨-, hq⟩
  · unfold Planner.halt at hq
    split at hq
    · cases hq
    split_ifs at hq
    obtain ⟨m, -, rfl⟩ := Option.map_eq_some_iff.mp hq
    exact (still_act rfl).trans still_say
  unfold Planner.halted at hq
  split at hq
  · cases hq
  split_ifs at hq
  cases hq
  exact still_say

theorem controllerAttempt_eq_some {f : Facts} {a : Attempt} :
    f.controllerAttempt = some a ↔ f.s.controller = some a ∧ a.scope = .controller ∧
      a.state = .requested := by
  simp [Facts.controllerAttempt, Option.filter_eq_some_iff]

theorem hostAttempt_eq_some {h : HostFacts} {a : Attempt} :
    hostAttempt h = some a ↔ h.openAttempt = some a ∧ a.scope = .host ∧ a.hostID = h.id ∧
      a.state = .requested := by
  simp [hostAttempt, Option.filter_eq_some_iff, and_assoc]

theorem not_openAttempt_of_blocked (hhosts : ∀ h, h ∈ p.hosts ↔ h ∈ p.s.hosts)
    (hb : p.blocked = none) : ¬p.s.openAttempt := by
  unfold Planner.blocked at hb
  split at hb
  · cases hb
  next hc =>
  rintro (⟨a, ha⟩ | ⟨h, hm, a, ha⟩)
  · rw [controllerAttempt_eq_some.mpr ha] at hc
    cases hc
  have hno := List.findSome?_eq_none_iff.mp hb h ((hhosts h).mpr hm)
  rw [Planner.hostBlocks, hostAttempt_eq_some.mpr ha] at hno
  cases hno

theorem requestController_cases {tag : String} : Still p (p.requestController tag) ∨
      p.s.helper = .ready ∧ (p.requestController tag).plan.moving =
        p.plan.moving ++ [{ kind := .requestController, tag, reason := p.choice.reason }] := by
  unfold Planner.requestController
  dsimp only
  split_ifs with hhelper
  · exact .inl still_say
  · exact .inl still_say
  · exact .inl still_say
  · exact .inl still_say
  · exact .inr ⟨not_not.mp hhelper, act_moving rfl⟩

theorem controller_cases : Still p p.controller.1 ∨
      p.choice.replaces = false ∧ p.choice.dueBy p.s.now = true ∧ p.blocked = none ∧
        p.s.helper = .ready ∧ p.controller.2 = true ∧ p.controller.1.plan.moving =
          p.plan.moving ++ [{ kind := .requestController, tag := p.choice.release.tag,
                              reason := p.choice.reason }] := by
  unfold Planner.controller
  split_ifs with hdue hun
  · exact .inl (Still.refl p)
  · exact .inl ⟨rfl, rfl⟩
  rw [Bool.or_eq_true, not_or, Bool.not_eq_true, Bool.not_eq_true', Bool.not_eq_false] at hdue
  cases hb : p.blocked with
  | some sentence => exact .inl still_say
  | none =>
    rcases requestController_cases with h | ⟨hready, hmove⟩
    · exact .inl h
    · exact .inr ⟨hdue.1, hdue.2, rfl, hready, rfl, hmove⟩

theorem advanceHosts_cases :
    Still p p.advanceHosts ∨ ∃ h a, p.blocked = none ∧ p.survey.ready = some h ∧
      p.advanceHosts.plan.moving = p.plan.moving ++ [a] ∧ a.kind = .updateHost ∧
      a.hostID = h.id ∧ a.tag = p.target := by
  unfold Planner.advanceHosts
  cases hb : p.blocked with
  | some sentence => exact .inl still_say
  | none =>
    dsimp only
    cases hr : p.survey.ready with
    | some h => exact .inr ⟨h, _, rfl, rfl, act_moving rfl, rfl, rfl, rfl⟩
    | none =>
      dsimp only
      split_ifs
      · exact .inl still_say
      · exact .inl finish_still

theorem advance_cases {r : Rollout} :
    Still p (p.advance r) ∨ validTarget r.target = true ∧ p.target ≠ "" ∧
      compareTargets r.target p.target = .none ∧ p.advance r = p.advanceHosts := by
  unfold Planner.advance
  dsimp only
  by_cases hv : validTarget r.target = true
  · by_cases ht : p.target = ""
    · rw [if_neg (by simp [hv]), if_pos ht]
      exact .inl cancel_still
    rw [if_neg (by simp [hv]), if_neg ht]
    split
    · exact .inl cancel_still
    split
    · next hskew => exact .inr ⟨hv, ht, hskew, rfl⟩
    · exact .inl finish_still
    · exact .inl cancel_still
  · rw [if_pos (by simp [hv])]
    exact .inl still_say

theorem start_cases : Still p p.start ∨ ∃ a, p.blocked = none ∧ p.s.mode = .auto ∧ p.target ≠ "" ∧
      p.start.plan.moving = p.plan.moving ++ [a] ∧ a.kind = .startRollout ∧ a.tag = p.target := by
  unfold Planner.start
  cases hb : p.blocked with
  | some sentence => exact .inl still_say
  | none =>
    dsimp only
    split_ifs with hoff hready hcan
    · exact .inl still_say
    · exact .inl still_say
    · exact .inl still_say
    · rw [not_or, not_not] at hoff
      exact .inr ⟨_, rfl, hoff.1, hoff.2, act_moving rfl, rfl, rfl⟩

end Zoomies.Updates

namespace Zoomies.Updates
open Zoomies.Go Zoomies.Version

def SameTarget (a b : String) : Prop :=
  validTag a = true ∧ validTag b = true ∧ SameRelease a b ∨
    isMainBuild a = true ∧ isMainBuild b = true ∧ trimSpace a = trimSpace b

def Behind (version target : String) : Prop :=
  isMainBuild target = false ∧ Earlier version target ∨
    isMainBuild target = true ∧ trimSpace version ≠ trimSpace target ∧
      (isMainBuild (trimSpace version) = true ∨ (targetTag (trimSpace version)).isSome = true)

def FailedTo (tag : String) (h : HostFacts) (a : Attempt) : Prop :=
  a.scope = .host ∧ a.hostID = h.id ∧ (a.state = .failed ∨ a.state = .timedOut) ∧
    compareBuilds a.toTag tag = .none

instance (tag : String) (h : HostFacts) : DecidablePred (FailedTo tag h) := fun a =>
  inferInstanceAs (Decidable (a.scope = .host ∧ a.hostID = h.id ∧
    (a.state = .failed ∨ a.state = .timedOut) ∧ compareBuilds a.toTag tag = .none))

def Rollout.includes (r : Rollout) (h : HostFacts) : Prop := r.hostIDs = [] ∨ h.id ∈ r.hostIDs

structure MayRequest (s : Snapshot) (tag : String) : Prop where
  auto : s.mode = .auto
  helper : s.helper = .ready
  release : ∃ r ∈ s.releases, r.tag = tag ∧ Earlier s.running tag ∧ r.draft = false ∧
    r.prerelease = false ∧ r.publishedAt + s.soak ≤ s.now

structure MayStart (s : Snapshot) (tag : String) : Prop where
  auto : s.mode = .auto
  target : hostTarget s.running = some tag
  noneOpen : ∀ r, s.rollout = some r → r.state ≠ .running ∧ r.state ≠ .halted

structure MayUpdate (s : Snapshot) (r : Rollout) (h : HostFacts) (tag : String) : Prop where
  listed : h ∈ s.hosts
  target : hostTarget s.running = some tag
  opened : s.rollout = some r
  running : r.state = .running
  forHost : r.includes h
  same : SameTarget r.target tag
  byPerson : s.mode = .manual → r.trigger = .manual
  behind : Behind h.version tag
  healthy : h.healthy = true
  canSelfUpdate : h.canSelfUpdate = true
  notEmbedded : h.embedded = false
  few : h.ended.countP (fun a => Decidable.decide (FailedTo tag h a)) < maxFailuresPerTag
  rested : ∀ a ∈ h.ended, FailedTo tag h a → a.finishedAt + retryAfter ≤ s.now
  noneFailed : ∀ m ∈ s.hosts, r.includes m → ∀ a ∈ m.ended, FailedTo tag m a →
    a.finishedAt < r.since

variable {a b : String}

theorem isMainBuild_congr (h : trimSpace a = trimSpace b) : isMainBuild a = isMainBuild b := by
  unfold isMainBuild
  rw [h]

theorem sameTarget_of_compareTargets (ha : validTarget a = true) (hb : validTarget b = true)
    (h : compareTargets a b = .none) : SameTarget a b := by
  unfold compareTargets at h
  split_ifs at h with hmain htext
  · have hab : isMainBuild a = isMainBuild b := isMainBuild_congr htext
    rw [hab, Bool.or_self] at hmain
    exact .inr ⟨hab.trans hmain, hmain, htext⟩
  rw [Bool.or_eq_true, not_or, Bool.not_eq_true, Bool.not_eq_true] at hmain
  have hta : validTag a = true := by simpa [validTarget, hmain.1] using ha
  have htb : validTag b = true := by simpa [validTarget, hmain.2] using hb
  have hsame : SameRelease a b := by
    rcases compareBuilds_none_iff.mp h with h | h | h
    · exact absurd h (trimSpace_ne_empty_of_validTag hta)
    · exact absurd h (trimSpace_ne_empty_of_validTag htb)
    · exact h
  exact .inl ⟨hta, htb, hsame⟩

theorem behind_of_hostSkew {version target : String} (h : hostSkew version target = .behind) :
    Behind version target := by
  unfold hostSkew at h
  dsimp only at h
  split_ifs at h with hmain htag htext hbuild hrel
  · exact .inl ⟨by simpa using hmain, compareBuilds_behind_iff.mp h⟩
  · exact .inr ⟨by simpa using hmain, htext, .inl hbuild⟩
  · exact .inr ⟨by simpa using hmain, htext, .inr hrel⟩

theorem SameTarget.sameRelease (h : SameTarget a b) : SameRelease a b := by
  rcases h with ⟨-, -, h⟩ | ⟨-, -, h⟩
  · exact h
  · exact .inl h

theorem failures_spec {ended : List Attempt} {tag : String} {keep : Attempt → Bool} :
    (failures ended tag keep).1 = ended.countP (counted tag keep) ∧
      ∀ a ∈ ended, counted tag keep a = true → a.finishedAt ≤ (failures ended tag keep).2 := by
  -- over any start: the count grows by the failures, and the last only moves forward
  have hfold : ∀ (l : List Attempt) (acc : Nat × Time),
      (l.foldl (failureStep tag keep) acc).1 = acc.1 + l.countP (counted tag keep) ∧
        acc.2 ≤ (l.foldl (failureStep tag keep) acc).2 ∧ ∀ a ∈ l, counted tag keep a = true →
          a.finishedAt ≤ (l.foldl (failureStep tag keep) acc).2 := by
    intro l
    induction l with
    | nil =>
      intro acc
      exact ⟨rfl, le_refl _, fun a ha => absurd ha List.not_mem_nil⟩
    | cons b rest ih =>
      intro acc
      obtain ⟨hn, hlast, hall⟩ := ih (failureStep tag keep acc b)
      rw [List.foldl_cons]
      by_cases hb : counted tag keep b = true
      · have hstep : failureStep tag keep acc b =
            (acc.1 + 1, if b.finishedAt > acc.2 then b.finishedAt else acc.2) := by
          simp [failureStep, hb]
        have hold : acc.2 ≤ (failureStep tag keep acc b).2 := by
          rw [hstep]
          dsimp only
          split_ifs with h
          · exact le_of_lt h
          · exact le_refl _
        have hnew : b.finishedAt ≤ (failureStep tag keep acc b).2 := by
          rw [hstep]
          dsimp only
          split_ifs with h
          · exact le_refl _
          · exact not_lt.mp h
        refine ⟨?_, le_trans hold hlast, ?_⟩
        · rw [hn, hstep, List.countP_cons_of_pos hb]
          dsimp only
          omega
        intro a ha hc
        rcases List.mem_cons.mp ha with rfl | ha
        · exact le_trans hnew hlast
        · exact hall a ha hc
      · have hstep : failureStep tag keep acc b = acc := by simp [failureStep, hb]
        rw [hstep] at hn hlast hall ⊢
        refine ⟨?_, hlast, ?_⟩
        · rw [hn, List.countP_cons_of_neg hb]
        intro a ha hc
        rcases List.mem_cons.mp ha with rfl | ha
        · exact absurd hc hb
        · exact hall a ha hc
  obtain ⟨hn, -, hall⟩ := hfold ended (0, 0)
  exact ⟨by rw [failures, hn, Nat.zero_add], hall⟩

variable {f : Facts} {h : HostFacts}

theorem assess_ready (hr : (f.assess h).1 = .ready) :
    hostSkew h.version f.target = .behind ∧ h.embedded = false ∧ h.canSelfUpdate = true ∧
      (f.assessFailures h).1 = .ready := by
  unfold Facts.assess at hr
  dsimp only at hr
  split_ifs at hr
  split at hr
  · cases hr
  split at hr
  · cases hr
  · cases hr
  · cases hr
  next hskew =>
  unfold Facts.assessBehind at hr
  dsimp only at hr
  split_ifs at hr with hemb hself hbin
  exact ⟨hskew, by simpa using hemb, by simpa using hself, hr⟩

theorem assessFailures_ready (hr : (f.assessFailures h).1 = .ready) : h.healthy = true ∧
      h.ended.countP (fun a => Decidable.decide (FailedTo f.target h a)) < maxFailuresPerTag ∧
      ∀ a ∈ h.ended, FailedTo f.target h a → a.finishedAt + retryAfter ≤ f.s.now := by
  have hcount : ∀ a, counted f.target (fun a => a.scope == .host && a.hostID == h.id) a =
      Decidable.decide (FailedTo f.target h a) := by
    intro a
    rw [Bool.eq_iff_iff, decide_eq_true_iff]
    simp [counted, FailedTo, failed, and_assoc]
  obtain ⟨hn, hlast⟩ :=
    failures_spec
  have hfun := funext hcount
  rw [hfun] at hn
  unfold Facts.assessFailures at hr
  dsimp only at hr
  split_ifs at hr with hmany hwell hknown hwait
  rw [hn] at hmany hknown
  refine ⟨by simpa using hwell, not_le.mp hmany, ?_⟩
  intro a ha hfailed
  have hle := hlast a ha ((hcount a).trans (decide_eq_true hfailed))
  have hpos : 0 < h.ended.countP fun a => Decidable.decide (FailedTo f.target h a) :=
    List.countP_pos_iff.mpr ⟨a, ha, decide_eq_true hfailed⟩
  generalize (failures h.ended f.target fun a => a.scope == .host && a.hostID == h.id).2 = last
    at hle hknown hwait
  have hlast0 : last ≠ 0 := fun h0 => hknown ⟨hpos, h0⟩
  have hdone : last + retryAfter ≤ f.s.now := by
    simpa [Facts.waiting, hlast0] using hwait
  exact le_trans (Int.add_le_add_right hle _) hdone

theorem surveyHost_ready {sv : Survey} {m : HostFacts} (hr : (f.surveyHost sv m).ready = some h) :
    sv.ready = some h ∨ h = m ∧ f.member m = true ∧ (f.assess m).1 = .ready := by
  unfold Facts.surveyHost at hr
  by_cases hm : f.member m = true
  · rw [if_neg (by simp [hm])] at hr
    rcases hs : f.assess m with ⟨stand, note⟩
    rw [hs] at hr
    cases stand with
    | ready =>
      rcases Option.or_eq_some_iff.mp hr with hold | ⟨-, hnew⟩
      · exact .inl hold
      · cases hnew
        exact .inr ⟨rfl, hm, rfl⟩
    | current | skipped | pending => exact .inl hr
  · rw [if_pos (by simp [hm])] at hr
    exact .inl hr

theorem survey_ready (hr : f.survey.ready = some h) :
    h ∈ f.hosts ∧ f.member h = true ∧ (f.assess h).1 = .ready := by
  have hfold : ∀ (l : List HostFacts) (sv : Survey), (l.foldl f.surveyHost sv).ready = some h →
      sv.ready = some h ∨ h ∈ l ∧ f.member h = true ∧ (f.assess h).1 = .ready := by
    intro l
    induction l with
    | nil =>
      intro sv hl
      exact .inl hl
    | cons m rest ih =>
      intro sv hl
      rcases ih _ hl with hstep | ⟨hmem, hready⟩
      · rcases surveyHost_ready hstep with hold | ⟨rfl, hready⟩
        · exact .inl hold
        · exact .inr ⟨List.mem_cons_self, hready⟩
      · exact .inr ⟨List.mem_cons_of_mem _ hmem, hready⟩
  rcases hfold f.hosts {} hr with hno | hready
  · cases hno
  · exact hready

end Zoomies.Updates

namespace Zoomies.Updates
open Zoomies.Go Zoomies.Version List

inductive Moved (s : Snapshot) : List Action → Prop
  | nothing : Moved s []
  | request (a : Action) (hk : a.kind = .requestController) (hfree : ¬s.openAttempt)
      (hmay : MayRequest s a.tag) : Moved s [a]
  | start (a : Action) (hk : a.kind = .startRollout) (hfree : ¬s.openAttempt)
      (hmay : MayStart s a.tag) : Moved s [a]
  | update (a : Action) (r : Rollout) (h : HostFacts) (hk : a.kind = .updateHost)
      (hid : a.hostID = h.id) (hfree : ¬s.openAttempt) (hmay : MayUpdate s r h a.tag) : Moved s [a]

variable {s : Snapshot} {l : List Action}

theorem Moved.length_le (h : Moved s l) : l.length ≤ 1 := by
  cases h <;> simp

theorem Moved.nothing_of_open (h : Moved s l) (ho : s.openAttempt) : l = [] := by
  cases h with
  | nothing => rfl
  | request a _ hfree _ | start a _ hfree _ | update a r h _ _ hfree _ => exact absurd ho hfree

variable {a : Action}

/-- What is moved is what its kind says, and may be. -/
theorem Moved.may (h : Moved s l) (ha : a ∈ l) :
    (a.kind = .requestController ∧ MayRequest s a.tag) ∨ (a.kind = .startRollout ∧ MayStart s a.tag) ∨
      a.kind = .updateHost ∧ ∃ r h, h.id = a.hostID ∧ MayUpdate s r h a.tag := by
  cases h with
  | nothing => cases ha
  | request b hb _ hmay => exact mem_singleton.mp ha ▸ .inl ⟨hb, hmay⟩
  | start b hb _ hmay => exact mem_singleton.mp ha ▸ .inr (.inl ⟨hb, hmay⟩)
  | update b r h hb hid _ hmay => exact mem_singleton.mp ha ▸ .inr (.inr ⟨hb, r, h, hid.symm, hmay⟩)

structure Cleared (f : Facts) (r : Rollout) : Prop where
  running : r.state = .running
  noneFailed : ∀ h ∈ f.hosts, f.member h = true → failedIn r h = false
  byPerson : f.s.mode = .manual → r.trigger = .manual

theorem mem_newFacts_hosts (s : Snapshot) (h : HostFacts) : h ∈ (newFacts s).hosts ↔ h ∈ s.hosts :=
  mem_sortStableFunc

variable {r : Rollout}

theorem newFacts_rollout (h : (newFacts s).rollout = some r) :
    s.rollout = some r ∧ openRollout r = true :=
  Option.filter_eq_some_iff.mp h

variable {p : Planner}

theorem cleared_of_passed (hp : p.toFacts = newFacts s)
    (hauto : p.startedByAuto = none) (hhalt : p.halt.or p.halted = none) :
    ∀ r, (newFacts s).rollout = some r → Cleared (newFacts s) r := by
  intro r hr
  obtain ⟨hnohalt, hnothalted⟩ := Option.or_eq_none_iff.mp hhalt
  have hopen := (newFacts_rollout hr).2
  have hrun : r.state = .running := by
    unfold Planner.halted at hnothalted
    rw [hp, hr] at hnothalted
    dsimp only at hnothalted
    split_ifs at hnothalted with hs
    simpa [openRollout, hs] using hopen
  refine ⟨hrun, ?_, ?_⟩
  · intro h hm hmem
    unfold Planner.halt at hnohalt
    rw [hp, hr] at hnohalt
    dsimp only at hnohalt
    rw [if_neg (not_not.mpr hrun), Option.map_eq_none_iff, find?_eq_none] at hnohalt
    have hno := hnohalt h hm
    rw [hmem, Bool.true_and, Bool.not_eq_true] at hno
    exact hno
  · intro hmode
    unfold Facts.startedByAuto at hauto
    rw [hp, if_pos hmode, hr, Option.filter_eq_none_iff] at hauto
    have hno := hauto r rfl
    simpa using hno

theorem hostTarget_of_target (h : (newFacts s).target ≠ "") :
    hostTarget s.running = some (newFacts s).target := by
  cases ht : hostTarget s.running with
  | none => exact absurd (by simp [newFacts, ht]) h
  | some tag => simp [newFacts, ht]

theorem mayStart_of_target (hmode : s.mode = .auto)
    (htarget : (newFacts s).target ≠ "") (hno : (newFacts s).rollout = none) :
    MayStart s (newFacts s).target := by
  refine ⟨hmode, hostTarget_of_target htarget, ?_⟩
  intro r hr
  have hclosed := Option.filter_eq_none_iff.mp hno r hr
  simpa [openRollout] using hclosed

theorem member_iff_includes {f : Facts} {h : HostFacts} (hr : f.rollout = some r) :
    f.member h = true ↔ r.includes h := by
  simp [Facts.member, hr, Rollout.includes]

theorem mayUpdate_of_ready {h : HostFacts} (hr : (newFacts s).rollout = some r)
    (hclear : Cleared (newFacts s) r) (hvalid : validTarget r.target = true)
    (htarget : (newFacts s).target ≠ "")
    (hsame : compareTargets r.target (newFacts s).target = .none)
    (hready : (newFacts s).survey.ready = some h) : MayUpdate s r h (newFacts s).target := by
  obtain ⟨hmem, hmember, hassess⟩ := survey_ready hready
  obtain ⟨hskew, hemb, hself, hfail⟩ := assess_ready hassess
  obtain ⟨hwell, hfew, hrested⟩ := assessFailures_ready hfail
  have hhost := hostTarget_of_target htarget
  have hst := sameTarget_of_compareTargets hvalid (validTarget_of_hostTarget hhost) hsame
  refine ⟨(mem_newFacts_hosts s h).mp hmem, hhost, (newFacts_rollout hr).1, hclear.running,
    (member_iff_includes hr).mp hmember, hst, hclear.byPerson,
    behind_of_hostSkew hskew, hwell, hself, hemb, hfew, hrested, ?_⟩
  -- a failure to the target is one to the rollout's own target, which would have halted it
  intro m hm hincl a ha hfailed
  have hno := hclear.noneFailed m ((mem_newFacts_hosts s m).mpr hm)
    ((member_iff_includes hr).mpr hincl)
  by_contra hsince
  obtain ⟨hscope, hid, hstate, hto⟩ := hfailed
  have htag : compareBuilds a.toTag r.target = .none :=
    compareBuilds_none_of_sameRelease
      (trimSpace_ne_empty_of_validTarget (validTarget_of_hostTarget hhost)) hto
      hst.sameRelease.symm
  have hany : failedIn r m = true :=
    any_eq_true.mpr ⟨a, ha, by simp [failedSince, failed, hscope, hid, hstate, hsince, htag]⟩
  rw [hany] at hno
  cases hno

theorem walk_moved (hp : p.toFacts = newFacts s) (hmov : p.plan.moving = [])
    (hclear : ∀ r, (newFacts s).rollout = some r → Cleared (newFacts s) r) :
    Moved s p.walk.plan.moving := by
  have hfree : p.blocked = none → ¬s.openAttempt := by
    intro hb
    have hno := not_openAttempt_of_blocked (by rw [hp]; exact mem_newFacts_hosts s) hb
    rw [hp] at hno
    exact hno
  unfold Planner.walk
  cases hr : p.rollout with
  | none =>
    dsimp only
    rcases start_cases with hstill | ⟨a, hb, hmode, htarget, hmove, hk, htag⟩
    · rw [hstill.moving, hmov]
      exact Moved.nothing
    rw [hmove, hmov]
    rw [hp] at hr hmode htarget htag
    refine Moved.start a hk (hfree hb) ?_
    rw [htag]
    exact mayStart_of_target hmode htarget hr
  | some r =>
    dsimp only
    rcases advance_cases with hstill | ⟨hvalid, htarget, hsame, heq⟩
    · rw [hstill.moving, hmov]
      exact Moved.nothing
    rw [heq]
    rcases advanceHosts_cases with hstill | ⟨h, a, hb, hready, hmove, hk, hid, htag⟩
    · rw [hstill.moving, hmov]
      exact Moved.nothing
    rw [hmove, hmov]
    rw [hp] at hr htarget hsame hready htag
    refine Moved.update a r h hk hid (hfree hb) ?_
    rw [htag]
    exact mayUpdate_of_ready hr (hclear r hr) hvalid htarget hsame hready

theorem mayRequest_of_due (hmode : s.mode = .auto) (hhelper : s.helper = .ready)
    (hrep : (newFacts s).choice.replaces = false)
    (hdue : (newFacts s).choice.dueBy s.now = true) :
    MayRequest s (newFacts s).choice.release.tag := by
  rw [Target.dueBy, Bool.and_eq_true, Bool.not_eq_true', decide_eq_false_iff_not] at hdue
  obtain ⟨hmem, helig, hskew, hat⟩ := choose_auto hmode hdue.1 hrep
  have hlisted : (newFacts s).choice.release ∈ s.releases :=
    mem_sortStableFunc.mp hmem
  simp only [Release.eligible, Bool.and_eq_true, Bool.not_eq_true'] at helig
  have hsoaked := not_lt.mp hdue.2
  refine ⟨hmode, hhelper, _, hlisted, rfl, compareBuilds_behind_iff.mp hskew,
    helig.1.1.1.2, helig.1.1.1.1.2, ?_⟩
  exact le_of_eq_of_le hat.symm hsoaked

theorem move_moved (hp : p.toFacts = newFacts s) (hmov : p.plan.moving = [])
    (hclear : ∀ r, (newFacts s).rollout = some r → Cleared (newFacts s) r) :
    Moved s p.move.plan.moving := by
  have hs : p.s = s := by rw [hp]; rfl
  unfold Planner.move
  split_ifs with hmode
  · rcases controller_cases with hstill | ⟨hrep, hdue, hb, hhelper, hend, hmove⟩
    · split
      · next q hq =>
        rw [hq] at hstill
        rw [hstill.moving, hmov]
        exact Moved.nothing
      next q hq =>
      rw [hq] at hstill
      exact walk_moved (hstill.facts.trans hp) (hstill.moving.trans hmov) hclear
    · split
      · next q hq =>
        rw [hq, hmov] at hmove
        dsimp only at hmove
        rw [hmove]
        have hno := not_openAttempt_of_blocked (by rw [hp]; exact mem_newFacts_hosts s) hb
        rw [hs] at hno hmode hhelper hdue
        rw [hp] at hrep hdue
        refine Moved.request _ rfl hno ?_
        rw [hp]
        exact mayRequest_of_due hmode hhelper hrep hdue
      · next q hq =>
        rw [hq] at hend
        cases hend
  · exact walk_moved hp hmov hclear

theorem decide_still (h : s.fenced = true ∨ s.mode ≠ .manual ∧ s.mode ≠ .auto) :
    (decide s).moving = [] := by
  unfold decide
  split_ifs with hf hoff
  · rfl
  · exact ((timeOuts_still (newPlanner s)).trans off_still).moving
  rcases h with h | h
  · exact absurd h hf
  · exact absurd h hoff

theorem decide_moved (s : Snapshot) : Moved s (decide s).moving := by
  by_cases hstop : s.fenced = true ∨ s.mode ≠ .manual ∧ s.mode ≠ .auto
  · rw [decide_still hstop]
    exact Moved.nothing
  rw [not_or] at hstop
  have hout := timeOuts_still (newPlanner s)
  have hnone : ∀ q, Still (newPlanner s).timeOuts q → Moved s q.plan.moving := by
    intro q hq
    rw [(hout.trans hq).moving]
    exact Moved.nothing
  unfold decide
  rw [if_neg hstop.1]
  dsimp only
  rw [if_neg hstop.2]
  split
  · exact hnone _ cancel_still
  next hauto =>
  cases hhalt : (newPlanner s).timeOuts.halt.or (newPlanner s).timeOuts.halted with
  | some q => exact hnone q (halts_still hhalt)
  | none =>
    exact move_moved hout.facts hout.moving (cleared_of_passed hout.facts hauto hhalt)

/-- A plan sets at most one machine moving, and none when the planner may not act or an attempt is
open; the controller, a rollout and each host are moved only when everything that allows it holds.
-/
theorem decide_moves_only_allowed (s : Snapshot) : (decide s).moving.length ≤ 1 ∧
      (s.fenced = true ∨ (s.mode ≠ .manual ∧ s.mode ≠ .auto) ∨ s.openAttempt →
        (decide s).moving = []) ∧
      (∀ a ∈ (decide s).actions, a.kind = .requestController → MayRequest s a.tag) ∧
      (∀ a ∈ (decide s).actions, a.kind = .startRollout → MayStart s a.tag) ∧
      ∀ a ∈ (decide s).actions, a.kind = .updateHost →
        ∃ r h, h.id = a.hostID ∧ MayUpdate s r h a.tag := by
  have hmem : ∀ a ∈ (decide s).actions, a.kind.moves = true → a ∈ (decide s).moving :=
    fun a ha hk => mem_filter.mpr ⟨ha, hk⟩
  have hmoved := decide_moved s
  refine ⟨hmoved.length_le, ?_, ?_, ?_, ?_⟩
  · rintro (hf | hm | ho)
    · exact decide_still (.inl hf)
    · exact decide_still (.inr hm)
    · exact hmoved.nothing_of_open ho
  · intro a ha hk
    simpa [hk] using hmoved.may (hmem a ha (by rw [hk]; rfl))
  · intro a ha hk
    simpa [hk] using hmoved.may (hmem a ha (by rw [hk]; rfl))
  · intro a ha hk
    simpa [hk] using hmoved.may (hmem a ha (by rw [hk]; rfl))

def soaked (running : String) : Snapshot where
  now := 1000 * hour
  mode := .auto
  soak := 24 * hour
  running := running
  goos := "linux"
  goarch := "amd64"
  releases := [⟨"v1.4.0", "", 952 * hour, false, false, ["checksums.txt", "zoomies_linux_amd64"]⟩]
  helper := .ready
  rollout := some { target := "v1.4.0", trigger := .auto, state := .running, since := 990 * hour }
  hosts := [{ id := "h1", name := "build-1", version := "1.3.5", healthy := true, canSelfUpdate := true }]

/-- The controller is asked for first, and once it runs the release the host follows. -/
theorem decide_moves_only_allowed_soaked : MayRequest (soaked "1.3.5") "v1.4.0" ∧
      ∃ r h, h.id = "h1" ∧ MayUpdate (soaked "1.4.0") r h "v1.4.0" := by
  have hask : ∃ a ∈ (decide (soaked "1.3.5")).actions, a.kind = .requestController ∧
      a.tag = "v1.4.0" := by decide +kernel
  have hmove : ∃ a ∈ (decide (soaked "1.4.0")).actions, a.kind = .updateHost ∧
      a.hostID = "h1" ∧ a.tag = "v1.4.0" := by decide +kernel
  obtain ⟨a, ha, hk, htag⟩ := hask
  obtain ⟨b, hb, hkb, hid, htagb⟩ := hmove
  have hreq := (decide_moves_only_allowed (soaked "1.3.5")).2.2.1 a ha hk
  have hupd := (decide_moves_only_allowed (soaked "1.4.0")).2.2.2.2 b hb hkb
  rw [htag] at hreq
  rw [hid, htagb] at hupd
  exact ⟨hreq, hupd⟩

end Zoomies.Updates
