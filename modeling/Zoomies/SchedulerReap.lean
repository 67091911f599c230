import Zoomies.SchedulerRun
import Zoomies.KeyedList

/-! Which runners a pass cleans up, and what each rule says the runner it names was doing. -/
namespace Zoomies.Scheduler
open Zoomies.Go Zoomies.Store List

section
variable (pass : Pass) (p : Pool) (r : Runner)

def overdue (pol : Policy) (now : Time) (r : Runner) : Bool :=
  provisionOverdue pol now r || drainOverdue pol now r

theorem overdue_state {pol : Policy} {now : Time} (h : overdue pol now r = true) :
    starting r.state = true ∨ r.state = .draining := by
  rcases Bool.or_eq_true_iff.mp h with hp | hd
  · left
    simp only [provisionOverdue, Bool.and_eq_true] at hp
    exact hp.1.1
  right
  simp only [drainOverdue, Bool.and_eq_true, beq_iff_eq] at hd
  exact hd.1.1.1

/-- What each verdict of the reap says about the runner. -/
theorem reapVerdict_cases :
    match reapVerdict pass p r with
    | .gone => r.state.live = false
    | .remove _ => r.state = .failed ∧ pass.stillRunning r.id = false
    | .fail _ => r.state.live = true ∧ overdue (pass.policy.forPool p) pass.now r = true
    | .retire _ => r.state.live = true ∧ retirable pass r = true
    | .keep => r.state.live = true ∧ overdue (pass.policy.forPool p) pass.now r = false := by
  unfold reapVerdict
  by_cases hr : r.state = .removed
  · simp only [hr]
    rfl
  rw [if_neg hr]
  by_cases hf : r.state = .failed
  · rw [if_pos hf]
    by_cases hc : sub pass.now (failedAt r) ≥ failedRetention ∧ (!pass.stillRunning r.id) = true
    · rw [if_pos hc]
      exact ⟨hf, by simpa using hc.2⟩
    rw [if_neg hc]
    simp only [hf]
    rfl
  rw [if_neg hf]
  -- every later verdict is about a runner that is neither removed nor failed
  have hlive : r.state.live = true := by
    simp [RunnerState.live, RunnerState.terminal, hr, hf]
  by_cases hp : provisionOverdue (pass.policy.forPool p) pass.now r = true
  · rw [if_pos hp]
    exact ⟨hlive, by rw [overdue, hp, Bool.true_or]⟩
  rw [if_neg hp]
  by_cases hd : drainOverdue (pass.policy.forPool p) pass.now r = true
  · rw [if_pos hd]
    exact ⟨hlive, by rw [overdue, hd, Bool.or_true]⟩
  rw [if_neg hd]
  have hover : overdue (pass.policy.forPool p) pass.now r = false := by
    rw [overdue, Bool.eq_false_iff.mpr hp, Bool.eq_false_iff.mpr hd, Bool.or_self]
  by_cases hl : (pass.policy.forPool p).maxRunnerLifetime > 0 ∧
      age r pass.now > (pass.policy.forPool p).maxRunnerLifetime ∧ retirable pass r = true
  · rw [if_pos hl]
    exact ⟨hlive, hl.2.2⟩
  rw [if_neg hl]
  by_cases hi : staleImage p r = true ∧ retirable pass r = true
  · rw [if_pos hi]
    exact ⟨hlive, hi.2⟩
  · rw [if_neg hi]
    exact ⟨hlive, hover⟩

theorem failureOf_of_overdue (h : overdue (pass.policy.forPool p) pass.now r = true) :
    ∃ a, failureOf pass p r = some a ∧ a.kind = .fail ∧ a.runnerID = r.id := by
  have hstate := overdue_state r h
  have hr : r.state ≠ .removed := by
    rintro he
    rw [he] at hstate
    simp [starting] at hstate
  have hf : r.state ≠ .failed := by
    rintro he
    rw [he] at hstate
    simp [starting] at hstate
  have hfail : ∃ reason, reapVerdict pass p r = .fail reason := by
    unfold reapVerdict
    rw [if_neg hr, if_neg hf]
    split
    · exact ⟨_, rfl⟩
    rename_i hp
    rw [if_pos (by simpa [overdue, hp] using h)]
    exact ⟨_, rfl⟩
  obtain ⟨reason, hv⟩ := hfail
  exact ⟨action .fail p r reason, by rw [failureOf, hv], rfl, rfl⟩

end

def jobless (pass : Pass) (r : Runner) : Prop :=
  r.state ≠ .busy ∧ pass.stillRunning r.id = false

theorem jobless_of_retirable {pass : Pass} {r : Runner} (h : retirable pass r = true) :
    jobless pass r := by
  simp only [retirable, Bool.and_eq_true, bne_iff_ne, Bool.not_eq_true'] at h
  exact ⟨h.1.1, h.2⟩

structure CleanUp (pass : Pass) (p : Pool) (runners : List Runner) (a : Action) : Prop where
  kind : a.kind ≠ .create
  pool : a.poolID = p.id
  runner : ∃ r ∈ runners, a.runnerID = r.id ∧ ((a.kind = .fail ∧ r.state.live = true ∧
        overdue (pass.policy.forPool p) pass.now r = true) ∨
      (a.kind ≠ .fail ∧ jobless pass r))

variable {runners : List Runner} {a : Action}

theorem cleanUp_reap {pass : Pass} {p : Pool} (ha : a ∈ (reap pass p runners).1) :
    CleanUp pass p runners a := by
  simp only [reap, mem_append, mem_filterMap] at ha
  -- removals, failures and retirements; only a failure does not ask about jobs
  rcases ha with (⟨r, hr, hv⟩ | ⟨r, hr, hv⟩) | ⟨r, hr, hv⟩
  · have hc := reapVerdict_cases pass p r
    unfold removalOf at hv
    split at hv
    · rename_i reason hverdict
      rw [hverdict] at hc
      cases hv
      refine ⟨ActionKind.noConfusion, rfl, r, hr, rfl, .inr ⟨ActionKind.noConfusion, ?_, hc.2⟩⟩
      rw [hc.1]
      exact RunnerState.noConfusion
    · cases hv
  · have hc := reapVerdict_cases pass p r
    unfold failureOf at hv
    split at hv
    · rename_i reason hverdict
      rw [hverdict] at hc
      cases hv
      exact ⟨ActionKind.noConfusion, rfl, r, hr, rfl, .inl ⟨rfl, hc⟩⟩
    · cases hv
  · have hc := reapVerdict_cases pass p r
    unfold retirementOf at hv
    split at hv
    · rename_i reason hverdict
      rw [hverdict] at hc
      cases hv
      exact ⟨ActionKind.noConfusion, rfl, r, hr, rfl,
        .inr ⟨ActionKind.noConfusion, jobless_of_retirable hc.2⟩⟩
    · cases hv

theorem mem_reap_remaining {pass : Pass} {p : Pool} {r : Runner} (hr : r ∈ (reap pass p runners).2) :
    r ∈ runners ∧ r.state.live = true := by
  simp only [reap, mem_filter] at hr
  have hc := reapVerdict_cases pass p r
  refine ⟨hr.1, ?_⟩
  have hk := hr.2
  unfold kept at hk
  split at hk
  · rename_i hv
    rw [hv] at hc
    exact hc.1
  · cases hk

def drains (p : Pool) (d : List (Runner × String)) : List Action :=
  d.map fun e => action .drain p e.1 e.2

theorem mem_unneededStarting {pass : Pass} {r : Runner} (hr : r ∈ unneededStarting pass runners) :
    r ∈ runners ∧ jobless pass r := by
  rw [unneededStarting, mem_sortStableFunc, mem_filter, Bool.and_eq_true, Bool.not_eq_true'] at hr
  refine ⟨hr.1, ?_, hr.2.2⟩
  intro hb
  have hs := hr.2.1
  rw [hb] at hs
  cases hs

theorem mem_drainable {pass : Pass} {p : Pool} {r : Runner} (hr : r ∈ drainable pass p runners) :
    r ∈ runners ∧ jobless pass r := by
  rw [drainable, mem_sortStableFunc, mem_filter, Bool.and_eq_true, Bool.and_eq_true,
    Bool.not_eq_true', beq_iff_eq] at hr
  refine ⟨hr.1, ?_, hr.2.2⟩
  rw [hr.2.1.1]
  exact RunnerState.noConfusion

theorem scaleDown_actions {pass : Pass} {p : Pool} {plan : PoolPlan} {remaining : List Runner}
    {live : Int} :
    ∃ d, (scaleDown pass p plan remaining live).actions = plan.actions ++ drains p d ∧
      ∀ e ∈ d, e.1 ∈ remaining ∧ jobless pass e.1 := by
  unfold scaleDown
  dsimp only
  -- how many are stopped does not matter here, only from which lists they are taken
  generalize (live - max plan.desired p.minRunners).toNat = surplus
  generalize surplus - ((unneededStarting pass remaining).take surplus).length = more
  refine ⟨(((unneededStarting pass remaining).take surplus).map fun r =>
      (r, "queued demand disappeared before this runner finished starting")) ++
    (((drainable pass p remaining).take more).map fun r => (r, idleReason pass p r)), ?_, ?_⟩
  · simp only [drains, map_append, map_map, append_assoc]
    rfl
  intro e he
  rcases mem_append.mp he with hm | hm
  · obtain ⟨r, hr, rfl⟩ := mem_map.mp hm
    exact mem_unneededStarting (mem_of_mem_take hr)
  · obtain ⟨r, hr, rfl⟩ := mem_map.mp hm
    exact mem_drainable (mem_of_mem_take hr)

theorem disable_actions {pass : Pass} {p : Pool} {plan : PoolPlan} {remaining : List Runner}
    {live : Int} : ∃ d, (disable pass p plan remaining live).actions = plan.actions ++ drains p d ∧
      ∀ e ∈ d, e.1 ∈ remaining ∧ jobless pass e.1 := by
  refine ⟨(remaining.filter (retirable pass)).map fun r => (r, "pool is disabled"), ?_, ?_⟩
  · simp only [disable, drains, map_map]
    rfl
  intro e he
  obtain ⟨r, hr, rfl⟩ := mem_map.mp he
  rw [mem_filter] at hr
  exact ⟨hr.1, jobless_of_retirable hr.2⟩

variable {queued : List Job} {s : Snapshot}

theorem decidePool_actions {pass : Pass} {p : Pool} :
    ∃ d, (decidePool pass p runners queued).actions =
        (reap pass p (sortedRunners runners)).1 ++ drains p d ∧
      ∀ e ∈ d, e.1 ∈ (reap pass p (sortedRunners runners)).2 ∧ jobless pass e.1 := by
  unfold decidePool
  dsimp only
  split
  · exact disable_actions
  split
  · exact scaleDown_actions
  · exact ⟨[], (append_nil _).symm, by simp⟩

theorem cleanUp_decidePool {pass : Pass} {p : Pool}
    (ha : a ∈ (decidePool pass p runners queued).actions) : CleanUp pass p runners a := by
  obtain ⟨d, hd, hdrained⟩ := decidePool_actions
  rw [hd] at ha
  rcases mem_append.mp ha with hr | hr
  · obtain ⟨hk, hp, r, hm, hrest⟩ := cleanUp_reap hr
    exact ⟨hk, hp, r, mem_sortStableFunc.mp hm, hrest⟩
  obtain ⟨e, he, rfl⟩ := mem_map.mp hr
  obtain ⟨hm, hj⟩ := hdrained e he
  have hmem := (mem_reap_remaining hm).1
  exact ⟨ActionKind.noConfusion, rfl, e.1, mem_sortStableFunc.mp hmem, rfl,
    .inr ⟨ActionKind.noConfusion, hj⟩⟩

theorem decidePool_fails_overdue (pass : Pass) {p : Pool} {r : Runner} (hr : r ∈ runners)
    (ho : overdue (pass.policy.forPool p) pass.now r = true) :
    ∃ a ∈ (decidePool pass p runners queued).actions, a.kind = .fail ∧ a.runnerID = r.id := by
  obtain ⟨a, ha, hk, hid⟩ := failureOf_of_overdue pass p r ho
  obtain ⟨d, hd, -⟩ := decidePool_actions
  refine ⟨a, ?_, hk, hid⟩
  have hmem : r ∈ sortedRunners runners := mem_sortStableFunc.mpr hr
  rw [hd, reap]
  simp only [mem_append, mem_filterMap]
  exact .inl (.inl (.inr ⟨r, hmem, ha⟩))

def PoolPlan.cleanUp (plan : PoolPlan) : List Action := plan.actions.filter fun a => a.kind != .create

structure PlansKept (t t' : Tick) : Prop where
  cleanUp : ∀ id, (t'.plans id).cleanUp = (t.plans id).cleanUp
  base : ∀ id, (t'.plans id).base = (t.plans id).base

theorem plansKept_step {pass : Pass} {runners : RunnerTable} {demand : String → List Job}
    {pools : List Pool} {t t' : Tick} (hs : Step pass runners demand pools t t') :
    PlansKept t t' := by
  cases hs with
  | grant p hp hw hb =>
    rcases grant_cases pass p (runnersOf runners p.id) (demand p.id) t with ⟨-, hg⟩ | ⟨-, hr⟩
    -- a grant appends a create, which is no part of the clean-up
    · obtain ⟨pl, hs', act, -, -, -, hkind, -, -, -, hacts⟩ := hg.placed
      refine ⟨?_, ?_⟩ <;> intro id <;> by_cases hid : id = p.id
      · subst hid
        rw [PoolPlan.cleanUp, grantTo, hacts, filter_append]
        simp [hkind, PoolPlan.cleanUp]
      · rw [grantTo, hg.others id hid]
      · rw [hid, grantTo, hg.base]
      · rw [grantTo, hg.others id hid]
    · refine ⟨?_, ?_⟩ <;> intro id <;> by_cases hid : id = p.id
      · rw [hid, PoolPlan.cleanUp, grantTo, hr.actions]
        rfl
      · rw [grantTo, hr.others id hid]
      · rw [hid, grantTo, hr.base]
      · rw [grantTo, hr.others id hid]
  | note p hp current why =>
    refine ⟨?_, ?_⟩ <;> intro id <;> by_cases hid : id = p.id
    · rw [hid, Tick.note, Tick.setPlan_self]
      rfl
    · rw [Tick.note, Tick.setPlan_ne hid]
    · rw [hid, Tick.note, Tick.setPlan_self]
      rfl
    · rw [Tick.note, Tick.setPlan_ne hid]

theorem plansKept_finalTick (s : Snapshot) : PlansKept (startingTick s) (finalTick s) := by
  apply Reach.keeps (PlansKept (startingTick s)) ?_ _ _ (finalTick_reach s)
  · exact ⟨fun _ => rfl, fun _ => rfl⟩
  intro t t' hk hs
  have hstep := plansKept_step hs
  exact ⟨fun id => (hstep.cleanUp id).trans (hk.cleanUp id),
    fun id => (hstep.base id).trans (hk.base id)⟩

theorem decidePool_poolID {pass : Pass} {p : Pool} :
    (decidePool pass p runners queued).poolID = p.id := by
  unfold decidePool
  dsimp only
  split
  · rfl
  · split <;> rfl

theorem mem_sortedPools {p : Pool} : p ∈ sortedPools s.pools ↔ p ∈ s.pools :=
  mem_sortStableFunc

def decidedPlan (s : Snapshot) (p : Pool) : PoolPlan :=
  decidePool (passFor s false) p (runnersOf s.runners p.id) ((demandOf s).demand p.id)

theorem sortedPools_ids_nodup : ((sortedPools s.pools).map Pool.id).Nodup :=
  (sortStableFunc_perm.map Pool.id).nodup_iff.mpr s.distinct.poolIDs

theorem startingTick_plan {p : Pool} (hp : p ∈ s.pools) :
    (startingTick s).plans p.id = decidedPlan s p := by
  have hids : (decidedOf s).map PoolPlan.poolID = (sortedPools s.pools).map Pool.id := by
    simp only [decidedOf, decidedPlans, map_map]
    apply map_congr_left
    intro q _
    exact decidePool_poolID
  have hmem : decidedPlan s p ∈ decidedOf s :=
    mem_map_of_mem (mem_sortedPools.mpr hp)
  have hfind := find?_eq_of_nodup PoolPlan.poolID (hids ▸ sortedPools_ids_nodup) hmem
  rw [show (decidedPlan s p).poolID = p.id from decidePool_poolID] at hfind
  change ((decidedOf s).find? fun plan => plan.poolID == p.id).getD {} = _
  rw [hfind]
  rfl

theorem mem_decide_cleanUp (hk : a.kind ≠ .create) :
    a ∈ s.decide.actions ↔ (∃ p ∈ s.pools, a ∈ (decidedPlan s p).actions) ∨
      a ∈ (finalTick s).creates := by
  have hplan : ∀ p ∈ s.pools, (a ∈ ((finalTick s).plans p.id).actions ↔
      a ∈ (decidedPlan s p).actions) := by
    intro p hp
    have hc := (plansKept_finalTick s).cleanUp p.id
    rw [startingTick_plan hp] at hc
    have hmem : a ∈ ((finalTick s).plans p.id).cleanUp ↔ a ∈ (decidedPlan s p).cleanUp := by
      rw [hc]
    simpa [PoolPlan.cleanUp, hk] using hmem
  simp only [Snapshot.decide, mem_append, mem_flatMap, mem_map, mem_filter, bne_iff_ne]
  constructor
  · rintro (⟨plan, ⟨p, hp, rfl⟩, ha, -⟩ | ha)
    · rw [mem_sortedPools] at hp
      exact .inl ⟨p, hp, (hplan p hp).mp ha⟩
    · exact .inr ha
  rintro (⟨p, hp, ha⟩ | ha)
  · exact .inl ⟨_, ⟨p, mem_sortedPools.mpr hp, rfl⟩, (hplan p hp).mpr ha, hk⟩
  · exact .inr ha

def hasJob (s : Snapshot) (r : Runner) : Bool := r.state == .busy || runnersWithAJob s r.id

theorem runnersOf_subset {runners : RunnerTable} {id : String} {r : Runner}
    (hr : r ∈ runnersOf runners id) : r ∈ runners.flatMap Prod.snd := by
  unfold runnersOf at hr
  cases hl : runners.lookup id with
  | none =>
    rw [hl] at hr
    cases hr
  | some l =>
    rw [hl] at hr
    exact mem_flatMap.mpr ⟨(id, l), mem_of_lookup hl, hr⟩

/-- A pass leaves every runner with a job alone exactly when none of them is overdue: the provision
and the drain timeout do not ask about jobs. -/
theorem decide_spares_jobs_iff (s : Snapshot) :
    (∀ r ∈ s.runners.flatMap Prod.snd, hasJob s r = true →
      ∀ a ∈ s.decide.actions, a.kind ≠ .create → a.runnerID ≠ r.id) ↔
    ∀ p ∈ s.pools, ∀ r ∈ runnersOf s.runners p.id, hasJob s r = true →
      overdue (s.policy.forPool p) s.now r = false := by
  constructor
  · intro hall p hp r hr hj
    rw [Bool.eq_false_iff]
    intro ho
    obtain ⟨a, ha, hk, hid⟩ := decidePool_fails_overdue (passFor s false) hr ho
    have hne : a.kind ≠ .create := by
      rw [hk]
      exact ActionKind.noConfusion
    exact hall r (runnersOf_subset hr) hj a
      ((mem_decide_cleanUp hne).mpr (.inl ⟨p, hp, ha⟩)) hne hid
  · intro hall r hr hj a ha hne hid
    rcases (mem_decide_cleanUp hne).mp ha with ⟨p, hp, hp'⟩ | hc
    · obtain ⟨-, -, r', hr', hid', hrule⟩ := cleanUp_decidePool hp'
      -- the action names this very runner, since no two share an identifier
      have heq : r' = r := inj_on_of_nodup_map s.distinct.runnerIDs
        (runnersOf_subset hr') hr (hid'.symm.trans hid)
      subst heq
      rcases hrule with ⟨-, -, ho⟩ | ⟨-, hbusy, hstill⟩
      · have hno : overdue ((passFor s false).policy.forPool p) (passFor s false).now r' = false :=
          hall p hp r' hr' hj
        rw [hno] at ho
        cases ho
      · have hrun : runnersWithAJob s r'.id = false := hstill
        simp [hasJob, hbusy, hrun] at hj
    · exact hne (creates_kind s a hc)

def lateRows : Snapshot where
  now := 3 * hour
  pools := [{ id := "p1", name := "linux", enabled := true, maxRunners := 4 }]
  runners := [("p1", [{ id := "r1", hostID := "h1", state := .registering, createdAt := hour },
     { id := "r2", hostID := "h1", state := .draining, createdAt := hour,
       drainingSince := some hour }])]
  jobs := [{ id := "j1", state := .inProgress, runnerID := "r1", repo := "acme/widgets" },
    { id := "j2", state := .inProgress, runnerID := "r2", repo := "acme/widgets" }]
  policy := { provisionTimeout := 20 * minute, drainTimeout := 15 * minute }
  distinct := by constructor <;> decide

def jobEnded (s : Snapshot) (id : String) : Prop :=
  (∃ r ∈ s.runners.flatMap Prod.snd, r.id = id ∧ hasJob s r = true) ∧
    ∃ a ∈ s.decide.actions, a.kind = .fail ∧ a.runnerID = id

instance (s : Snapshot) (id : String) : Decidable (jobEnded s id) :=
  inferInstanceAs (Decidable (_ ∧ _))

/-- Both are failed, jobs and all. -/
theorem lateRows_jobs_ended : jobEnded lateRows "r1" ∧ jobEnded lateRows "r2" := by
  decide +kernel

end Zoomies.Scheduler
