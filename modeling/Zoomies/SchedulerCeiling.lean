import Zoomies.SchedulerReap
import Mathlib.Algebra.BigOperators.Ring.Finset

/-! No pool passes its maximum and the fleet not its ceiling, apart from runners being replaced. -/
namespace Zoomies.Scheduler
open Zoomies.Go Zoomies.Store List

structure Tallied (s : Snapshot) (t : Tick) : Prop where
  perPool : ∀ p ∈ s.pools,
    creates (t.plans p.id).actions = (t.creates.filter fun a => a.poolID = p.id).length
  within : ∀ p ∈ s.pools, (t.plans p.id).current + creates (t.plans p.id).actions ≤
    max (t.plans p.id).current (t.plans p.id).desired
  spent : t.budget + t.creates.length = (startingTick s).budget
  budget : 0 ≤ t.budget

theorem creates_append (l m : List Action) : creates (l ++ m) = creates l + creates m := by
  simp only [creates, filter_append, length_append]
  omega

theorem creates_eq_zero {l : List Action} (h : ∀ a ∈ l, a.kind ≠ .create) : creates l = 0 := by
  have hnil : l.filter (fun a => a.kind == .create) = [] := by
    rw [filter_eq_nil_iff]
    intro a ha
    simpa using h a ha
  rw [creates, hnil]
  rfl

theorem creates_single {a : Action} (h : a.kind = .create) : creates [a] = 1 := by
  simp [creates, h]

theorem current_of_base {plan plan' : PoolPlan} (h : plan.base = plan'.base) :
    plan.current = plan'.current := by
  have hc : plan.base.current = plan'.base.current := by rw [h]
  exact hc

theorem desired_of_base {plan plan' : PoolPlan} (h : plan.base = plan'.base) :
    plan.desired = plan'.desired := by
  have hd : plan.base.desired = plan'.base.desired := by rw [h]
  exact hd

theorem creates_decidedPlan (s : Snapshot) (p : Pool) : creates (decidedPlan s p).actions = 0 := by
  apply creates_eq_zero
  intro a ha
  exact (cleanUp_decidePool ha).kind

theorem tallied_startingTick {s : Snapshot} : Tallied s (startingTick s) := by
  refine ⟨?_, ?_, ?_, budgetFor_nonneg⟩
  · intro p hp
    rw [startingTick_plan hp, creates_decidedPlan]
    rfl
  · intro p hp
    rw [startingTick_plan hp, creates_decidedPlan, add_zero]
    exact le_max_left _ _
  · exact add_zero _

variable {p : Pool}

variable {t : Tick} {pass : Pass} {runners : List Runner} {queued : List Job}

theorem desired_of_wants (h : wants t p = true) :
    (t.plans p.id).current + creates (t.plans p.id).actions < (t.plans p.id).desired := by
  simp only [wants, short, Bool.and_eq_true, decide_eq_true_eq] at h
  exact h.1.1.2

variable {s : Snapshot}

theorem tallied_granted {t' : Tick}
    (ht : Tallied s t) (hw : wants t p = true) (hb : 0 < t.budget)
    (hg : Granted pass p runners queued t t') : Tallied s t' := by
  obtain ⟨pl, hs', act, -, -, hcreates, hkind, hpool, -, -, hacts⟩ := hg.placed
  have hlen : t'.creates.length = t.creates.length + 1 := by
    rw [hcreates, length_append, length_singleton]
  refine ⟨?_, ?_, ?_, ?_⟩
  -- only the tally of the pool that got the runner moves, and by one
  · intro q hq
    by_cases hqp : q.id = p.id
    · have hone : [act].filter (fun a => a.poolID = p.id) = [act] := by simp [hpool]
      have hold := ht.perPool q hq
      rw [hqp] at hold ⊢
      rw [hacts, creates_append, creates_single hkind, hold, hcreates, filter_append,
        hone, length_append]
      rfl
    have hnone : [act].filter (fun a => a.poolID = q.id) = [] := by
      simp [hpool, Ne.symm hqp]
    rw [hg.others q.id hqp, ht.perPool q hq, hcreates, filter_append, hnone, append_nil]
  · intro q hq
    by_cases hqp : q.id = p.id
    -- it was below its size before the grant, so it is at most at it now
    · have hshort := desired_of_wants hw
      rw [hqp, hacts, creates_append, creates_single hkind,
        current_of_base hg.base, desired_of_base hg.base]
      omega
    · rw [hg.others q.id hqp]
      exact ht.within q hq
  · have hspent := ht.spent
    rw [hg.budget, hlen]
    omega
  · rw [hg.budget]
    omega

theorem tallied_of_same (t' : Tick) (ht : Tallied s t)
    (hc : t'.creates = t.creates) (hb : t'.budget = t.budget)
    (hbase : ∀ id, (t'.plans id).base = (t.plans id).base)
    (hacts : ∀ id, (t'.plans id).actions = (t.plans id).actions) : Tallied s t' := by
  refine ⟨?_, ?_, ?_, ?_⟩
  · intro p hp
    rw [hacts, hc]
    exact ht.perPool p hp
  · intro p hp
    rw [hacts, current_of_base (hbase p.id), desired_of_base (hbase p.id)]
    exact ht.within p hp
  · rw [hb, hc]
    exact ht.spent
  · rw [hb]
    exact ht.budget

theorem tallied_step (t t' : Tick) (ht : Tallied s t)
    (hstep : Step pass s.runners (demandOf s).demand (sortedPools s.pools) t t') :
    Tallied s t' := by
  have hbase := (plansKept_step hstep).base
  cases hstep with
  | grant p hp hw hb =>
    rcases grant_cases pass p (runnersOf s.runners p.id) ((demandOf s).demand p.id) t with
      ⟨-, hg⟩ | ⟨-, hr⟩
    · exact tallied_granted ht hw hb hg
    apply tallied_of_same _ ht hr.creates hr.budget hbase
    intro id
    by_cases hid : id = p.id
    · rw [hid]
      exact hr.actions
    · exact congrArg PoolPlan.actions (hr.others id hid)
  | note p hp current why =>
    apply tallied_of_same (t.note p current why) ht rfl rfl hbase
    intro id
    by_cases hid : id = p.id
    · rw [hid, Tick.note, Tick.setPlan_self]
    · rw [Tick.note, Tick.setPlan_ne hid]

theorem tallied_finalTick (s : Snapshot) : Tallied s (finalTick s) :=
  Reach.keeps (Tallied s) tallied_step _ _ (finalTick_reach s)
    tallied_startingTick

def endedBy (s : Snapshot) (r : Runner) : Bool :=
  s.decide.actions.any fun a => (a.kind == .fail || a.kind == .remove) && a.runnerID == r.id

def retiredBy (s : Snapshot) (p : Pool) (r : Runner) : Bool :=
  (retirementOf (passFor s false) p r).isSome

def createsFor (s : Snapshot) (p : Pool) : Int :=
  (s.decide.actions.filter fun a => a.kind = .create ∧ a.poolID = p.id).length

def liveAfter (s : Snapshot) (p : Pool) : Int :=
  countLive ((runnersOf s.runners p.id).filter fun r => !endedBy s r) + createsFor s p

def keptAfter (s : Snapshot) (p : Pool) : Int :=
  countLive ((runnersOf s.runners p.id).filter fun r => !endedBy s r && !retiredBy s p r) +
    createsFor s p

theorem countLive_perm {l m : List Runner} (h : l.Perm m) : countLive l = countLive m := by
  rw [countLive, countLive, (h.filter _).length_eq]

theorem countLive_filter_le {l : List Runner} (f g : Runner → Bool)
    (h : ∀ r ∈ l, r.state.live = true → f r = true → g r = true) :
    countLive (l.filter f) ≤ countLive (l.filter g) := by
  have himp : ∀ r ∈ l, (r.state.live && f r) = true → (r.state.live && g r) = true := by
    intro r hr hc
    rw [Bool.and_eq_true] at hc ⊢
    exact ⟨hc.1, h r hr hc.1 hc.2⟩
  have hle := countP_mono_left himp
  simp only [countLive, filter_filter, ← countP_eq_length_filter]
  exact_mod_cast hle

theorem decidePool_current : (decidePool pass p runners queued).current =
      countLive ((sortedRunners runners).filter (kept pass p)) := by
  unfold decidePool
  dsimp only
  split
  · rfl
  · split <;> rfl

theorem clamp_le {v lo hi : Int} : clamp v lo hi ≤ hi := by
  unfold clamp
  split
  · exact le_rfl
  · exact min_le_right _ _

theorem decidePool_desired_le : (decidePool pass p runners queued).desired ≤ max 0 p.maxRunners := by
  unfold decidePool
  dsimp only
  split
  · exact le_max_left _ _
  split
  · exact clamp_le.trans (le_max_right _ _)
  · exact clamp_le.trans (le_max_right _ _)

theorem countLive_nonneg (l : List Runner) : 0 ≤ countLive l := Int.natCast_nonneg _

theorem createsFor_eq (hp : p ∈ s.pools) :
    createsFor s p = creates ((finalTick s).plans p.id).actions := by
  rw [(tallied_finalTick s).perPool p hp, createsFor, filter_decide_creates s fun a => a.poolID = p.id]

theorem kept_of_spared (hp : p ∈ s.pools) {r : Runner} (hr : r ∈ runnersOf s.runners p.id)
    (hlive : r.state.live = true) (he : endedBy s r = false) (ht : retiredBy s p r = false) :
    kept (passFor s false) p r = true := by
  have hc := reapVerdict_cases (passFor s false) p r
  unfold retiredBy retirementOf at ht
  unfold kept
  cases hv : reapVerdict (passFor s false) p r with
  -- rows of runners that are no longer live are not among those counted
  | gone =>
    rw [hv] at hc
    rw [hc] at hlive
    cases hlive
  | remove reason =>
    rw [hv] at hc
    rw [hc.1] at hlive
    cases hlive
  -- a failed runner shows up as ended in the plan itself
  | fail reason =>
    rw [hv] at hc
    obtain ⟨a, ha, hk, hid⟩ := decidePool_fails_overdue (passFor s false) hr hc.2
    have hne : a.kind ≠ .create := by
      rw [hk]
      exact ActionKind.noConfusion
    have hmem := (mem_decide_cleanUp hne).mpr (.inl ⟨p, hp, ha⟩)
    have hended : endedBy s r = true := by
      rw [endedBy, any_eq_true]
      exact ⟨a, hmem, by simp [hk, hid]⟩
    rw [he] at hended
    cases hended
  | retire reason =>
    rw [hv] at ht
    cases ht
  | keep => rfl

theorem keptAfter_le (hp : p ∈ s.pools) :
    keptAfter s p ≤ (decidedPlan s p).current + creates ((finalTick s).plans p.id).actions := by
  have hcount : countLive ((runnersOf s.runners p.id).filter fun r =>
      !endedBy s r && !retiredBy s p r) ≤ (decidedPlan s p).current := by
    calc countLive ((runnersOf s.runners p.id).filter fun r => !endedBy s r && !retiredBy s p r)
        ≤ countLive ((runnersOf s.runners p.id).filter (kept (passFor s false) p)) := by
          apply countLive_filter_le
          intro r hr hlive hspared
          rw [Bool.and_eq_true, Bool.not_eq_true', Bool.not_eq_true'] at hspared
          exact kept_of_spared hp hr hlive hspared.1 hspared.2
      _ = (decidedPlan s p).current := by
          rw [decidedPlan, decidePool_current]
          exact countLive_perm (sortStableFunc_perm.filter _).symm
  rw [keptAfter, createsFor_eq hp]
  omega

theorem current_le_live (s : Snapshot) (p : Pool) :
    (decidedPlan s p).current ≤ countLive (runnersOf s.runners p.id) := by
  have hall : (runnersOf s.runners p.id).filter (fun _ => true) = runnersOf s.runners p.id :=
    filter_true _
  calc (decidedPlan s p).current
      = countLive ((runnersOf s.runners p.id).filter (kept (passFor s false) p)) := by
        rw [decidedPlan, decidePool_current]
        exact countLive_perm (sortStableFunc_perm.filter _)
    _ ≤ countLive ((runnersOf s.runners p.id).filter fun _ => true) := by
        apply countLive_filter_le
        intro r _ _ _
        rfl
    _ = countLive (runnersOf s.runners p.id) := by rw [hall]

theorem finalTick_current (hp : p ∈ s.pools) :
    ((finalTick s).plans p.id).current = (decidedPlan s p).current := by
  rw [← startingTick_plan hp]
  exact current_of_base ((plansKept_finalTick s).base p.id)

theorem finalTick_desired (hp : p ∈ s.pools) :
    ((finalTick s).plans p.id).desired = (decidedPlan s p).desired := by
  rw [← startingTick_plan hp]
  exact desired_of_base ((plansKept_finalTick s).base p.id)

theorem keptAfter_le_pool (hp : p ∈ s.pools) :
    keptAfter s p ≤ max (countLive (runnersOf s.runners p.id)) p.maxRunners := by
  have hkept := keptAfter_le hp
  have hwithin := (tallied_finalTick s).within p hp
  rw [finalTick_current hp, finalTick_desired hp] at hwithin
  have hlive := current_le_live s p
  have hdesired : (decidedPlan s p).desired ≤ max 0 p.maxRunners := decidePool_desired_le
  have hnonneg := countLive_nonneg (runnersOf s.runners p.id)
  omega

theorem sum_createsFor_le (s : Snapshot) :
    (s.pools.map (createsFor s)).sum ≤ (finalTick s).creates.length := by
  have hcount := sum_filter_length_le Action.poolID (finalTick s).creates s.distinct.poolIDs
  have heq : (s.pools.map (createsFor s)).sum = (((s.pools.map Pool.id).map fun id =>
        ((finalTick s).creates.filter fun a => a.poolID = id).length).sum : Nat) := by
    rw [Nat.cast_list_sum, map_map, map_map]
    congr 1
    apply map_congr_left
    intro p _
    rw [createsFor, filter_decide_creates s fun a => a.poolID = p.id]
    rfl
  rw [heq]
  exact_mod_cast hcount

theorem liveAfterReap_eq (s : Snapshot) :
    liveAfterReap s = (s.pools.map fun p => (decidedPlan s p).current).sum := by
  rw [liveAfterReap, decidedOf, decidedPlans, map_map]
  exact (sortStableFunc_perm.map _).sum_eq

theorem creates_length_le (s : Snapshot) :
    ((finalTick s).creates.length : Int) ≤ budgetFor s.policy (liveAfterReap s) := by
  have hspent := (tallied_finalTick s).spent
  have hleft := (tallied_finalTick s).budget
  have hstart : (startingTick s).budget = budgetFor s.policy (liveAfterReap s) := rfl
  omega

theorem budgetFor_le_ceiling {policy : Policy} (live : Int) (h : 0 < policy.maxRunners) :
    budgetFor policy live ≤ max (policy.maxRunners - live) 0 := by
  unfold budgetFor
  rw [if_pos h]
  exact min_le_right _ _

theorem keptAfter_sum_le (h : 0 < s.policy.maxRunners) : (s.pools.map (keptAfter s)).sum ≤
      max (s.pools.map fun p => countLive (runnersOf s.runners p.id)).sum s.policy.maxRunners := by
  have hkept : (s.pools.map (keptAfter s)).sum ≤
      (s.pools.map fun p => (decidedPlan s p).current + createsFor s p).sum := by
    apply sum_le_sum
    intro p hp
    rw [createsFor_eq hp]
    exact keptAfter_le hp
  have hsplit : (s.pools.map fun p => (decidedPlan s p).current + createsFor s p).sum =
      liveAfterReap s + (s.pools.map (createsFor s)).sum := by
    rw [liveAfterReap_eq, sum_map_add]
  have hlive : liveAfterReap s ≤
      (s.pools.map fun p => countLive (runnersOf s.runners p.id)).sum := by
    rw [liveAfterReap_eq]
    apply sum_le_sum
    intro p _
    exact current_le_live s p
  -- the creates of all pools come out of one budget, and the ceiling bounds that
  have hcreates := sum_createsFor_le s
  have hbudget := creates_length_le s
  have hceiling := budgetFor_le_ceiling (liveAfterReap s) h
  omega

def NoneReplaced (s : Snapshot) (p : Pool) : Prop :=
  ∀ r ∈ runnersOf s.runners p.id, r.state.live = true → retiredBy s p r = false

/-- Where no runner is being replaced, every runner that stays live counts. -/
theorem liveAfter_le_keptAfter (h : NoneReplaced s p) : liveAfter s p ≤ keptAfter s p := by
  have hcount : countLive ((runnersOf s.runners p.id).filter fun r => !endedBy s r) ≤
      countLive ((runnersOf s.runners p.id).filter fun r => !endedBy s r && !retiredBy s p r) := by
    apply countLive_filter_le
    intro r hr hlive hended
    rw [hended, h r hr hlive]
    rfl
  unfold liveAfter keptAfter
  omega

/-- Carrying out a plan takes neither a pool nor the fleet over its maximum, runners being replaced
apart; with none being replaced that is every live runner. -/
theorem decide_keeps_maximum (s : Snapshot) : (∀ p ∈ s.pools,
      keptAfter s p ≤ max (countLive (runnersOf s.runners p.id)) p.maxRunners) ∧
    (0 < s.policy.maxRunners → (s.pools.map (keptAfter s)).sum ≤
      max (s.pools.map fun p => countLive (runnersOf s.runners p.id)).sum s.policy.maxRunners) ∧
    (∀ p ∈ s.pools, NoneReplaced s p →
      liveAfter s p ≤ max (countLive (runnersOf s.runners p.id)) p.maxRunners) ∧
    (0 < s.policy.maxRunners → (∀ p ∈ s.pools, NoneReplaced s p) → (s.pools.map (liveAfter s)).sum ≤
        max (s.pools.map fun p => countLive (runnersOf s.runners p.id)).sum
          s.policy.maxRunners) := by
  refine ⟨fun p hp => keptAfter_le_pool hp, keptAfter_sum_le, ?_, ?_⟩
  · intro p hp hnone
    exact (liveAfter_le_keptAfter hnone).trans (keptAfter_le_pool hp)
  · intro h hnone
    have hlive : (s.pools.map (liveAfter s)).sum ≤ (s.pools.map (keptAfter s)).sum := by
      apply sum_le_sum
      intro p hp
      exact liveAfter_le_keptAfter (hnone p hp)
    exact hlive.trans (keptAfter_sum_le h)

def newImage : Snapshot where
  now := 3 * hour
  pools := [{ id := "p1", name := "linux", enabled := true, minRunners := 1, maxRunners := 1,
              image := "runner:2" }]
  runners := [("p1",
    [{ id := "r1", hostID := "h1", state := .idle, createdAt := hour, image := "runner:1" }])]
  hosts := [{ id := "h1", capacity := 4, backends := ["docker"], activeRunners := 1,
              lastHeartbeat := 3 * hour }]
  policy := { maxRunners := 1 }
  distinct := by constructor <;> decide

/-- The runner is drained and its replacement created in the same pass. -/
theorem newImage_passes_maximum : ∃ p ∈ newImage.pools,
      liveAfter newImage p > max (countLive (runnersOf newImage.runners p.id)) p.maxRunners ∧
      (newImage.pools.map (liveAfter newImage)).sum >
        max (newImage.pools.map fun p => countLive (runnersOf newImage.runners p.id)).sum
          newImage.policy.maxRunners := by
  decide +kernel

end Zoomies.Scheduler
