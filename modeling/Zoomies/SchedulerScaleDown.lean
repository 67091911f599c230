import Zoomies.SchedulerOrder
import Zoomies.SchedulerCeiling

/-! The surplus goes, starting runners first, and what the queued jobs need stays. -/
namespace Zoomies.Scheduler
open Zoomies.Go Zoomies.Store List

variable (s : Snapshot) (p : Pool) (r : Runner)

def remainingOf : List Runner :=
  (reap (passFor s false) p (sortedRunners (runnersOf s.runners p.id))).2

def addedDrains : List Action :=
  (decidedPlan s p).actions.drop
    (reap (passFor s false) p (sortedRunners (runnersOf s.runners p.id))).1.length

def surplusOf : Int :=
  max 0 ((decidedPlan s p).current - max (decidedPlan s p).desired p.minRunners)

def readyOrStarting : Bool := r.state == .idle || starting r.state

def drainedBy : Prop :=
  ∃ a ∈ addedDrains s p, a.runnerID = r.id

instance (s : Snapshot) (p : Pool) (r : Runner) : Decidable (drainedBy s p r) :=
  inferInstanceAs (Decidable (∃ a ∈ addedDrains s p, a.runnerID = r.id))

def ClosestStay : Prop :=
  ∀ r' ∈ remainingOf s p, starting r'.state = true → runnersWithAJob s r'.id = false →
    ¬ drainedBy s p r' → r'.state = .registering ∨ r'.state = r.state ∧ r'.createdAt ≤ r.createdAt

instance : Std.TransCmp compareStarting := by
  unfold compareStarting
  infer_instance

theorem starting_order {r r' : Runner} (h : ordered compareStarting r r')
    (hp : r'.state = .provisioning) : r.state = .provisioning ∧ r'.createdAt ≤ r.createdAt := by
  unfold ordered compareStarting at h
  simp only [compareLex, compareOn, hp, bne_self_eq_false] at h
  by_cases hr : r.state = .provisioning
  · refine ⟨hr, ?_⟩
    have hstate : compare false false = Ordering.eq := rfl
    simp only [hr, bne_self_eq_false, hstate, Ordering.eq_then] at h
    by_contra hlt
    have hgt : compare (-r.createdAt) (-r'.createdAt) = .gt :=
      compare_gt_iff_gt.mpr (Int.neg_lt_neg (not_le.mp hlt))
    rw [hgt] at h
    cases h
  · have hne : (r.state != .provisioning) = true := bne_iff_ne.mpr hr
    rw [hne] at h
    cases h

theorem starting_cases {st : RunnerState} (h : starting st = true) :
    st = .provisioning ∨ st = .registering := by
  cases st <;> first | exact .inl rfl | exact .inr rfl | cases h

/-- A sorted list cut anywhere: what is kept comes after what is taken. -/
theorem ordered_of_take {α : Type} {R : α → α → Prop} {l : List α} (h : l.Pairwise R) {n : Nat}
    {a b : α} (ha : a ∈ l.take n) (hb : b ∈ l) (hn : b ∉ l.take n) : R a b := by
  rw [← take_append_drop n l] at h hb
  have hdrop := (mem_append.mp hb).resolve_left hn
  exact (pairwise_append.mp h).2.2 a ha b hdrop

section
variable (s : Snapshot) (p : Pool)

theorem remainingOf_ids_nodup : ((remainingOf s p).map Runner.id).Nodup := by
  have hsub : ((remainingOf s p).map Runner.id).Sublist
      ((sortedRunners (runnersOf s.runners p.id)).map Runner.id) := filter_sublist.map _
  apply hsub.nodup
  exact (sortStableFunc_perm.map Runner.id).nodup_iff.mpr runnersOf_ids_nodup

theorem countLive_split (l : List Runner) : countLive l =
    countState .busy l + countState .draining l + (l.countP readyOrStarting : Nat) := by
  induction l with
  | nil => rfl
  | cons r l ih =>
    simp only [countLive, countState, ← countP_eq_length_filter, countP_cons] at ih ⊢
    cases hs : r.state <;>
      simp [readyOrStarting, starting, RunnerState.live, RunnerState.terminal, hs] at ih ⊢ <;> omega

def cutDrains (pass : Pass) (remaining : List Runner) (n m : Nat) : List (Runner × String) :=
  ((unneededStarting pass remaining).take n).map (fun r =>
      (r, "queued demand disappeared before this runner finished starting")) ++
    ((drainable pass p remaining).take m).map fun r => (r, idleReason pass p r)

theorem scaleDown_cut {pass : Pass} {plan : PoolPlan} {remaining : List Runner} {live : Int} :
    ∃ n m, (scaleDown pass p plan remaining live).actions =
        plan.actions ++ drains p (cutDrains p pass remaining n m) ∧
      ((cutDrains p pass remaining n m).length : Int) ≤ max 0 (live - max plan.desired p.minRunners) := by
  unfold scaleDown
  generalize hsurplus : (live - max plan.desired p.minRunners).toNat = surplus
  refine ⟨surplus, surplus - ((unneededStarting pass remaining).take surplus).length, ?_, ?_⟩
  · simp only [cutDrains, drains, map_append, map_map, append_assoc]
    rfl
  · simp only [cutDrains, length_append, length_map, length_take]
    omega

theorem addedDrains_cut (he : p.enabled = true) : ∃ n m,
    addedDrains s p = drains p (cutDrains p (passFor s false) (remainingOf s p) n m) ∧
      ((addedDrains s p).length : Int) ≤ surplusOf s p ∧
      (addedDrains s p ≠ [] → (decidedPlan s p).desired < (decidedPlan s p).current) := by
  unfold addedDrains surplusOf decidedPlan decidePool remainingOf
  dsimp only
  rw [he, Bool.not_true, if_neg Bool.false_ne_true]
  split
  · rename_i hlt
    obtain ⟨n, m, hactions, hlen⟩ := scaleDown_cut p
    refine ⟨n, m, ?_, ?_, fun _ => hlt⟩
    · rw [hactions, drop_left]
    · rw [hactions, drop_left, drains, length_map]
      exact hlen
  refine ⟨0, 0, ?_, ?_, fun hne => ?_⟩
  · rw [drop_length]
    rfl
  · rw [drop_length]
    exact le_max_left _ _
  · rw [drop_length] at hne
    exact absurd rfl hne

theorem closestStay_of_taken {n m : Nat}
    (hcut : addedDrains s p = drains p (cutDrains p (passFor s false) (remainingOf s p) n m))
    {r : Runner} (hr : r ∈ (unneededStarting (passFor s false) (remainingOf s p)).take n) :
    ClosestStay s p r := by
  intro r' hr' hstarting hjob hstays
  have hmem : r' ∈ unneededStarting (passFor s false) (remainingOf s p) := by
    rw [unneededStarting, mem_sortStableFunc, mem_filter, Bool.and_eq_true, Bool.not_eq_true']
    exact ⟨hr', hstarting, hjob⟩
  have hcutOff : r' ∉ (unneededStarting (passFor s false) (remainingOf s p)).take n := by
    intro htaken
    have hdrain : _ ∈ drains p (cutDrains p (passFor s false) (remainingOf s p) n m) :=
      mem_map_of_mem (mem_append_left _ (mem_map_of_mem htaken))
    rw [← hcut] at hdrain
    exact hstays ⟨_, hdrain, rfl⟩
  have horder := ordered_of_take sortStableFunc_pairwise hr hmem hcutOff
  rcases starting_cases hstarting with hprov | hreg
  · obtain ⟨hstate, hage⟩ := starting_order horder hprov
    exact .inr ⟨hprov.trans hstate.symm, hage⟩
  · exact .inl hreg

def MayGo (r : Runner) : Prop :=
  r.state = .idle ∧ p.idleTimeout ≤ idleFor r s.now ∨ starting r.state = true ∧ ClosestStay s p r

theorem addedDrains_mayGo (he : p.enabled = true) {a : Action} (ha : a ∈ addedDrains s p) :
    a.kind = .drain ∧ a.poolID = p.id ∧ ∃ r ∈ remainingOf s p, a.runnerID = r.id ∧ MayGo s p r := by
  obtain ⟨n, m, hcut, -⟩ := addedDrains_cut s p he
  rw [hcut] at ha
  obtain ⟨⟨r, why⟩, hr, rfl⟩ := mem_map.mp ha
  refine ⟨rfl, rfl, r, ?_⟩
  rcases mem_append.mp hr with hstart | hidle
  · obtain ⟨r', htaken, heq⟩ := mem_map.mp hstart
    cases heq
    have hmem := mem_of_mem_take htaken
    rw [unneededStarting, mem_sortStableFunc, mem_filter, Bool.and_eq_true] at hmem
    exact ⟨hmem.1, rfl, .inr ⟨hmem.2.1, closestStay_of_taken s p hcut htaken⟩⟩
  obtain ⟨r', htaken, heq⟩ := mem_map.mp hidle
  cases heq
  have hmem := mem_of_mem_take htaken
  rw [drainable, mem_sortStableFunc, mem_filter, Bool.and_eq_true, Bool.and_eq_true,
    beq_iff_eq, decide_eq_true_iff] at hmem
  exact ⟨hmem.1, rfl, .inl ⟨hmem.2.1.1, hmem.2.1.2⟩⟩

theorem createsFor_eq_zero (hp : p ∈ s.pools)
    (h : (decidedPlan s p).desired < (decidedPlan s p).current) : createsFor s p = 0 := by
  have hwithin := (tallied_finalTick s).within p hp
  rw [finalTick_current hp, finalTick_desired hp, ← createsFor_eq hp] at hwithin
  have hnonneg : 0 ≤ createsFor s p := Int.natCast_nonneg _
  omega

def leftReady : Nat :=
  (remainingOf s p).countP fun r => readyOrStarting r && !decide (drainedBy s p r)

theorem ready_le_left : (remainingOf s p).countP readyOrStarting ≤
    leftReady s p + (addedDrains s p).length := by
  have hsplit : ∀ l : List Runner, l.countP readyOrStarting ≤
      l.countP (fun r => readyOrStarting r && !decide (drainedBy s p r)) +
        (l.filter fun r => decide (drainedBy s p r)).length := by
    intro l
    induction l with
    | nil => exact Nat.zero_le _
    | cons r l ih =>
      simp only [countP_cons, filter_cons]
      cases readyOrStarting r <;> cases decide (drainedBy s p r) <;> simp <;> omega
  have hdrained : ((remainingOf s p).filter fun r => decide (drainedBy s p r)).length ≤
      (addedDrains s p).length := by
    rw [← length_map Runner.id, ← (addedDrains s p).length_map Action.runnerID]
    apply List.Subperm.length_le
    apply List.Nodup.subperm ((filter_sublist.map _).nodup (remainingOf_ids_nodup s p))
    intro id hid
    obtain ⟨r, hr, rfl⟩ := mem_map.mp hid
    obtain ⟨a, ha, heq⟩ := of_decide_eq_true (mem_filter.mp hr).2
    exact mem_map.mpr ⟨a, ha, heq⟩
  exact (hsplit _).trans (Nat.add_le_add_left hdrained _)

theorem left_enough (he : p.enabled = true)
    (h : (decidedPlan s p).desired < (decidedPlan s p).current) :
    (decidedPlan s p).desired - countState .busy (remainingOf s p) -
      countState .draining (remainingOf s p) ≤ leftReady s p := by
  obtain ⟨-, -, -, hwithin, -⟩ := addedDrains_cut s p he
  have hcurrent : (decidedPlan s p).current = countLive (remainingOf s p) :=
    decidePool_current
  have hlive := countLive_split (remainingOf s p)
  have hready := ready_le_left s p
  unfold surplusOf at hwithin
  omega

/-- No pool is shrunk below what its jobs and its minimum need, nor shrunk and grown in one pass. -/
theorem scaleDown_spares (hp : p ∈ s.pools) (he : p.enabled = true) :
    (∀ a ∈ addedDrains s p, a.kind = .drain ∧ a.poolID = p.id ∧
      ∃ r ∈ remainingOf s p, a.runnerID = r.id ∧ MayGo s p r) ∧
    ((addedDrains s p).length : Int) ≤ surplusOf s p ∧ (addedDrains s p ≠ [] → createsFor s p = 0) ∧
    ((decidedPlan s p).desired < (decidedPlan s p).current →
      min (decidedPlan s p).eligible ((decidedPlan s p).desired -
        countState .busy (remainingOf s p) - countState .draining (remainingOf s p)) ≤
          leftReady s p) := by
  obtain ⟨n, m, hcut, hwithin, hbelow⟩ := addedDrains_cut s p he
  refine ⟨fun a ha => addedDrains_mayGo s p he ha, hwithin, ?_, ?_⟩
  · intro hne
    exact createsFor_eq_zero s p hp (hbelow hne)
  · intro hlt
    exact (min_le_right _ _).trans (left_enough s p he hlt)

end

def cancelledBurst : Snapshot where
  now := hour
  pools := [{ id := "p1", name := "linux", enabled := true, minRunners := 2, maxRunners := 4 }]
  runners := [("p1", [{ id := "r1", hostID := "h1", state := .provisioning, createdAt := hour - 2 },
     { id := "r2", hostID := "h1", state := .provisioning, createdAt := hour - 1 },
     { id := "r3", hostID := "h1", state := .idle, createdAt := 0 }])]
  distinct := by constructor <;> decide

theorem cancelledBurst_spares : ∃ p ∈ cancelledBurst.pools,
    (addedDrains cancelledBurst p).map Action.runnerID = ["r2"] ∧
    createsFor cancelledBurst p = 0 ∧ leftReady cancelledBurst p = 2 := by
  refine ⟨_, mem_singleton_self _, by decide +kernel, ?_, by decide +kernel⟩
  exact (scaleDown_spares cancelledBurst _ (mem_singleton_self _) rfl).2.2.1 (by decide +kernel)

end Zoomies.Scheduler
