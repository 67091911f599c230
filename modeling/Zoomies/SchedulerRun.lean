import Zoomies.SchedulerDecide
import Zoomies.SchedulerPlacementFacts
import Mathlib.Data.List.SplitBy

/-! What a pass does while it hands out creates, as a run of small steps. -/
namespace Zoomies.Scheduler
open Zoomies.Go Zoomies.Store Relation List

def PoolPlan.base (plan : PoolPlan) : PoolPlan :=
  { plan with
    reason := ""
    blocked := ""
    blockedFix := ""
    blockedAtCapacity := false
    blockedNoEligibleHost := false
    blockedAlternatives := []
    history := ""
    historyUnfit := ""
    actions := [] }

def historyNeed (pass : Pass) (hs : HostSet) (p : Pool) (queued : List Job) : Option Requirement :=
  enforced pass (needFor pass hs p {} queued)

theorem enforced_needFor (pass : Pass) (hs : HostSet) (p : Pool) (plan : PoolPlan)
    (queued : List Job) :
    enforced pass (needFor pass hs p plan queued) = historyNeed pass hs p queued := by
  simp only [historyNeed, enforced, needFor]
  split <;> rfl

def HostSet.withNeed (hs : HostSet) (need : Option Requirement) : HostSet := { hs with need := need }

structure Granted (pass : Pass) (p : Pool) (runners : List Runner) (queued : List Job)
    (t t' : Tick) : Prop where
  placed : ∃ pl hs' act, (t.hosts.withNeed (historyNeed pass t.hosts p queued)).placeOne p
        (recentBusyHosts runners pass.now) = some (pl, hs') ∧
      t'.hosts = hs'.withNeed none ∧ t'.creates = t.creates ++ [act] ∧
      act.kind = .create ∧ act.poolID = p.id ∧ act.hostID = pl.hostID ∧ act.size = pl.size ∧
      (t'.plans p.id).actions = (t.plans p.id).actions ++ [act]
  budget : t'.budget = t.budget - 1
  blocked : (t'.plans p.id).blocked = (t.plans p.id).blocked
  noEligibleHost : (t'.plans p.id).blockedNoEligibleHost = (t.plans p.id).blockedNoEligibleHost
  base : (t'.plans p.id).base = (t.plans p.id).base
  others : ∀ id, id ≠ p.id → t'.plans id = t.plans id

structure Refused (pass : Pass) (p : Pool) (runners : List Runner) (queued : List Job)
    (t t' : Tick) : Prop where
  refused : (t.hosts.withNeed (historyNeed pass t.hosts p queued)).placeOne p
    (recentBusyHosts runners pass.now) = none
  hosts : t'.hosts = t.hosts
  budget : t'.budget = t.budget
  creates : t'.creates = t.creates
  actions : (t'.plans p.id).actions = (t.plans p.id).actions
  base : (t'.plans p.id).base = (t.plans p.id).base
  others : ∀ id, id ≠ p.id → t'.plans id = t.plans id
  words : (∃ need : Need, need.heldOff ≠ [] ∧ need.heldOff = t.hosts.heldOff p need.requirement ∧
      (t'.plans p.id).blocked = t.hosts.sortedPhrases need.heldOff ∧
      (t'.plans p.id).blockedNoEligibleHost = (t.plans p.id).blockedNoEligibleHost) ∨
    ((t'.plans p.id).blocked = (t.hosts.why p).what ∧
      (t'.plans p.id).blockedNoEligibleHost = (t.hosts.why p).noEligibleHost)

@[simp] theorem Tick.setPlan_self (t : Tick) (id : String) (plan : PoolPlan) :
    (t.setPlan id plan).plans id = plan := Function.update_self _ _ _

theorem Tick.setPlan_ne {t : Tick} {id id' : String} {plan : PoolPlan} (h : id' ≠ id) :
    (t.setPlan id plan).plans id' = t.plans id' := Function.update_of_ne h _ _

theorem placeAvoiding_one (hs : HostSet) (p : Pool) (avoid : String → Bool) :
    hs.placeAvoiding p 1 avoid =
      match hs.placeOne p avoid with
      | none => ([], hs)
      | some (pl, hs') => ([pl], hs') := by
  cases h : hs.placeOne p avoid with
  | none | some pl => simp only [HostSet.placeAvoiding, h]

variable {p : Pool}

theorem needFor_heldOff {pass : Pass} {hs : HostSet} {plan : PoolPlan} {queued : List Job}
    (h : (needFor pass hs p plan queued).heldOff ≠ []) : (needFor pass hs p plan queued).heldOff =
      hs.heldOff p (needFor pass hs p plan queued).requirement := by
  unfold needFor at h ⊢
  split
  · rename_i hoff
    rw [if_pos hoff] at h
    exact absurd rfl h
  rename_i hoff
  rw [if_neg hoff] at h
  dsimp only at h ⊢
  split
  · rfl
  rename_i hk
  rw [if_neg hk] at h
  exact absurd rfl h

/-- A runner is granted, or only the words of the plan change. -/
theorem grant_cases (pass : Pass) (p : Pool) (runners : List Runner) (queued : List Job)
    (t : Tick) : ((grant pass p runners queued t).1 = true ∧
        Granted pass p runners queued t (grant pass p runners queued t).2) ∨
      ((grant pass p runners queued t).1 = false ∧
        Refused pass p runners queued t (grant pass p runners queued t).2) := by
  have hneed := enforced_needFor pass t.hosts p (t.plans p.id) queued
  unfold grant
  dsimp only
  rw [placeAvoiding_one]
  cases hp : HostSet.placeOne { t.hosts with
      need := enforced pass (needFor pass t.hosts p (t.plans p.id) queued) } p
      (recentBusyHosts runners pass.now) with
  | none =>
    right
    rw [hneed] at hp
    dsimp only
    -- refused: the words say either which hosts were held off, or why none could
    split
    · rename_i hheld
      rw [Bool.and_eq_true, Bool.not_eq_true', isEmpty_eq_false_iff] at hheld
      refine ⟨rfl, hp, rfl, rfl, rfl, ?_, ?_, fun id hid => Tick.setPlan_ne hid, .inl ?_⟩
      · simp [holdPlan]
      · simp [holdPlan, PoolPlan.base]
      refine ⟨_, hheld.2, needFor_heldOff hheld.2, ?_, ?_⟩
      · simp [holdPlan]
      · simp [holdPlan]
    · refine ⟨rfl, hp, rfl, rfl, rfl, ?_, ?_, fun id hid => Tick.setPlan_ne hid, .inr ?_⟩
      · simp [blockPlan]
      · simp [blockPlan, PoolPlan.base]
      · simp [blockPlan]
  | some r =>
    left
    obtain ⟨pl, hs'⟩ := r
    rw [hneed] at hp
    refine ⟨rfl, ⟨pl, hs', _, hp, rfl, rfl, ?_, ?_, ?_, ?_, ?_⟩, rfl, ?_, ?_, ?_,
      fun id hid => Tick.setPlan_ne hid⟩
    all_goals simp only [Tick.setPlan_self, createPlan, PoolPlan.base]

section
variable (pass : Pass) (runners : RunnerTable) (demand : String → List Job) (pools : List Pool)

inductive Step : Tick → Tick → Prop
  | grant (t : Tick) (p : Pool) (hp : p ∈ pools) (hw : wants t p = true) (hb : 0 < t.budget) :
    Step t (grantTo pass runners demand p t).2
  | note (t : Tick) (p : Pool) (hp : p ∈ pools) (current : Int) (why : String) :
    Step t (t.note p current why)

abbrev Reach : Tick → Tick → Prop := ReflTransGen (Step pass runners demand pools)

variable {pass runners demand pools}

theorem Reach.keeps (inv : Tick → Prop)
    (hstep : ∀ t t', inv t → Step pass runners demand pools t t' → inv t') (t t' : Tick)
    (hrun : Reach pass runners demand pools t t') (hi : inv t) : inv t' := by
  induction hrun with
  | refl => exact hi
  | tail _ hlast ih => exact hstep _ _ ih hlast

variable {t : Tick}

theorem step_words (hd : (pools.map Pool.id).Nodup) (hp : p ∈ pools) {t' : Tick}
    (hs : Step pass runners demand pools t t') :
    Refused pass p (runnersOf runners p.id) (demand p.id) t t' ∨
      (t'.plans p.id).blocked = (t.plans p.id).blocked ∧
        (t'.plans p.id).blockedNoEligibleHost = (t.plans p.id).blockedNoEligibleHost := by
  cases hs with
  | note q hq current why =>
    by_cases hid : p.id = q.id
    · rw [Tick.note, hid, Tick.setPlan_self]
      exact .inr ⟨rfl, rfl⟩
    · rw [Tick.note, Tick.setPlan_ne hid]
      exact .inr ⟨rfl, rfl⟩
  | grant q hq hw hb =>
    have hcases := grant_cases pass q (runnersOf runners q.id) (demand q.id) t
    by_cases hid : p.id = q.id
    · have hpq : p = q := inj_on_of_nodup_map hd hp hq hid
      subst hpq
      rcases hcases with ⟨-, hg⟩ | ⟨-, hr⟩
      · exact .inr ⟨hg.blocked, hg.noEligibleHost⟩
      · exact .inl hr
    refine .inr ?_
    rcases hcases with ⟨-, hg⟩ | ⟨-, hr⟩
    · rw [grantTo, hg.others p.id hid]
      exact ⟨rfl, rfl⟩
    · rw [grantTo, hr.others p.id hid]
      exact ⟨rfl, rfl⟩

theorem grantTo_budget (p : Pool) (t : Tick) : (grantTo pass runners demand p t).2.budget =
      if (grantTo pass runners demand p t).1 then t.budget - 1 else t.budget := by
  rcases grant_cases pass p (runnersOf runners p.id) (demand p.id) t with ⟨ht, hg⟩ | ⟨hf, hr⟩
  · rw [grantTo, ht, hg.budget]
    rfl
  · rw [grantTo, hf, hr.budget]
    rfl

theorem wants_of_short (hs : short t p = true) (hh : heldBack (t.plans p.id) = "") :
    wants t p = true := by
  unfold heldBack firstNonEmpty at hh
  split at hh
  · rename_i hne
    exact absurd hh hne
  rename_i he
  rw [not_not] at he
  simp [wants, hs, he, hh]

theorem serve_reach {active : List Pool} (t : Tick) (ha : ∀ p ∈ active, p ∈ pools)
    (hb : 0 < t.budget) : Reach pass runners demand pools t (serve pass runners demand active t).2 ∧
      0 ≤ (serve pass runners demand active t).2.budget := by
  induction active generalizing t with
  | nil => exact ⟨.refl, hb.le⟩
  | cons p rest ih =>
    have hp : p ∈ pools := ha p mem_cons_self
    have hrest : ∀ q ∈ rest, q ∈ pools := fun q hq => ha q (mem_cons_of_mem p hq)
    unfold serve
    split
    · exact ih t hrest hb
    -- the pool is short; being held back leaves only a note, and a grant is the step itself
    · rename_i hs
      rw [Bool.not_eq_true', Bool.not_eq_false] at hs
      split
      · obtain ⟨hr, hn⟩ := ih (t.note p _ _) hrest hb
        exact ⟨.head (.note t p hp _ _) hr, hn⟩
      rename_i hh
      rw [not_not] at hh
      have hstep : Step pass runners demand pools t (grantTo pass runners demand p t).2 :=
        .grant t p hp (wants_of_short hs hh) hb
      have hbud := @grantTo_budget pass runners demand p t
      split
      · rename_i t' hg
        rw [hg] at hstep hbud
        obtain ⟨hr, hn⟩ := ih t' hrest (by rw [hbud]; exact hb)
        exact ⟨.head hstep hr, hn⟩
      rename_i t' hg
      rw [hg, if_pos rfl] at hbud
      rw [hg] at hstep
      dsimp only at hbud hstep ⊢
      split
      -- the budget is spent, so the round ends with this step
      · rename_i hz
        exact ⟨.single hstep, by rw [hz]⟩
      rename_i hz
      obtain ⟨hr, hn⟩ := ih t' hrest (by omega)
      exact ⟨.head hstep hr, hn⟩

theorem serve_subset (active : List Pool) (t : Tick) :
    ∀ p ∈ (serve pass runners demand active t).1, p ∈ active := by
  induction active generalizing t with
  | nil =>
    intro p hp
    exact hp
  | cons q rest ih =>
    intro p hp
    unfold serve at hp
    split at hp
    · exact mem_cons_of_mem q (ih _ p hp)
    split at hp
    · exact mem_cons_of_mem q (ih _ p hp)
    split at hp
    · exact mem_cons_of_mem q (ih _ p hp)
    rename_i t' _
    have hhere : p ∈ (if short t' q then [q] else []) → p ∈ q :: rest := by
      intro hm
      split at hm
      · exact mem_cons.mpr (.inl (mem_singleton.mp hm))
      · cases hm
    dsimp only at hp
    split at hp
    · exact hhere hp
    rcases mem_append.mp hp with hm | hm
    · exact hhere hm
    · exact mem_cons_of_mem q (ih _ p hm)

theorem rounds_reach {n : Nat} (active : List Pool) (t : Tick) (ha : ∀ p ∈ active, p ∈ pools)
    (hb : 0 ≤ t.budget) :
    Reach pass runners demand pools t (rounds pass runners demand n active t) ∧
      0 ≤ (rounds pass runners demand n active t).budget := by
  induction n generalizing active t with
  | zero => exact ⟨.refl, hb⟩
  | succ n ih =>
    unfold rounds
    split
    · exact ⟨.refl, hb⟩
    rename_i hc
    rw [not_or, not_le] at hc
    obtain ⟨hr, hn⟩ := serve_reach t ha hc.2
    obtain ⟨hr', hn'⟩ := ih (serve pass runners demand active t).1 _
      (fun p hp => ha p (serve_subset active t p hp)) hn
    exact ⟨hr.trans hr', hn'⟩

theorem serveTiers_reach {tiers : List (List Pool)} (t : Tick)
    (ha : ∀ tier ∈ tiers, ∀ p ∈ tier, p ∈ pools) (hb : 0 ≤ t.budget) :
    Reach pass runners demand pools t (serveTiers pass runners demand tiers t) ∧
      0 ≤ (serveTiers pass runners demand tiers t).budget := by
  induction tiers generalizing t with
  | nil => exact ⟨.refl, hb⟩
  | cons tier rest ih =>
    obtain ⟨hr, hn⟩ := rounds_reach tier t (ha tier mem_cons_self) hb
    unfold serveTiers
    dsimp only
    split
    · exact ⟨hr, hn⟩
    · obtain ⟨hr', hn'⟩ := ih _ (fun u hu => ha u (mem_cons_of_mem tier hu)) hn
      exact ⟨hr.trans hr', hn'⟩

theorem shareLoop_reach {top : Int} {tiers : List Pool} (granted floor : Int) (t : Tick)
    (ha : ∀ p ∈ tiers, p ∈ pools) (hb : 0 ≤ t.budget) :
    Reach pass runners demand pools t (shareLoop pass runners demand top tiers granted floor t).2.2 ∧
      0 ≤ (shareLoop pass runners demand top tiers granted floor t).2.2.budget := by
  induction tiers generalizing granted floor t with
  | nil => exact ⟨.refl, hb⟩
  | cons p rest ih =>
    have hrest : ∀ q ∈ rest, q ∈ pools := fun q hq => ha q (mem_cons_of_mem p hq)
    unfold shareLoop
    split
    · exact ⟨.refl, hb⟩
    rename_i hz
    split
    · exact ih granted floor t hrest hb
    rename_i hc
    rw [not_or, not_or, Bool.not_eq_true', Bool.not_eq_false] at hc
    have hstep : Step pass runners demand pools t (grantTo pass runners demand p t).2 :=
      .grant t p (ha p mem_cons_self) hc.2.1 (by omega)
    have hbud := @grantTo_budget pass runners demand p t
    split
    · rename_i t' hg
      rw [hg, if_pos rfl] at hbud
      rw [hg] at hstep
      dsimp only at hbud hstep
      obtain ⟨hr, hn⟩ := ih (granted + 1) p.priority t' hrest (by omega)
      exact ⟨.head hstep hr, hn⟩
    rename_i t' hg
    rw [hg] at hstep hbud
    obtain ⟨hr, hn⟩ := ih granted floor t' hrest (by rw [hbud]; exact hb)
    exact ⟨.head hstep hr, hn⟩

theorem shareAcrossTiers_reach {tiers : List Pool} (ha : ∀ p ∈ tiers, p ∈ pools) (hb : 0 ≤ t.budget) :
    Reach pass runners demand pools t (shareAcrossTiers pass runners demand tiers t).2.2 ∧
      0 ≤ (shareAcrossTiers pass runners demand tiers t).2.2.budget := by
  unfold shareAcrossTiers
  split
  · exact ⟨.refl, hb⟩
  split
  · exact ⟨.refl, hb⟩
  · exact shareLoop_reach 0 0 t ha hb

theorem noteDeferred_reach (shared floor : Int) {l : List Pool} (t : Tick)
    (ha : ∀ p ∈ l, p ∈ pools) :
    Reach pass runners demand pools t (noteDeferred pass shared floor l t) := by
  induction l generalizing t with
  | nil => exact .refl
  | cons p rest ih =>
    have hrest : ∀ q ∈ rest, q ∈ pools := fun q hq => ha q (mem_cons_of_mem p hq)
    unfold noteDeferred
    split
    · exact .head (.note t p (ha p mem_cons_self) _ _) (ih _ hrest)
    · exact ih t hrest

theorem allocate_reach (hb : 0 ≤ t.budget) :
    Reach pass runners demand pools t (allocate pass runners demand pools t) := by
  have htiers : ∀ p ∈ sortStableFunc (compareTiers pass runners demand) pools, p ∈ pools :=
    fun p hp => mem_sortStableFunc.mp hp
  obtain ⟨hs, hn⟩ := shareAcrossTiers_reach htiers hb
  obtain ⟨hr, -⟩ := serveTiers_reach _ (by
        intro tier ht p hp
        refine htiers p ?_
        rw [← flatten_splitBy (fun a b : Pool => a.priority == b.priority)
          (sortStableFunc (compareTiers pass runners demand) pools)]
        exact mem_flatten.mpr ⟨tier, ht, hp⟩) hn
  exact hs.trans (hr.trans (noteDeferred_reach _ _ _ fun p hp => hp))

end

theorem budgetFor_nonneg {policy : Policy} {live : Int} : 0 ≤ budgetFor policy live := by
  unfold budgetFor maxInt
  dsimp only
  split <;> split <;> omega

theorem finalTick_reach (s : Snapshot) :
    Reach (passFor s (ceilingBinds s.policy (liveAfterReap s))) s.runners (demandOf s).demand
      (sortedPools s.pools) (startingTick s) (finalTick s) :=
  allocate_reach budgetFor_nonneg

theorem creates_kind (s : Snapshot) : ∀ a ∈ (finalTick s).creates, a.kind = .create := by
  apply Reach.keeps (fun t => ∀ a ∈ t.creates, a.kind = .create) ?_ _ _ (finalTick_reach s)
  · intro a ha
    cases ha
  intro t t' ht hs
  cases hs with
  | note p hp current why => exact ht
  | grant p hp hw hb =>
    rcases grant_cases _ p _ _ t with ⟨-, hg⟩ | ⟨-, hr⟩
    · obtain ⟨pl, hs', act, -, -, hcreates, hkind, -⟩ := hg.placed
      intro a ha
      rw [grantTo, hcreates] at ha
      rcases mem_append.mp ha with hm | hm
      · exact ht a hm
      · rw [mem_singleton.mp hm, hkind]
    · rw [grantTo, hr.creates]
      exact ht

theorem filter_decide_creates (s : Snapshot) (q : Action → Prop) [DecidablePred q] :
    (s.decide.actions.filter fun a => a.kind = .create ∧ q a) =
      (finalTick s).creates.filter fun a => q a := by
  have hkinds := creates_kind s
  simp only [Snapshot.decide, filter_append, filter_flatMap, filter_filter]
  -- nothing among the clean-up of a plan is a create
  have hnone : ∀ l : List Action,
      l.filter (fun a => decide (a.kind = .create ∧ q a) && a.kind != .create) = [] := by
    intro l
    rw [filter_eq_nil_iff]
    intro a _
    simp only [Bool.and_eq_true, decide_eq_true_eq, bne_iff_ne, not_and]
    intro hc hne
    exact hne hc.1
  simp only [hnone, flatMap_eq_nil_iff.mpr (fun _ _ => rfl), nil_append]
  apply filter_congr
  intro a ha
  simp [hkinds a ha]

theorem mem_decide_create {s : Snapshot} {a : Action} (hk : a.kind = .create) :
    a ∈ s.decide.actions ↔ a ∈ (finalTick s).creates := by
  simp [Snapshot.decide, hk]

end Zoomies.Scheduler
