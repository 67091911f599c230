import Zoomies.SchedulerReap

/-! A pass does not depend on the order its input is listed in. -/
namespace Zoomies.Scheduler
open Zoomies.Go Zoomies.Store List

structure Reordered (s s' : Snapshot) : Prop where
  pools : s.pools.Perm s'.pools
  hosts : s.hosts.Perm s'.hosts
  jobs : s.jobs.Perm s'.jobs
  installations : s.installations.Perm s'.installations
  runners : ∀ id, (runnersOf s.runners id).Perm (runnersOf s'.runners id)
  readiness : s.readiness = s'.readiness
  preferReadiness : s.preferReadiness = s'.preferReadiness
  now : s.now = s'.now
  lastProvisioned : s.lastProvisioned = s'.lastProvisioned
  withAJob : s.runnersWithAJob = s'.runnersWithAJob
  activeByRepository : s.activeByRepository = s'.activeByRepository
  policy : s.policy = s'.policy
  jitter : s.jitter = s'.jitter
  heldInstallations : s.heldInstallations = s'.heldInstallations
  jobHistory : s.jobHistory = s'.jobHistory
  historySizing : s.historySizing = s'.historySizing
  hostOrder : s.hostOrder = s'.hostOrder

theorem compareLex_eq_iff {α : Type} {f g : α → α → Ordering} {a b : α} :
    compareLex f g a b = .eq ↔ f a b = .eq ∧ g a b = .eq := by
  rw [compareLex, Ordering.then_eq_eq]

theorem sortedPools_perm {pools pools' : List Pool} (hn : (pools.map Pool.id).Nodup)
    (hp : pools.Perm pools') : sortedPools pools = sortedPools pools' := by
  apply sortStableFunc_eq_of_key hp hn
  intro a b hc
  exact Std.LawfulEqCmp.eq_of_compare (compareLex_eq_iff.mp hc).2

theorem sortedHosts_perm {hosts hosts' : List Host} (hn : (hosts.map Host.id).Nodup)
    (hp : hosts.Perm hosts') : sortedHosts hosts = sortedHosts hosts' := by
  apply sortStableFunc_eq_of_key hp hn
  intro a b hc
  exact Std.LawfulEqCmp.eq_of_compare hc

theorem sortedJobs_perm {jobs jobs' : List Job} (hn : (jobs.map Job.id).Nodup)
    (hp : jobs.Perm jobs') : sortedJobs jobs = sortedJobs jobs' := by
  unfold sortedJobs compareJobs
  apply sortStableFunc_eq_of_key hp hn
  intro a b hc
  rw [compareLex_eq_iff, compareLex_eq_iff] at hc
  exact Std.LawfulEqCmp.eq_of_compare hc.2.2

theorem sortedRunners_perm {runners runners' : List Runner} (hn : (runners.map Runner.id).Nodup)
    (hp : runners.Perm runners') : sortedRunners runners = sortedRunners runners' := by
  apply sortStableFunc_eq_of_key hp hn
  intro a b hc
  exact Std.LawfulEqCmp.eq_of_compare (compareLex_eq_iff.mp hc).2

theorem targetsOf_perm {insts insts' : List Installation}
    (hn : (insts.map Installation.id).Nodup) (hp : insts.Perm insts') :
    targetsOf insts = targetsOf insts' := by
  funext id
  rw [targetsOf, targetsOf, find?_perm Installation.id hn hp id]

theorem any_perm {α : Type} {l l' : List α} (hp : l.Perm l') {f : α → Bool} :
    l.any f = l'.any f := by
  rw [Bool.eq_iff_iff, any_eq_true, any_eq_true]
  constructor
  · rintro ⟨a, ha, hf⟩
    exact ⟨a, hp.mem_iff.mp ha, hf⟩
  · rintro ⟨a, ha, hf⟩
    exact ⟨a, hp.mem_iff.mpr ha, hf⟩

variable {l l' : List Runner}

theorem countState_perm (state : RunnerState) (hp : l.Perm l') :
    countState state l = countState state l' := by
  rw [countState, countState, (hp.filter _).length_eq]

theorem transCmp_failedAt : Std.TransCmp fun a b : Runner => compare (failedAt b) (failedAt a) :=
  @Std.TransCmp.opposite Runner (compareOn failedAt) inferInstance

variable {now : Time}

theorem startFailures_perm (hp : l.Perm l') : (startFailures l now).Perm (startFailures l' now) :=
  sortStableFunc_perm.trans ((hp.filter _).trans sortStableFunc_perm.symm)

theorem recentBusyHosts_perm (hp : l.Perm l') : recentBusyHosts l now = recentBusyHosts l' now := by
  funext id
  exact any_perm (startFailures_perm hp)

theorem startFailures_times (hp : l.Perm l') :
    (startFailures l now).map failedAt = (startFailures l' now).map failedAt := by
  have hsorted : ∀ m : List Runner,
      ((startFailures m now).map failedAt).Pairwise fun a b => b ≤ a := by
    intro m
    have htrans := transCmp_failedAt
    rw [pairwise_map]
    refine sortStableFunc_pairwise.imp ?_
    intro a b hab
    exact Std.isLE_compare.mp hab
  refine ((startFailures_perm hp).map failedAt).eq_of_pairwise ?_ (hsorted l) (hsorted l')
  intro a b _ _ hab hba
  exact le_antisymm hba hab

theorem latest_perm {pass : Pass} {runners runners' : RunnerTable} {id : String}
    (hp : (runnersOf runners id).Perm (runnersOf runners' id)) :
    latest pass runners id = latest pass runners' id := by
  apply hp.foldl_eq'
  intro a _ b _ z
  rw [max_assoc, max_comm a.createdAt, ← max_assoc]

theorem add_comm_totals {h : Host} {t : HostTotals} {a b : Pool × Runner} :
    (t.add a.1 h a.2).add b.1 h b.2 = (t.add b.1 h b.2).add a.1 h a.2 := by
  have hcount : ∀ (n : Int) (c d : Prop) [Decidable c] [Decidable d],
      (if d then (if c then n + 1 else n) + 1 else if c then n + 1 else n) =
        if c then (if d then n + 1 else n) + 1 else if d then n + 1 else n := by
    intro n c d _ _
    by_cases hc : c <;> by_cases hd : d <;> simp [hc, hd]
  have hsum : ∀ (r x y : Reservation) (c d : Prop) [Decidable c] [Decidable d],
      (if d then (if c then r + x else r) + y else if c then r + x else r) =
        if c then (if d then r + y else r) + x else if d then r + y else r := by
    intro r x y c d _ _
    by_cases hc : c <;> by_cases hd : d <;> simp [hc, hd, add_right_comm]
  unfold HostTotals.add
  dsimp only
  rw [hcount t.warming, hcount t.warmingDinD, hsum, add_right_comm]

theorem table_any_iff {runners : RunnerTable} (hn : (runners.map Prod.fst).Nodup)
    (f : Runner → Bool) : (runners.any fun entry => entry.2.any f) = true ↔
      ∃ id, (runnersOf runners id).any f = true := by
  rw [any_eq_true]
  constructor
  · rintro ⟨entry, he, hf⟩
    refine ⟨entry.1, ?_⟩
    rw [runnersOf, lookup_of_mem hn he]
    exact hf
  rintro ⟨id, hf⟩
  obtain ⟨r, hr, hfr⟩ := any_eq_true.mp hf
  obtain ⟨entry, he, hre⟩ := mem_flatMap.mp (runnersOf_subset hr)
  exact ⟨entry, he, any_eq_true.mpr ⟨r, hre, hfr⟩⟩

theorem totalsByHost_perm {pools : List Pool} {runners runners' : RunnerTable}
    (hn : (runners.map Prod.fst).Nodup) (hn' : (runners'.map Prod.fst).Nodup)
    (hp : ∀ id, (runnersOf runners id).Perm (runnersOf runners' id)) :
    totalsByHost pools runners = totalsByHost pools runners' := by
  funext h
  have hours : (runners.any fun entry => entry.2.any (liveOn h)) =
      runners'.any fun entry => entry.2.any (liveOn h) := by
    rw [Bool.eq_iff_iff, table_any_iff hn, table_any_iff hn']
    apply exists_congr
    intro id
    rw [any_perm (hp id)]
  have hcharged : (chargedOn h pools runners).Perm (chargedOn h pools runners') :=
    List.Perm.flatMap_left pools fun p _ => ((hp p.id).filter _).map _
  unfold totalsByHost
  rw [hours]
  apply hcharged.foldl_eq'
  intro a _ b _ t
  exact add_comm_totals

section
variable {s s' : Snapshot} (hr : Reordered s s')
include hr

theorem startingHosts_reordered : startingHosts s = startingHosts s' := by
  unfold startingHosts newHostSet
  rw [sortedHosts_perm s.distinct.hostIDs hr.hosts, sortedPools_perm s.distinct.poolIDs hr.pools,
    totalsByHost_perm s.distinct.tableIDs s'.distinct.tableIDs hr.runners, hr.readiness,
    hr.preferReadiness, hr.hostOrder, hr.now]

theorem demandOf_reordered : demandOf s = demandOf s' := by
  unfold demandOf assign
  rw [sortedPools_perm s.distinct.poolIDs hr.pools, sortedJobs_perm s.distinct.jobIDs hr.jobs,
    targetsOf_perm s.distinct.installationIDs hr.installations]

theorem passFor_reordered (atCeiling : Bool) : passFor s atCeiling = passFor s' atCeiling := by
  have hjobs : runnersWithAJob s = runnersWithAJob s' := by
    funext id
    rw [runnersWithAJob, runnersWithAJob, hr.withAJob, any_perm hr.jobs]
  unfold passFor
  rw [hjobs, hr.now, hr.policy, hr.activeByRepository, hr.jitter, hr.lastProvisioned,
    hr.heldInstallations, hr.jobHistory, hr.historySizing]

end

def PlanAlike (a b : PoolPlan) : Prop :=
  ∃ failing fault reason, (a.failing = "" ↔ failing = "") ∧
    b = { a with failing := failing, failingFault := fault, reason := reason }

theorem planAlike_refl {a : PoolPlan} : PlanAlike a a :=
  ⟨a.failing, a.failingFault, a.reason, Iff.rfl, rfl⟩

structure TickAlike (t t' : Tick) : Prop where
  hosts : t.hosts = t'.hosts
  budget : t.budget = t'.budget
  creates : t.creates = t'.creates
  plans : ∀ id, PlanAlike (t.plans id) (t'.plans id)

theorem TickAlike.setPlan (t t' : Tick) (h : TickAlike t t') (id : String) (a b : PoolPlan)
    (hab : PlanAlike a b) : TickAlike (t.setPlan id a) (t'.setPlan id b) := by
  refine ⟨h.hosts, h.budget, h.creates, ?_⟩
  intro k
  by_cases hk : k = id
  · rw [hk, Tick.setPlan_self, Tick.setPlan_self]
    exact hab
  · rw [Tick.setPlan_ne hk, Tick.setPlan_ne hk]
    exact h.plans k

section
variable (a b : PoolPlan) (hab : PlanAlike a b)
include hab

theorem planAlike_actions : a.actions = b.actions := by
  obtain ⟨f, k, r, -, rfl⟩ := hab
  rfl

theorem planAlike_heldBack : heldBack a = "" ↔ heldBack b = "" := by
  obtain ⟨f, k, r, hf, rfl⟩ := hab
  unfold heldBack firstNonEmpty
  by_cases hempty : a.failing = ""
  · simp [hempty, hf.mp hempty]
  · have hne : f ≠ "" := fun he => hempty (hf.mpr he)
    simp [hempty, hne]

theorem needFor_alike (pass : Pass) (hs : HostSet) (p : Pool) (queued : List Job) :
    needFor pass hs p a queued = needFor pass hs p b queued := by
  obtain ⟨f, k, r, -, rfl⟩ := hab
  rfl

theorem createPlan_alike {pass : Pass} {hs : HostSet} {p : Pool} {runners runners' : List Runner}
    (hbusy : countState .busy runners = countState .busy runners') {queued : List Job} {need : Need}
    {placed : Placement} : (createPlan pass hs p a runners queued need placed).2 =
        (createPlan pass hs p b runners' queued need placed).2 ∧
      PlanAlike (createPlan pass hs p a runners queued need placed).1
        (createPlan pass hs p b runners' queued need placed).1 := by
  obtain ⟨f, k, r, hf, rfl⟩ := hab
  have hreason : grantReason pass p a runners queued placed =
      grantReason pass p { a with failing := f, failingFault := k, reason := r } runners' queued
        placed := by
    unfold grantReason
    rw [hbusy]
  unfold createPlan
  rw [hreason]
  cases enforced pass need with
  | none | some _ => exact ⟨rfl, f, k, _, hf, rfl⟩

end

theorem grant_alike {pass : Pass} {p : Pool} {runners runners' : List Runner}
    (hp : runners.Perm runners') {queued : List Job} {t t' : Tick} (h : TickAlike t t') :
    (grant pass p runners queued t).1 = (grant pass p runners' queued t').1 ∧
      TickAlike (grant pass p runners queued t).2 (grant pass p runners' queued t').2 := by
  have hbusy := countState_perm .busy hp
  have hunfit : ∀ unfit : String, PlanAlike { t.plans p.id with historyUnfit := unfit }
      { t'.plans p.id with historyUnfit := unfit } := by
    intro unfit
    obtain ⟨f, k, r, hf, hplan⟩ := h.plans p.id
    rw [hplan]
    exact ⟨f, k, r, hf, rfl⟩
  unfold grant
  dsimp only
  rw [← needFor_alike _ _ (h.plans p.id), ← h.hosts, recentBusyHosts_perm hp]
  generalize needFor pass t.hosts p (t.plans p.id) queued = need
  have hplans := hunfit need.unfit
  generalize { t'.plans p.id with historyUnfit := need.unfit } = plan' at hplans ⊢
  split
  · split
    · refine ⟨rfl, h.setPlan _ _ _ _ _ ?_⟩
      obtain ⟨f, k, r, hf, rfl⟩ := hplans
      exact ⟨f, k, _, hf, rfl⟩
    refine ⟨rfl, h.setPlan _ _ _ _ _ ?_⟩
    obtain ⟨f, k, r, hf, rfl⟩ := hplans
    exact ⟨f, k, _, hf, rfl⟩
  · rename_i placed _ hs' _
    obtain ⟨hact, hplan⟩ := createPlan_alike _ _ hplans hbusy
    have hset := h.setPlan _ _ p.id _ _ hplan
    refine ⟨rfl, rfl, ?_, ?_, hset.plans⟩
    · rw [h.budget]
    · rw [h.creates, hact]

section
variable (t t' : Tick) (h : TickAlike t t')
include h

theorem short_alike (p : Pool) : short t p = short t' p := by
  obtain ⟨f, k, r, -, hplan⟩ := h.plans p.id
  unfold short
  rw [hplan]

theorem wants_alike (p : Pool) : wants t p = wants t' p := by
  have hs := short_alike t t' h p
  obtain ⟨f, k, r, hf, hplan⟩ := h.plans p.id
  have hd : decide ((t.plans p.id).failing = "") = decide (f = "") := decide_eq_decide.mpr hf
  unfold wants
  rw [hs, hd, hplan]

theorem shortfall_alike {tier : List Pool} : shortfall t tier = shortfall t' tier := by
  unfold shortfall
  congr 1
  apply map_congr_left
  intro p _
  obtain ⟨f, k, r, -, hplan⟩ := h.plans p.id
  rw [hplan]

theorem note_alike {p : Pool} {current current' : Int} {why why' : String} :
    TickAlike (t.note p current why) (t'.note p current' why') := by
  apply h.setPlan
  obtain ⟨f, k, r, hf, hplan⟩ := h.plans p.id
  rw [hplan]
  exact ⟨f, k, _, hf, rfl⟩

end

section
variable (pass : Pass) {runners runners' : RunnerTable} (demand : String → List Job)
variable (hp : ∀ id, (runnersOf runners id).Perm (runnersOf runners' id))
include hp

theorem grantTo_alike {p : Pool} {t t' : Tick} (h : TickAlike t t') :
    (grantTo pass runners demand p t).1 = (grantTo pass runners' demand p t').1 ∧
      TickAlike (grantTo pass runners demand p t).2 (grantTo pass runners' demand p t').2 :=
  grant_alike (hp p.id) h

theorem serve_alike {active : List Pool} (t t' : Tick) (h : TickAlike t t') :
    (serve pass runners demand active t).1 = (serve pass runners' demand active t').1 ∧
      TickAlike (serve pass runners demand active t).2
        (serve pass runners' demand active t').2 := by
  induction active generalizing t t' with
  | nil => exact ⟨rfl, h⟩
  | cons p rest ih =>
    unfold serve
    rw [short_alike t t' h p]
    split
    · exact ih t t' h
    by_cases hh : heldBack (t.plans p.id) = ""
    · have hh' := (planAlike_heldBack _ _ (h.plans p.id)).mp hh
      rw [if_neg (not_not.mpr hh), if_neg (not_not.mpr hh')]
      obtain ⟨hb, hu⟩ := grantTo_alike pass demand hp h
      generalize grantTo pass runners demand p t = g at hb hu ⊢
      generalize grantTo pass runners' demand p t' = g' at hb hu ⊢
      obtain ⟨b, u⟩ := g
      obtain ⟨b', u'⟩ := g'
      subst hb
      cases b with
      | false => exact ih u u' hu
      | true =>
        dsimp only
        rw [short_alike u u' hu p, hu.budget]
        split
        · exact ⟨rfl, hu⟩
        · obtain ⟨hn, hrest⟩ := ih u u' hu
          exact ⟨by rw [hn], hrest⟩
    · have hh' : heldBack (t'.plans p.id) ≠ "" :=
        fun he => hh ((planAlike_heldBack _ _ (h.plans p.id)).mpr he)
      rw [if_pos hh, if_pos hh']
      exact ih _ _ (note_alike t t' h)

theorem rounds_alike (n : Nat) (active : List Pool) (t t' : Tick) (h : TickAlike t t') :
    TickAlike (rounds pass runners demand n active t)
      (rounds pass runners' demand n active t') := by
  induction n generalizing active t t' with
  | zero => exact h
  | succ n ih =>
    unfold rounds
    rw [h.budget]
    split
    · exact h
    obtain ⟨hn, hu⟩ := serve_alike pass demand hp t t' h
    dsimp only
    rw [hn]
    exact ih _ _ _ hu

variable {pass demand}

theorem serveTiers_alike {tiers : List (List Pool)} (t t' : Tick) (h : TickAlike t t') :
    TickAlike (serveTiers pass runners demand tiers t)
      (serveTiers pass runners' demand tiers t') := by
  induction tiers generalizing t t' with
  | nil => exact h
  | cons tier rest ih =>
    unfold serveTiers
    dsimp only
    rw [shortfall_alike t t' h]
    have hu := rounds_alike pass demand hp (shortfall t' tier + 1) tier t t' h
    rw [hu.budget]
    split
    · exact hu
    · exact ih _ _ hu

theorem shareLoop_alike {top : Int} {tiers : List Pool} (granted floor : Int) (t t' : Tick)
    (h : TickAlike t t') : (shareLoop pass runners demand top tiers granted floor t).1 =
        (shareLoop pass runners' demand top tiers granted floor t').1 ∧
      (shareLoop pass runners demand top tiers granted floor t).2.1 =
        (shareLoop pass runners' demand top tiers granted floor t').2.1 ∧
      TickAlike (shareLoop pass runners demand top tiers granted floor t).2.2
        (shareLoop pass runners' demand top tiers granted floor t').2.2 := by
  induction tiers generalizing granted floor t t' with
  | nil => exact ⟨rfl, rfl, h⟩
  | cons p rest ih =>
    unfold shareLoop
    rw [h.budget, wants_alike t t' h p]
    split
    · exact ⟨rfl, rfl, h⟩
    split
    · exact ih granted floor t t' h
    obtain ⟨hb, hu⟩ := grantTo_alike pass demand hp h
    generalize grantTo pass runners demand p t = g at hb hu ⊢
    generalize grantTo pass runners' demand p t' = g' at hb hu ⊢
    obtain ⟨b, u⟩ := g
    obtain ⟨b', u'⟩ := g'
    subst hb
    cases b with
    | false => exact ih granted floor u u' hu
    | true => exact ih (granted + 1) p.priority u u' hu

theorem shareAcrossTiers_alike {tiers : List Pool} {t t' : Tick} (h : TickAlike t t') :
    (shareAcrossTiers pass runners demand tiers t).1 =
        (shareAcrossTiers pass runners' demand tiers t').1 ∧
      (shareAcrossTiers pass runners demand tiers t).2.1 =
        (shareAcrossTiers pass runners' demand tiers t').2.1 ∧
      TickAlike (shareAcrossTiers pass runners demand tiers t).2.2
        (shareAcrossTiers pass runners' demand tiers t').2.2 := by
  have hw : wants t = wants t' := funext (wants_alike t t' h)
  unfold shareAcrossTiers
  rw [hw]
  split
  · exact ⟨rfl, rfl, h⟩
  split
  · exact ⟨rfl, rfl, h⟩
  · exact shareLoop_alike hp 0 0 t t' h

theorem compareTiers_perm :
    compareTiers pass runners demand = compareTiers pass runners' demand := by
  have hl : latest pass runners = latest pass runners' :=
    funext fun id => latest_perm (hp id)
  unfold compareTiers
  rw [hl]

omit hp in
theorem noteDeferred_alike (shared floor : Int) (l : List Pool) (t t' : Tick) (h : TickAlike t t') :
    TickAlike (noteDeferred pass shared floor l t) (noteDeferred pass shared floor l t') := by
  induction l generalizing t t' with
  | nil => exact h
  | cons p rest ih =>
    have hs := short_alike t t' h p
    obtain ⟨f, k, r, hf, hplan⟩ := h.plans p.id
    have hd : decide ((t.plans p.id).failing = "") = decide (f = "") := decide_eq_decide.mpr hf
    unfold noteDeferred
    rw [hs, hd, hplan]
    split
    · exact ih _ _ (note_alike t t' h)
    · exact ih t t' h

theorem allocate_alike {pools : List Pool} {t t' : Tick} (h : TickAlike t t') :
    TickAlike (allocate pass runners demand pools t) (allocate pass runners' demand pools t') := by
  unfold allocate
  rw [compareTiers_perm hp]
  obtain ⟨hshared, hfloor, hu⟩ := shareAcrossTiers_alike hp h
  dsimp only
  rw [hshared, hfloor]
  apply noteDeferred_alike
  exact serveTiers_alike hp _ _ hu

end

theorem holdAfterStartFailures_eq_empty_iff (pass : Pass) (p : Pool) (runners : List Runner) :
    (holdAfterStartFailures pass p runners).1 = "" ↔
      ∀ last ∈ ((startFailures runners pass.now).map failedAt).head?,
        jittered (backoff ((startFailures runners pass.now).map failedAt).length)
          (pass.jitter p.id) ≤ sub pass.now last := by
  unfold holdAfterStartFailures
  generalize startFailures runners pass.now = failed
  cases failed with
  | nil => simp
  | cons last rest =>
    dsimp only
    split
    · rename_i hge
      simpa using hge
    rename_i hlt
    refine iff_of_false ?_ ?_
    · repeat apply append_ne_empty
      split
      · exact append_ne_empty (by decide)
      · decide
    · simpa using hlt

theorem holdAfterStartFailures_perm (pass : Pass) (p : Pool) (hp : l.Perm l') :
    (holdAfterStartFailures pass p l).1 = "" ↔ (holdAfterStartFailures pass p l').1 = "" := by
  rw [holdAfterStartFailures_eq_empty_iff, holdAfterStartFailures_eq_empty_iff,
    startFailures_times hp]

theorem decidePool_alike {pass : Pass} {p : Pool} {queued : List Job} (hn : (l.map Runner.id).Nodup)
    (hp : l.Perm l') : PlanAlike (decidePool pass p l queued) (decidePool pass p l' queued) := by
  have hempty := holdAfterStartFailures_perm pass p hp
  unfold decidePool
  rw [sortedRunners_perm hn hp]
  dsimp only
  split
  · exact planAlike_refl
  split
  · exact ⟨_, _, _, hempty, rfl⟩
  · exact ⟨_, _, _, hempty, rfl⟩

theorem runnersOf_ids_nodup {s : Snapshot} {id : String} :
    ((runnersOf s.runners id).map Runner.id).Nodup := by
  unfold runnersOf
  cases hl : s.runners.lookup id with
  | none => exact nodup_nil
  | some l =>
    have hmem : l ∈ s.runners.map Prod.snd := mem_map_of_mem (mem_of_lookup hl)
    have hsub : (l.map Runner.id).Sublist ((s.runners.flatMap Prod.snd).map Runner.id) :=
      (sublist_flatten_of_mem hmem).map Runner.id
    exact hsub.nodup s.distinct.runnerIDs

theorem plansByID_alike {pools : List Pool} (f g : Pool → PoolPlan)
    (h : ∀ p ∈ pools, PlanAlike (f p) (g p)) (id : String) :
    PlanAlike (plansByID (pools.map f) id) (plansByID (pools.map g) id) := by
  induction pools with
  | nil => exact planAlike_refl
  | cons p rest ih =>
    have hhead := h p mem_cons_self
    have hid : (f p).poolID = (g p).poolID := by
      obtain ⟨_, _, _, -, hg⟩ := hhead
      rw [hg]
    have hrest := ih fun q hq => h q (mem_cons_of_mem p hq)
    unfold plansByID at hrest ⊢
    rw [map_cons, map_cons, find?_cons, find?_cons, hid]
    cases (g p).poolID == id with
    | true => exact hhead
    | false => exact hrest

section
variable {s s' : Snapshot} (hr : Reordered s s')
include hr

theorem liveAfterReap_reordered : liveAfterReap s = liveAfterReap s' := by
  unfold liveAfterReap decidedOf decidedPlans
  rw [sortedPools_perm s.distinct.poolIDs hr.pools, passFor_reordered hr,
    demandOf_reordered hr, map_map, map_map]
  congr 1
  apply map_congr_left
  intro p _
  obtain ⟨_, _, _, -, hplan⟩ := decidePool_alike runnersOf_ids_nodup (hr.runners p.id)
  rw [Function.comp_apply, Function.comp_apply, hplan]

theorem startingTick_alike : TickAlike (startingTick s) (startingTick s') := by
  refine ⟨startingHosts_reordered hr, ?_, rfl, ?_⟩
  · change budgetFor s.policy (liveAfterReap s) = budgetFor s'.policy (liveAfterReap s')
    rw [liveAfterReap_reordered hr, hr.policy]
  intro id
  change PlanAlike (plansByID (decidedOf s) id) (plansByID (decidedOf s') id)
  unfold decidedOf decidedPlans
  rw [sortedPools_perm s.distinct.poolIDs hr.pools, passFor_reordered hr, demandOf_reordered hr]
  apply plansByID_alike
  intro p _
  exact decidePool_alike runnersOf_ids_nodup (hr.runners p.id)

theorem finalTick_alike : TickAlike (finalTick s) (finalTick s') := by
  unfold finalTick
  rw [sortedPools_perm s.distinct.poolIDs hr.pools, passFor_reordered hr,
    demandOf_reordered hr, liveAfterReap_reordered hr, hr.policy]
  exact allocate_alike hr.runners (startingTick_alike hr)

end

/-- Two listings of one fleet get the same actions in the same order, and the same figures
for every pool. -/
theorem decide_order_independent (s s' : Snapshot) (hr : Reordered s s') :
    s.decide.actions = s'.decide.actions ∧
    List.Forall₂ (fun a b : PoolPlan => a.poolID = b.poolID ∧ a.current = b.current ∧
        a.desired = b.desired ∧ a.queuedMatched = b.queuedMatched ∧
        a.quotaDeferredJobs = b.quotaDeferredJobs ∧ a.unserved = b.unserved ∧ a.blocked = b.blocked)
      s.decide.pools s'.decide.pools := by
  have halike := finalTick_alike hr
  have hpools := sortedPools_perm s.distinct.poolIDs hr.pools
  refine ⟨?_, ?_⟩
  · have hacts : ∀ p : Pool, (finishPlan ((finalTick s).plans p.id)).actions =
        (finishPlan ((finalTick s').plans p.id)).actions :=
      fun p => planAlike_actions ((finalTick s).plans p.id) ((finalTick s').plans p.id)
        (halike.plans p.id)
    simp only [Snapshot.decide, flatMap_map, hacts, halike.creates, hpools]
  simp only [Snapshot.decide, hpools]
  rw [forall₂_map_left_iff, forall₂_map_right_iff, forall₂_same]
  intro p _
  obtain ⟨f, k, r, -, hplan⟩ := halike.plans p.id
  rw [hplan]
  exact ⟨rfl, rfl, rfl, rfl, rfl, rfl, rfl⟩

def listed (pools : List Pool) (hosts : List Host) (rows : List Runner)
    (hd : DistinctIDs pools hosts [("p1", rows)] [] []) : Snapshot where
  now := 3 * hour
  pools := pools
  runners := [("p1", rows)]
  hosts := hosts
  distinct := hd

theorem reordered_listed (p q : Pool) (g h : Host) (x y : Runner)
    (hd : DistinctIDs [p, q] [g, h] [("p1", [x, y])] [] [])
    (hd' : DistinctIDs [q, p] [h, g] [("p1", [y, x])] [] []) :
    Reordered (listed [p, q] [g, h] [x, y] hd) (listed [q, p] [h, g] [y, x] hd') := by
  refine ⟨List.Perm.swap _ _ _, List.Perm.swap _ _ _, List.Perm.refl _, List.Perm.refl _, ?_, rfl,
    rfl, rfl, rfl, rfl, rfl, rfl, rfl, rfl, rfl, rfl, rfl⟩
  intro id
  simp only [runnersOf, listed, lookup_cons, lookup_nil]
  cases id == "p1" with
  | false => exact List.Perm.refl _
  | true => exact List.Perm.swap _ _ _

def linuxPool : Pool :=
  { id := "p1", name := "linux", enabled := true, minRunners := 4, maxRunners := 4 }

def armPool : Pool :=
  { id := "p2", name := "arm", enabled := true, minRunners := 1, maxRunners := 1 }

def firstHost : Host :=
  { id := "h1", capacity := 3, backends := ["docker"], lastHeartbeat := 3 * hour }

def secondHost : Host :=
  { id := "h2", capacity := 3, backends := ["docker"], lastHeartbeat := 3 * hour }

def busyRow : Runner := { id := "r1", hostID := "h1", state := .busy, createdAt := hour }

def idleRow : Runner := { id := "r2", hostID := "h2", state := .idle, createdAt := 2 * hour }

theorem decide_listed_order : ∃ hd hd',
      (listed [linuxPool, armPool] [firstHost, secondHost] [busyRow, idleRow]
        hd).decide.actions.length = 3 ∧
      (listed [linuxPool, armPool] [firstHost, secondHost] [busyRow, idleRow] hd).decide.actions =
        (listed [armPool, linuxPool] [secondHost, firstHost] [idleRow, busyRow]
          hd').decide.actions := by
  refine ⟨by constructor <;> decide, by constructor <;> decide, by decide +kernel, ?_⟩
  have hreordered := reordered_listed linuxPool armPool firstHost secondHost busyRow idleRow
  exact (decide_order_independent _ _ (hreordered _ _)).1

end Zoomies.Scheduler
