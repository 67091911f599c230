import Zoomies.SchedulerBlocked
import Zoomies.SchedulerCeiling

/-! When a pass ends with creates to spare, a pool still short is one no host can take a runner of.
-/
namespace Zoomies.Scheduler
open Zoomies.Go Zoomies.Store List

namespace HostSet

theorem why_what_ne_empty (hs : HostSet) {p : Pool} : (hs.why p).what ≠ "" := by
  unfold why
  split
  · decide
  · repeat apply append_ne_empty
    decide

theorem shortOf_ne_empty {hs : HostSet} {h : Host} {p : Pool} {r : Requirement} {text : String}
    (hs0 : hs.shortOf h p r = some text) : text ≠ "" := by
  unfold shortOf at hs0
  dsimp only at hs0
  split at hs0
  · cases hs0
    repeat apply append_ne_empty
    decide
  split at hs0
  · cases hs0
    repeat apply append_ne_empty
    decide
  · cases hs0

theorem sortedPhrases_heldOff_ne_empty {hs : HostSet} {p : Pool} {r : Requirement}
    (hne : hs.heldOff p r ≠ []) : hs.sortedPhrases (hs.heldOff p r) ≠ "" := by
  obtain ⟨⟨id, text⟩, hmem⟩ := exists_mem_of_ne_nil _ hne
  obtain ⟨h, hh, heq⟩ := mem_filterMap.mp hmem
  obtain ⟨text', -, hpair⟩ := Option.map_eq_some_iff.mp heq
  have hid : h.id = id := congrArg Prod.fst hpair
  -- some host of the fleet has a sentence, and every sentence says something
  have hlookup : ∀ k v, (hs.heldOff p r).lookup k = some v → v ≠ "" := by
    intro k v hv
    obtain ⟨g, -, hg⟩ := mem_filterMap.mp (mem_of_lookup hv)
    obtain ⟨w, hw, hwv⟩ := Option.map_eq_some_iff.mp hg
    have hwv' : w = v := congrArg Prod.snd hwv
    rw [← hwv']
    exact shortOf_ne_empty hw
  have hsome : ((hs.heldOff p r).lookup h.id).isSome = true := by
    rw [hid, lookup_isSome_iff]
    exact ⟨(id, text), hmem, by simp⟩
  obtain ⟨v, hv⟩ := Option.isSome_iff_exists.mp hsome
  have hin : v ∈ hs.hosts.filterMap fun h => (hs.heldOff p r).lookup h.id :=
    mem_filterMap.mpr ⟨h, (mem_filter.mp hh).1, hv⟩
  unfold sortedPhrases
  cases hl : hs.hosts.filterMap fun h => (hs.heldOff p r).lookup h.id with
  | nil =>
    rw [hl] at hin
    cases hin
  | cons a rest =>
    apply join_ne_empty
    have ha : a ∈ hs.hosts.filterMap fun h => (hs.heldOff p r).lookup h.id := by
      rw [hl]
      exact mem_cons_self
    obtain ⟨g, -, hg⟩ := mem_filterMap.mp ha
    exact hlookup _ _ hg

end HostSet

variable {p : Pool} {queued : List Job} {t t' : Tick}

theorem blocked_of_refused {pass : Pass} {runners : List Runner}
    (hr : Refused pass p runners queued t t') : (t'.plans p.id).blocked ≠ "" := by
  rcases hr.words with ⟨need, hne, heq, hb, -⟩ | ⟨hb, -⟩
  · rw [hb, heq]
    rw [heq] at hne
    exact t.hosts.sortedPhrases_heldOff_ne_empty hne
  · rw [hb]
    exact t.hosts.why_what_ne_empty

theorem historyNeed_of_sameFleet {pass : Pass} {hs hs' : HostSet}
    (hf : SameFleet hs hs') : historyNeed pass hs' p queued = historyNeed pass hs p queued := by
  have hhold : hs'.anyCouldHold p = hs.anyCouldHold p := by
    funext r
    rw [HostSet.anyCouldHold, HostSet.anyCouldHold, hf.hosts, hf.alloc]
  have hneed : hs'.poolNeed pass.history p queued = hs.poolNeed pass.history p queued := by
    rw [HostSet.poolNeed, HostSet.poolNeed, hhold]
  unfold historyNeed enforced needFor
  split
  · rfl
  · rw [hneed]

def hostsFor (pass : Pass) (demand : String → List Job) (t : Tick) (p : Pool) : HostSet :=
  t.hosts.withNeed (historyNeed pass t.hosts p (demand p.id))

def BlockedStands (s : Snapshot) (pass : Pass) (t : Tick) : Prop :=
  ∀ p ∈ s.pools, (t.plans p.id).blocked ≠ "" →
    ∀ h ∈ s.hosts, ¬ (hostsFor pass (demandOf s).demand t p).CouldTake p h

theorem blockedStands_step {s : Snapshot} {pass : Pass} (hbook : Booked s t)
    (ht : BlockedStands s pass t)
    (hstep : Step pass s.runners (demandOf s).demand (sortedPools s.pools) t t') :
    BlockedStands s pass t' := by
  have hn := narrower_step hstep
  have hback : ∀ p h, (hostsFor pass (demandOf s).demand t' p).CouldTake p h →
      (hostsFor pass (demandOf s).demand t p).CouldTake p h := by
    intro p h hct
    rw [hostsFor, historyNeed_of_sameFleet hn.fleet] at hct
    exact HostSet.couldTake_of_narrower hn hbook.tight hct
  intro p hp hb
  rcases step_words sortedPools_ids_nodup (mem_sortedPools.mpr hp) hstep
    with hr | ⟨hsame, -⟩
  · -- refused just now, so no host could take it then
    intro h hh hct
    have hmem : h ∈ t.hosts.hosts := by
      rw [hbook.fleet.hosts]
      exact mem_startingHosts.mpr hh
    exact (HostSet.placeOne_eq_none_iff).mp hr.refused h hmem (hback p h hct)
  rw [hsame] at hb
  intro h hh hct
  exact ht p hp hb h hh (hback p h hct)

theorem blockedStands_finalTick {s : Snapshot} :
    BlockedStands s (passFor s (ceilingBinds s.policy (liveAfterReap s))) (finalTick s) := by
  have hboth := Reach.keeps (fun t => Booked s t ∧ BlockedStands s _ t)
    (fun t t' ht hs => ⟨booked_step s _ t t' ht.1 hs, blockedStands_step ht.1 ht.2 hs⟩)
    _ _ (finalTick_reach s) ⟨booked_startingTick s, ?_⟩
  · exact hboth.2
  intro p hp hb
  rw [startingTick_plan hp, decidedPlan, decidePool_unblocked.1] at hb
  exact absurd rfl hb

def remaining (t : Tick) (p : Pool) : Int :=
  (t.plans p.id).desired - (t.plans p.id).current - creates (t.plans p.id).actions

def settled (t : Tick) (p : Pool) : Prop :=
  short t p = false ∨ heldBack (t.plans p.id) ≠ "" ∨ (t.plans p.id).blocked ≠ ""

structure Progress (t t' : Tick) : Prop where
  base : ∀ id, (t'.plans id).base = (t.plans id).base
  creates : ∀ id, creates (t.plans id).actions ≤ creates (t'.plans id).actions
  blocked : ∀ id, (t.plans id).blocked ≠ "" → (t'.plans id).blocked ≠ ""

theorem heldBack_of_base {plan plan' : PoolPlan} (h : plan'.base = plan.base) :
    heldBack plan' = heldBack plan := by
  have hf := congrArg PoolPlan.failing h
  have hh := congrArg PoolPlan.held h
  change plan'.failing = plan.failing at hf
  change plan'.held = plan.held at hh
  rw [heldBack, heldBack, hf, hh]

theorem remaining_le_of_progress (p : Pool) (hp : Progress t t') :
    remaining t' p ≤ remaining t p := by
  have hc := hp.creates p.id
  rw [remaining, remaining, current_of_base (hp.base p.id), desired_of_base (hp.base p.id)]
  omega

theorem short_iff (t : Tick) (p : Pool) :
    short t p = true ↔ p.enabled = true ∧ 0 < remaining t p := by
  simp only [short, remaining, Bool.and_eq_true, decide_eq_true_eq]
  constructor
  · rintro ⟨he, hd⟩
    exact ⟨he, by omega⟩
  · rintro ⟨he, hd⟩
    exact ⟨he, by omega⟩

theorem short_of_progress (hp : Progress t t') (hs : short t p = false) : short t' p = false := by
  rw [← Bool.not_eq_true, short_iff] at hs ⊢
  have hle := remaining_le_of_progress p hp
  rintro ⟨he, hr⟩
  exact hs ⟨he, by omega⟩

theorem settled_of_progress (hp : Progress t t') (hs : settled t p) : settled t' p := by
  rcases hs with hs | hs | hs
  · exact .inl (short_of_progress hp hs)
  · refine .inr (.inl ?_)
    rw [heldBack_of_base (hp.base p.id)]
    exact hs
  · exact .inr (.inr (hp.blocked p.id hs))

theorem Progress.trans (a b c : Tick) (hab : Progress a b) (hbc : Progress b c) : Progress a c where
  base id := (hbc.base id).trans (hab.base id)
  creates id := (hab.creates id).trans (hbc.creates id)
  blocked id h := hbc.blocked id (hab.blocked id h)

theorem progress_refl : Progress t t :=
  ⟨fun _ => rfl, fun _ => le_rfl, fun _ h => h⟩

theorem remaining_granted {pass : Pass} {runners : List Runner}
    (hg : Granted pass p runners queued t t') : remaining t' p = remaining t p - 1 := by
  obtain ⟨pl, hs', act, -, -, -, hkind, -, -, -, hacts⟩ := hg.placed
  rw [remaining, remaining, current_of_base hg.base, desired_of_base hg.base, hacts,
    creates_append, creates_single hkind]
  omega

theorem progress_of_others {id : String} (hothers : ∀ k, k ≠ id → t'.plans k = t.plans k)
    (hbase : (t'.plans id).base = (t.plans id).base)
    (hcreates : creates (t.plans id).actions ≤ creates (t'.plans id).actions)
    (hblocked : (t.plans id).blocked ≠ "" → (t'.plans id).blocked ≠ "") : Progress t t' := by
  have hat : ∀ k, (t'.plans k).base = (t.plans k).base ∧
      creates (t.plans k).actions ≤ creates (t'.plans k).actions ∧
      ((t.plans k).blocked ≠ "" → (t'.plans k).blocked ≠ "") := by
    intro k
    by_cases hk : k = id
    · subst hk
      exact ⟨hbase, hcreates, hblocked⟩
    · rw [hothers k hk]
      exact ⟨rfl, le_rfl, fun h => h⟩
  exact ⟨fun k => (hat k).1, fun k => (hat k).2.1, fun k => (hat k).2.2⟩

theorem progress_granted {pass : Pass} {runners : List Runner}
    (hg : Granted pass p runners queued t t') : Progress t t' := by
  obtain ⟨pl, hs', act, -, -, -, hkind, -, -, -, hacts⟩ := hg.placed
  apply progress_of_others hg.others hg.base
  · rw [hacts, creates_append, creates_single hkind]
    omega
  · rw [hg.blocked]
    exact fun h => h

theorem progress_refused {pass : Pass} {runners : List Runner}
    (hr : Refused pass p runners queued t t') : Progress t t' := by
  apply progress_of_others hr.others hr.base
  · rw [hr.actions]
  · intro _
    exact blocked_of_refused hr

theorem progress_note (t : Tick) (p : Pool) (current : Int) (why : String) :
    Progress t (t.note p current why) := by
  apply progress_of_others
  · intro k hk
    exact Tick.setPlan_ne hk
  · rw [Tick.note, Tick.setPlan_self]
    rfl
  · rw [Tick.note, Tick.setPlan_self]
  · rw [Tick.note, Tick.setPlan_self]
    exact fun h => h

structure Round (t : Tick) (active next : List Pool) (t' : Tick) : Prop where
  progress : Progress t t'
  settles : t'.budget = 0 ∨ ∀ p ∈ active, p ∈ next ∨ settled t' p
  given : ∀ p ∈ next, remaining t' p ≤ remaining t p - 1

theorem Round.cons_settled {u : Tick} {rest next : List Pool} (hp : Progress t u)
    (hset : settled u p) (hr : Round u rest next t') : Round t (p :: rest) next t' where
  progress := hp.trans _ _ _ hr.progress
  settles := by
    rcases hr.settles with hz | hall
    · exact .inl hz
    refine .inr ?_
    intro q hq
    rcases mem_cons.mp hq with rfl | hq
    · exact .inr (settled_of_progress hr.progress hset)
    · exact hall q hq
  given := by
    intro q hq
    have hle := hr.given q hq
    have hmono := remaining_le_of_progress q hp
    omega

theorem Round.cons_given {u : Tick} {rest next : List Pool} (hp : Progress t u)
    (hone : remaining u p = remaining t p - 1) (hr : Round u rest next t') :
    Round t (p :: rest) ((if short u p then [p] else []) ++ next) t' where
  progress := hp.trans _ _ _ hr.progress
  settles := by
    rcases hr.settles with hz | hall
    · exact .inl hz
    refine .inr ?_
    intro q hq
    rcases mem_cons.mp hq with rfl | hq
    · cases hs : short u q with
      | true => exact .inl (mem_append_left _ (mem_singleton.mpr rfl))
      | false => exact .inr (settled_of_progress hr.progress (.inl hs))
    rcases hall q hq with hn | hn
    · exact .inl (mem_append_right _ hn)
    · exact .inr hn
  given := by
    intro q hq
    rcases mem_append.mp hq with hq | hq
    · have hle := remaining_le_of_progress q hr.progress
      split at hq
      · rw [mem_singleton.mp hq] at hle ⊢
        omega
      · cases hq
    have hle := hr.given q hq
    have hmono := remaining_le_of_progress q hp
    omega

section
variable (pass : Pass) (runners : RunnerTable) (demand : String → List Job) (pools : List Pool)

theorem grantTo_cases {granted : Bool} (hg : grantTo pass runners demand p t = (granted, t')) :
    if granted then Granted pass p (runnersOf runners p.id) (demand p.id) t t'
    else Refused pass p (runnersOf runners p.id) (demand p.id) t t' := by
  have hc := grant_cases pass p (runnersOf runners p.id) (demand p.id) t
  rw [grantTo] at hg
  rw [hg] at hc
  rcases hc with ⟨rfl, hr⟩ | ⟨rfl, hr⟩ <;> exact hr

theorem serve_round (active : List Pool) (t : Tick) :
    Round t active (serve pass runners demand active t).1
      (serve pass runners demand active t).2 := by
  induction active generalizing t with
  | nil => exact ⟨progress_refl, .inr (forall_mem_nil _), forall_mem_nil _⟩
  | cons p rest ih =>
    unfold serve
    split
    · rename_i hs
      rw [Bool.not_eq_true'] at hs
      exact Round.cons_settled progress_refl (.inl hs) (ih t)
    split
    · rename_i hh
      have hprog := progress_note t p (t.plans p.id).current (heldBack (t.plans p.id))
      refine Round.cons_settled hprog (.inr (.inl ?_)) (ih _)
      rw [heldBack_of_base (hprog.base p.id)]
      exact hh
    split
    · rename_i u hg
      have hr := grantTo_cases pass runners demand hg
      exact Round.cons_settled (progress_refused hr) (.inr (.inr (blocked_of_refused hr))) (ih u)
    rename_i u hg
    have hgr := grantTo_cases pass runners demand hg
    have hprog := progress_granted hgr
    have hone := remaining_granted hgr
    dsimp only
    split
    · -- the budget ran out on this grant, so the round stops here
      rename_i hz
      refine ⟨hprog, .inl hz, ?_⟩
      intro q hq
      split at hq
      · rw [mem_singleton.mp hq, hone]
      · cases hq
    · exact Round.cons_given hprog hone (ih u)

theorem progress_reach (hr : Reach pass runners demand pools t t') : Progress t t' := by
  apply Reach.keeps (Progress t) ?_ t t' hr progress_refl
  intro u u' hu hs
  refine hu.trans _ _ _ ?_
  cases hs with
  | note p hp current why => exact progress_note u p current why
  | grant p hp hw hb =>
    rcases grant_cases pass p (runnersOf runners p.id) (demand p.id) u with ⟨-, hg⟩ | ⟨-, hr⟩
    · exact progress_granted hg
    · exact progress_refused hr

variable {pass runners demand pools}

/-- The rounds end with the budget spent or every pool settled. -/
theorem rounds_settle {n : Nat} (active : List Pool) (t : Tick)
    (hn : ∀ p ∈ active, remaining t p ≤ n) : Progress t (rounds pass runners demand n active t) ∧
      ((rounds pass runners demand n active t).budget ≤ 0 ∨
        ∀ p ∈ active, settled (rounds pass runners demand n active t) p) := by
  -- on the rounds left; every pool still active was given one in the round before
  induction n generalizing active t with
  | zero =>
    refine ⟨progress_refl, .inr ?_⟩
    intro p hp
    have hle := hn p hp
    refine .inl (Bool.eq_false_iff.mpr ?_)
    rw [ne_eq, short_iff]
    rintro ⟨-, hpos⟩
    exact absurd hle (not_le.mpr hpos)
  | succ n ih =>
    unfold rounds
    split
    · rename_i hc
      refine ⟨progress_refl, ?_⟩
      rcases hc with hnil | hz
      · rw [isEmpty_iff.mp hnil]
        exact .inr (forall_mem_nil _)
      · exact .inl hz
    have hround := serve_round pass runners demand active t
    have hsub := @serve_subset pass runners demand active t
    obtain ⟨hprog, hdone⟩ := ih (serve pass runners demand active t).1
      (serve pass runners demand active t).2 (by
        intro p hp
        have hle := hn p (hsub p hp)
        have hless := hround.given p hp
        omega)
    refine ⟨hround.progress.trans _ _ _ hprog, ?_⟩
    rcases hdone with hz | hall
    · exact .inl hz
    rcases hround.settles with hz | hkept
    · -- a round that spends the budget is the last
      refine .inl ?_
      dsimp only
      cases n with
      | zero => exact hz.le
      | succ n =>
        rw [rounds, if_pos (.inr hz.le)]
        exact hz.le
    · refine .inr ?_
      intro p hp
      rcases hkept p hp with hnext | hset
      · exact hall p hnext
      · exact settled_of_progress hprog hset

theorem remaining_le_shortfall {tier : List Pool} (p : Pool) (hp : p ∈ tier) :
    remaining t p ≤ (shortfall t tier + 1 : Nat) := by
  have hmem : (remaining t p).toNat ∈ tier.map fun q => (remaining t q).toNat :=
    mem_map_of_mem hp
  have hle : (remaining t p).toNat ≤ shortfall t tier := single_le_sum (by simp) _ hmem
  omega

theorem serveTiers_settle {tiers : List (List Pool)} (t : Tick)
    (ha : ∀ tier ∈ tiers, ∀ p ∈ tier, p ∈ pools) (hb : 0 ≤ t.budget) :
    (serveTiers pass runners demand tiers t).budget = 0 ∨
      ∀ tier ∈ tiers, ∀ p ∈ tier, settled (serveTiers pass runners demand tiers t) p := by
  induction tiers generalizing t with
  | nil => exact .inr (forall_mem_nil _)
  | cons tier rest ih =>
    have hrest : ∀ u ∈ rest, ∀ p ∈ u, p ∈ pools := fun u hu => ha u (mem_cons_of_mem tier hu)
    obtain ⟨-, hdone⟩ := rounds_settle tier t remaining_le_shortfall
    obtain ⟨-, hnonneg⟩ := @rounds_reach pass runners demand _ _ tier t (ha tier mem_cons_self) hb
    unfold serveTiers
    dsimp only
    split
    · rename_i hz
      exact .inl hz
    -- what this tier settled stays settled while the tiers below are served
    · rename_i hz
      obtain ⟨hreach, -⟩ := @serveTiers_reach pass runners demand _ _ _ hrest hnonneg
      have hprog := progress_reach pass runners demand pools hreach
      rcases ih _ hrest hnonneg with hz' | hall
      · exact .inl hz'
      refine .inr ?_
      intro u hu p hp
      rcases mem_cons.mp hu with rfl | hu
      · rcases hdone with hle | hset
        · exact absurd (le_antisymm hle hnonneg) hz
        · exact settled_of_progress hprog (hset p hp)
      · exact hall u hu p hp

theorem noteDeferred_budget (shared floor : Int) (l : List Pool) (t : Tick) :
    (noteDeferred pass shared floor l t).budget = t.budget := by
  induction l generalizing t with
  | nil => rfl
  | cons p rest ih =>
    unfold noteDeferred
    split
    · exact ih _
    · exact ih t

/-- Budget is left over only when every pool is settled. -/
theorem allocate_settles (t : Tick) (hb : 0 ≤ t.budget) :
    (allocate pass runners demand pools t).budget = 0 ∨
      ∀ p ∈ pools, settled (allocate pass runners demand pools t) p := by
  have htiers : ∀ p ∈ sortStableFunc (compareTiers pass runners demand) pools, p ∈ pools :=
    fun p hp => mem_sortStableFunc.mp hp
  have hflat := flatten_splitBy (fun a b : Pool => a.priority == b.priority)
    (sortStableFunc (compareTiers pass runners demand) pools)
  have hsplit : ∀ tier ∈ (sortStableFunc (compareTiers pass runners demand) pools).splitBy
      fun a b => a.priority == b.priority, ∀ p ∈ tier, p ∈ pools := by
    intro tier ht p hp
    refine htiers p ?_
    rw [← hflat]
    exact mem_flatten.mpr ⟨tier, ht, hp⟩
  obtain ⟨-, hn⟩ := @shareAcrossTiers_reach pass runners demand _ _ _ htiers hb
  unfold allocate
  dsimp only
  generalize shareAcrossTiers pass runners demand
    (sortStableFunc (compareTiers pass runners demand) pools) t = sh at hn ⊢
  rw [noteDeferred_budget]
  rcases serveTiers_settle sh.2.2 hsplit hn with hz | hall
  · exact .inl hz
  refine .inr ?_
  intro p hp
  -- the notes written last change no plan's figures
  have hprog := progress_reach pass runners demand pools
    (noteDeferred_reach sh.1 sh.2.1
      (serveTiers pass runners demand ((sortStableFunc (compareTiers pass runners demand)
        pools).splitBy fun a b => a.priority == b.priority) sh.2.2) fun q hq => hq)
  have hmem := (@mem_sortStableFunc _ (compareTiers pass runners demand) _ _).mpr hp
  rw [← hflat] at hmem
  obtain ⟨tier, ht, hpt⟩ := mem_flatten.mp hmem
  exact settled_of_progress hprog (hall tier ht p hpt)

end

theorem finalTick_settles {s : Snapshot} :
    (finalTick s).budget = 0 ∨ ∀ p ∈ s.pools, settled (finalTick s) p := by
  rcases allocate_settles (startingTick s) budgetFor_nonneg with hz | hall
  · exact .inl hz
  · exact .inr fun p hp => hall p (mem_sortedPools.mpr hp)

theorem sum_current_decide (s : Snapshot) :
    (s.decide.pools.map PoolPlan.current).sum = liveAfterReap s := by
  rw [liveAfterReap, decidedOf, decidedPlans, Snapshot.decide, map_map, map_map]
  congr 1
  apply map_congr_left
  intro p hp
  exact finalTick_current (mem_sortedPools.mp hp)

theorem length_decide_creates (s : Snapshot) :
    (s.decide.actions.filter fun a => a.kind = .create).length = (finalTick s).creates.length := by
  have hf := congrArg List.length (filter_decide_creates s fun _ => True)
  simpa using hf

def closingHosts (s : Snapshot) (p : Pool) : HostSet :=
  hostsFor (passFor s (ceilingBinds s.policy (liveAfterReap s))) (demandOf s).demand
    (finalTick s) p

theorem closingHosts_refuse {s : Snapshot} (hp : p ∈ s.pools)
    (hb : ((finalTick s).plans p.id).blocked ≠ "") (n : Nat) (avoid : String → Bool) :
    ((closingHosts s p).placeAvoiding p n avoid).1 = [] := by
  cases n with
  | zero => rfl
  | succ n =>
    rw [HostSet.placeAvoiding_succ_eq_nil_iff]
    intro h hh
    have hmem : h ∈ s.hosts := by
      change h ∈ (finalTick s).hosts.hosts at hh
      rw [(booked_finalTick s).fleet.hosts] at hh
      exact mem_startingHosts.mp hh
    exact blockedStands_finalTick p hp hb h hmem

/-- A pass leaves no work undone that it had the budget and the room for, and a pool it reports
blocked still is. -/
theorem decide_conserves_work (s : Snapshot) (plan : PoolPlan) (hplan : plan ∈ s.decide.pools)
    (p : Pool) (hp : p ∈ s.pools) (hid : plan.poolID = p.id) :
    (p.enabled = true → plan.desired > plan.current + creates plan.actions →
      plan.failing = "" → plan.held = "" →
      ((s.decide.actions.filter fun a => a.kind = .create).length : Int) =
          budgetFor s.policy (s.decide.pools.map PoolPlan.current).sum ∨
        plan.blocked ≠ "" ∧ ∀ n avoid, ((closingHosts s p).placeAvoiding p n avoid).1 = []) ∧
    (plan.blocked ≠ "" → ∀ n avoid, ((closingHosts s p).placeAvoiding p n avoid).1 = []) := by
  rw [decide_plan hplan hid]
  refine ⟨?_, fun hb => closingHosts_refuse hp hb⟩
  intro he hd hf hh
  rw [length_decide_creates, sum_current_decide]
  rcases finalTick_settles with hz | hall
  -- nothing is left of the budget, so as many creates were made as it allowed
  · refine .inl ?_
    have hspent := (tallied_finalTick s).spent
    rw [hz, zero_add] at hspent
    exact hspent
  refine .inr ?_
  -- of the three ways to be settled, only being blocked is left
  have hb : ((finalTick s).plans p.id).blocked ≠ "" := by
    rcases hall p hp with hs | hback | hb
    · rw [← Bool.not_eq_true, short, he, Bool.true_and, decide_eq_true_eq] at hs
      exact absurd hd hs
    · rw [heldBack, firstNonEmpty] at hback
      change ((finalTick s).plans p.id).failing = "" at hf
      change ((finalTick s).plans p.id).held = "" at hh
      rw [hf, hh] at hback
      exact absurd rfl hback
    · exact hb
  exact ⟨hb, closingHosts_refuse hp hb⟩

def contended : Snapshot where
  now := 3 * hour
  pools := [{ id := "p1", name := "large", enabled := true, minRunners := 2, maxRunners := 2,
              priority := 10, resources := { cpus := 2, memoryMB := 1024 } },
            { id := "p2", name := "small", enabled := true, minRunners := 1, maxRunners := 1,
              resources := { cpus := 1, memoryMB := 1024 } }]
  hosts := [{ id := "h1", capacity := 4, backends := ["docker"], cpus := 4, memoryMB := 16384,
              lastHeartbeat := 3 * hour }]
  distinct := by constructor <;> decide

theorem contended_short : contended.decide.actions.map (fun a => a.poolID) = ["p1", "p2"] ∧
    ∀ plan ∈ contended.decide.pools, ∀ p ∈ contended.pools, plan.poolID = p.id → p.id = "p1" →
      p.enabled = true ∧ plan.desired > plan.current + creates plan.actions ∧
        plan.failing = "" ∧ plan.held = "" ∧
        ((contended.decide.actions.filter fun a => a.kind = .create).length : Int) ≠
          budgetFor contended.policy (contended.decide.pools.map PoolPlan.current).sum := by
  decide +kernel

theorem contended_blocked :
    (∃ plan ∈ contended.decide.pools, ∃ p ∈ contended.pools, plan.poolID = p.id ∧ p.id = "p1") ∧
    ∀ plan ∈ contended.decide.pools, ∀ p ∈ contended.pools, plan.poolID = p.id → p.id = "p1" →
      plan.blocked ≠ "" ∧ ((closingHosts contended p).placeAvoiding p 1 fun _ => false).1 = [] := by
  refine ⟨by decide +kernel, ?_⟩
  intro plan hplan p hp hid hp1
  obtain ⟨he, hd, hf, hh, hbudget⟩ := contended_short.2 plan hplan p hp hid hp1
  rcases (decide_conserves_work contended plan hplan p hp hid).1 he hd hf hh with hz | ⟨hb, hnone⟩
  · exact absurd hz hbudget
  · exact ⟨hb, hnone 1 _⟩

end Zoomies.Scheduler
