import Zoomies.ControllerMachineRuns

/-! The walk over the pools, and what is left of every pool's room and every provider's minimum. -/
namespace Zoomies.Controller
open Zoomies.Store Zoomies.Scheduler List

section
variable {s : MachineSnapshot}

variable {p : Provider}

theorem byProvider_mem {id : String} (h : byProvider s id = some p) :
    p ∈ s.providers ∧ p.id = id := by
  obtain ⟨hmem, hid⟩ := lastWith_mem h
  exact ⟨mem_sortStableFunc.mp hmem, hid⟩

theorem byProvider_of_mem (hn : (s.providers.map Provider.id).Nodup) (hp : p ∈ s.providers) :
    byProvider s p.id = some p := by
  apply lastWith_of_mem
  · exact (sortStableFunc_perm.map Provider.id).nodup_iff.mpr hn
  · exact mem_sortStableFunc.mpr hp

variable {pool : Pool}

theorem chargedTo_serves (h : chargedTo s pool = some p) :
    p ∈ s.providers ∧ providerServes p (synth s p.id) pool s.now = true := by
  have hmem : p ∈ (sortedProviders s.providers).filter fun q =>
      providerServes q (synth s q.id) pool s.now := by
    rw [chargedTo, providerFor] at h
    split at h
    · rename_i q hq
      rw [← Option.some.inj h]
      exact mem_of_mem_filter (mem_of_find?_eq_some hq)
    split at h
    · rename_i q hq
      rw [← Option.some.inj h]
      exact mem_of_mem_filter (mem_of_head? hq)
    · exact mem_of_head? h
  rw [mem_filter, sortedProviders, mem_sortStableFunc] at hmem
  exact hmem

theorem chargedTo_none (h : chargedTo s pool = none) (hp : p ∈ s.providers) :
    providerServes p (synth s p.id) pool s.now = false := by
  rw [chargedTo, providerFor] at h
  split at h
  · exact absurd h (Option.some_ne_none _)
  split at h
  · exact absurd h (Option.some_ne_none _)
  rw [head?_eq_none_iff, filter_eq_nil_iff] at h
  have hnot := h p (mem_sortStableFunc.mpr hp)
  exact Bool.not_eq_true _ ▸ hnot

theorem comingFor_eq_false (h : chargedTo s pool = none) {m : Machine} :
    comingFor s pool m = false := by
  unfold comingFor
  cases hp : byProvider s m.providerID with
  | none => rfl
  | some p => exact chargedTo_none h (byProvider_mem hp).1

end

def chargedIn (demand : List (String × PoolDemand)) (id : String) : Int :=
  ((demand.filter fun e => e.1 == id).map fun e => e.2.slots).sum

theorem chargedIn_append (d e : List (String × PoolDemand)) (id : String) :
    chargedIn (d ++ e) id = chargedIn d id + chargedIn e id := by
  unfold chargedIn
  rw [filter_append, map_append, sum_append]

theorem chargedIn_nonneg {d : List (String × PoolDemand)} (h : ∀ e ∈ d, 0 < e.2.slots)
    (id : String) : 0 ≤ chargedIn d id := by
  apply sum_nonneg
  intro x hx
  obtain ⟨e, he, rfl⟩ := mem_map.mp hx
  exact (h e (mem_of_mem_filter he)).le

section
variable (s : MachineSnapshot)

variable {w : PoolWalk}

theorem unblockedPool_ledgers {pool : Pool} {pp : PoolPlan} :
    (unblockedPool s w pool pp).free = w.free ∧ (unblockedPool s w pool pp).credit = w.credit ∧
      (unblockedPool s w pool pp).demand = w.demand := by
  unfold unblockedPool
  split
  · split <;> exact ⟨rfl, rfl, rfl⟩
  · exact ⟨rfl, rfl, rfl⟩

theorem coveredPool_ledgers {pool : Pool} {owed : Int} {used : List Machine} :
    (coveredPool s w pool owed used).free = w.free ∧
      (coveredPool s w pool owed used).credit = w.credit ∧
      (coveredPool s w pool owed used).demand = w.demand := by
  cases used <;> exact ⟨rfl, rfl, rfl⟩

def chargeFor (pool : Pool) (pp : PoolPlan) (short : Int) : List (String × PoolDemand) :=
  match chargedTo s pool with
  | none => []
  | some p =>
    [(p.id, ⟨pool.id, pool.name, short, queuedByPool s pool.id, pp.blockedNoEligibleHost⟩)]

theorem shortPool_ledgers {pool : Pool} {pp : PoolPlan} {short : Int} :
    (shortPool s w pool pp short).free = w.free ∧ (shortPool s w pool pp short).credit = w.credit ∧
      (shortPool s w pool pp short).demand = w.demand ++ chargeFor s pool pp short := by
  unfold shortPool chargeFor
  cases chargedTo s pool with
  | none => exact ⟨rfl, rfl, (append_nil _).symm⟩
  | some p => exact ⟨rfl, rfl, rfl⟩

/-- Nothing, or a draw on the free slots and the machines on their way, and a charge for what is
missing. -/
theorem poolStep_cases {pool : Pool} :
    (∀ s' : MachineSnapshot, s'.plans = s.plans → ∀ w' : PoolWalk,
      (poolStep s' w' pool).free = w'.free ∧ (poolStep s' w' pool).credit = w'.credit ∧
      (poolStep s' w' pool).demand = w'.demand) ∨
    ∃ pp, planned s pool.id = some pp ∧ 0 < pp.desired - pp.current ∧
      ∀ s' : MachineSnapshot, s'.plans = s.plans → ∀ w' : PoolWalk,
      (poolStep s' w' pool).free = (freeDraw s' w' pool pp).left ∧
      (poolStep s' w' pool).credit = (creditDraw s' w' pool pp).left ∧
      (poolStep s' w' pool).demand = w'.demand ++
        if (creditDraw s' w' pool pp).short ≤ 0 then []
        else chargeFor s' pool pp (creditDraw s' w' pool pp).short := by
  cases hpp : planned s pool.id with
  | none =>
    left
    intro s' hplans w'
    have hp : planned s' pool.id = none := by
      rw [planned, hplans]
      exact hpp
    rw [poolStep, hp]
    exact ⟨rfl, rfl, rfl⟩
  | some pp =>
    have hp : ∀ s' : MachineSnapshot, s'.plans = s.plans → planned s' pool.id = some pp := by
      intro s' hplans
      rw [planned, hplans]
      exact hpp
    by_cases hblocked : (!pp.blockedAtCapacity && !pp.blockedNoEligibleHost) = true
    · left
      intro s' hplans w'
      rw [poolStep, hp s' hplans]
      simp only [hblocked, ↓reduceIte]
      exact unblockedPool_ledgers s'
    by_cases hshort : pp.desired - pp.current ≤ 0
    · left
      intro s' hplans w'
      rw [poolStep, hp s' hplans]
      simp [hblocked, hshort]
    right
    refine ⟨pp, rfl, by omega, fun s' hplans w' => ?_⟩
    rw [poolStep, hp s' hplans]
    simp only [hblocked, hshort, ↓reduceIte, Bool.false_eq_true]
    split
    · rw [append_nil]
      exact coveredPool_ledgers s'
    · exact shortPool_ledgers s'

structure Charged (l : List Pool) (e : String × PoolDemand) : Prop where
  slots : 0 < e.2.slots
  pool : ∃ pool ∈ l, pool.id = e.2.poolID ∧ ∃ p, chargedTo s pool = some p ∧ p.id = e.1

theorem foldl_poolStep_demand {l : List Pool} (w : PoolWalk) :
    ∃ more, (l.foldl (poolStep s) w).demand = w.demand ++ more ∧ ∀ e ∈ more, Charged s l e := by
  induction l generalizing w with
  | nil => exact ⟨[], (append_nil _).symm, fun e he => absurd he not_mem_nil⟩
  | cons pool l ih =>
    obtain ⟨more, hmore, hcharged⟩ := ih (poolStep s w pool)
    have hlater : ∀ e ∈ more, Charged s (pool :: l) e := by
      intro e he
      obtain ⟨hpos, q, hq, hrest⟩ := hcharged e he
      exact ⟨hpos, q, mem_cons_of_mem _ hq, hrest⟩
    rw [foldl_cons, hmore]
    rcases poolStep_cases s with hsame | ⟨pp, -, -, hstep⟩
    · rw [(hsame s rfl w).2.2]
      exact ⟨more, rfl, hlater⟩
    rw [(hstep s rfl w).2.2, append_assoc]
    refine ⟨_, rfl, fun e he => ?_⟩
    rcases mem_append.mp he with hnew | hold
    · split at hnew
      · exact absurd hnew not_mem_nil
      rename_i hmissing
      unfold chargeFor at hnew
      split at hnew
      · exact absurd hnew not_mem_nil
      · rename_i p hp
        rw [mem_singleton.mp hnew]
        exact ⟨not_le.mp hmissing, pool, mem_cons_self, rfl, p, hp, rfl⟩
    · exact hlater e hold

theorem demand_charged {e : String × PoolDemand} (he : e ∈ (poolWalk s).demand) :
    Charged s s.pools e := by
  obtain ⟨more, hmore, hcharged⟩ := @foldl_poolStep_demand s (sortedPools s.pools)
    { free := free s, credit := credit s }
  have hall : (poolWalk s).demand = more := hmore
  obtain ⟨hpos, pool, hpool, hrest⟩ := hcharged e (hall ▸ he)
  exact ⟨hpos, pool, mem_sortStableFunc.mp hpool, hrest⟩

end

structure DistinctRows (s : MachineSnapshot) : Prop where
  providers : (s.providers.map Provider.id).Nodup
  machines : (s.machines.map Machine.id).Nodup
  hosts : (s.hosts.map Host.id).Nodup
  pools : (s.pools.map Pool.id).Nodup
  links : ∀ m ∈ s.machines, ∀ n ∈ s.machines, m.hostID = n.hostID →
    (∃ h ∈ s.hosts, h.id = m.hostID) → m = n

section
variable (s : MachineSnapshot)

variable (pool : Pool) (m : Machine)

def hostSlots : Int := ((byHost s m.hostID).map Host.effectiveCapacity).getD 0

def canServe : Bool :=
  ((byHost s m.hostID).map fun h => hostCanRun h pool s.now).getD false

def takenFrom (out : List Machine) : Int :=
  ((out.filter (canServe s pool)).map (hostSlots s)).sum

theorem takenFrom_append (out : List Machine) (m : Machine) : takenFrom s pool (out ++ [m]) =
      takenFrom s pool out + if canServe s pool m then hostSlots s m else 0 := by
  unfold takenFrom
  cases h : canServe s pool m <;> simp [h]

def MayLeave : Prop :=
  ∃ p host, byProvider s m.providerID = some p ∧ byHost s m.hostID = some host ∧
    releasable s m p host = true

structure Spared (w : DrainWalk) : Prop where
  mayLeave : ∀ m ∈ w.out, MayLeave s m
  slack : ∀ pool ∈ s.pools,
    w.slack pool.id = capacityFor s pool - (planOf s pool).desired - takenFrom s pool w.out
  room : ∀ pool ∈ s.pools, (∃ m ∈ w.out, canServe s pool m = true) →
    0 ≤ w.slack pool.id ∧ (planOf s pool).desired ≤ (planOf s pool).current
  offering : ∀ id, w.offering id =
    machinesOf s isOffering id - (w.out.countP fun m => m.providerID == id : Nat)
  minimum : ∀ p ∈ s.providers, 0 < p.minMachines → (∃ m ∈ w.out, m.providerID = p.id) →
    p.minMachines ≤ w.offering p.id

variable {s}

variable {m : Machine}

/-- Nothing, or a release that every pool its host serves and its provider's minimum can spare. -/
theorem drainStep_cases {w : DrainWalk} :
    drainStep s w m = w ∨ ∃ p host, byProvider s m.providerID = some p ∧
      byHost s m.hostID = some host ∧ releasable s m p host = true ∧
      (0 < p.minMachines → p.minMachines < w.offering p.id) ∧
      (∀ pool ∈ s.pools, hostCanRun host pool s.now = true →
        host.effectiveCapacity ≤ w.slack pool.id ∧
        (planOf s pool).desired ≤ (planOf s pool).current) ∧
      drainStep s w m = grant s w m p host := by
  unfold drainStep
  split
  · rename_i p host hp hhost
    split
    · exact .inl rfl
    rename_i hrel
    split
    · exact .inl rfl
    rename_i hmin
    split
    · rename_i hspare
      right
      refine ⟨p, host, hp, hhost, ?_, ?_, ?_, rfl⟩
      · simpa using hrel
      · intro hpos
        exact not_le.mp fun hle => hmin ⟨hpos, hle⟩
      intro pool hpool hcan
      have hserved : pool ∈ served s host :=
        mem_filter.mpr ⟨mem_sortStableFunc.mpr hpool, hcan⟩
      have hs := all_eq_true.mp hspare pool hserved
      simp only [spares, Bool.not_eq_true', Bool.or_eq_false_iff, decide_eq_false_iff_not,
        not_lt] at hs
      exact hs
    · exact .inl rfl
  · exact .inl rfl

theorem canServe_at {host : Host} (hhost : byHost s m.hostID = some host) (pool : Pool) :
    canServe s pool m = hostCanRun host pool s.now := by
  rw [canServe, hhost]
  rfl

theorem hostSlots_at {host : Host} (hhost : byHost s m.hostID = some host) :
    hostSlots s m = host.effectiveCapacity := by
  rw [hostSlots, hhost]
  rfl

variable (hd : DistinctRows s)
include hd

theorem slack_start {pool : Pool} (hpool : pool ∈ s.pools) :
    slack s pool.id = capacityFor s pool - (planOf s pool).desired := by
  apply ledgerOf_of_mem
  · exact (sortStableFunc_perm.map Pool.id).nodup_iff.mpr hd.pools
  · exact mem_sortStableFunc.mpr hpool

theorem grant_slack (w : DrainWalk) (p : Provider) {host : Host}
    (hhost : byHost s m.hostID = some host) (pool : Pool) (hpool : pool ∈ s.pools) :
    (grant s w m p host).slack pool.id =
      w.slack pool.id - if canServe s pool m then hostSlots s m else 0 := by
  have hsub : ((served s host).map Pool.id).Nodup := by
    refine List.Nodup.sublist (List.Sublist.map _ filter_sublist) ?_
    exact (sortStableFunc_perm.map Pool.id).nodup_iff.mpr hd.pools
  have hmem : pool.id ∈ (served s host).map Pool.id ↔ hostCanRun host pool s.now = true := by
    constructor
    · intro h
      obtain ⟨q, hq, hid⟩ := mem_map.mp h
      obtain ⟨hqm, hcan⟩ := mem_filter.mp hq
      rw [← inj_on_of_nodup_map hd.pools (mem_sortStableFunc.mp hqm) hpool hid]
      exact hcan
    · intro h
      exact mem_map_of_mem (mem_filter.mpr ⟨mem_sortStableFunc.mpr hpool, h⟩)
  have hspent : (grant s w m p host).slack pool.id = if pool.id ∈ (served s host).map Pool.id
      then w.slack pool.id - host.effectiveCapacity else w.slack pool.id :=
    foldl_spend Pool.id hsub _
  rw [hspent, canServe_at hhost, hostSlots_at hhost]
  simp only [hmem]
  split
  · rfl
  · exact (Int.sub_zero _).symm

/-- Releasing one more machine spares every pool and every minimum. -/
theorem spared_step {w : DrainWalk} (hw : Spared s w) : Spared s (drainStep s w m) := by
  rcases drainStep_cases with hsame | ⟨p, host, hp, hhost, hrel, hmin, hspare, hgrant⟩
  · rw [hsame]
    exact hw
  rw [hgrant]
  have hslack := grant_slack hd w p hhost
  have hserve := canServe_at hhost
  have hslots := hostSlots_at hhost
  have hpid : p.id = m.providerID := (byProvider_mem hp).2
  have hoff : ∀ id, (grant s w m p host).offering id =
      w.offering id - if m.providerID = id then 1 else 0 := by
    intro id
    by_cases hid : m.providerID = id
    · rw [if_pos hid, grant, ← hid, ← hpid]
      exact Function.update_self _ _ _
    · rw [if_neg hid, grant, Int.sub_zero]
      exact Function.update_of_ne (fun he => hid (hpid ▸ he.symm)) _ _
  have hcount : ∀ id, ((grant s w m p host).out.countP fun n => n.providerID == id : Nat) =
      (w.out.countP fun n => n.providerID == id) + if m.providerID = id then 1 else 0 := by
    intro id
    rw [grant, countP_append, countP_singleton]
    simp
  constructor
  · intro n hn
    rcases mem_append.mp hn with hold | hnew
    · exact hw.mayLeave n hold
    · rw [mem_singleton.mp hnew]
      exact ⟨p, host, hp, hhost, hrel⟩
  · intro pool hpool
    have hout : (grant s w m p host).out = w.out ++ [m] := rfl
    rw [hslack pool hpool, hw.slack pool hpool, hout, takenFrom_append]
    omega
  · intro pool hpool hany
    rw [hslack pool hpool]
    cases hcan : canServe s pool m with
    | true =>
      obtain ⟨hle, hwant⟩ := hspare pool hpool (hserve pool ▸ hcan)
      simp only [↓reduceIte, hslots]
      exact ⟨by omega, hwant⟩
    | false =>
      simp only [Bool.false_eq_true, ↓reduceIte, Int.sub_zero]
      apply hw.room pool hpool
      obtain ⟨n, hn, hcann⟩ := hany
      rcases mem_append.mp hn with hold | hnew
      · exact ⟨n, hold, hcann⟩
      · rw [mem_singleton.mp hnew, hcan] at hcann
        exact absurd hcann Bool.false_ne_true
  · intro id
    rw [hoff, hcount, hw.offering]
    split
    · omega
    · omega
  · intro q hq hpos hany
    rw [hoff]
    by_cases hid : m.providerID = q.id
    · have hpq : p = q := by
        have hq' := byProvider_of_mem hd.providers hq
        rw [← hid, hp] at hq'
        exact Option.some.inj hq'
      have hlt := hmin (hpq ▸ hpos)
      rw [hpq] at hlt
      omega
    · rw [if_neg hid, Int.sub_zero]
      apply hw.minimum q hq hpos
      obtain ⟨n, hn, hnid⟩ := hany
      rcases mem_append.mp hn with hold | hnew
      · exact ⟨n, hold, hnid⟩
      · rw [mem_singleton.mp hnew] at hnid
        exact absurd hnid hid

theorem spared_foldl (l : List Machine) (w : DrainWalk) (hw : Spared s w) :
    Spared s (l.foldl (drainStep s) w) := by
  induction l generalizing w with
  | nil => exact hw
  | cons m l ih => exact ih _ (spared_step hd hw)

theorem spared_drainable : Spared s (drainable s) := by
  apply spared_foldl hd
  constructor
  · exact fun m hm => absurd hm not_mem_nil
  · intro pool hpool
    exact (slack_start hd hpool).trans (Int.sub_zero _).symm
  · rintro pool - ⟨m, hm, -⟩
    exact absurd hm not_mem_nil
  · intro id
    exact (Int.sub_zero _).symm
  · rintro p - - ⟨m, hm, -⟩
    exact absurd hm not_mem_nil

end

section
variable (s : MachineSnapshot)

def isDrained (m : Machine) : Bool :=
  (decideMachines s).providers.any fun plan => plan.drain.contains m.id

def drained : List Machine := s.machines.filter (isDrained s)

theorem forall_plans_drain {ps : List Provider} (w : ProviderWalk)
    (hw : ∀ plan ∈ w.plans, plan.drain = idsOf (drainable s).out plan.providerID) :
    ∀ plan ∈ (ps.foldl (providerStep s) w).plans,
      plan.drain = idsOf (drainable s).out plan.providerID := by
  induction ps generalizing w with
  | nil => exact hw
  | cons p ps ih =>
    apply ih
    intro plan hplan
    rcases mem_append.mp hplan with hold | hnew
    · exact hw plan hold
    · rw [mem_singleton.mp hnew]
      rfl

theorem decideMachines_drain {plan : ProviderPlan} (hp : plan ∈ (decideMachines s).providers) :
    plan.drain = idsOf (drainable s).out plan.providerID := by
  unfold decideMachines at hp
  split at hp
  · exact absurd hp not_mem_nil
  · exact forall_plans_drain s _ (fun q hq => absurd hq not_mem_nil) plan hp

theorem foldl_drainStep_out {l : List Machine} (w : DrainWalk) :
    ∃ more, (l.foldl (drainStep s) w).out = w.out ++ more ∧ more.Sublist l := by
  induction l generalizing w with
  | nil => exact ⟨[], (append_nil _).symm, List.Sublist.slnil⟩
  | cons m l ih =>
    obtain ⟨more, hmore, hsub⟩ := ih (drainStep s w m)
    rw [foldl_cons, hmore]
    rcases drainStep_cases with hsame | ⟨p, host, -, -, -, -, -, hgrant⟩
    · rw [hsame]
      exact ⟨more, rfl, hsub.cons m⟩
    refine ⟨m :: more, ?_, hsub.cons_cons m⟩
    rw [hgrant]
    exact append_assoc _ _ _

theorem out_sublist : (drainable s).out.Sublist (candidates s) := by
  obtain ⟨more, hmore, hsub⟩ := foldl_drainStep_out s
    { slack := slack s, offering := fun id => machinesOf s isOffering id }
  have hout : (drainable s).out = more := hmore
  rw [hout]
  exact hsub

theorem candidates_perm : (candidates s).Perm s.machines :=
  sortStableFunc_perm.trans sortStableFunc_perm

theorem mem_of_mem_out {m : Machine} (hm : m ∈ (drainable s).out) : m ∈ s.machines :=
  (candidates_perm s).mem_iff.mp ((out_sublist s).subset hm)

variable (hd : DistinctRows s)
include hd

theorem out_ids_nodup : ((drainable s).out.map Machine.id).Nodup := by
  refine List.Nodup.sublist ((out_sublist s).map Machine.id) ?_
  exact ((candidates_perm s).map Machine.id).nodup_iff.mpr hd.machines

theorem mem_drained (m : Machine) : m ∈ drained s ↔ m ∈ (drainable s).out := by
  unfold drained isDrained
  rw [mem_filter, any_eq_true]
  constructor
  · rintro ⟨hm, plan, hplan, hin⟩
    rw [contains_iff_mem, decideMachines_drain s hplan, idsOf] at hin
    obtain ⟨n, hn, hid⟩ := mem_map.mp hin
    have hout := mem_of_mem_filter hn
    rw [← inj_on_of_nodup_map hd.machines (mem_of_mem_out s hout) hm hid]
    exact hout
  intro hm
  refine ⟨mem_of_mem_out s hm, ?_⟩
  obtain ⟨p, host, hp, -, -⟩ := (spared_drainable hd).mayLeave m hm
  obtain ⟨hpm, hpid⟩ := byProvider_mem hp
  obtain ⟨plan, hplan, hid, -, -⟩ := exists_of_forall₂ (decideMachines_plans s).flip
    (mem_sortStableFunc.mpr hpm)
  refine ⟨plan, hplan, ?_⟩
  rw [contains_iff_mem, decideMachines_drain s hplan, idsOf]
  apply mem_map_of_mem
  rw [mem_filter, beq_iff_eq]
  exact ⟨hm, (hid.trans hpid).symm⟩

def hostDrained (h : Host) : Bool := (drained s).any fun m => m.hostID == h.id

omit hd in
theorem byHost_mem {id : String} {h : Host} (hh : byHost s id = some h) :
    h ∈ s.hosts ∧ h.id = id := by
  obtain ⟨hmem, hid⟩ := lastWith_mem hh
  exact ⟨mem_sortStableFunc.mp hmem, hid⟩

theorem byHost_of_mem (h : Host) (hh : h ∈ s.hosts) : byHost s h.id = some h := by
  apply lastWith_of_mem
  · exact (sortStableFunc_perm.map Host.id).nodup_iff.mpr hd.hosts
  · exact mem_sortStableFunc.mpr hh

def capacityLeft (pool : Pool) : Int :=
  ((s.hosts.filter fun h => hostCanRun h pool s.now && !hostDrained s h).map
    Host.effectiveCapacity).sum

theorem host_of_out {m : Machine} (hm : m ∈ (drainable s).out) :
    ∃ h ∈ s.hosts, h.id = m.hostID ∧ byHost s m.hostID = some h := by
  obtain ⟨-, host, -, hhost, -⟩ := (spared_drainable hd).mayLeave m hm
  obtain ⟨hmem, hid⟩ := byHost_mem s hhost
  exact ⟨host, hmem, hid, hhost⟩

theorem drained_hosts_perm (pool : Pool) :
    ((s.hosts.filter fun h => hostCanRun h pool s.now && hostDrained s h).map Host.id).Perm
      (((drainable s).out.filter (canServe s pool)).map Machine.hostID) := by
  have hhosts : ((s.hosts.filter fun h => hostCanRun h pool s.now && hostDrained s h).map
      Host.id).Nodup :=
    List.Nodup.sublist (List.Sublist.map _ filter_sublist) hd.hosts
  have hout : (((drainable s).out.filter (canServe s pool)).map Machine.hostID).Nodup := by
    refine List.Nodup.map_on ?_ ((List.Nodup.of_map _ (out_ids_nodup s hd)).filter _)
    intro m hm n hn he
    have hmo := mem_of_mem_filter hm
    obtain ⟨h, hh, hid, -⟩ := host_of_out s hd hmo
    exact hd.links m (mem_of_mem_out s hmo) n (mem_of_mem_out s (mem_of_mem_filter hn)) he
      ⟨h, hh, hid⟩
  rw [perm_ext_iff_of_nodup hhosts hout]
  intro id
  rw [mem_map, mem_map]
  constructor
  · rintro ⟨h, hmem, rfl⟩
    rw [mem_filter, Bool.and_eq_true, hostDrained, any_eq_true] at hmem
    obtain ⟨hh, hcan, m, hm, hmid⟩ := hmem
    rw [beq_iff_eq] at hmid
    refine ⟨m, mem_filter.mpr ⟨(mem_drained s hd m).mp hm, ?_⟩, hmid⟩
    rw [canServe, hmid, byHost_of_mem s hd h hh]
    exact hcan
  · rintro ⟨m, hmem, rfl⟩
    obtain ⟨hm, hcan⟩ := mem_filter.mp hmem
    obtain ⟨h, hh, hid, hby⟩ := host_of_out s hd hm
    rw [canServe, hby] at hcan
    refine ⟨h, mem_filter.mpr ⟨hh, ?_⟩, hid⟩
    rw [Bool.and_eq_true, hostDrained, any_eq_true]
    exact ⟨hcan, m, (mem_drained s hd m).mpr hm, beq_iff_eq.mpr hid.symm⟩

theorem capacityFor_split (pool : Pool) :
    capacityFor s pool = capacityLeft s pool + takenFrom s pool (drainable s).out := by
  have hall : capacityFor s pool =
      ((s.hosts.filter fun h => hostCanRun h pool s.now).map Host.effectiveCapacity).sum :=
    ((sortStableFunc_perm.filter _).map _).sum_eq
  have hsplit : ((s.hosts.filter fun h => hostCanRun h pool s.now).map Host.effectiveCapacity).sum =
      capacityLeft s pool +
        ((s.hosts.filter fun h => hostCanRun h pool s.now && hostDrained s h).map
          Host.effectiveCapacity).sum := by
    unfold capacityLeft
    induction s.hosts with
    | nil => rfl
    | cons h hosts ih =>
      cases hcan : hostCanRun h pool s.now <;> cases hdr : hostDrained s h <;>
        simp only [filter_cons, hcan, hdr, Bool.and_true, Bool.and_false, Bool.not_true,
          Bool.not_false, ↓reduceIte, Bool.false_eq_true, map_cons, sum_cons, ih] <;> omega
  have htaken : ((s.hosts.filter fun h => hostCanRun h pool s.now && hostDrained s h).map
      Host.effectiveCapacity).sum = takenFrom s pool (drainable s).out := by
    have hids := ((drained_hosts_perm s hd pool).map
      fun id => ((byHost s id).map Host.effectiveCapacity).getD 0).sum_eq
    rw [map_map, map_map] at hids
    have hslots : ∀ h ∈ s.hosts.filter fun h => hostCanRun h pool s.now && hostDrained s h,
        ((fun id => ((byHost s id).map Host.effectiveCapacity).getD 0) ∘ Host.id) h =
          h.effectiveCapacity := by
      intro h hh
      rw [Function.comp_apply, byHost_of_mem s hd h (mem_of_mem_filter hh)]
      rfl
    rw [map_congr_left hslots] at hids
    exact hids
  rw [hall, hsplit, htaken]

theorem room_left {pool : Pool} (hpool : pool ∈ s.pools)
    (hany : ∃ h ∈ s.hosts, hostDrained s h = true ∧ hostCanRun h pool s.now = true) :
    (planOf s pool).desired ≤ (planOf s pool).current ∧
      (planOf s pool).desired ≤ capacityLeft s pool := by
  have hspared := spared_drainable hd
  have hserved : ∃ m ∈ (drainable s).out, canServe s pool m = true := by
    obtain ⟨h, hh, hdr, hcan⟩ := hany
    obtain ⟨m, hm, hid⟩ := any_eq_true.mp hdr
    rw [beq_iff_eq] at hid
    refine ⟨m, (mem_drained s hd m).mp hm, ?_⟩
    rw [canServe, hid, byHost_of_mem s hd h hh]
    exact hcan
  obtain ⟨hpos, hcur⟩ := hspared.room pool hpool hserved
  have hslack := hspared.slack pool hpool
  have hsplit := capacityFor_split s hd pool
  exact ⟨hcur, by omega⟩

end

end Zoomies.Controller
