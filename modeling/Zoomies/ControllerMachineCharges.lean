import Zoomies.ControllerMachineRelease

/-! Who is asked for what once machines have been released, and what is bought then. -/
namespace Zoomies.Controller
open Zoomies.Store Zoomies.Scheduler List Zoomies.Go

def afterRelease (s : MachineSnapshot) : MachineSnapshot :=
  { s with
    machines := s.machines.filter fun m => !isDrained s m
    hosts := s.hosts.filter fun h => !hostDrained s h }

section
variable {s : MachineSnapshot} (hd : DistinctRows s)

theorem sortedHosts_after (hd : DistinctRows s) : sortedHostsForMachines (afterRelease s).hosts =
      (sortedHostsForMachines s.hosts).filter fun h => !hostDrained s h := by
  apply sortStableFunc_filter hd.hosts
  intro a b h
  exact compare_eq_iff_eq.mp h

theorem sortedMachines_afterRelease (hd : DistinctRows s) :
    sortedMachines (afterRelease s).machines =
      (sortedMachines s.machines).filter fun m => !isDrained s m := by
  apply sortStableFunc_filter hd.machines
  intro a b h
  rw [compareLex, Ordering.then_eq_eq] at h
  exact compare_eq_iff_eq.mp h.2

include hd

theorem drained_perm : (drained s).Perm (drainable s).out := by
  have hdr : (drained s).Nodup := (List.Nodup.of_map _ hd.machines).filter _
  have hout : (drainable s).out.Nodup := List.Nodup.of_map _ (out_ids_nodup s hd)
  rw [perm_ext_iff_of_nodup hdr hout]
  exact mem_drained s hd

variable (kind : Machine → Bool) (id : String)

theorem machinesOf_split : machinesOf s kind id = machinesOf (afterRelease s) kind id +
      ((drainable s).out.countP fun m => m.providerID == id && kind m : Nat) := by
  have hall : machinesOf s kind id =
      (s.machines.countP fun m => m.providerID == id && kind m : Nat) := by
    unfold machinesOf sortedMachines
    rw [sortStableFunc_perm.countP_eq]
  have hleft : machinesOf (afterRelease s) kind id = ((s.machines.filter fun m => !isDrained s m).countP
      fun m => m.providerID == id && kind m : Nat) := by
    unfold machinesOf sortedMachines
    rw [sortStableFunc_perm.countP_eq]
    rfl
  have hout := (drained_perm hd).countP_eq fun m => m.providerID == id && kind m
  have hparts := countP_eq_countP_filter_add s.machines
  rw [drained] at hout
  rw [hall, hleft, ← hout, hparts, Int.natCast_add, Int.add_comm]

theorem ready_of_out {m : Machine} (hm : m ∈ (drainable s).out) :
    m.state = .ready ∧ m.test = false := by
  obtain ⟨p, host, -, -, hrel⟩ := (spared_drainable hd).mayLeave m hm
  simp only [releasable, Bool.and_eq_true, Bool.not_eq_true', beq_iff_eq] at hrel
  exact ⟨hrel.1.1.1.1.2, hrel.1.1.2⟩

theorem minimum_left {p : Provider} (hp : p ∈ s.providers) (hpos : 0 < p.minMachines)
    (hany : ∃ m ∈ drained s, m.providerID = p.id) :
    p.minMachines ≤ machinesOf (afterRelease s) isOffering p.id := by
  have hspared := spared_drainable hd
  obtain ⟨m, hm, hid⟩ := hany
  have hmin := hspared.minimum p hp hpos ⟨m, (mem_drained s hd m).mp hm, hid⟩
  have hoff := hspared.offering p.id
  have hsplit := machinesOf_split hd isOffering p.id
  have hsame : ((drainable s).out.countP fun m => m.providerID == p.id && isOffering m) =
      (drainable s).out.countP fun m => m.providerID == p.id := by
    apply countP_congr
    intro n hn
    have hoffers : isOffering n = true := by
      rw [isOffering, (ready_of_out hd hn).1, (ready_of_out hd hn).2]
      rfl
    rw [hoffers, Bool.and_true]
  omega

theorem pending_kept : machinesOf (afterRelease s) isPending id = machinesOf s isPending id := by
  have hsplit := machinesOf_split hd isPending id
  have hnone : ((drainable s).out.countP fun m => m.providerID == id && isPending m) = 0 := by
    rw [countP_eq_zero]
    intro m hm
    rw [isPending, (ready_of_out hd hm).1]
    simp [MachineState.pending]
  omega

theorem machinesOf_kept {id : String}
    (hnone : ∀ m ∈ drained s, m.providerID ≠ id) :
    machinesOf (afterRelease s) kind id = machinesOf s kind id := by
  have hsplit := machinesOf_split hd kind id
  have hzero : ((drainable s).out.countP fun m => m.providerID == id && kind m) = 0 := by
    rw [countP_eq_zero]
    intro m hm hc
    rw [Bool.and_eq_true, beq_iff_eq] at hc
    exact hnone m ((mem_drained s hd m).mpr hm) hc.1
  omega

theorem machinesOf_le : machinesOf (afterRelease s) kind id ≤ machinesOf s kind id := by
  have hsplit := machinesOf_split hd kind id
  omega

end

section
variable (s : MachineSnapshot) (hd : DistinctRows s)

structure SameDemand {β : Type} (view : String × PoolDemand → β) (w w' : PoolWalk) : Prop where
  free : ∀ k, (∀ h ∈ s.hosts, hostDrained s h = true → h.id ≠ k) → w'.free k = w.free k
  credit : w'.credit = w.credit
  demand : w'.demand.map view = w.demand.map view

include hd

theorem free_after (k : String) (hk : ∀ h ∈ s.hosts, hostDrained s h = true → h.id ≠ k) :
    free (afterRelease s) k = free s k := by
  unfold free
  rw [sortedHosts_after hd]
  have hsorted : ((sortedHostsForMachines s.hosts).map Host.id).Nodup :=
    (sortStableFunc_perm.map Host.id).nodup_iff.mpr hd.hosts
  have hmem : ∀ h, h ∈ sortedHostsForMachines s.hosts ↔ h ∈ s.hosts :=
    fun h => mem_sortStableFunc
  have hkept : (((sortedHostsForMachines s.hosts).filter fun h => !hostDrained s h).map
      Host.id).Nodup := List.Nodup.sublist (List.Sublist.map _ filter_sublist) hsorted
  by_cases hin : k ∈ (sortedHostsForMachines s.hosts).map Host.id
  · obtain ⟨h, hh, rfl⟩ := mem_map.mp hin
    have hnot : hostDrained s h = false := by
      cases hdr : hostDrained s h with
      | false => rfl
      | true => exact absurd rfl (hk h ((hmem h).mp hh) hdr)
    rw [ledgerOf_of_mem _ _ hsorted hh,
      ledgerOf_of_mem _ _ hkept (mem_filter.mpr ⟨hh, by rw [hnot]; rfl⟩)]
  · rw [ledgerOf_of_not_mem _ _ hin]
    apply ledgerOf_of_not_mem
    intro hk'
    exact hin (List.Sublist.subset (List.Sublist.map _ filter_sublist) hk')

theorem filter_credited_release :
    (sortedMachines (afterRelease s).machines).filter (credited (afterRelease s)) =
      (sortedMachines s.machines).filter (credited s) := by
  rw [sortedMachines_afterRelease hd, filter_filter]
  apply filter_congr
  intro m hm
  have hcredited : credited (afterRelease s) m = credited s m := rfl
  rw [hcredited]
  cases hdr : isDrained s m with
  | false => rw [Bool.not_false, Bool.and_true]
  | true =>
    have hout : m ∈ (drainable s).out := (mem_drained s hd m).mp
      (mem_filter.mpr ⟨mem_sortStableFunc.mp hm, hdr⟩)
    rw [credited, (ready_of_out hd hout).1]
    simp [MachineState.pending]

theorem credit_after : credit (afterRelease s) = credit s := by
  rw [credit, filter_credited_release s hd]
  rfl

theorem credit_drained (m : Machine) (hm : m ∈ s.machines) (hdr : isDrained s m = true) :
    credit s m.id ≤ 0 := by
  have hzero : credit s m.id = 0 := by
    apply ledgerOf_of_not_mem
    intro hin
    obtain ⟨n, hn, hid⟩ := mem_map.mp hin
    obtain ⟨hnm, hcr⟩ := mem_filter.mp hn
    have hsame : n = m :=
      inj_on_of_nodup_map hd.machines (mem_sortStableFunc.mp hnm) hm hid
    rw [hsame, credited] at hcr
    have hout : m ∈ (drainable s).out :=
      (mem_drained s hd m).mp (mem_filter.mpr ⟨hm, hdr⟩)
    rw [(ready_of_out hd hout).1] at hcr
    simp [MachineState.pending] at hcr
  omega

/-- A pool draws the same once the drained hosts are gone. -/
theorem draws_after {β : Type} {view : String × PoolDemand → β} {w w' : PoolWalk}
    (hw : SameDemand s view w w')
    (hcredit : ∀ m ∈ s.machines, isDrained s m = true → w.credit m.id ≤ 0)
    {pool : Pool} (hpool : pool ∈ s.pools) {pp : PoolPlan} (hpp : planned s pool.id = some pp)
    (hshort : 0 < pp.desired - pp.current) :
    (∀ k, (∀ h ∈ s.hosts, hostDrained s h = true → h.id ≠ k) →
      (freeDraw (afterRelease s) w' pool pp).left k = (freeDraw s w pool pp).left k) ∧
    creditDraw (afterRelease s) w' pool pp = creditDraw s w pool pp := by
  have hsorted : ((sortedHostsForMachines s.hosts).map Host.id).Nodup :=
    (sortStableFunc_perm.map Host.id).nodup_iff.mpr hd.hosts
  have hmachines : ((sortedMachines s.machines).map Machine.id).Nodup :=
    (sortStableFunc_perm.map Machine.id).nodup_iff.mpr hd.machines
  have hidle : ∀ h ∈ s.hosts, hostDrained s h = true → hostCanRun h pool s.now = false := by
    intro h hh hdr
    cases hcan : hostCanRun h pool s.now with
    | false => rfl
    | true =>
      have hroom := (room_left s hd hpool ⟨h, hh, hdr, hcan⟩).1
      rw [planOf, hpp, Option.getD_some] at hroom
      omega
  have hkeep : ∀ h ∈ (sortedHostsForMachines s.hosts).filter fun h => !hostDrained s h,
      ∀ g ∈ s.hosts, hostDrained s g = true → g.id ≠ h.id := by
    intro h hh g hg hdr he
    obtain ⟨hm, hno⟩ := mem_filter.mp hh
    rw [inj_on_of_nodup_map hd.hosts hg (mem_sortStableFunc.mp hm) he] at hdr
    rw [hdr] at hno
    exact absurd hno Bool.false_ne_true
  -- first leave the released hosts out of the list, then exchange the ledgers
  have hfilter := foldl_drawStep_filter Host.id hsorted ⟨pp.desired - pp.current, w.free, []⟩ (by
      intro h hh hno
      rw [Bool.not_eq_false'] at hno
      exact .inl (hidle h (mem_sortStableFunc.mp hh) hno))
  obtain ⟨hsame, hleft⟩ := foldl_drawStep_congr Host.id
    ⟨pp.desired - pp.current, w'.free, []⟩ ⟨pp.desired - pp.current, w.free, []⟩ rfl hkeep hw.free
  rw [hfilter] at hsame hleft
  have hdraw : freeDraw (afterRelease s) w' pool pp =
      ((sortedHostsForMachines s.hosts).filter fun h => !hostDrained s h).foldl
        (drawStep Host.id fun h => hostCanRun h pool s.now)
        ⟨pp.desired - pp.current, w'.free, []⟩ := by
    rw [freeDraw, draw, sortedHosts_after hd]
    rfl
  refine ⟨fun k hk => ?_, ?_⟩
  · rw [hdraw]
    exact hleft k hk
  rw [creditDraw, hdraw, hsame, hw.credit, draw, sortedMachines_afterRelease hd]
  apply foldl_drawStep_filter Machine.id hmachines
  intro m hm hno
  rw [Bool.not_eq_false'] at hno
  exact .inr (hcredit m (mem_sortStableFunc.mp hm) hno)

variable {β : Type} {view : String × PoolDemand → β}
  (hview : ∀ pool pp short, (chargeFor (afterRelease s) pool pp short).map view =
    (chargeFor s pool pp short).map view)
include hview

theorem sameDemand_step {w w' : PoolWalk} (hw : SameDemand s view w w')
    (hcredit : ∀ m ∈ s.machines, isDrained s m = true → w.credit m.id ≤ 0)
    {pool : Pool} (hpool : pool ∈ s.pools) :
    SameDemand s view (poolStep s w pool) (poolStep (afterRelease s) w' pool) ∧
      ∀ m ∈ s.machines, isDrained s m = true → (poolStep s w pool).credit m.id ≤ 0 := by
  rcases poolStep_cases s with hsame | ⟨pp, hpp, hshort, hstep⟩
  · obtain ⟨h1, h2, h3⟩ := hsame s rfl w
    obtain ⟨h1', h2', h3'⟩ := hsame (afterRelease s) rfl w'
    refine ⟨⟨?_, ?_, ?_⟩, ?_⟩
    · intro k hk
      rw [h1, h1', hw.free k hk]
    · rw [h2, h2', hw.credit]
    · rw [h3, h3', hw.demand]
    · rw [h2]
      exact hcredit
  · obtain ⟨h1, h2, h3⟩ := hstep s rfl w
    obtain ⟨h1', h2', h3'⟩ := hstep (afterRelease s) rfl w'
    obtain ⟨hfree, hdraw⟩ := draws_after s hd hw hcredit hpool hpp hshort
    refine ⟨⟨?_, ?_, ?_⟩, ?_⟩
    · intro k hk
      rw [h1, h1', hfree k hk]
    · rw [h2, h2', hdraw]
    · rw [h3, h3', hdraw, map_append, map_append, hw.demand]
      congr 1
      split
      · rfl
      · exact hview pool pp _
    intro m hm hdr
    rw [h2, creditDraw, draw, foldl_drawStep_left_of_nonpos _ _ (hcredit m hm hdr)]
    exact hcredit m hm hdr

theorem sameDemand_foldl {l : List Pool} (hl : ∀ pool ∈ l, pool ∈ s.pools) (w w' : PoolWalk)
    (hw : SameDemand s view w w')
    (hcredit : ∀ m ∈ s.machines, isDrained s m = true → w.credit m.id ≤ 0) :
    SameDemand s view (l.foldl (poolStep s) w) (l.foldl (poolStep (afterRelease s)) w') := by
  induction l generalizing w w' with
  | nil => exact hw
  | cons pool l ih =>
    obtain ⟨hnext, hcr⟩ := sameDemand_step s hd hview hw hcredit (hl pool mem_cons_self)
    exact ih (fun q hq => hl q (mem_cons_of_mem pool hq)) _ _ hnext hcr

theorem demand_afterRelease :
    (poolWalk (afterRelease s)).demand.map view = (poolWalk s).demand.map view :=
  (sameDemand_foldl s hd hview
    (fun _ hpool => mem_sortStableFunc.mp hpool) { free := free s, credit := credit s }
    { free := free (afterRelease s), credit := credit (afterRelease s) }
    ⟨free_after s hd, credit_after s hd, rfl⟩ (credit_drained s hd)).demand

end

section
variable (s : MachineSnapshot) (hd : DistinctRows s)

theorem chargedTo_eq_none_iff (pool : Pool) : chargedTo s pool = none ↔
    ∀ p ∈ s.providers, providerServes p (synth s p.id) pool s.now = false := by
  constructor
  · intro h p
    exact chargedTo_none h
  · intro h
    cases hp : chargedTo s pool with
    | none => rfl
    | some p =>
      obtain ⟨hmem, hserves⟩ := chargedTo_serves hp
      exact absurd ((h p hmem).symm.trans hserves) Bool.false_ne_true

theorem chargedTo_isNone_after (pool : Pool) :
    chargedTo (afterRelease s) pool = none ↔ chargedTo s pool = none := by
  rw [chargedTo_eq_none_iff, chargedTo_eq_none_iff]
  rfl

theorem chargeFor_slots_after (pool : Pool) (pp : PoolPlan) (short : Int) :
    (chargeFor (afterRelease s) pool pp short).map Prod.snd =
      (chargeFor s pool pp short).map Prod.snd := by
  have hnone := chargedTo_isNone_after s pool
  unfold chargeFor
  cases hp : chargedTo s pool with
  | none => rw [hnone.mpr hp]
  | some p =>
    cases hp' : chargedTo (afterRelease s) pool with
    | none => exact absurd ((hnone.mp hp').symm.trans hp) (Option.some_ne_none p).symm
    | some q => rfl

def RoomToSpare : Prop :=
  ∀ p ∈ s.providers, (∃ m ∈ drained s, m.providerID = p.id) → owned s p.id < p.maxMachines

include hd

theorem chargedTo_afterRelease (hroom : RoomToSpare s) {pool : Pool} :
    chargedTo (afterRelease s) pool = chargedTo s pool := by
  have hsame : ∀ p ∈ s.providers,
      (p.maxMachines - owned (afterRelease s) p.id ≤ 0 ↔ p.maxMachines - owned s p.id ≤ 0) := by
    intro p hp
    have hle := machinesOf_le hd Machine.owns p.id
    by_cases hany : ∃ m ∈ drained s, m.providerID = p.id
    · have hlt := hroom p hp hany
      unfold owned at *
      omega
    have hkept := machinesOf_kept hd Machine.owns fun m hm he => hany ⟨m, hm, he⟩
    unfold owned at *
    rw [hkept]
  have hfilter : (((sortedProviders s.providers).filter fun p =>
        providerServes p (synth s p.id) pool s.now).filter fun p =>
        !decide (p.maxMachines - owned (afterRelease s) p.id ≤ 0)) =
      ((sortedProviders s.providers).filter fun p =>
        providerServes p (synth s p.id) pool s.now).filter fun p =>
        !decide (p.maxMachines - owned s p.id ≤ 0) := by
    apply filter_congr
    intro p hp
    have hmem : p ∈ s.providers := mem_sortStableFunc.mp (mem_of_mem_filter hp)
    rw [decide_eq_decide.mpr (hsame p hmem)]
  unfold chargedTo providerFor
  have hsynth : synth (afterRelease s) = synth s := rfl
  have hnow : (afterRelease s).now = s.now := rfl
  have hprov : (afterRelease s).providers = s.providers := rfl
  rw [hsynth, hnow, hprov]
  dsimp only
  rw [hfilter]

theorem askOf_afterRelease (hroom : RoomToSpare s) {p : Provider} (hp : p ∈ s.providers) :
    askOf (afterRelease s) p = askOf s p := by
  have hdemand : (poolWalk (afterRelease s)).demand = (poolWalk s).demand := by
    have hcharge : ∀ pool pp short, (chargeFor (afterRelease s) pool pp short).map id =
        (chargeFor s pool pp short).map id := by
      intro pool pp short
      unfold chargeFor
      rw [chargedTo_afterRelease s hd hroom]
      rfl
    have hmap := demand_afterRelease s hd hcharge
    rw [map_id, map_id] at hmap
    exact hmap
  have hwant : wantOf (afterRelease s) p = wantOf s p := by
    rw [wantOf, wantOf, demandOn, demandOn, hdemand]
  have hfloor : floorOf (afterRelease s) p = floorOf s p := by
    unfold floorOf
    rw [hwant]
    by_cases hmin : p.minMachines > 0 ∧ acceptsDemand p s.now = true
    · have hle := machinesOf_le hd isOffering p.id
      have hwant0 := wantOf_nonneg s p
      rw [if_pos hmin]
      have hnow : (afterRelease s).now = s.now := rfl
      rw [hnow, if_pos hmin]
      by_cases hany : ∃ m ∈ drained s, m.providerID = p.id
      · have hleft := minimum_left hd hp hmin.1 hany
        omega
      · rw [machinesOf_kept hd isOffering fun m hm he => hany ⟨m, hm, he⟩]
    · have hnow : (afterRelease s).now = s.now := rfl
      rw [hnow, if_neg hmin, if_neg hmin]
  rw [askOf, askOf, hwant, hfloor]

theorem purchases_afterRelease (hroom : RoomToSpare s) {ps : List Provider}
    (hps : ∀ p ∈ ps, p ∈ s.providers) (room room' createRoom : Int) (hle : room ≤ room')
    (hfree : purchases s Machine.owns ps room createRoom = ps.map (askOf s)) :
    purchases (afterRelease s) Machine.owns ps room' createRoom = ps.map (askOf s) := by
  induction ps generalizing room room' createRoom with
  | nil => rfl
  | cons p ps ih =>
    obtain ⟨hfirst, hrest⟩ := List.cons.inj hfree
    have hmem := hps p mem_cons_self
    have hask := askOf_afterRelease s hd hroom hmem
    have hnonneg := askOf_nonneg s p
    have hsame : cutTo (askOf (afterRelease s) p)
        (roomsOf (afterRelease s) Machine.owns p room' createRoom) = askOf s p := by
      apply le_antisymm
      · rw [← hask]
        exact cutTo_le _ (askOf_nonneg _ _)
      rw [hask, le_cutTo_iff _ hnonneg]
      have hwithin := (le_cutTo_iff _ hnonneg).mp hfirst.ge
      have hown := machinesOf_le hd Machine.owns p.id
      have hpend := pending_kept hd p.id
      simp only [roomsOf, forall_mem_cons, not_mem_nil, false_implies, implies_true,
        and_true] at hwithin ⊢
      omega
    rw [purchases, hsame, map_cons]
    rw [hfirst] at hrest
    rw [ih (fun q hq => hps q (mem_cons_of_mem p hq)) _ _ _ (by omega) hrest]

theorem fleetMachines_pending_kept :
    fleetMachines (afterRelease s) isPending = fleetMachines s isPending := by
  rw [← sum_machinesOf, ← sum_machinesOf]
  congr 1
  apply map_congr_left
  intro id _
  exact pending_kept hd id

theorem fleetMachines_owns_after :
    fleetMachines (afterRelease s) Machine.owns ≤ fleetMachines s Machine.owns := by
  rw [← sum_machinesOf, ← sum_machinesOf]
  apply sum_le_sum
  intro id _
  exact machinesOf_le hd Machine.owns id

theorem create_afterRelease (hroom : RoomToSpare s)
    (hfree : ∀ plan ∈ (decideMachines s).providers, plan.wanted = plan.have_ + plan.create) :
    (decideMachines (afterRelease s)).providers.map ProviderPlan.create =
      (decideMachines s).providers.map ProviderPlan.create := by
  have hbefore : (decideMachines s).providers.map ProviderPlan.create =
      (sortedProviders s.providers).map (askOf s) := by
    have hall : List.Forall₂ (fun p c => c = askOf s p) (sortedProviders s.providers)
        ((decideMachines s).providers.map ProviderPlan.create) := by
      rw [forall₂_map_right_iff]
      rw [forall₂_iff_zip]
      have hplans := decideMachines_plans s
      refine ⟨hplans.length_eq, fun {p plan} hz => ?_⟩
      obtain ⟨-, hhave, hwanted⟩ := forall₂_zip hplans hz
      have hno := hfree plan (of_mem_zip hz).2
      omega
    rw [← forall₂_eq_eq_eq, forall₂_map_right_iff]
    exact hall.flip
  rw [hbefore, decideMachines_create, purchasesCounting]
  rw [decideMachines_create, purchasesCounting] at hbefore
  have hpend := fleetMachines_pending_kept s hd
  have hown := fleetMachines_owns_after s hd
  rw [hpend]
  exact purchases_afterRelease s hd hroom (fun p hp => mem_sortStableFunc.mp hp) _ _ _
    (by have hlim : (afterRelease s).limits = s.limits := rfl
        rw [hlim]
        omega) hbefore

end

/-- A released machine is ready, no trial, and its host in service and idle: for the cooldown, and
its provider's idle timeout on top unless no enabled pool could run on it. -/
theorem idle_of_drained {s : MachineSnapshot} (hd : DistinctRows s) (m : Machine)
    (hm : m ∈ drained s) :
    m.state = .ready ∧ m.test = false ∧ ∃ p ∈ s.providers, p.id = m.providerID ∧
      ∃ host ∈ s.hosts, host.id = m.hostID ∧ host.retired = false ∧
      hasLiveRunner s host = false ∧ ∃ since, m.idleSince = some since ∧
      ((∃ pool ∈ s.pools, pool.enabled = true ∧ hostCouldRun host pool = true) →
        idleTimeout p s.limits + s.limits.scaleDownCooldown ≤ sub s.now since) ∧
      (0 ≤ idleTimeout p s.limits → s.limits.scaleDownCooldown ≤ sub s.now since) := by
  have hout := (mem_drained s hd m).mp hm
  obtain ⟨hready, htest⟩ := ready_of_out hd hout
  obtain ⟨p, host, hp, hhost, hrel⟩ := (spared_drainable hd).mayLeave m hout
  simp only [releasable, Bool.and_eq_true, Bool.not_eq_true'] at hrel
  obtain ⟨⟨⟨⟨⟨hretired, -⟩, hlive⟩, -⟩, hidle⟩, -⟩ := hrel
  obtain ⟨hpm, hpid⟩ := byProvider_mem hp
  obtain ⟨hhm, hhid⟩ := byHost_mem s hhost
  refine ⟨hready, htest, p, hpm, hpid, host, hhm, hhid, hretired, hlive, ?_⟩
  cases hsince : m.idleSince with
  | none =>
    rw [idleFor, hsince] at hidle
    exact absurd hidle Bool.false_ne_true
  | some since =>
    rw [idleFor, hsince, Option.map_some, Option.getD_some, Bool.not_eq_true',
      decide_eq_false_iff_not, not_lt, drainWait] at hidle
    refine ⟨since, rfl, ?_, ?_⟩
    · rintro ⟨pool, hpool, hen, hcould⟩
      have hsome : runsNoPool host (sortedPools s.pools) = false := by
        unfold runsNoPool
        split
        · rfl
        have hany : ((sortedPools s.pools).filter fun q => q.enabled).any
            (fun q => hostCouldRun host q) = true :=
          any_eq_true.mpr ⟨pool, mem_filter.mpr
            ⟨mem_sortStableFunc.mpr hpool, hen⟩, hcould⟩
        simp [hany]
      rw [hsome] at hidle
      exact hidle
    · intro hnonneg
      split at hidle
      · exact hidle
      · exact (le_add_of_nonneg_left hnonneg).trans hidle

/-- Releasing machines reopens no shortfall. What is released has stood idle; every pool that loses
a host keeps the room it aims at, and every provider its minimum. Deciding again finds every pool as
short as before; where every provider that gives up a machine had room under its own maximum each is
asked for what it was asked for, and buys the same if no ceiling had cut the purchase. -/
theorem release_reopens_nothing (s : MachineSnapshot) (hd : DistinctRows s) :
    (∀ m ∈ drained s, m.state = .ready ∧ m.test = false ∧
      ∃ p ∈ s.providers, p.id = m.providerID ∧ ∃ host ∈ s.hosts, host.id = m.hostID ∧
      host.retired = false ∧ hasLiveRunner s host = false ∧ ∃ since, m.idleSince = some since ∧
      ((∃ pool ∈ s.pools, pool.enabled = true ∧ hostCouldRun host pool = true) →
        idleTimeout p s.limits + s.limits.scaleDownCooldown ≤ sub s.now since) ∧
      (0 ≤ idleTimeout p s.limits → s.limits.scaleDownCooldown ≤ sub s.now since)) ∧
    (∀ pool ∈ s.pools, (∃ h ∈ s.hosts, hostDrained s h = true ∧ hostCanRun h pool s.now = true) →
      (planOf s pool).desired ≤ (planOf s pool).current ∧
      (planOf s pool).desired ≤ capacityLeft s pool) ∧
    (∀ p ∈ s.providers, 0 < p.minMachines → (∃ m ∈ drained s, m.providerID = p.id) →
      p.minMachines ≤ machinesOf (afterRelease s) isOffering p.id) ∧
    (poolWalk (afterRelease s)).demand.map Prod.snd = (poolWalk s).demand.map Prod.snd ∧
    (RoomToSpare s → List.Forall₂ (fun before after => after.providerID = before.providerID ∧
        after.wanted - after.have_ = before.wanted - before.have_ ∧
        after.create ≤ before.wanted - before.have_)
        (decideMachines s).providers (decideMachines (afterRelease s)).providers ∧
      ((∀ plan ∈ (decideMachines s).providers, plan.wanted = plan.have_ + plan.create) →
        (decideMachines (afterRelease s)).providers.map ProviderPlan.create =
          (decideMachines s).providers.map ProviderPlan.create)) := by
  refine ⟨idle_of_drained hd, fun pool hpool => room_left s hd hpool,
    fun p hp => minimum_left hd hp,
    demand_afterRelease s hd (chargeFor_slots_after s), fun hroom => ⟨?_, ?_⟩⟩
  · have hafter := List.Forall₂.mp (fun p plan hplan hcreate => And.intro hplan hcreate)
      (decideMachines_plans (afterRelease s)) (decideMachines_create_le (afterRelease s))
    refine forall₂_of_common ?_ (decideMachines_plans s) hafter
    intro p hp before after hbefore hafter
    obtain ⟨hid, hhave, hwanted⟩ := hbefore
    obtain ⟨⟨hid', hhave', hwanted'⟩, -, hle⟩ := hafter
    have hask := askOf_afterRelease s hd hroom (mem_sortStableFunc.mp hp)
    exact ⟨hid'.trans hid.symm, by omega, by omega⟩
  · exact create_afterRelease s hd hroom

def uselessFleet (maxMachines : Int) : MachineSnapshot where
  now := 100 * second
  plans := [{ poolID := "linux", desired := 1, blockedNoEligibleHost := true }]
  pools := [{ id := "linux", name := "linux", enabled := true }]
  hosts := [{ id := "host", name := "host", capacity := 1, backends := ["podman"], cpus := 4 }]
  machines := [
    { id := "m1"
      providerID := "lab"
      state := .ready
      resourceID := "101"
      hostID := "host"
      capacity := 1
      idleSince := some 0 }]
  providers := [
    { id := "lab"
      name := "lab"
      machineCapacity := 1
      maxMachines := maxMachines
      maxCreatesInFlight := 2
      enabled := true }]
  limits := {
    maxMachines := 10
    maxCreatesInFlight := 10
    idleTimeout := 600 * second
    scaleDownCooldown := 60 * second }

theorem uselessFleet_distinct {maxMachines : Int} : DistinctRows (uselessFleet maxMachines) := by
  constructor
  · exact nodup_singleton _
  · exact nodup_singleton _
  · exact nodup_singleton _
  · exact nodup_singleton _
  · intro m hm n hn _ _
    rw [mem_singleton.mp hm, mem_singleton.mp hn]

theorem release_reopens_nothing_useless : (drained (uselessFleet 2)).map Machine.id = ["m1"] ∧
    (decideMachines (uselessFleet 2)).providers.map ProviderPlan.create = [1] ∧
    (decideMachines (afterRelease (uselessFleet 2))).providers.map ProviderPlan.create = [1] := by
  have hcreate : (decideMachines (uselessFleet 2)).providers.map ProviderPlan.create = [1] := by
    decide +kernel
  refine ⟨by decide +kernel, hcreate, ?_⟩
  have hagain := (release_reopens_nothing (uselessFleet 2) uselessFleet_distinct).2.2.2.2 (by
    unfold RoomToSpare
    decide +kernel)
  rw [hagain.2 (by decide +kernel), hcreate]

/-- A provider at its maximum buys nothing until the machine it cannot use is gone. -/
theorem release_makes_room : (drained (uselessFleet 1)).map Machine.id = ["m1"] ∧
    (decideMachines (uselessFleet 1)).providers.map ProviderPlan.create = [0] ∧
    (decideMachines (afterRelease (uselessFleet 1))).providers.map ProviderPlan.create = [1] := by
  decide +kernel

end Zoomies.Controller
