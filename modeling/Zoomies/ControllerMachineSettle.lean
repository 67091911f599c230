import Zoomies.ControllerMachineRelease

/-! The fleet once the purchase of a pass has been reserved. -/
namespace Zoomies.Controller
open Zoomies.Store Zoomies.Scheduler List

structure Bought (s : MachineSnapshot) (new : List Machine) : Prop where
  planned : ∀ m ∈ new, ∃ plan ∈ (decideMachines s).providers, plan.providerID = m.providerID
  count : ∀ plan ∈ (decideMachines s).providers,
    (new.countP fun m => m.providerID == plan.providerID : Nat) = plan.create
  reserved : ∀ m ∈ new, m.state = .planned ∧ m.test = false ∧ m.resourceID = ""
  shape : ∀ m ∈ new, ∀ p ∈ s.providers, p.id = m.providerID → m.capacity = p.machineCapacity
  later : ∀ m ∈ new, ∀ old ∈ s.machines, old.createdAt < m.createdAt
  ids : (new.map Machine.id).Nodup
  apart : ∀ m ∈ new, ∀ old ∈ s.machines, m.id ≠ old.id

def afterBuying (s : MachineSnapshot) (new : List Machine) : MachineSnapshot :=
  { s with machines := s.machines ++ new }

def OwnFirst (s : MachineSnapshot) (new : List Machine) : Prop :=
  ∀ charge ∈ (poolWalk s).demand, ∀ pool ∈ s.pools, pool.id = charge.2.poolID →
    ∀ own ∈ new, own.providerID = charge.1 →
    ∀ other ∈ new, other.providerID ≠ charge.1 → comingFor s pool other = true →
      compareLex (compareOn Machine.createdAt) (compareOn Machine.id) own other = .lt

section
variable {s : MachineSnapshot} {new : List Machine} (hb : Bought s new)
include hb

theorem sortedMachines_after :
    sortedMachines (afterBuying s new).machines = sortedMachines s.machines ++ sortedMachines new := by
  apply sortStableFunc_append
  intro old hold m hm
  have hlt : compare old.createdAt m.createdAt = .lt := compare_lt_iff_lt.mpr (hb.later m hm old hold)
  simp only [compareLex, compareOn, hlt, Ordering.then]
  rfl

theorem machinesOf_after (kind : Machine → Bool) (id : String) :
    machinesOf (afterBuying s new) kind id = machinesOf s kind id +
      (new.countP fun m => m.providerID == id && kind m : Nat) := by
  unfold machinesOf
  rw [sortedMachines_after hb, countP_append, Int.natCast_add]
  congr 2
  exact sortStableFunc_perm.countP_eq _

theorem owned_after : owned (afterBuying s new) = owned s := by
  funext id
  rw [owned, machinesOf_after hb]
  have hnone : (new.countP fun m => m.providerID == id && m.owns) = 0 := by
    rw [countP_eq_zero]
    intro m hm
    rw [Machine.owns, (hb.reserved m hm).2.2]
    simp
  rw [hnone]
  exact Int.add_zero _

theorem chargedTo_after (pool : Pool) : chargedTo (afterBuying s new) pool = chargedTo s pool := by
  unfold chargedTo
  rw [owned_after hb]
  rfl

theorem provider_of_new {m : Machine} (hm : m ∈ new) : ∃ p ∈ s.providers, p.id = m.providerID := by
  obtain ⟨plan, hplan, hid⟩ := hb.planned m hm
  obtain ⟨p, hp, hpid, -⟩ := exists_of_forall₂ (decideMachines_plans s) hplan
  exact ⟨p, mem_sortStableFunc.mp hp, hpid.symm.trans hid⟩

theorem filter_credited_after :
    (sortedMachines (afterBuying s new).machines).filter (credited (afterBuying s new)) =
      (sortedMachines s.machines).filter (credited s) ++ sortedMachines new := by
  rw [sortedMachines_after hb, filter_append]
  congr 1
  rw [filter_eq_self]
  intro m hm
  rw [sortedMachines, mem_sortStableFunc] at hm
  obtain ⟨p, hp, hid⟩ := provider_of_new hb hm
  have hknown : (byProvider s m.providerID).isSome = true := by
    rw [byProvider_isSome, decide_eq_true_iff, providerIDs, mem_dedup, ← hid]
    exact mem_map_of_mem hp
  have hcredited : credited (afterBuying s new) m = credited s m := rfl
  rw [hcredited, credited, hknown, (hb.reserved m hm).1, (hb.reserved m hm).2.1]
  rfl

theorem ids_sorted : ((sortedMachines new).map Machine.id).Nodup :=
  (sortStableFunc_perm.map Machine.id).nodup_iff.mpr hb.ids

theorem credit_new (hn : (s.providers.map Provider.id).Nodup) {m : Machine} (hm : m ∈ new)
    {p : Provider} (hp : p ∈ s.providers) (hid : p.id = m.providerID) :
    credit (afterBuying s new) m.id = providerSlots p := by
  rw [credit, filter_credited_after hb,
    ledgerOf_append_of_mem _ _ _ (ids_sorted hb) (mem_sortStableFunc.mpr hm)]
  have hprov : byProvider (afterBuying s new) m.providerID = some p := by
    rw [← hid]
    exact byProvider_of_mem hn hp
  rw [hprov, Option.getD_some, machineSlots, hb.shape m hm p hp hid, providerSlots]
  split
  · omega
  · rfl

theorem credit_old (k : String) (hk : k ∉ new.map Machine.id) :
    credit (afterBuying s new) k = credit s k := by
  rw [credit, filter_credited_after hb]
  apply ledgerOf_append
  exact fun hm => hk ((sortStableFunc_perm.map Machine.id).mem_iff.mp hm)

end

def isOf (id : String) (m : Machine) : Bool := m.providerID == id

def poolServed (s : MachineSnapshot) (id : String) (m : Machine) : Bool :=
  ((lastWith Pool.id s.pools id).map fun pool => comingFor s pool m).getD false

def Covers (s : MachineSnapshot) (new : List Machine) :
    List (String × PoolDemand) → (String → Int) → Prop
  -- the slots of the machines bought, handed out in machine order to the demands in theirs, each
  -- demand drawing on every machine that could serve its pool, leave none short
  | [], _ => True
  | e :: rest, left =>
    let d := draw Machine.id (poolServed s e.2.poolID) (sortedMachines new) e.2.slots left
    d.short ≤ 0 ∧ Covers s new rest d.left

structure Follows (new : List Machine) (w w' : PoolWalk) : Prop where
  free : w'.free = w.free
  credit : ∀ k, k ∉ new.map Machine.id → w'.credit k = w.credit k
  nothing : w'.demand = []

section
variable {s : MachineSnapshot} {new : List Machine}

theorem covers_congr {demand : List (String × PoolDemand)} {left left' : String → Int}
    (h : ∀ k ∈ new.map Machine.id, left k = left' k) :
    Covers s new demand left ↔ Covers s new demand left' := by
  induction demand generalizing left left' with
  | nil => exact Iff.rfl
  | cons e rest ih =>
    have hkeys : ∀ m ∈ sortedMachines new, m.id ∈ new.map Machine.id :=
      fun m hm => mem_map_of_mem (mem_sortStableFunc.mp hm)
    obtain ⟨hshort, hleft⟩ := @foldl_drawStep_congr _ Machine.id _ (poolServed s e.2.poolID)
      ⟨e.2.slots, left, []⟩ ⟨e.2.slots, left', []⟩ rfl _ hkeys h
    dsimp only [Covers, draw]
    rw [hshort, ih hleft]

theorem poolServed_eq (hpools : (s.pools.map Pool.id).Nodup) {pool : Pool} (hp : pool ∈ s.pools) :
    poolServed s pool.id = comingFor s pool := by
  funext m
  rw [poolServed, lastWith_of_mem Pool.id s.pools hpools pool hp]
  rfl

variable (hb : Bought s new)
include hb

variable {w w' : PoolWalk} {pool : Pool}

theorem creditDraw_after (hw : Follows new w w') {pp : PoolPlan} :
    ∃ d : Draw Machine, d.short = (creditDraw s w pool pp).short ∧
      (∀ k, k ∉ new.map Machine.id → d.left k = (creditDraw s w pool pp).left k) ∧
      (∀ k ∈ new.map Machine.id, d.left k = w'.credit k) ∧
      creditDraw (afterBuying s new) w' pool pp =
        (sortedMachines new).foldl (drawStep Machine.id (comingFor s pool)) d := by
  have hfree : freeDraw (afterBuying s new) w' pool pp = freeDraw s w pool pp := by
    unfold freeDraw
    rw [hw.free]
    rfl
  have hkeys : ∀ m ∈ sortedMachines s.machines, m.id ∉ new.map Machine.id := by
    intro m hm hin
    obtain ⟨n, hnew, hid⟩ := mem_map.mp hin
    exact hb.apart n hnew m (mem_sortStableFunc.mp hm) hid
  obtain ⟨hshort, hleft⟩ := foldl_drawStep_congr Machine.id
    ⟨(freeDraw s w pool pp).short, w'.credit, []⟩ ⟨(freeDraw s w pool pp).short, w.credit, []⟩ rfl
    hkeys hw.credit
  refine ⟨_, hshort, hleft, ?_, ?_⟩
  · intro k hk
    apply foldl_drawStep_left
    intro hin
    obtain ⟨m, hm, rfl⟩ := mem_map.mp hin
    exact hkeys m hm hk
  · rw [creditDraw, hfree, sortedMachines_after hb, draw, foldl_append]
    rfl

theorem chargeFor_after {pp : PoolPlan} {short : Int} :
    chargeFor (afterBuying s new) pool pp short = chargeFor s pool pp short := by
  unfold chargeFor
  rw [chargedTo_after hb]
  rfl

/-- One pool: what the walk that bought charges for it, the walk after the purchase draws from the
machines bought. -/
theorem follows_step (hpools : (s.pools.map Pool.id).Nodup) (hw : Follows new w w')
    (hpool : pool ∈ s.pools) {add rest : List (String × PoolDemand)}
    (hadd : (poolStep s w pool).demand = w.demand ++ add) :
    (Follows new (poolStep s w pool) (poolStep (afterBuying s new) w' pool) ∧
      (Covers s new (add ++ rest) w'.credit ↔
        Covers s new rest (poolStep (afterBuying s new) w' pool).credit)) ∨
    ((poolStep (afterBuying s new) w' pool).demand ≠ [] ∧
      ¬ Covers s new (add ++ rest) w'.credit) := by
  rcases poolStep_cases s with hsame | ⟨pp, -, -, hstep⟩
  · obtain ⟨h1, h2, h3⟩ := hsame s rfl w
    obtain ⟨h1', h2', h3'⟩ := hsame (afterBuying s new) rfl w'
    have hnone : add = [] := by
      rw [h3] at hadd
      exact append_right_eq_self.mp hadd.symm
    refine .inl ⟨⟨by rw [h1, h1', hw.free], fun k hk => ?_, by rw [h3', hw.nothing]⟩, ?_⟩
    · rw [h2, h2', hw.credit k hk]
    · rw [hnone, h2']
      exact Iff.rfl
  obtain ⟨h1, h2, h3⟩ := hstep s rfl w
  obtain ⟨h1', h2', h3'⟩ := hstep (afterBuying s new) rfl w'
  obtain ⟨d, hshort, hold, hnew, hdraw⟩ := creditDraw_after hb hw
  have hfree : (poolStep (afterBuying s new) w' pool).free = (poolStep s w pool).free := by
    rw [h1, h1']
    unfold freeDraw
    rw [hw.free]
    rfl
  have hcharged := append_cancel_left (hadd.symm.trans h3)
  rw [chargeFor_after hb, hw.nothing, nil_append] at h3'
  have hothers : ∀ k, k ∉ new.map Machine.id →
      (poolStep (afterBuying s new) w' pool).credit k = (poolStep s w pool).credit k := by
    intro k hk
    rw [h2, h2', hdraw, foldl_drawStep_left, hold k hk]
    exact fun hm => hk ((sortStableFunc_perm.map Machine.id).mem_iff.mp hm)
  by_cases hidle : creditDraw (afterBuying s new) w' pool pp = d ∧ add = []
  · -- the machines bought have nothing to give this pool, and it is not charged for
    obtain ⟨hd, hnone⟩ := hidle
    refine .inl ⟨⟨hfree, hothers, ?_⟩, ?_⟩
    · rw [h3', hd, hshort, ← hcharged, hnone]
    · rw [hnone, h2', hd, nil_append]
      exact covers_congr fun k hk => (hnew k hk).symm
  by_cases hmissing : (creditDraw s w pool pp).short ≤ 0
  · rw [if_pos hmissing] at hcharged
    refine absurd ⟨?_, hcharged⟩ hidle
    rw [hdraw]
    exact foldl_drawStep_of_short_nonpos _ (hshort.le.trans hmissing)
  rw [if_neg hmissing] at hcharged
  cases hp : chargedTo s pool with
  | none =>
    rw [chargeFor, hp] at hcharged
    refine absurd ⟨?_, hcharged⟩ hidle
    rw [hdraw]
    exact foldl_drawStep_of_not_eligible _ fun m _ => comingFor_eq_false hp
  | some p =>
    rw [chargeFor, hp] at hcharged
    -- the draw of the second walk is the one the condition asks for
    have hkeys : ∀ m ∈ sortedMachines new, m.id ∈ new.map Machine.id :=
      fun m hm => mem_map_of_mem (mem_sortStableFunc.mp hm)
    obtain ⟨hgshort, hgleft⟩ := @foldl_drawStep_congr _ Machine.id _ (comingFor s pool)
      d ⟨(creditDraw s w pool pp).short, w'.credit, []⟩ hshort _ hkeys hnew
    rw [← hdraw] at hgshort hgleft
    have hcovers : Covers s new (add ++ rest) w'.credit ↔
        (creditDraw (afterBuying s new) w' pool pp).short ≤ 0 ∧
          Covers s new rest (poolStep (afterBuying s new) w' pool).credit := by
      rw [hcharged, h2', hgshort, covers_congr hgleft, ← poolServed_eq hpools hpool]
      exact Iff.rfl
    by_cases hleft : (creditDraw (afterBuying s new) w' pool pp).short ≤ 0
    · rw [if_pos hleft] at h3'
      exact .inl ⟨⟨hfree, hothers, h3'⟩, hcovers.trans (and_iff_right hleft)⟩
    · rw [if_neg hleft, chargeFor, hp] at h3'
      exact .inr ⟨h3' ▸ cons_ne_nil _ _, fun hc => hleft (hcovers.mp hc).1⟩

/-- The run lemma: the second walk charges nothing exactly when the slots bought cover what the first
charged. -/
theorem follows_foldl (hpools : (s.pools.map Pool.id).Nodup) {l : List Pool}
    (hl : ∀ pool ∈ l, pool ∈ s.pools) {more : List (String × PoolDemand)} (w w' : PoolWalk)
    (hw : Follows new w w') (hdone : (l.foldl (poolStep s) w).demand = w.demand ++ more) :
    (l.foldl (poolStep (afterBuying s new)) w').demand = [] ↔ Covers s new more w'.credit := by
  induction l generalizing w w' more with
  | nil =>
    rw [append_right_eq_self.mp hdone.symm]
    exact iff_of_true hw.nothing trivial
  | cons pool l ih =>
    obtain ⟨add, hadd, -⟩ : ∃ add, (poolStep s w pool).demand = w.demand ++ add ∧ _ :=
      @foldl_poolStep_demand s [pool] w
    obtain ⟨rest, hrest, -⟩ := @foldl_poolStep_demand s l (poolStep s w pool)
    have hmore : more = add ++ rest := by
      rw [foldl_cons, hrest, hadd, append_assoc] at hdone
      exact (append_cancel_left hdone).symm
    rw [hmore]
    rcases follows_step hb hpools hw (hl pool mem_cons_self) hadd with ⟨hnext, hsame⟩ | ⟨hnow, hno⟩
    · rw [hsame]
      exact ih (fun q hq => hl q (mem_cons_of_mem pool hq)) _ _ hnext hrest
    · refine iff_of_false (fun hnone => hnow ?_) hno
      obtain ⟨later, hlater, -⟩ := @foldl_poolStep_demand (afterBuying s new) l
        (poolStep (afterBuying s new) w' pool)
      exact (append_eq_nil_iff.mp (hlater.symm.trans hnone)).1

theorem demand_after_iff (hpools : (s.pools.map Pool.id).Nodup) :
    (poolWalk (afterBuying s new)).demand = [] ↔
      Covers s new (poolWalk s).demand (credit (afterBuying s new)) :=
  follows_foldl hb hpools (fun _ hpool => mem_sortStableFunc.mp hpool)
    { free := free s, credit := credit s } _ ⟨rfl, credit_old hb, rfl⟩ rfl

end

section
variable {s : MachineSnapshot} {new : List Machine} (hb : Bought s new)
  (hn : (s.providers.map Provider.id).Nodup)
include hb

variable {p : Provider}

theorem bought_count (hfree : ∀ plan ∈ (decideMachines s).providers,
      plan.wanted = plan.have_ + plan.create) (hp : p ∈ s.providers) :
    (new.countP (isOf p.id) : Int) = askOf s p := by
  obtain ⟨plan, hplan, hid, hhave, hwanted⟩ := exists_of_forall₂ (decideMachines_plans s).flip
    (mem_sortStableFunc.mpr hp)
  have hcount := hb.count plan hplan
  have hask := hfree plan hplan
  rw [hid] at hcount
  have hsame : (new.countP (isOf p.id) : Int) = plan.create := hcount
  omega

include hn

/-- A demand whose provider's machines come first is covered by these alone. -/
theorem covered_by_own (hpools : (s.pools.map Pool.id).Nodup) (hfirst : OwnFirst s new)
    {e : String × PoolDemand} (he : e ∈ (poolWalk s).demand) {left : String → Int}
    (hleft : ∀ m ∈ new, 0 ≤ left m.id)
    (hroom : e.2.slots ≤ heldBy Machine.id (isOf e.1) (sortedMachines new) left) :
    let d := draw Machine.id (poolServed s e.2.poolID) (sortedMachines new) e.2.slots left
    d.short = 0 ∧ (∀ m ∈ new, isOf e.1 m = false → d.left m.id = left m.id) ∧
      heldBy Machine.id (isOf e.1) (sortedMachines new) d.left =
        heldBy Machine.id (isOf e.1) (sortedMachines new) left - e.2.slots ∧
      ∀ m ∈ new, 0 ≤ d.left m.id := by
  have hmem : ∀ m, m ∈ sortedMachines new ↔ m ∈ new := fun m => mem_sortStableFunc
  obtain ⟨hpos, pool, hpool, hid, p, hp, hpid⟩ := demand_charged s he
  obtain ⟨hserved, hserves⟩ := chargedTo_serves hp
  rw [← hid, poolServed_eq hpools hpool]
  have helig : ∀ m ∈ sortedMachines new, isOf e.1 m = true → comingFor s pool m = true := by
    intro m _ hm
    rw [isOf, beq_iff_eq, ← hpid] at hm
    rw [comingFor, hm, byProvider_of_mem hn hserved]
    exact hserves
  have hord : (sortedMachines new).Pairwise fun a b =>
      isOf e.1 b = true → comingFor s pool a = true → isOf e.1 a = true := by
    refine sortStableFunc_pairwise.imp_of_mem ?_
    intro a b ha hbm hle hown hcoming
    by_contra hother
    rw [isOf, beq_iff_eq] at hown hother
    have hlt := hfirst e he pool hpool hid b ((hmem b).mp hbm) hown a ((hmem a).mp ha) hother
      hcoming
    have hswap : compareLex (compareOn Machine.createdAt) (compareOn Machine.id) a b =
        (compareLex (compareOn Machine.createdAt) (compareOn Machine.id) b a).swap :=
      Std.OrientedCmp.eq_swap
    rw [ordered, hswap, hlt] at hle
    exact absurd hle (by decide)
  obtain ⟨h1, h2, h3, h4⟩ := draw_from_own (ids_sorted hb) helig hord ⟨e.2.slots, left, []⟩
    hpos.le (fun m hm _ => hleft m ((hmem m).mp hm)) hroom
  have hkeep : ∀ m ∈ new, isOf e.1 m = false → _ = left m.id := fun m hm hno =>
    h2 m.id fun n hnm hyes hsame => by
      rw [inj_on_of_nodup_map hb.ids ((hmem n).mp hnm) hm hsame, hno] at hyes
      exact Bool.noConfusion hyes
  refine ⟨h1, hkeep, h3, fun m hm => ?_⟩
  cases hof : isOf e.1 m with
  | true => exact h4 m ((hmem m).mpr hm) hof
  | false => exact (hleft m hm).trans_eq (hkeep m hm hof).symm

/-- With its provider's machines first, no pool takes another's slot. -/
theorem covers_of_ownFirst (hpools : (s.pools.map Pool.id).Nodup) (hfirst : OwnFirst s new)
    {rest : List (String × PoolDemand)} (hrest : ∀ e ∈ rest, e ∈ (poolWalk s).demand)
    {left : String → Int} (hleft : ∀ m ∈ new, 0 ≤ left m.id)
    (hheld : ∀ id, chargedIn rest id ≤ heldBy Machine.id (isOf id) (sortedMachines new) left) :
    Covers s new rest left := by
  induction rest generalizing left with
  | nil => trivial
  | cons e rest ih =>
    have hsplit : ∀ id, chargedIn (e :: rest) id =
        (if e.1 = id then e.2.slots else 0) + chargedIn rest id := by
      intro id
      rw [← singleton_append, chargedIn_append]
      congr 1
      by_cases hid : e.1 = id <;> simp [chargedIn, hid]
    have hnow := hheld e.1
    have hlater := chargedIn_nonneg (fun b hb => (demand_charged s (hrest b (mem_cons_of_mem _ hb))).slots) e.1
    rw [hsplit, if_pos rfl] at hnow
    obtain ⟨hshort, hkeep, hown, hnonneg⟩ := covered_by_own hb hn hpools hfirst
      (hrest e mem_cons_self) hleft (by omega)
    refine ⟨hshort.le, ih (fun b hb => hrest b (mem_cons_of_mem _ hb)) hnonneg fun id => ?_⟩
    by_cases hid : e.1 = id
    · rw [← hid, hown]
      omega
    · have hsame := hheld id
      rw [hsplit, if_neg hid, zero_add] at hsame
      refine hsame.trans_eq (heldBy_congr fun m hm hof => ?_)
      refine (hkeep m (mem_sortStableFunc.mp hm) ?_).symm
      rw [isOf, beq_iff_eq] at hof
      rw [isOf, hof]
      exact beq_eq_false_iff_ne.mpr (Ne.symm hid)

variable (hfree : ∀ plan ∈ (decideMachines s).providers, plan.wanted = plan.have_ + plan.create)
include hfree

/-- What is bought of a provider has the slots that were charged to it. -/
theorem held_at_start (hp : p ∈ s.providers) : chargedIn (poolWalk s).demand p.id ≤
    heldBy Machine.id (isOf p.id) (sortedMachines new) (credit (afterBuying s new)) := by
  have hslots : 0 < providerSlots p := by
    unfold providerSlots
    omega
  have hall : ((sortedMachines new).filter (isOf p.id)).map
      (fun m => credit (afterBuying s new) m.id) =
      List.replicate ((sortedMachines new).filter (isOf p.id)).length (providerSlots p) := by
    rw [← map_const']
    apply map_congr_left
    intro m hm
    obtain ⟨hmem, hof⟩ := mem_filter.mp hm
    rw [isOf, beq_iff_eq] at hof
    exact credit_new hb hn (mem_sortStableFunc.mp hmem) hp hof.symm
  have hfloor := floorOf_nonneg s p
  rw [heldBy, hall, sum_replicate, ← countP_eq_length_filter, sortedMachines,
    sortStableFunc_perm.countP_eq, nsmul_eq_mul, bought_count hb hfree hp]
  calc chargedIn (poolWalk s).demand p.id ≤ wantOf s p * providerSlots p := by
        unfold wantOf demandOn
        rw [map_map]
        exact le_ceilDiv_mul hslots
    _ ≤ askOf s p * providerSlots p := by
        apply Int.mul_le_mul_of_nonneg_right
        · unfold askOf
          omega
        · exact hslots.le

theorem covers_at_start (hpools : (s.pools.map Pool.id).Nodup) (hfirst : OwnFirst s new) :
    Covers s new (poolWalk s).demand (credit (afterBuying s new)) := by
  have hleft : ∀ m ∈ new, 0 ≤ credit (afterBuying s new) m.id := by
    intro m hm
    obtain ⟨p, hp, hid⟩ := provider_of_new hb hm
    rw [credit_new hb hn hm hp hid, providerSlots]
    omega
  refine covers_of_ownFirst hb hn hpools hfirst (fun _ he => he) hleft fun id => ?_
  by_cases hid : ∃ p ∈ s.providers, p.id = id
  · obtain ⟨p, hp, rfl⟩ := hid
    exact held_at_start hb hn hfree hp
  · -- nothing is charged to a provider that is not there
    have hnone : chargedIn (poolWalk s).demand id = 0 := by
      rw [chargedIn, filter_eq_nil_iff.mpr, map_nil, sum_nil]
      intro e he heq
      obtain ⟨-, pool, -, -, p, hp, hpid⟩ := demand_charged s he
      exact hid ⟨p, (chargedTo_serves hp).1, hpid.trans (beq_iff_eq.mp heq)⟩
    rw [hnone]
    exact heldBy_nonneg fun m hm _ => hleft m (mem_sortStableFunc.mp hm)

omit hn in
theorem had_after (hp : p ∈ s.providers) :
    machinesOf (afterBuying s new) isHad p.id = machinesOf s isHad p.id + askOf s p := by
  rw [machinesOf_after hb, ← bought_count hb hfree hp]
  congr 2
  apply countP_congr
  intro m hm
  have hhad : isHad m = true := by
    rw [isHad, (hb.reserved m hm).1]
    exact Bool.or_true _
  rw [hhad, Bool.and_true, isOf]

omit hn in
/-- Once the walk charges nothing, nothing is asked of any provider. -/
theorem askOf_after_iff : (∀ p ∈ s.providers, askOf (afterBuying s new) p = 0) ↔
      (poolWalk (afterBuying s new)).demand = [] := by
  constructor
  · intro h
    rw [eq_nil_iff_forall_not_mem]
    intro e he
    obtain ⟨hpos, pool, hpool, hid, p, hp, hpid⟩ := demand_charged _ he
    have hmem := (chargedTo_serves hp).1
    have hask := h p hmem
    have hwant := wantOf_nonneg (afterBuying s new) p
    have hfloor := floorOf_nonneg (afterBuying s new) p
    have hcharged : e.2.slots ≤ ((demandOn (afterBuying s new) p.id).map PoolDemand.slots).sum := by
      refine single_le_sum ?_ _ (mem_map_of_mem (mem_map_of_mem (mem_filter.mpr ⟨he, ?_⟩)))
      · intro x hx
        obtain ⟨y, hy, rfl⟩ := mem_map.mp hx
        obtain ⟨b, hb, rfl⟩ := mem_map.mp hy
        exact (demand_charged _ (mem_of_mem_filter hb)).slots.le
      · exact beq_iff_eq.mpr hpid.symm
    have hslots : 0 < providerSlots p := by
      unfold providerSlots
      omega
    have hle := @le_ceilDiv_mul ((demandOn (afterBuying s new) p.id).map PoolDemand.slots).sum _ hslots
    have hzero : wantOf (afterBuying s new) p = 0 := by
      rw [askOf] at hask
      omega
    rw [wantOf] at hzero
    rw [hzero, zero_mul] at hle
    omega
  · intro h p hp
    have hwant : wantOf (afterBuying s new) p = 0 := by
      rw [wantOf, demandOn, h]
      rfl
    have hoffers : machinesOf (afterBuying s new) isOffering p.id =
        machinesOf s isOffering p.id + askOf s p := by
      rw [machinesOf_after hb, ← bought_count hb hfree hp]
      congr 2
      apply countP_congr
      intro m hm
      have hoffer : isOffering m = true := by
        rw [isOffering, (hb.reserved m hm).1, (hb.reserved m hm).2.1]
        rfl
      rw [hoffer, Bool.and_true, isOf]
    have hwas : p.minMachines > 0 ∧ acceptsDemand p s.now = true →
        p.minMachines - machinesOf s isOffering p.id ≤ askOf s p := by
      intro hmin
      rw [askOf, floorOf, if_pos hmin]
      omega
    rw [askOf, hwant, floorOf]
    split
    · rename_i hmin
      have hle := hwas hmin
      omega
    · rfl

end

theorem wanted_eq (s : MachineSnapshot) : (decideMachines s).providers.map ProviderPlan.wanted =
    (sortedProviders s.providers).map fun p => machinesOf s isHad p.id + askOf s p := by
  have hplans := ((decideMachines_plans s).imp fun _ _ hp => hp.2.2).flip
  have hmap := forall₂_map_left_iff.mpr (forall₂_map_right_iff.mpr hplans)
  rwa [forall₂_eq_eq_eq] at hmap

/-- Where no ceiling binds, the pass after the purchase buys nothing and wants of every provider what
the pass before wanted exactly when the slots bought, handed out in machine order, cover what was
charged; in particular when the machines of the provider a pool was charged to are counted for it
first. -/
theorem buying_settles (s : MachineSnapshot) (new : List Machine)
    (hn : (s.providers.map Provider.id).Nodup) (hpools : (s.pools.map Pool.id).Nodup)
    (hfree : ∀ plan ∈ (decideMachines s).providers, plan.wanted = plan.have_ + plan.create)
    (hb : Bought s new) :
    (List.Forall₂ (fun before after => after.providerID = before.providerID ∧ after.create = 0 ∧
      after.wanted = before.wanted)
      (decideMachines s).providers (decideMachines (afterBuying s new)).providers ↔
      Covers s new (poolWalk s).demand (credit (afterBuying s new))) ∧
    (OwnFirst s new → Covers s new (poolWalk s).demand (credit (afterBuying s new))) := by
  refine ⟨?_, covers_at_start hb hn hfree hpools⟩
  rw [← demand_after_iff hb hpools, ← askOf_after_iff hb hfree]
  constructor
  · intro h p hp
    have hsame := forall₂_map_left_iff.mpr (forall₂_map_right_iff.mpr
      (h.imp fun before after hplan => hplan.2.2.symm))
    rw [forall₂_eq_eq_eq, wanted_eq, wanted_eq] at hsame
    have hp' := map_inj_left.mp hsame p (mem_sortStableFunc.mpr hp)
    have hhad := had_after hb hfree hp
    omega
  intro hask
  have hafter := List.Forall₂.mp (fun p plan hplan hcreate => And.intro hplan hcreate)
    (decideMachines_plans (afterBuying s new)) (decideMachines_create_le (afterBuying s new))
  refine forall₂_of_common ?_ (decideMachines_plans s) hafter
  intro p hp before after hbefore hafter
  obtain ⟨hid, hhave, hwanted⟩ := hbefore
  obtain ⟨⟨hid', hhave', hwanted'⟩, hpos, hle⟩ := hafter
  have hmem : p ∈ s.providers := mem_sortStableFunc.mp hp
  have hnone := hask p hmem
  refine ⟨hid'.trans hid.symm, by omega, ?_⟩
  rw [hwanted', hwanted, hnone, had_after hb hfree hmem, Int.add_zero]

def overlappingFleet (machines : List Machine) : MachineSnapshot where
  now := 0
  plans := [{ poolID := "a", desired := 1, blockedNoEligibleHost := true },
    { poolID := "b", desired := 1, blockedNoEligibleHost := true }]
  pools := [{ id := "a", name := "a", enabled := true }, { id := "b", name := "b", enabled := true }]
  machines := machines
  providers := [
    { id := "p1"
      name := "p1"
      machineCapacity := 1
      poolSelector := [("name", "a")]
      maxMachines := 5
      maxCreatesInFlight := 5
      enabled := true },
    { id := "p2"
      name := "p2"
      machineCapacity := 1
      maxMachines := 5
      maxCreatesInFlight := 5
      enabled := true }]
  limits := { maxMachines := 10, maxCreatesInFlight := 10 }

def reservedAs (id providerID : String) : Machine where
  id := id
  providerID := providerID
  capacity := 1
  createdAt := 1

theorem buying_settles_in_order : (decideMachines (overlappingFleet [])).providers.map
      (fun plan => (plan.create, plan.wanted)) = [(1, 1), (1, 1)] ∧
    List.Forall₂ (fun before after => after.providerID = before.providerID ∧ after.create = 0 ∧
      after.wanted = before.wanted) (decideMachines (overlappingFleet [])).providers
      (decideMachines (overlappingFleet [reservedAs "m1" "p1", reservedAs "m2" "p2"])).providers := by
  refine ⟨by decide +kernel, ?_⟩
  refine (buying_settles (overlappingFleet []) [reservedAs "m1" "p1", reservedAs "m2" "p2"]
    (by decide) (by decide) (by decide +kernel) ?_).1.mpr ?_
  · constructor
    · decide +kernel
    · decide +kernel
    · decide
    · decide
    · decide
    · decide
    · decide
  · exact ⟨by decide +kernel, by decide +kernel, trivial⟩

/-- With the second provider's machine counted first, the second pool's is bought once more. -/
theorem bought_again : (decideMachines (overlappingFleet [])).providers.map
      (fun plan => (plan.providerID, plan.create, plan.wanted)) = [("p1", 1, 1), ("p2", 1, 1)] ∧
    (decideMachines (overlappingFleet [reservedAs "m2" "p1", reservedAs "m1" "p2"])).providers.map
      (fun plan => (plan.providerID, plan.create, plan.wanted)) = [("p1", 0, 1), ("p2", 1, 2)] := by
  decide +kernel

end Zoomies.Controller
