import Zoomies.SchedulerRun
import Zoomies.DrawLedger
import Zoomies.KeyedList

/-! No host is overbooked: the room a pass keeps for each host is a ledger, and every create draws
on it. -/
namespace Zoomies.Scheduler
open Zoomies.Go Zoomies.Store List

def createCharge (s : Snapshot) (a : Action) : Reservation :=
  match s.pools.find? fun p => p.id == a.poolID, s.hosts.find? fun h => h.id == a.hostID with
  | some p, some h => sizeCharge p h a.size
  | _, _ => 0

theorem byHost_of_mem {α : Type} (hosts : List Host) (value : Host → α) (absent : α) (h : Host)
    (hn : (hosts.map Host.id).Nodup) (hh : h ∈ hosts) : byHost hosts value absent h.id = value h := by
  rw [byHost, find?_eq_of_nodup Host.id hn hh]
  rfl

theorem createCharge_of_mem {s : Snapshot} {a : Action} {p : Pool} {h : Host} (hp : p ∈ s.pools)
    (hh : h ∈ s.hosts) (hpa : a.poolID = p.id) (hha : a.hostID = h.id) :
    createCharge s a = sizeCharge p h a.size := by
  rw [createCharge, hpa, hha, find?_eq_of_nodup Pool.id s.distinct.poolIDs hp,
    find?_eq_of_nodup Host.id s.distinct.hostIDs hh]

structure SameFleet (hs hs' : HostSet) : Prop where
  hosts : hs'.hosts = hs.hosts
  now : hs'.now = hs.now
  alloc : hs'.alloc = hs.alloc

theorem sameFleet_charge {hs : HostSet} {p : Pool} {id : String} {res : Reservation} :
    SameFleet hs (hs.charge p id res) := ⟨rfl, rfl, rfl⟩

structure Booked (s : Snapshot) (t : Tick) : Prop where
  fleet : SameFleet (startingHosts s) t.hosts
  slots : Balanced (startingHosts s).free t.hosts.free (t.creates.map fun a => (a.hostID, 1))
  room : Balanced (startingHosts s).left t.hosts.left
    (t.creates.map fun a => (a.hostID, createCharge s a))
  memory : Balanced (startingHosts s).promisedMemory t.hosts.promisedMemory
    (t.creates.map fun a => (a.hostID, (createCharge s a).memoryMB))
  tight : ∀ id, (t.hosts.left id).memoryMB ≤ t.hosts.promisedMemory id
  creates : ∀ a ∈ t.creates, ∃ p ∈ s.pools, ∃ h ∈ s.hosts,
    p.id = a.poolID ∧ h.id = a.hostID ∧ hostCanRun h p s.now = true
  covered : ∀ a ∈ t.creates, 0 ≤ t.hosts.free a.hostID ∧
    ((t.hosts.alloc a.hostID).memoryKnown = true → 0 ≤ t.hosts.promisedMemory a.hostID) ∧
    ((t.hosts.alloc a.hostID).diskKnown = true → 0 ≤ (t.hosts.left a.hostID).diskMB) ∧
    ((t.hosts.alloc a.hostID).cpusKnown = true → -cpuEpsilon ≤ (t.hosts.left a.hostID).cpus)

theorem mem_startingHosts {s : Snapshot} {h : Host} : h ∈ (startingHosts s).hosts ↔ h ∈ s.hosts :=
  mem_sortStableFunc

theorem startingHosts_ids_nodup {s : Snapshot} : ((startingHosts s).hosts.map Host.id).Nodup :=
  (sortStableFunc_perm.map Host.id).nodup_iff.mpr s.distinct.hostIDs

theorem initialLeft_memoryMB_le {h : Host} {t : HostTotals} {now : Time} :
    (initialLeft h t now).memoryMB ≤ (unreserved h t).memoryMB := by
  unfold initialLeft
  split
  · split
    · exact min_le_left _ _
    · exact le_rfl
  · exact le_rfl

theorem startingHosts_tight {s : Snapshot} (id : String) :
    ((startingHosts s).left id).memoryMB ≤ (startingHosts s).promisedMemory id := by
  simp only [startingHosts, newHostSet, byHost]
  cases (sortedHosts s.hosts).find? fun h => h.id == id with
  | none => exact le_rfl
  | some h => exact initialLeft_memoryMB_le

theorem booked_startingTick (s : Snapshot) : Booked s (startingTick s) where
  fleet := ⟨rfl, rfl, rfl⟩
  slots := balanced_opening
  room := balanced_opening
  memory := balanced_opening
  tight := startingHosts_tight
  creates := by
    intro a ha
    cases ha
  covered := by
    intro a ha
    cases ha

theorem covered_after_charge {hs : HostSet} {p : Pool} {h : Host} {res : Reservation}
    {size : Option Resources} (ha : Affordable hs p h res size)
    (htight : (hs.left h.id).memoryMB ≤ hs.promisedMemory h.id) :
    ((hs.alloc h.id).memoryKnown = true → 0 ≤ hs.promisedMemory h.id - res.memoryMB) ∧
      ((hs.alloc h.id).diskKnown = true → 0 ≤ (hs.left h.id - res).diskMB) ∧
      ((hs.alloc h.id).cpusKnown = true → -cpuEpsilon ≤ (hs.left h.id - res).cpus) := by
  obtain ⟨hd, hc, hm⟩ := fits_iff.mp ha.fits
  refine ⟨?_, ?_, ?_⟩
  · intro hk
    have hle := hm hk
    have hpromised : (hs.leftFor h p).memoryMB ≤ hs.promisedMemory h.id := by
      unfold HostSet.leftFor HostSet.memoryLeft
      split
      · exact le_rfl
      · exact htight
    omega
  · intro hk
    have hle := (hd hk).2
    change res.diskMB ≤ (hs.left h.id).diskMB at hle
    rw [Reservation.sub_diskMB]
    omega
  · intro hk
    have hle := hc hk
    change res.cpus ≤ (hs.left h.id).cpus + cpuEpsilon at hle
    rw [Reservation.sub_cpus]
    linarith

section
variable {hs : HostSet} (p : Pool) {id : String} {res : Reservation}

theorem charge_self : (hs.charge p id res).free id = hs.free id - 1 ∧
    (hs.charge p id res).left id = hs.left id - res ∧
    (hs.charge p id res).promisedMemory id = hs.promisedMemory id - res.memoryMB :=
  ⟨Function.update_self _ _ _, Function.update_self _ _ _, Function.update_self _ _ _⟩

theorem charge_of_ne {id' : String} (hne : id' ≠ id) :
    (hs.charge p id res).free id' = hs.free id' ∧ (hs.charge p id res).left id' = hs.left id' ∧
      (hs.charge p id res).promisedMemory id' = hs.promisedMemory id' :=
  ⟨Function.update_of_ne hne _ _, Function.update_of_ne hne _ _, Function.update_of_ne hne _ _⟩

theorem tight_charge (htight : ∀ k, (hs.left k).memoryMB ≤ hs.promisedMemory k) {k : String} :
    ((hs.charge p id res).left k).memoryMB ≤ (hs.charge p id res).promisedMemory k := by
  by_cases hk : k = id
  · obtain ⟨-, hleft, hpromised⟩ := charge_self p
    rw [hk, hleft, hpromised, Reservation.sub_memoryMB]
    exact Int.sub_le_sub_right (htight id) _
  obtain ⟨-, hleft, hpromised⟩ := charge_of_ne p hk
  rw [hleft, hpromised]
  exact htight k

end

/-- A runner granted is booked on its host, and the books still balance. -/
theorem booked_granted {s : Snapshot} {pass : Pass} {p : Pool} {runners : List Runner}
    {queued : List Job} {t t' : Tick} (hp : p ∈ s.pools) (hb : Booked s t)
    (hg : Granted pass p runners queued t t') : Booked s t' := by
  obtain ⟨pl, hs', act, hplace, hhosts, hcreates, -, hpool, hhost, hsize, -⟩ := hg.placed
  obtain ⟨h, hm, res, hid, hadm, haff, hcharge⟩ := HostSet.placeOne_eq_some hplace
  have hmem : h ∈ s.hosts := by
    change h ∈ t.hosts.hosts at hm
    rw [hb.fleet.hosts] at hm
    exact mem_startingHosts.mp hm
  have hact : act.hostID = h.id := hhost.trans hid
  have hres : createCharge s act = res := by
    rw [createCharge_of_mem hp hmem hpool hact, hsize]
    exact haff.charge.symm
  have hhosts' : t'.hosts = (t.hosts.charge p h.id res).withNeed none := by
    rw [hhosts, hcharge]
    rfl
  obtain ⟨hfree, hcan, -⟩ := (HostSet.admits_iff _ h p).mp hadm
  change 0 < t.hosts.free h.id at hfree
  change hostCanRun h p t.hosts.now = true at hcan
  have hcov := covered_after_charge haff (hb.tight h.id)
  refine ⟨?_, ?_, ?_, ?_, ?_, ?_, ?_⟩
  · rw [hhosts']
    exact ⟨hb.fleet.hosts, hb.fleet.now, hb.fleet.alloc⟩
  · rw [hhosts', hcreates, map_append, map_singleton, hact]
    exact Balanced.draw _ _ _ _ _ hb.slots
  · rw [hhosts', hcreates, map_append, map_singleton, hact, hres]
    exact Balanced.draw _ _ _ _ _ hb.room
  · rw [hhosts', hcreates, map_append, map_singleton, hact, hres]
    exact Balanced.draw _ _ _ _ _ hb.memory
  · intro id
    rw [hhosts']
    exact tight_charge p hb.tight
  · intro a ha
    rw [hcreates] at ha
    rcases mem_append.mp ha with ha | ha
    · exact hb.creates a ha
    rw [mem_singleton.mp ha]
    refine ⟨p, hp, h, hmem, hpool.symm, hact.symm, ?_⟩
    rw [hb.fleet.now] at hcan
    exact hcan
  · -- the host just charged is covered by the fit; every other host is as it was
    intro a ha
    rw [hhosts']
    change 0 ≤ (t.hosts.charge p h.id res).free a.hostID ∧
      ((t.hosts.alloc a.hostID).memoryKnown = true →
        0 ≤ (t.hosts.charge p h.id res).promisedMemory a.hostID) ∧
      ((t.hosts.alloc a.hostID).diskKnown = true →
        0 ≤ ((t.hosts.charge p h.id res).left a.hostID).diskMB) ∧
      ((t.hosts.alloc a.hostID).cpusKnown = true →
        -cpuEpsilon ≤ ((t.hosts.charge p h.id res).left a.hostID).cpus)
    by_cases hk : a.hostID = h.id
    · obtain ⟨hslots, hleft, hpromised⟩ := charge_self p
      rw [hk, hslots, hleft, hpromised]
      exact ⟨by omega, hcov⟩
    obtain ⟨hslots, hleft, hpromised⟩ := charge_of_ne p hk
    rw [hslots, hleft, hpromised]
    rw [hcreates] at ha
    rcases mem_append.mp ha with ha | ha
    · exact hb.covered a ha
    · exact absurd (mem_singleton.mp ha ▸ hact) hk

theorem booked_of_same {s : Snapshot} (t : Tick) {t' : Tick} (hh : t'.hosts = t.hosts)
    (hc : t'.creates = t.creates) (hb : Booked s t) : Booked s t' := by
  refine ⟨?_, ?_, ?_, ?_, ?_, ?_, ?_⟩
  · exact hh ▸ hb.fleet
  · exact hh ▸ hc ▸ hb.slots
  · exact hh ▸ hc ▸ hb.room
  · exact hh ▸ hc ▸ hb.memory
  · exact hh ▸ hb.tight
  · exact hc ▸ hb.creates
  · exact hh ▸ hc ▸ hb.covered

variable (s : Snapshot) (h : Host)

theorem booked_step (pass : Pass) (t t' : Tick) (hb : Booked s t)
    (hstep : Step pass s.runners (demandOf s).demand (sortedPools s.pools) t t') : Booked s t' := by
  cases hstep with
  | grant p hp hw hbud =>
    have hmem : p ∈ s.pools := mem_sortStableFunc.mp hp
    rcases grant_cases pass p (runnersOf s.runners p.id) ((demandOf s).demand p.id) t with
      ⟨-, hg⟩ | ⟨-, hr⟩
    · exact booked_granted hmem hb hg
    · exact booked_of_same t hr.hosts hr.creates hb
  | note p hp current why => exact booked_of_same t rfl rfl hb

theorem booked_finalTick : Booked s (finalTick s) :=
  Reach.keeps (Booked s) (booked_step s _) _ _ (finalTick_reach s) (booked_startingTick s)

theorem totalsByHost_foldl_reserved (l : List (Pool × Runner)) (t : HostTotals) :
    (l.foldl (fun t pr => t.add pr.1 h pr.2) t).reserved =
      t.reserved + (l.map fun pr => runnerCharge pr.1 h pr.2).sum := by
  induction l generalizing t with
  | nil => exact (add_zero t.reserved).symm
  | cons pr rest ih =>
    rw [foldl_cons, ih, map_cons, sum_cons, ← add_assoc]
    rfl

theorem reserved_eq_sum (pools : List Pool) (runners : RunnerTable) : reserved h pools runners =
      ((chargedOn h pools runners).map fun pr => runnerCharge pr.1 h pr.2).sum := by
  rw [reserved, totalsByHost, totalsByHost_foldl_reserved]
  exact zero_add _

theorem chargedOn_perm {h : Host} {pools pools' : List Pool} {runners : RunnerTable}
    (hp : pools.Perm pools') : (chargedOn h pools runners).Perm (chargedOn h pools' runners) :=
  hp.flatMap_right _

theorem reserved_perm {h : Host} {pools pools' : List Pool} {runners : RunnerTable}
    (hp : pools.Perm pools') : reserved h pools runners = reserved h pools' runners := by
  rw [reserved_eq_sum, reserved_eq_sum]
  exact ((chargedOn_perm hp).map _).sum_eq

theorem reserved_sortedPools :
    reserved h (sortedPools s.pools) s.runners = reserved h s.pools s.runners :=
  reserved_perm sortStableFunc_perm

section
variable (s : Snapshot) (h : Host) (hh : h ∈ s.hosts)

def openingTotals : HostTotals := totalsByHost (sortedPools s.pools) s.runners h

include hh

variable {s h}

theorem startingHosts_entry {α : Type} (value : Host → α) (absent : α) :
    byHost (sortedHosts s.hosts) value absent h.id = value h :=
  byHost_of_mem _ value absent h startingHosts_ids_nodup (mem_startingHosts.mpr hh)

theorem startingHosts_free : (startingHosts s).free h.id = h.free :=
  startingHosts_entry hh Host.free 0

theorem startingHosts_alloc : (startingHosts s).alloc h.id = h.allocatable :=
  startingHosts_entry hh Host.allocatable {}

theorem startingHosts_left :
    (startingHosts s).left h.id = initialLeft h (openingTotals s h) s.now :=
  startingHosts_entry hh (fun h => initialLeft h (openingTotals s h) s.now) {}

theorem startingHosts_promisedMemory : (startingHosts s).promisedMemory h.id =
      h.allocatable.memoryMB - (reserved h s.pools s.runners).memoryMB := by
  rw [← reserved_sortedPools]
  exact startingHosts_entry hh (fun h => (unreserved h (openingTotals s h)).memoryMB) 0

theorem startingHosts_cpus : ((startingHosts s).left h.id).cpus =
      h.allocatable.cpus - (reserved h s.pools s.runners).cpus := by
  rw [startingHosts_left hh, ← reserved_sortedPools]
  unfold initialLeft
  split
  · split <;> rfl
  · rfl

theorem startingHosts_disk (hk : h.allocatable.diskKnown = true) :
    ((startingHosts s).left h.id).diskMB =
      h.allocatable.diskMB - (reserved h s.pools s.runners).diskMB := by
  have hu : (unreserved h (openingTotals s h)).diskMB =
      h.allocatable.diskMB - (reserved h s.pools s.runners).diskMB := by
    rw [← reserved_sortedPools]
    exact if_pos hk
  rw [startingHosts_left hh, ← hu]
  unfold initialLeft
  split
  · split <;> rfl
  · rfl

end

theorem host_free_nonneg {h : Host} : 0 ≤ h.free := by
  unfold Host.free
  split
  · exact le_rfl
  · exact le_max_right _ _

variable (s : Snapshot) (h : Host)

def createsOn : List Action :=
  s.decide.actions.filter fun a => a.kind = .create ∧ a.hostID = h.id

theorem createsOn_eq : createsOn s h = (finalTick s).creates.filter fun a => a.hostID = h.id :=
  filter_decide_creates s fun a => a.hostID = h.id

def promisedAfter : Reservation :=
  reserved h s.pools s.runners + ((createsOn s h).map (createCharge s)).sum

theorem sum_memoryMB (l : List Reservation) :
    l.sum.memoryMB = (l.map Reservation.memoryMB).sum := by
  induction l with
  | nil => rfl
  | cons r rest ih => rw [sum_cons, Reservation.add_memoryMB, ih, map_cons, sum_cons]

theorem room_closing : (finalTick s).hosts.left h.id + ((createsOn s h).map (createCharge s)).sum =
      (startingHosts s).left h.id := by
  have hb := (booked_finalTick s).room h.id
  rwa [booked_map, ← createsOn_eq] at hb

section
variable {s : Snapshot} {h : Host} (hh : h ∈ s.hosts)
include hh

theorem slots_closing : (finalTick s).hosts.free h.id + (createsOn s h).length = h.free := by
  have hb := (booked_finalTick s).slots h.id
  rw [booked_map, startingHosts_free hh, ← createsOn_eq, map_const', sum_replicate] at hb
  simpa using hb

theorem memory_closing : (finalTick s).hosts.promisedMemory h.id + (promisedAfter s h).memoryMB =
      h.allocatable.memoryMB := by
  have hb := (booked_finalTick s).memory h.id
  rw [booked_map, ← createsOn_eq, startingHosts_promisedMemory hh] at hb
  have hsum : (((createsOn s h).map (createCharge s)).sum).memoryMB =
      ((createsOn s h).map fun a => (createCharge s a).memoryMB).sum := by
    rw [sum_memoryMB, map_map]
    rfl
  rw [promisedAfter, Reservation.add_memoryMB, hsum]
  omega

theorem cpus_closing :
    ((finalTick s).hosts.left h.id).cpus + (promisedAfter s h).cpus = h.allocatable.cpus := by
  have hb := congrArg Reservation.cpus (room_closing s h)
  rw [startingHosts_cpus hh, Reservation.add_cpus] at hb
  rw [promisedAfter, Reservation.add_cpus]
  linarith

theorem disk_closing (hk : h.allocatable.diskKnown = true) :
    ((finalTick s).hosts.left h.id).diskMB + (promisedAfter s h).diskMB = h.allocatable.diskMB := by
  have hb := congrArg Reservation.diskMB (room_closing s h)
  rw [startingHosts_disk hh hk, Reservation.add_diskMB] at hb
  rw [promisedAfter, Reservation.add_diskMB]
  omega

end

/-- No pass overbooks a host in slots or in any resource it measured. -/
theorem decide_never_overbooks (s : Snapshot) :
    (∀ a ∈ s.decide.actions, a.kind = .create → ∃ p ∈ s.pools, ∃ h ∈ s.hosts,
      p.id = a.poolID ∧ h.id = a.hostID ∧ hostCanRun h p s.now = true) ∧
    ∀ h ∈ s.hosts, ((createsOn s h).length : Int) ≤ h.free ∧ (createsOn s h ≠ [] →
        (h.allocatable.memoryKnown = true → (promisedAfter s h).memoryMB ≤ h.allocatable.memoryMB) ∧
        (h.allocatable.diskKnown = true → (promisedAfter s h).diskMB ≤ h.allocatable.diskMB) ∧
        (h.allocatable.cpusKnown = true →
          (promisedAfter s h).cpus ≤ h.allocatable.cpus + cpuEpsilon)) := by
  have hbooks := booked_finalTick s
  refine ⟨?_, ?_⟩
  · intro a ha hk
    exact hbooks.creates a ((mem_decide_create hk).mp ha)
  intro h hh
  by_cases hnone : createsOn s h = []
  · rw [hnone]
    exact ⟨host_free_nonneg, fun hne => absurd rfl hne⟩
  -- some create names the host, so its books are known not to be overdrawn
  obtain ⟨a, ha⟩ := exists_mem_of_ne_nil _ hnone
  rw [createsOn_eq, mem_filter, decide_eq_true_eq] at ha
  have hcov := hbooks.covered a ha.1
  have halloc : (finalTick s).hosts.alloc h.id = h.allocatable := by
    rw [hbooks.fleet.alloc, startingHosts_alloc hh]
  rw [ha.2, halloc] at hcov
  obtain ⟨hfree, hmem, hdisk, hcpu⟩ := hcov
  have hslots := slots_closing hh
  refine ⟨by omega, fun _ => ⟨?_, ?_, ?_⟩⟩
  · intro hk
    have hclose := memory_closing hh
    have hleft := hmem hk
    omega
  · intro hk
    have hclose := disk_closing hh hk
    have hleft := hdisk hk
    omega
  intro hk
  have hclose := cpus_closing hh
  have hleft := hcpu hk
  linarith

end Zoomies.Scheduler
